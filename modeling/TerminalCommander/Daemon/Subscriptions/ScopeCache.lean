import TerminalCommander.Lib.Table
import TerminalCommander.Lib.Transition
import TerminalCommander.Daemon.Subscriptions.Model

/-!
# The cached scope

`scope_snapshot` and `BucketSourceTable::record` as they interleave: a record writes the entry and
then bumps the epoch; a snapshot reads the epoch and then looks up one source after the other, of
the cached ids if the cache is of this epoch, else of all bucket ids. A bucket is recorded once. A
map has at most `isize::MAX` bytes, so an insertion beyond does not return. `SnapTask.observed` is
not part of the source.
-/

namespace TerminalCommander

open ScopedBucket

def MAX_MAP_ENTRIES : Nat := 9223372036854775807

structure Resolving where
  todo : List BucketId
  found : List ScopedBucket
  nodup : (found.map ScopedBucket.bucketId ++ todo).Nodup

namespace Resolving

def start (ids : List BucketId) (h : ids.Nodup) : Resolving := ⟨ids, [], h⟩

def skip (w : Resolving) : Resolving :=
  ⟨w.todo.tail, w.found, w.nodup.sublist ((List.Sublist.refl _).append (List.tail_sublist _))⟩

theorem take_nodup (w : Resolving) (source : BucketSource) :
    ((w.found ++ w.todo.head?.toList.map fun id => (⟨id, source⟩ : ScopedBucket)).map
      bucketId ++ w.todo.tail).Nodup := by
  have hids : (w.found ++ w.todo.head?.toList.map fun id => (⟨id, source⟩ : ScopedBucket)).map
      bucketId ++ w.todo.tail = w.found.map bucketId ++ w.todo := by
    cases w.todo <;> simp
  rw [hids]
  exact w.nodup

def take (w : Resolving) (source : BucketSource) : Resolving :=
  ⟨w.todo.tail, w.found ++ w.todo.head?.toList.map fun id => ⟨id, source⟩, w.take_nodup source⟩

variable {w : Resolving} {id : BucketId} {rest : List BucketId}

theorem found_nodup (w : Resolving) : (w.found.map bucketId).Nodup :=
  w.nodup.sublist (List.sublist_append_left _ _)

theorem sorted_nodup (w : Resolving) : ((sortScope w.found).map bucketId).Nodup :=
  ((List.perm_insertionSort _ w.found).map bucketId).nodup_iff.mpr w.found_nodup

end Resolving

namespace ScopeCache

/-! ## The system -/

inductive RecordPc where
  | insert
  | bump
  /-- The call has returned; its bump has made the epoch this one. -/
  | returned (epoch : Nat)
  deriving DecidableEq, Repr

structure RecordTask where
  id : BucketId
  source : BucketSource
  pc : RecordPc
  deriving DecidableEq, Repr

inductive SnapPc where
  | start
  | copied (sub : Subscription)
  | fast (sub : Subscription) (c : CachedScope) (w : Resolving)
  | list (sub : Subscription) (epoch : Nat)
  | scan (sub : Subscription) (epoch : Nat) (w : Resolving)
  | store (sub : Subscription) (epoch : Nat) (w : Resolving) (truncated : Bool)
  | returned (result : Except IpcError Scope)

structure SnapTask where
  pc : SnapPc
  observed : Option Nat

structure Sys where
  buckets : BucketManager
  sources : BucketSourceTable
  records : List RecordTask
  sub : Option Subscription
  snaps : List SnapTask

inductive Action where
  | bucketCall (c : BucketCall)
  | create (id : BucketId) (config : BucketConfig) (now : Time) (source : BucketSource)
  | record (k : Nat)
  | snapshot
  | advance (i : Nat) (order : List BucketId)
  | close

def opened (predicate : Predicate) (offsets : Offsets) (rrStart : Nat) : Subscription :=
  ⟨predicate, offsets, rrStart, none⟩

def init (sub : Subscription) : Sys := ⟨.new, ⟨fun _ => none, 0⟩, [], some sub, []⟩

def Sys.entries (s : Sys) : Nat := s.records.countP fun r => decide (r.pc ≠ .insert)

def Sys.record (s : Sys) (k : Nat) (r : RecordTask) : Option Sys :=
  match r.pc with
  | .insert =>
    if s.entries < MAX_MAP_ENTRIES then
      some { s with
        sources := s.sources.insert r.id r.source
        records := s.records.set k { r with pc := .bump } }
    else none
  | .bump =>
    some { s with
      sources := s.sources.bump
      records := s.records.set k { r with pc := .returned s.sources.bump.dirtyEpoch } }
  | .returned _ => none

def Sys.cache (s : Sys) (c : CachedScope) : Sys :=
  { s with sub := s.sub.map fun sub => { sub with cachedScope := some c } }

def Sys.setSnap (s : Sys) (i : Nat) (observed : Option Nat) (pc : SnapPc) : Sys :=
  { s with snaps := s.snaps.set i ⟨pc, observed⟩ }

def resolve (sub : Subscription) (epoch : Nat) : SnapPc :=
  match sub.cachedScope with
  | some c => if c.dirtyEpoch = epoch then .fast sub c (.start c.buckets c.nodup) else .list sub epoch
  | none => .list sub epoch

def fastTurn (sources : BucketSourceTable) (sub : Subscription) (c : CachedScope) (w : Resolving) :
    SnapPc :=
  match w.todo with
  | [] => .returned (.ok ⟨w.found, sub.offsets, sub.rrStart, c.truncated, w.found_nodup⟩)
  | id :: _ =>
    match sources.get id with
    | some source => .fast sub c (w.take source)
    | none => .fast sub c w.skip

def scanTurn (sources : BucketSourceTable) (sub : Subscription) (epoch : Nat) (w : Resolving) :
    SnapPc :=
  match w.todo with
  | [] => .store sub epoch w false
  | id :: _ =>
    match sources.get id with
    | none => .scan sub epoch w.skip
    | some source =>
      if sub.predicate.bucketInScope id source then
        if MAX_BUCKETS_PER_SUBSCRIPTION ≤ w.found.length then .store sub epoch w true
        else .scan sub epoch (w.take source)
      else .scan sub epoch w.skip

def Sys.advance (s : Sys) (i : Nat) (t : SnapTask) (order : List BucketId) : Option Sys :=
  match t.pc with
  | .start =>
    match s.sub with
    | none => some (s.setSnap i t.observed (.returned (.error ⟨.unknownSubscription, none⟩)))
    | some sub => some (s.setSnap i t.observed (.copied sub))
  | .copied sub =>
    some (s.setSnap i (some s.sources.dirtyEpoch) (resolve sub s.sources.dirtyEpoch))
  | .fast sub c w => some (s.setSnap i t.observed (fastTurn s.sources sub c w))
  | .list sub epoch =>
    if h : order.Nodup ∧ order.Perm s.buckets.keys then
      some (s.setSnap i t.observed (.scan sub epoch (.start order h.1)))
    else none
  | .scan sub epoch w => some (s.setSnap i t.observed (scanTurn s.sources sub epoch w))
  | .store sub epoch w truncated =>
    let buckets := sortScope w.found
    let s := s.cache ⟨epoch, buckets.map ScopedBucket.bucketId, truncated, w.sorted_nodup⟩
    some (s.setSnap i t.observed
      (.returned (.ok ⟨buckets, sub.offsets, sub.rrStart, truncated, w.sorted_nodup⟩)))
  | .returned _ => none

def step (s : Sys) : Action → Option Sys
  | .bucketCall c => some { s with buckets := s.buckets.call c }
  | .create id config now source =>
    match s.buckets.createBucket id config now with
    | (.error _, _) => none
    | (.ok (), buckets) =>
      if id ∈ s.records.map RecordTask.id then none
      else some { s with buckets := buckets, records := s.records ++ [⟨id, source, .insert⟩] }
  | .record k =>
    match s.records[k]? with
    | some r => s.record k r
    | none => none
  | .snapshot => some { s with snaps := s.snaps ++ [⟨.start, none⟩] }
  | .advance i order =>
    match s.snaps[i]? with
    | some t => s.advance i t order
    | none => none
  | .close => some { s with sub := none }

end ScopeCache

end TerminalCommander
