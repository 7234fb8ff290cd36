import Mathlib.Data.List.Sort
import TerminalCommander.Core.BucketRun

/-!
# Subscriptions

The predicate of a subscription, the side table of bucket sources and the resolution of the
in-scope buckets of a pull, after `daemon/src/subscriptions/model.rs`, `source.rs` and
`scope_snapshot` of `pull.rs`. A list of in-scope buckets has no repetition: it is cut out of the
keys of a map. Bucket ids are compared as the source compares their printed form.
-/

namespace TerminalCommander

open List

def MAX_BUCKETS_PER_SUBSCRIPTION : Nat := 200

inductive IpcErrorCode where
  | bucketNotFound | internal | unknownSubscription
  deriving DecidableEq, Repr

structure IpcError where
  code : IpcErrorCode
  cause : Option BucketError
  deriving DecidableEq, Repr

def mapBucket : BucketError → IpcError
  | .notFound id => ⟨.bucketNotFound, some (.notFound id)⟩
  | other => ⟨.internal, some other⟩

structure BucketSource where
  jobId : Option JobId
  probeId : Option ProbeId
  tag : Option Text
  deriving DecidableEq, Repr

structure BucketSourceTable where
  map : BucketId → Option BucketSource
  dirty : Nat

namespace BucketSourceTable

def insert (t : BucketSourceTable) (id : BucketId) (source : BucketSource) : BucketSourceTable :=
  { t with map := Function.update t.map id (some source) }

def bump (t : BucketSourceTable) : BucketSourceTable := { t with dirty := wrapAdd t.dirty 1 }

def get (t : BucketSourceTable) (id : BucketId) : Option BucketSource := t.map id

def dirtyEpoch (t : BucketSourceTable) : Nat := t.dirty

end BucketSourceTable

inductive SourceSel where
  | all
  | jobs (ids : List JobId)
  | buckets (ids : List BucketId)
  | probes (ids : List ProbeId)
  deriving DecidableEq, Repr

structure Predicate where
  severityMin : Option Severity
  kind : Option (List Text)
  sources : SourceSel
  tag : Option Text
  deriving DecidableEq, Repr

def Predicate.bucketInScope (p : Predicate) (id : BucketId) (src : BucketSource) : Bool :=
  if p.tag.isSome && decide (src.tag ≠ p.tag) then false
  else match p.sources with
    | .all => true
    | .buckets ids => decide (id ∈ ids)
    | .jobs jobs => src.jobId.any fun j => decide (j ∈ jobs)
    | .probes probes => src.probeId.any fun pr => decide (pr ∈ probes)

def Predicate.accepts (p : Predicate) (e : EventCore) : Bool :=
  (p.severityMin.all fun min => decide (min.rank ≤ e.severity.rank)) &&
    (p.kind.all fun kinds => decide (e.kind ∈ kinds))

abbrev Offsets := BucketId → Option Nat

def Offsets.pos (offsets : Offsets) (id : BucketId) : Nat := (offsets id).getD 0

structure CachedScope where
  dirtyEpoch : Nat
  buckets : List BucketId
  truncated : Bool
  nodup : buckets.Nodup

structure Subscription where
  predicate : Predicate
  offsets : Offsets
  rrStart : Nat
  cachedScope : Option CachedScope

structure ScopedBucket where
  bucketId : BucketId
  source : BucketSource
  deriving DecidableEq, Repr

structure Scope where
  buckets : List ScopedBucket
  offsets : Offsets
  rrStart : Nat
  truncated : Bool
  nodup : (buckets.map ScopedBucket.bucketId).Nodup

/-! ## Resolving the scope -/

def resolveIds (sources : BucketSourceTable) (ids : List BucketId) : List ScopedBucket :=
  ids.filterMap fun id => (sources.get id).map fun source => ⟨id, source⟩

theorem resolveIds_sublist (sources : BucketSourceTable) (ids : List BucketId) :
    ((resolveIds sources ids).map ScopedBucket.bucketId).Sublist ids := by
  induction ids with
  | nil => exact Sublist.refl _
  | cons id ids ih =>
    unfold resolveIds at ih ⊢
    rcases hs : sources.get id with _ | source
    · rw [filterMap_cons_none (by rw [hs]; rfl)]
      exact ih.cons id
    · rw [filterMap_cons_some (by rw [hs]; rfl)]
      exact ih.cons_cons id

def scanScope (predicate : Predicate) (found : List ScopedBucket) : List ScopedBucket × Bool :=
  let inScope := found.filter fun b => predicate.bucketInScope b.bucketId b.source
  (inScope.take MAX_BUCKETS_PER_SUBSCRIPTION,
    decide (MAX_BUCKETS_PER_SUBSCRIPTION < inScope.length))

def sortScope (buckets : List ScopedBucket) : List ScopedBucket :=
  buckets.insertionSort fun a b => a.bucketId ≤ b.bucketId

theorem slowScope_nodup (sources : BucketSourceTable) (predicate : Predicate)
    {order : List BucketId} (h : order.Nodup) :
    ((sortScope (scanScope predicate (resolveIds sources order)).1).map
      ScopedBucket.bucketId).Nodup := by
  have hperm := (perm_insertionSort (fun a b : ScopedBucket => a.bucketId ≤ b.bucketId)
    (scanScope predicate (resolveIds sources order)).1).map ScopedBucket.bucketId
  refine hperm.nodup_iff.mpr (h.sublist ?_)
  refine Sublist.trans ?_ (resolveIds_sublist sources order)
  exact ((take_sublist _ _).trans filter_sublist).map _

def scopeSnapshot (sources : BucketSourceTable) (sub : Subscription) (order : List BucketId)
    (horder : order.Nodup) : Scope × Subscription :=
  let epoch := sources.dirtyEpoch
  let rebuild : Scope × Subscription :=
    let scan := scanScope sub.predicate (resolveIds sources order)
    let buckets := sortScope scan.1
    have hnodup := slowScope_nodup sources sub.predicate horder
    (⟨buckets, sub.offsets, sub.rrStart, scan.2, hnodup⟩,
      { sub with cachedScope := some ⟨epoch, buckets.map ScopedBucket.bucketId, scan.2, hnodup⟩ })
  match sub.cachedScope with
  | none => rebuild
  | some c =>
    if c.dirtyEpoch = epoch then
      (⟨resolveIds sources c.buckets, sub.offsets, sub.rrStart, c.truncated,
        c.nodup.sublist (resolveIds_sublist sources c.buckets)⟩, sub)
    else rebuild

theorem scopeSnapshot_offsets (sources : BucketSourceTable) (sub : Subscription)
    (order : List BucketId) (horder : order.Nodup) :
    (scopeSnapshot sources sub order horder).1.offsets = sub.offsets ∧
      (scopeSnapshot sources sub order horder).2.offsets = sub.offsets ∧
      (scopeSnapshot sources sub order horder).2.predicate = sub.predicate := by
  unfold scopeSnapshot
  dsimp only
  split
  · exact ⟨rfl, rfl, rfl⟩
  · split_ifs
    · exact ⟨rfl, rfl, rfl⟩
    · exact ⟨rfl, rfl, rfl⟩

def Scope.retain (scope : Scope) (m : BucketManager) : Scope :=
  { scope with
    buckets := scope.buckets.filter fun b => (m.inner b.bucketId).isSome
    nodup := scope.nodup.sublist (List.filter_sublist.map _) }

end TerminalCommander
