import TerminalCommander.Lib.Table
import TerminalCommander.Lib.Transition
import TerminalCommander.Daemon.Subscriptions.DrainSpec

/-!
# Pulls and seeks on a subscription

`pull` and `commit` of `daemon/src/subscriptions/pull.rs` and `handle_subscription_seek`, as a
transition system. A pull copies the offsets, drains, and writes its copy back: at once when it
delivers, or after the wait when its time is up. Any number of pulls and seeks may be under way, and
other tasks call the bucket manager at any time. `log` and `hist`, and what a pull remembers of
them, are not part of the source.
-/

namespace TerminalCommander

def DEFAULT_PULL_MAX : Nat := 50
def MAX_PULL_MAX : Nat := 50

def pullCap (max : Nat) : Nat := if max = 0 then DEFAULT_PULL_MAX else min max MAX_PULL_MAX

def Subscription.commit (sub : Subscription) (offsets : Offsets) (nextRr : Nat) : Subscription :=
  { sub with offsets := fun id => (offsets id).or (sub.offsets id), rrStart := nextRr }

theorem Subscription.commit_pos {sub : Subscription} {offsets : Offsets} {id : BucketId}
    (h : offsets id = none → sub.offsets id = none) (nextRr : Nat) :
    (sub.commit offsets nextRr).offsets.pos id = offsets.pos id := by
  unfold commit Offsets.pos
  dsimp only
  rcases hid : offsets id with _ | n
  · rw [h hid]
    rfl
  · rfl

structure PullOutcome where
  events : List SubEvent
  lagged : Bool
  truncated : Bool

def scanDrain (m : BucketManager) (predicate : Predicate) (scope : Scope) (max : Nat)
    (clock : Nat → Time) : Except IpcError DrainResult :=
  drainFair m scope scope.offsets predicate (pullCap max) clock

def subToAll : Subscription := ⟨⟨none, none, .all, none⟩, fun _ => none, 0, none⟩

def sourceOfOne : BucketSourceTable :=
  ⟨fun id => if id = 1 then some ⟨none, none, none⟩ else none, 0⟩

/-! ## Seeks -/

structure SubscriptionSeekResponse where
  clampedSeq : Nat
  lagged : Bool
  deriving DecidableEq, Repr

def seekClamp (st : BucketState) (seq : Nat) : SubscriptionSeekResponse :=
  let floor := st.headSeq - 1
  ⟨max floor (min seq st.tailSeq), decide (seq < floor)⟩

def Subscription.routes (sub : Subscription) (id : BucketId) (source : Option BucketSource) :
    Bool :=
  (source.any fun src => sub.predicate.bucketInScope id src) || (sub.offsets id).isSome

def Subscription.seek (sub : Subscription) (id : BucketId) (pos : Nat) : Subscription :=
  { sub with offsets := Function.update sub.offsets id (some pos) }

/-! ## The system -/

namespace Pulls

inductive Write where
  | commit (pull : Nat) (before written : Offsets) (events : List SubEvent)
      (scan : BucketManager) (begun : Option BucketManager)
  | seek (bucket : BucketId) (pos : Nat)

inductive PullPc where
  | start
  | snapped (scope : Scope) (mark : Nat)
  | drained (scope : Scope) (mark : Nat) (result : DrainResult) (scan : BucketManager)
  | returned (outcome : Except IpcError PullOutcome)

structure PullTask where
  max : Nat
  pc : PullPc
  begun : Option BucketManager

inductive SeekPc where
  | read (bucket : BucketId) (resp : SubscriptionSeekResponse) (source : Option BucketSource)
  | returned (outcome : Except IpcError SubscriptionSeekResponse)

structure Sys where
  buckets : BucketManager
  sources : BucketSourceTable
  sub : Subscription
  pulls : List PullTask
  seeks : List SeekPc
  hist : BucketId → List EventCore
  log : List Write

inductive Action where
  | bucketCall (c : BucketCall)
  | insertSource (id : BucketId) (source : BucketSource)
  | bumpSources
  | pull (max : Nat)
  | snapshot (i : Nat) (order : List BucketId)
  | drain (i : Nat) (clock : List Time) (rest : Time)
  | wake (i : Nat)
  | commit (i : Nat)
  | seekRead (bucket : BucketId) (seq : Nat)
  | seekWrite (k : Nat)

def clockOf (clock : List Time) (rest : Time) (k : Nat) : Time := clock.getD k rest

def Sys.setPc (s : Sys) (i : Nat) (t : PullTask) (pc : PullPc) : Sys :=
  { s with pulls := s.pulls.set i { t with pc := pc } }

theorem Sys.setPc_cases {s : Sys} {i j : Nat} {t t' : PullTask} {pc : PullPc}
    (h : (s.setPc i t pc).pulls[j]? = some t') :
    (j = i ∧ t' = { t with pc := pc }) ∨ (j ≠ i ∧ s.pulls[j]? = some t') := by
  unfold setPc at h
  exact Table.set_cases h

def Sys.call (s : Sys) (c : BucketCall) : Sys :=
  { s with
    buckets := s.buckets.call c
    hist := fun id => s.hist id ++ s.buckets.accepts c id
    pulls := s.pulls.map fun t => { t with begun := none } }

def Sys.drain (s : Sys) (i : Nat) (t : PullTask) (scope : Scope) (mark : Nat)
    (clock : Nat → Time) : Sys :=
  let scope := scope.retain s.buckets
  if scope.buckets.length = 0 then
    s.setPc i t (.returned (.ok ⟨[], false, scope.truncated⟩))
  else
    match scanDrain s.buckets s.sub.predicate scope t.max clock with
    | .error e => s.setPc i t (.returned (.error e))
    | .ok r => { s.setPc i t (.drained scope mark r s.buckets) with buckets := r.buckets }

def Sys.commit (s : Sys) (i : Nat) (t : PullTask) (scope : Scope) (r : DrainResult)
    (scan : BucketManager) : Sys :=
  let nextRr := if r.drained.events.length = 0 then scope.rrStart else r.drained.nextRr
  { s.setPc i t (.returned (.ok ⟨r.drained.events, r.drained.lagged, scope.truncated⟩)) with
    sub := s.sub.commit r.offsets nextRr
    log := s.log ++ [.commit i s.sub.offsets r.offsets r.drained.events scan t.begun] }

def Sys.seekRead (s : Sys) (bucket : BucketId) (seq : Nat) : SeekPc :=
  match s.buckets.state bucket with
  | .error e => .returned (.error (mapBucket e))
  | .ok st => .read bucket (seekClamp st seq) (s.sources.get bucket)

def Sys.seekWrite (s : Sys) (k : Nat) (bucket : BucketId) (resp : SubscriptionSeekResponse)
    (source : Option BucketSource) : Sys :=
  let s := { s with seeks := s.seeks.set k (.returned (.ok resp)) }
  if s.sub.routes bucket source then
    { s with
      sub := s.sub.seek bucket resp.clampedSeq
      log := s.log ++ [.seek bucket resp.clampedSeq] }
  else s

def step (s : Sys) : Action → Option Sys
  | .bucketCall c => some (s.call c)
  | .insertSource id source => some { s with sources := s.sources.insert id source }
  | .bumpSources => some { s with sources := s.sources.bump }
  | .pull max => some { s with pulls := s.pulls ++ [⟨max, .start, some s.buckets⟩] }
  | .snapshot i order =>
    match s.pulls[i]? with
    | some ⟨max, .start, begun⟩ =>
      if h : order.Nodup ∧ order.Perm s.buckets.keys then
        let snap := scopeSnapshot s.sources s.sub order h.1
        some { s.setPc i ⟨max, .start, begun⟩ (.snapped snap.1 s.log.length) with sub := snap.2 }
      else none
    | _ => none
  | .drain i clock rest =>
    match s.pulls[i]? with
    | some ⟨max, .snapped scope mark, begun⟩ =>
      some (s.drain i ⟨max, .snapped scope mark, begun⟩ scope mark (clockOf clock rest))
    | _ => none
  | .wake i =>
    match s.pulls[i]? with
    | some ⟨max, .drained scope mark r scan, begun⟩ =>
      if r.drained.events.length = 0 then
        some (s.setPc i ⟨max, .drained scope mark r scan, begun⟩ .start)
      else none
    | _ => none
  | .commit i =>
    match s.pulls[i]? with
    | some ⟨max, .drained scope mark r scan, begun⟩ =>
      some (s.commit i ⟨max, .drained scope mark r scan, begun⟩ scope r scan)
    | _ => none
  | .seekRead bucket seq => some { s with seeks := s.seeks ++ [s.seekRead bucket seq] }
  | .seekWrite k =>
    match s.seeks[k]? with
    | some (.read bucket resp source) => some (s.seekWrite k bucket resp source)
    | _ => none

inductive Step (s : Sys) : Action → Sys → Prop
  | bucketCall (c : BucketCall) : Step s (.bucketCall c) (s.call c)
  | insertSource (id : BucketId) (source : BucketSource) :
      Step s (.insertSource id source) { s with sources := s.sources.insert id source }
  | bumpSources : Step s .bumpSources { s with sources := s.sources.bump }
  | pull (max : Nat) : Step s (.pull max)
      { s with pulls := s.pulls ++ [⟨max, .start, some s.buckets⟩] }
  | snapshot (i : Nat) (order : List BucketId) (h : order.Nodup) (t : PullTask)
      (ht : s.pulls[i]? = some t) (hpc : t.pc = .start) :
      Step s (.snapshot i order)
        { s.setPc i t (.snapped (scopeSnapshot s.sources s.sub order h).1 s.log.length) with
          sub := (scopeSnapshot s.sources s.sub order h).2 }
  | sleep (i : Nat) (clock : List Time) (rest : Time) (t : PullTask) (scope : Scope) (mark : Nat)
      (outcome : Except IpcError PullOutcome)
      (ht : s.pulls[i]? = some t) (hpc : t.pc = .snapped scope mark) :
      Step s (.drain i clock rest) (s.setPc i t (.returned outcome))
  | drain (i : Nat) (clock : List Time) (rest : Time) (t : PullTask) (scope : Scope) (mark : Nat)
      (r : DrainResult) (ht : s.pulls[i]? = some t) (hpc : t.pc = .snapped scope mark)
      (hr : scanDrain s.buckets s.sub.predicate (scope.retain s.buckets) t.max
        (clockOf clock rest) = .ok r) :
      Step s (.drain i clock rest)
        { s.setPc i t (.drained (scope.retain s.buckets) mark r s.buckets) with
          buckets := r.buckets }
  | wake (i : Nat) (t : PullTask) (scope : Scope) (mark : Nat) (r : DrainResult)
      (scan : BucketManager) (ht : s.pulls[i]? = some t) (hpc : t.pc = .drained scope mark r scan) :
      Step s (.wake i) (s.setPc i t .start)
  | commit (i : Nat) (t : PullTask) (scope : Scope) (mark : Nat) (r : DrainResult)
      (scan : BucketManager) (ht : s.pulls[i]? = some t) (hpc : t.pc = .drained scope mark r scan) :
      Step s (.commit i) (s.commit i t scope r scan)
  | seekRead (bucket : BucketId) (seq : Nat) :
      Step s (.seekRead bucket seq) { s with seeks := s.seeks ++ [s.seekRead bucket seq] }
  | seekWrite (k : Nat) (bucket : BucketId) (resp : SubscriptionSeekResponse)
      (source : Option BucketSource) (hk : s.seeks[k]? = some (.read bucket resp source)) :
      Step s (.seekWrite k) (s.seekWrite k bucket resp source)

theorem Step.of_step {s s' : Sys} {a : Action} (h : step s a = some s') : Step s a s' := by
  cases a
  case drain i clock rest =>
    simp only [step] at h
    split at h
    · next max scope mark begun ht =>
      cases h
      unfold Sys.drain
      dsimp only
      split_ifs with hzero
      · exact .sleep i clock rest _ scope mark _ ht rfl
      · split
        · exact .sleep i clock rest _ scope mark _ ht rfl
        · next r hr => exact .drain i clock rest _ scope mark r ht rfl hr
    · cases h
  -- every other branch of `step` is a constructor, with the conditions of the branch
  all_goals
    simp only [step] at h
    repeat' split at h
    all_goals
      cases h <;> constructor <;> first | assumption | rfl

def start (cs : List BucketCall) (sources : BucketSourceTable) (sub : Subscription) : Sys :=
  ⟨BucketManager.new.calls cs, sources, sub, [], [], BucketManager.new.history cs, []⟩

def startOne (cs : List BucketCall) : Sys := start cs sourceOfOne subToAll

def createOne : BucketCall := ⟨1, .createBucket ⟨10, 3600⟩ 0⟩

def arriveOne : BucketCall := ⟨1, .append (.bare 1 0 "note".toList)⟩

end Pulls

end TerminalCommander
