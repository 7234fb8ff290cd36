import Mathlib.Data.Finset.Sort
import TerminalCommander.Daemon.Subscriptions.ExactlyOnce
import TerminalCommander.Daemon.Subscriptions.Idle

/-!
# No bucket starves

`no_bucket_starves`: while the pulls of a subscription come one after the other and have the same
`n` buckets in scope, `n` pulls that return events serve every bucket that has something to deliver
all along. The bucket that a drain visits first is served (`drainFair_first`), and each pull that
returns events moves the start by one.
-/

namespace TerminalCommander

open List Nat Transition

/-! ## The first visit of a drain -/

variable {i : Nat}

namespace DrainCtx

variable {ctx : DrainCtx}

theorem pushEvents_mono (b : ScopedBucket) : ∀ (evs : List SignalEvent) (s : DrainState),
    s.events ⊆ (ctx.pushEvents b evs s).events := by
  intro evs
  induction evs with
  | nil => exact fun _ _ h => h
  | cons ev rest ih =>
    intro s e he
    rw [pushEvents]
    split_ifs
    · exact he
    · exact ih _ (mem_append_left _ he)
    · exact ih s he

theorem visit_mono {s s' : DrainState} (h : ctx.visit i s = .ok s') : s.events ⊆ s'.events := by
  unfold visit at h
  split at h
  · cases h
    exact fun _ he => he
  · split at h
    · cases h
    · dsimp only at h
      by_cases hwant : min (ctx.shares.getD i 0) (ctx.cap - s.events.length) = 0
      · rw [if_pos hwant] at h
        cases h
        exact fun _ he => he
      · rw [if_neg hwant] at h
        unfold readBucket at h
        dsimp only at h
        split at h
        · cases h
        · cases h
          exact fun e he => pushEvents_mono _ _ _ he

theorem loop_first {rest : List Nat} {fuel : Nat} {s s1 s' : DrainState}
    (hcap : s.events.length < ctx.cap) (hstop : s.stopped = false)
    (hvisit : ctx.visit i { s with progressed := false } = .ok s1)
    (h : ctx.loop (i :: rest) (fuel + 1) s = .ok s') : s1.events ⊆ s'.events := by
  have hkeep : ∀ j s2 s3, j ∈ i :: rest → s1.events ⊆ s2.events → s2.stopped = false →
      s2.events.length < ctx.cap → ctx.visit j s2 = .ok s3 → s1.events ⊆ s3.events :=
    fun j s2 s3 _ hsub _ _ hv _ he => visit_mono hv (hsub he)
  rw [loop] at h
  obtain ⟨s2, hround, h⟩ := bind_eq_ok.mp h
  rw [round, if_neg (by rw [hstop]; exact Bool.false_ne_true), if_neg (not_le.2 hcap)] at hround
  obtain ⟨s3, hv, hround⟩ := bind_eq_ok.mp hround
  rw [hvisit] at hv
  cases hv
  have hsub : s1.events ⊆ s2.events :=
    round_invariant (I := fun s => s1.events ⊆ s.events) hkeep (fun _ hs => hs)
      (fun j hj => mem_cons_of_mem i hj) (fun _ he => he) hround
  split_ifs at h
  · cases h
    exact hsub
  · exact loop_invariant (I := fun s => s1.events ⊆ s.events) hkeep (fun _ hs => hs)
      (fun _ hs => hs) hsub h

end DrainCtx

theorem visitOrder_cons (rrStart : Nat) {n : Nat} (hn : 0 < n) :
    ∃ rest, visitOrder rrStart n = rrStart % n :: rest := by
  obtain ⟨k, rfl⟩ := exists_eq_succ_of_ne_zero (ne_of_gt hn)
  refine ⟨(List.range k).map fun i => (rrStart + (i + 1)) % (k + 1), ?_⟩
  rw [visitOrder, range_succ_eq_map, map_cons, List.map_map]
  rfl

variable {scope : Scope}

theorem drainFair_first {m : BucketManager} (hm : m.Ok) {offsets : Offsets}
    {predicate : Predicate} (hkind : (kindFilterFor predicate).2 = none) {cap : Nat}
    (hcap : 1 ≤ cap) {clock : Nat → Time} {r : DrainResult}
    (h : drainFair m scope offsets predicate cap clock = .ok r) {b : ScopedBucket}
    {inner : BucketInner} {e : SignalEvent}
    (hb : scope.buckets[scope.rrStart % scope.buckets.length]? = some b)
    (hinner : m.inner b.bucketId = some inner)
    (hun : Unread predicate inner (offsets.pos b.bucketId) e)
    (hfresh : Unexpired inner (clock 0) e) :
    ∃ ev ∈ r.drained.events, ev.origin.bucketId = b.bucketId := by
  have hlen : 0 < scope.buckets.length := by
    have := (List.getElem?_eq_some_iff.1 hb).1
    omega
  rcases drainFair_cases h with ⟨hz, -⟩ | ⟨-, -, shares, s, hshares, hs, rfl⟩
  · omega
  obtain ⟨rest, horder⟩ := visitOrder_cons scope.rrStart hlen
  have hprep := drainCtx_prepared hshares predicate clock
  have hv : VisitedAt m scope 0 (scope.rrStart % scope.buckets.length) b inner :=
    ⟨by rw [horder]; rfl, hb, hinner⟩
  obtain ⟨x, hx, hwithin⟩ := withinShare_of_native hm hkind cap hv hun hfresh
  have hmem := (mem_firstRead_iff hshares (hm _ _ hinner)).mpr ⟨hx, hwithin⟩
  have hfirst : (drainCtx scope predicate cap clock shares).visit
      (scope.rrStart % scope.buckets.length) (drainStart m offsets) = .ok _ :=
    DrainCtx.visit_eq hb hinner (hm _ _ hinner)
      (hprep.share _ (horder ▸ mem_cons_self)) hcap
  rw [horder] at hs
  have hsub := DrainCtx.loop_first (by exact hcap) (by rfl) hfirst hs
  refine ⟨b.subEvent x, hsub ?_, rfl⟩
  exact mem_append_right _ (List.mem_map_of_mem hmem)

/-! ## Scopes are sorted -/

def Ascending (ids : List BucketId) : Prop := ids.Pairwise (· ≤ ·)

def Scope.ids (scope : Scope) : List BucketId := scope.buckets.map ScopedBucket.bucketId

theorem sortScope_ascending (buckets : List ScopedBucket) :
    Ascending ((sortScope buckets).map ScopedBucket.bucketId) := by
  have htotal : Std.Total fun a b : ScopedBucket => a.bucketId ≤ b.bucketId :=
    ⟨fun a b => le_total a.bucketId b.bucketId⟩
  have htrans : IsTrans ScopedBucket fun a b => a.bucketId ≤ b.bucketId :=
    ⟨fun _ _ _ hab hbc => le_trans hab hbc⟩
  exact pairwise_map.2 (pairwise_insertionSort _ buckets)

theorem scopeSnapshot_ascending (sources : BucketSourceTable) {sub : Subscription}
    (h : ∀ c ∈ sub.cachedScope, Ascending c.buckets) (order : List BucketId)
    (horder : order.Nodup) : Ascending (scopeSnapshot sources sub order horder).1.ids ∧
      ∀ c ∈ (scopeSnapshot sources sub order horder).2.cachedScope, Ascending c.buckets := by
  have hslow := sortScope_ascending (scanScope sub.predicate (resolveIds sources order)).1
  unfold scopeSnapshot
  dsimp only
  split
  · refine ⟨hslow, fun c hc => ?_⟩
    cases hc
    exact hslow
  · next c hc =>
    split_ifs
    · exact ⟨(h c hc).sublist (resolveIds_sublist sources c.buckets), h⟩
    · refine ⟨hslow, fun c hc => ?_⟩
      cases hc
      exact hslow

theorem scopeSnapshot_rrStart (sources : BucketSourceTable) (sub : Subscription)
    (order : List BucketId) (horder : order.Nodup) :
    (scopeSnapshot sources sub order horder).1.rrStart = sub.rrStart ∧
      (scopeSnapshot sources sub order horder).2.rrStart = sub.rrStart := by
  unfold scopeSnapshot
  dsimp only
  split
  · exact ⟨rfl, rfl⟩
  · split_ifs
    · exact ⟨rfl, rfl⟩
    · exact ⟨rfl, rfl⟩

theorem Scope.ids_eq_sort (h : Ascending scope.ids) {ids : Finset BucketId}
    (hids : scope.ids.toFinset = ids) : scope.ids = ids.sort := by
  rw [← hids]
  exact ((toFinset_sort (· ≤ ·) scope.nodup).2 h).symm

namespace Pulls

def PullPc.snappedScope : PullPc → Option Scope
  | .snapped scope _ => some scope
  | _ => none

structure Sorted (p : Predicate) (s : Sys) : Prop where
  ok : s.buckets.Ok
  predicate : s.sub.predicate = p
  cached : ∀ c ∈ s.sub.cachedScope, Ascending c.buckets
  snapped : ∀ t ∈ s.pulls, ∀ scope ∈ t.pc.snappedScope, Ascending scope.ids

variable {p : Predicate}

theorem Sorted.setPc {s : Sys} (h : Sorted p s) (i : Nat) (t : PullTask)
    (pc : PullPc) (hpc : ∀ scope ∈ pc.snappedScope, Ascending scope.ids) :
    Sorted p (s.setPc i t pc) := by
  refine ⟨h.ok, h.predicate, h.cached, fun t' ht' => ?_⟩
  rcases mem_or_eq_of_mem_set ht' with ht' | rfl
  · exact h.snapped t' ht'
  · exact hpc

theorem Sorted.step {s s' : Sys} {a : Action} (h : Sorted p s)
    (hstep : step s a = some s') : Sorted p s' := by
  have hnone : ∀ scope ∈ (none : Option Scope), Ascending scope.ids := fun _ hs => by cases hs
  cases Step.of_step hstep with
  | bucketCall c =>
    refine ⟨h.ok.call c, h.predicate, h.cached, fun t ht => ?_⟩
    obtain ⟨t0, ht0, rfl⟩ := List.mem_map.1 ht
    exact h.snapped t0 ht0
  | pull max =>
    refine ⟨h.ok, h.predicate, h.cached, fun t ht => ?_⟩
    rcases mem_append.1 ht with ht | ht
    · exact h.snapped t ht
    · rw [mem_singleton.1 ht]
      exact hnone
  | snapshot i order horder t ht hpc =>
    obtain ⟨hscope, hcached⟩ := scopeSnapshot_ascending s.sources h.cached order horder
    have hset := h.setPc i t (.snapped (scopeSnapshot s.sources s.sub order horder).1 s.log.length)
      fun scope hs => Option.some.inj hs ▸ hscope
    exact ⟨hset.ok, (scopeSnapshot_offsets s.sources s.sub order horder).2.2.trans h.predicate,
      hcached, hset.snapped⟩
  | sleep i clock rest t scope mark outcome ht hpc => exact h.setPc i t _ hnone
  | drain i clock rest t scope mark r ht hpc hr =>
    have hset := h.setPc i t (.drained (scope.retain s.buckets) mark r s.buckets) hnone
    exact ⟨(drainFair_inv h.ok hr).ok, hset.predicate, hset.cached, hset.snapped⟩
  | wake i t scope mark r scan ht hpc => exact h.setPc i t _ hnone
  | commit i t scope mark r scan ht hpc =>
    have hset := h.setPc i t (.returned (.ok ⟨r.drained.events, r.drained.lagged,
      scope.truncated⟩)) hnone
    exact ⟨hset.ok, hset.predicate, hset.cached, hset.snapped⟩
  | seekWrite k bucket resp source hk =>
    unfold Sys.seekWrite
    dsimp only
    split_ifs
    · exact ⟨h.ok, h.predicate, h.cached, h.snapped⟩
    · exact ⟨h.ok, h.predicate, h.cached, h.snapped⟩
  | _ => exact ⟨h.ok, h.predicate, h.cached, h.snapped⟩

/-! ## One pull after the other -/

instance (b : BucketInner) (now : Time) (e : SignalEvent) : Decidable (Unexpired b now e) :=
  inferInstanceAs (Decidable (_ ≤ _))

def Holds (s : Sys) (id : BucketId) (now : Time) : Prop :=
  ∃ inner ∈ s.buckets.inner id, ∃ e ∈ inner.events, s.sub.offsets.pos id < e.seq ∧
    s.sub.predicate.accepts e.core = true ∧ Unexpired inner now e

instance (s : Sys) (id : BucketId) (now : Time) : Decidable (Holds s id now) :=
  inferInstanceAs (Decidable (∃ inner ∈ s.buckets.inner id, _))

def Between (s : Sys) : Prop := ∀ t ∈ s.pulls, t.pc.active = false

instance (s : Sys) : Decidable (Between s) :=
  inferInstanceAs (Decidable (∀ t ∈ s.pulls, _))

def Backlogged (ids : Finset BucketId) (id : BucketId) (s : Sys) : Action → Prop
  | .pull _ => Between s
  | .seekWrite _ => Between s
  | .drain i clock rest => ∀ t ∈ s.pulls[i]?, ∀ scope ∈ t.pc.snappedScope,
      (scope.retain s.buckets).ids.toFinset = ids ∧ Holds s id (clockOf clock rest 0)
  | _ => True

instance Backlogged.decidable (ids : Finset BucketId) (id : BucketId) (s : Sys) :
    ∀ a, Decidable (Backlogged ids id s a)
  | .pull _ => inferInstanceAs (Decidable (Between s))
  | .seekWrite _ => inferInstanceAs (Decidable (Between s))
  | .drain i clock rest => inferInstanceAs (Decidable (∀ t ∈ s.pulls[i]?, _))
  | .bucketCall _ => isTrue trivial
  | .insertSource .. => isTrue trivial
  | .bumpSources => isTrue trivial
  | .snapshot .. => isTrue trivial
  | .wake _ => isTrue trivial
  | .commit _ => isTrue trivial
  | .seekRead .. => isTrue trivial

def served (log : List Write) : Nat := log.countP fun w => !w.events.isEmpty

def PullPc.InTurn (ids : Finset BucketId) (id : BucketId) (s : Sys) : PullPc → Prop
  | .snapped scope _ => scope.rrStart = s.sub.rrStart ∧ scope.offsets = s.sub.offsets
  | .drained scope _ r _ => scope.rrStart = s.sub.rrStart ∧
      r.drained.nextRr = (scope.rrStart + 1) % ids.card ∧
      (ids.sort[scope.rrStart % ids.card]? = some id →
        ∃ ev ∈ r.drained.events, ev.origin.bucketId = id)
  | _ => True

structure Rotating (ids : Finset BucketId) (id : BucketId) (log₀ : List Write) (r₀ : Nat) (s : Sys) :
    Prop where
  single : ∀ (i j : Nat) (t t' : PullTask), s.pulls[i]? = some t → s.pulls[j]? = some t' →
    t.pc.active = true → t'.pc.active = true → i = j
  inTurn : ∀ t ∈ s.pulls, t.pc.InTurn ids id s
  log : ∃ since, s.log = log₀ ++ since ∧
    s.sub.rrStart % ids.card = (r₀ + served since) % ids.card ∧
    ∀ k < served since, ids.sort[(r₀ + k) % ids.card]? = some id →
      ∃ ev ∈ deliveries since, ev.origin.bucketId = id

variable {ids : Finset BucketId} {id : BucketId} {log₀ : List Write} {r₀ : Nat} {s s' : Sys}

variable {pc : PullPc}

theorem PullPc.InTurn.of_idle (h : pc.active = false) : pc.InTurn ids id s := by
  cases pc with
  | returned outcome => trivial
  | _ => cases h

theorem PullPc.InTurn.congr (h : pc.InTurn ids id s)
    (hrr : s'.sub.rrStart = s.sub.rrStart) (hoff : s'.sub.offsets = s.sub.offsets) :
    pc.InTurn ids id s' := by
  cases pc with
  | snapped scope mark => exact ⟨h.1.trans hrr.symm, h.2.trans hoff.symm⟩
  | drained scope mark r scan => exact ⟨h.1.trans hrr.symm, h.2⟩
  | _ => trivial

variable {t : PullTask}

section

variable (h : Rotating ids id log₀ r₀ s)

include h

theorem Rotating.others_idle {j : Nat} {t' : PullTask}
    (ht : s.pulls[i]? = some t) (hact : t.pc.active) (ht' : s.pulls[j]? = some t')
    (hne : j ≠ i) : t'.pc.active = false := by
  by_contra ha
  exact hne (h.single j i t' t ht' ht (Bool.not_eq_false _ ▸ ha) hact)

theorem Rotating.setPc (ht : s.pulls[i]? = some t) (hact : t.pc.active)
    (hpulls : s'.pulls = s.pulls.set i { t with pc := pc }) (hpc : pc.InTurn ids id s')
    (hlog : ∃ since, s'.log = log₀ ++ since ∧
      s'.sub.rrStart % ids.card = (r₀ + served since) % ids.card ∧
      ∀ k < served since, ids.sort[(r₀ + k) % ids.card]? = some id →
        ∃ ev ∈ deliveries since, ev.origin.bucketId = id) : Rotating ids id log₀ r₀ s' := by
  refine ⟨fun j k t1 t2 h1 h2 ha1 ha2 => ?_, fun t' ht' => ?_, hlog⟩
  · rw [hpulls] at h1 h2
    rcases Table.set_cases h1 with ⟨hj, -⟩ | ⟨-, h1⟩ <;>
      rcases Table.set_cases h2 with ⟨hk, -⟩ | ⟨-, h2⟩
    · exact hj.trans hk.symm
    · exact hj.trans (h.single i k t t2 ht h2 hact ha2)
    · exact (h.single j i t1 t h1 ht ha1 hact).trans hk.symm
    · exact h.single j k t1 t2 h1 h2 ha1 ha2
  · rw [hpulls] at ht'
    obtain ⟨j, hj⟩ := getElem?_of_mem ht'
    rcases Table.set_cases hj with ⟨-, rfl⟩ | ⟨hne, hold⟩
    · exact hpc
    · exact .of_idle (h.others_idle ht hact hold hne)

theorem Rotating.congr (hpulls : s'.pulls = s.pulls)
    (hrr : s'.sub.rrStart = s.sub.rrStart) (hlog : s'.log = s.log)
    (hoff : s'.sub.offsets = s.sub.offsets ∨ Between s) : Rotating ids id log₀ r₀ s' := by
  refine ⟨?_, fun t ht => ?_, ?_⟩
  · rw [hpulls]
    exact h.single
  · rw [hpulls] at ht
    rcases hoff with hoff | hbetween
    · exact (h.inTurn t ht).congr hrr hoff
    · exact .of_idle (hbetween t ht)
  · rw [hlog, hrr]
    exact h.log

end

variable {w : Write}

theorem served_concat_of_nil {log : List Write} (h : w.events = []) :
    served (log ++ [w]) = served log := by
  unfold served
  rw [countP_append, countP_singleton, h]
  rfl

theorem served_concat_of_ne {log : List Write} (h : w.events ≠ []) :
    served (log ++ [w]) = served log + 1 := by
  unfold served
  rw [countP_append, countP_singleton, if_pos (by simpa using h)]

theorem Rotating.log_concat (h : Rotating ids id log₀ r₀ s) (hw : w.events = [])
    {rr : Nat} (hrr : rr = s.sub.rrStart) : ∃ since, s.log ++ [w] = log₀ ++ since ∧
      rr % ids.card = (r₀ + served since) % ids.card ∧
      ∀ k < served since, ids.sort[(r₀ + k) % ids.card]? = some id →
        ∃ ev ∈ deliveries since, ev.origin.bucketId = id := by
  obtain ⟨since, hlog, hrot, hserved⟩ := h.log
  refine ⟨since ++ [w], by rw [hlog, append_assoc], ?_, ?_⟩
  · rw [served_concat_of_nil hw, hrr]
    exact hrot
  · rw [served_concat_of_nil hw, deliveries_concat, hw, append_nil]
    exact hserved

theorem Rotating.log_serve (h : Rotating ids id log₀ r₀ s) (hw : w.events ≠ [])
    {rr : Nat} (hrr : rr = (s.sub.rrStart + 1) % ids.card)
    (hturn : ids.sort[s.sub.rrStart % ids.card]? = some id →
      ∃ ev ∈ w.events, ev.origin.bucketId = id) : ∃ since, s.log ++ [w] = log₀ ++ since ∧
      rr % ids.card = (r₀ + served since) % ids.card ∧
      ∀ k < served since, ids.sort[(r₀ + k) % ids.card]? = some id →
        ∃ ev ∈ deliveries since, ev.origin.bucketId = id := by
  obtain ⟨since, hlog, hrot, hserved⟩ := h.log
  refine ⟨since ++ [w], by rw [hlog, append_assoc], ?_, fun k hk hid => ?_⟩
  · rw [served_concat_of_ne hw, hrr, Nat.mod_mod, Nat.add_mod, hrot, ← Nat.add_mod, Nat.add_assoc]
  · rw [served_concat_of_ne hw] at hk
    rw [deliveries_concat]
    rcases Nat.lt_succ_iff_lt_or_eq.1 hk with hk | rfl
    · obtain ⟨ev, hev, heq⟩ := hserved k hk hid
      exact ⟨ev, mem_append_left _ hev, heq⟩
    · rw [← hrot] at hid
      obtain ⟨ev, hev, heq⟩ := hturn hid
      exact ⟨ev, mem_append_right _ hev, heq⟩

theorem drained_inTurn (hsorted : Sorted p s) (hkind : (kindFilterFor p).2 = none)
    (hid : id ∈ ids) {mark : Nat} {clock : List Time} {rest : Time}
    {r : DrainResult} (ht : s.pulls[i]? = some t) (hpc : t.pc = .snapped scope mark)
    (hG : Backlogged ids id s (.drain i clock rest))
    (hr : scanDrain s.buckets s.sub.predicate (scope.retain s.buckets) t.max (clockOf clock rest) =
      .ok r) (hturn : scope.rrStart = s.sub.rrStart ∧ scope.offsets = s.sub.offsets) :
    (PullPc.drained (scope.retain s.buckets) mark r s.buckets).InTurn ids id s := by
  have hscope : scope ∈ t.pc.snappedScope := by
    rw [hpc]
    exact rfl
  obtain ⟨hids, inner, hinner, e, he, hpast, haccept, hfresh⟩ := hG t ht scope hscope
  have hasc : Ascending (scope.retain s.buckets).ids :=
    (hsorted.snapped t (mem_of_getElem? ht) scope hscope).sublist
      (filter_sublist.map _)
  have hsort := Scope.ids_eq_sort hasc hids
  have hlen : (scope.retain s.buckets).buckets.length = ids.card := by
    rw [← Finset.length_sort (· ≤ ·), ← hsort]
    exact (length_map _).symm
  have hcard : 0 < ids.card := Finset.card_pos.2 ⟨id, hid⟩
  have hcap : 1 ≤ pullCap t.max := by
    unfold pullCap DEFAULT_PULL_MAX MAX_PULL_MAX
    split_ifs
    · decide
    · omega
  refine ⟨hturn.1, ?_, fun hfirst => ?_⟩
  · rcases drainFair_cases hr with ⟨hz, -⟩ | ⟨-, -, shares, s1, -, -, rfl⟩
    · omega
    · exact congrArg ((scope.rrStart + 1) % ·) hlen
  · -- the bucket comes first
    rw [← hsort, Scope.ids, getElem?_map, Option.map_eq_some_iff] at hfirst
    obtain ⟨b, hb, rfl⟩ := hfirst
    have hun : Unread s.sub.predicate inner (scope.offsets.pos b.bucketId) e :=
      ⟨he, (hsorted.ok _ _ hinner).toSound.cursorOf_lt he (hturn.2 ▸ hpast), haccept⟩
    refine drainFair_first hsorted.ok (hsorted.predicate ▸ hkind) hcap hr ?_ hinner hun hfresh
    rw [hlen]
    exact hb

theorem Rotating.step (h : Rotating ids id log₀ r₀ s) (hsorted : Sorted p s)
    (hkind : (kindFilterFor p).2 = none) (hid : id ∈ ids) {a : Action} (hG : Backlogged ids id s a)
    (hstep : step s a = some s') : Rotating ids id log₀ r₀ s' := by
  cases Step.of_step hstep with
  | bucketCall c =>
    -- the pulls forget what the buckets were, and nothing else
    refine ⟨fun i j t t' ht ht' ha ha' => ?_, fun t ht => ?_, h.log⟩
    · have hmap : ∀ {k : Nat} {t : PullTask},
          (s.pulls.map fun t => { t with begun := none : PullTask })[k]? = some t →
          ∃ t0, s.pulls[k]? = some t0 ∧ t0.pc = t.pc := by
        intro k t hk
        rw [getElem?_map, Option.map_eq_some_iff] at hk
        obtain ⟨t0, ht0, rfl⟩ := hk
        exact ⟨t0, ht0, rfl⟩
      obtain ⟨t0, ht0, hpc⟩ := hmap ht
      obtain ⟨t0', ht0', hpc'⟩ := hmap ht'
      exact h.single i j t0 t0' ht0 ht0' (hpc ▸ ha) (hpc' ▸ ha')
    · obtain ⟨t0, ht0, rfl⟩ := List.mem_map.1 ht
      exact (h.inTurn t0 ht0).congr rfl rfl
  | pull max =>
    have hidle : Between s := hG
    refine ⟨fun i j t t' ht ht' ha ha' => ?_, fun t ht => ?_, h.log⟩
    · have hindex : ∀ (k : Nat) (t : PullTask),
          (s.pulls ++ [⟨max, .start, some s.buckets⟩])[k]? = some t → t.pc.active →
          k = s.pulls.length := by
        intro k t hk hact
        rcases Table.getElem?_concat.1 hk with hold | ⟨hlen, -⟩
        · rw [hidle t (mem_of_getElem? hold)] at hact
          cases hact
        · exact hlen
      exact (hindex i t ht ha).trans (hindex j t' ht' ha').symm
    · rcases mem_append.1 ht with hold | hnew
      · exact .of_idle (hidle t hold)
      · rw [mem_singleton.1 hnew]
        trivial
  | snapshot i order horder t ht hpc =>
    obtain ⟨hscope, hsub⟩ := scopeSnapshot_rrStart s.sources s.sub order horder
    obtain ⟨hoff, hoff', -⟩ := scopeSnapshot_offsets s.sources s.sub order horder
    refine h.setPc ht (by rw [hpc]; rfl) rfl
      ⟨hscope.trans hsub.symm, hoff.trans hoff'.symm⟩ ?_
    show ∃ since, s.log = log₀ ++ since ∧
      (scopeSnapshot s.sources s.sub order horder).2.rrStart % ids.card = _ ∧ _
    rw [hsub]
    exact h.log
  | sleep i clock rest t scope mark outcome ht hpc | wake i t scope mark r scan ht hpc =>
    exact h.setPc ht (by rw [hpc]; rfl) rfl trivial h.log
  | drain i clock rest t scope mark r ht hpc hr =>
    have hturn := h.inTurn t (mem_of_getElem? ht)
    rw [hpc] at hturn
    exact h.setPc ht (by rw [hpc]; rfl) rfl
      (drained_inTurn hsorted hkind hid ht hpc hG hr hturn) h.log
  | commit i t scope mark r scan ht hpc =>
    have hturn := h.inTurn t (mem_of_getElem? ht)
    rw [hpc] at hturn
    obtain ⟨hrr, hnext, hserve⟩ := hturn
    refine h.setPc ht (by rw [hpc]; rfl) rfl trivial ?_
    by_cases hnil : r.drained.events = []
    · refine h.log_concat (w := .commit i s.sub.offsets r.offsets r.drained.events scan t.begun) hnil ?_
      show (if r.drained.events.length = 0 then scope.rrStart else r.drained.nextRr) = _
      rw [if_pos (by rw [hnil]; rfl), hrr]
    · refine h.log_serve (w := .commit i s.sub.offsets r.offsets r.drained.events scan t.begun) hnil
        ?_ (hrr ▸ hserve)
      show (if r.drained.events.length = 0 then scope.rrStart else r.drained.nextRr) = _
      rw [if_neg (fun h0 => hnil (length_eq_zero_iff.1 h0)), hnext, hrr]
  | seekWrite k bucket resp source hk =>
    have hidle : Between s := hG
    unfold Sys.seekWrite
    dsimp only
    split_ifs
    · exact ⟨h.single, fun t ht => .of_idle (hidle t ht), h.log_concat rfl rfl⟩
    · exact h.congr rfl rfl rfl (.inl rfl)
  | _ => exact h.congr rfl rfl rfl (.inl rfl)

theorem exists_turn (r₀ : Nat) {n j : Nat} (hj : j < n) : ∃ k < n, (r₀ + k) % n = j := by
  have hn : 0 < n := by omega
  have hr : r₀ % n < n := mod_lt r₀ hn
  refine ⟨(j + (n - r₀ % n)) % n, mod_lt _ hn, ?_⟩
  rw [add_mod_mod, ← mod_add_mod, show r₀ % n + (j + (n - r₀ % n)) = j + n by omega,
    add_mod_right, mod_eq_of_lt hj]

/-- **No bucket starves.** From `s₀`, where nobody is in a pull, to `s₁` pulls come one after the
other, always with the buckets `ids` in scope, and the bucket `id` has something to deliver whenever
one scans. If as many pulls as there are buckets have returned events, one of them has returned an
event of `id`. -/
theorem no_bucket_starves (cs : List BucketCall) (sources : BucketSourceTable)
    (predicate : Predicate) (hkind : predicate.kind = none ∨ ∃ kind, predicate.kind = some [kind])
    (offsets : Offsets) (rrStart : Nat) (as₀ as₁ : List Action) (s₀ s₁ : Sys)
    (hrun₀ : Transition.run step (start cs sources ⟨predicate, offsets, rrStart, none⟩) as₀ =
      some s₀) (hrun₁ : Transition.run step s₀ as₁ = some s₁) (hidle : Between s₀)
    (ids : Finset BucketId) (id : BucketId) (hid : id ∈ ids)
    (hG : Transition.Meets step (Backlogged ids id) s₀ as₁)
    (hpulls : ids.card ≤ served (s₁.log.drop s₀.log.length)) :
    ∃ ev ∈ deliveries (s₁.log.drop s₀.log.length), ev.origin.bucketId = id := by
  have hnative : (kindFilterFor predicate).2 = none := by
    unfold kindFilterFor
    rcases hkind with hkind | ⟨kind, hkind⟩ <;> rw [hkind]
  have hstart : Sorted predicate (start cs sources ⟨predicate, offsets, rrStart, none⟩) :=
    ⟨BucketManager.new_ok.calls cs, rfl, fun c hc => (by cases hc), fun t ht => by cases ht⟩
  have hsorted : Sorted predicate s₀ :=
    run_invariant (G := fun _ _ => True) (fun _ _ _ h _ hs => h.step hs) hstart
      (meets_true _ _) hrun₀
  have hrot : Rotating ids id s₀.log s₀.sub.rrStart s₀ := by
    refine ⟨fun i j t t' ht _ ha => ?_, fun t ht => .of_idle (hidle t ht), [], ?_, rfl, ?_⟩
    · rw [hidle t (mem_of_getElem? ht)] at ha
      cases ha
    · rw [append_nil]
    · exact fun k hk => absurd hk (not_lt_zero k)
  have hend := (run_invariant
    (I := fun s => Sorted predicate s ∧ Rotating ids id s₀.log s₀.sub.rrStart s)
    (fun _ _ _ h hg hs => ⟨h.1.step hs, h.2.step h.1 hnative hid hg hs⟩) ⟨hsorted, hrot⟩ hG
    hrun₁).2
  obtain ⟨since, hlog, -, hserved⟩ := hend.log
  rw [hlog, drop_left] at hpulls ⊢
  -- the turn of `id` is among the first `n`
  obtain ⟨j, hj⟩ := mem_iff_getElem?.1 ((Finset.mem_sort (· ≤ ·)).2 hid)
  have hjlt : j < ids.card := by
    rw [← Finset.length_sort (· ≤ ·)]
    exact (List.getElem?_eq_some_iff.1 hj).1
  obtain ⟨k, hk, hturn⟩ := exists_turn s₀.sub.rrStart hjlt
  exact hserved k (lt_of_lt_of_le hk hpulls) (hturn ▸ hj)

/-! ## A concrete run -/

def twoBuckets : List BucketCall :=
  [createOne, ⟨2, .createBucket ⟨10, 3600⟩ 0⟩, arriveOne, arriveOne,
    ⟨2, .append (.bare 2 0 "note".toList)⟩, ⟨2, .append (.bare 2 0 "note".toList)⟩]

def sourceOfTwo : BucketSourceTable :=
  ⟨fun id => if id = 1 ∨ id = 2 then some ⟨none, none, none⟩ else none, 0⟩

def pullsOfOne : List Action :=
  [.pull 1, .snapshot 0 [1, 2], .drain 0 [] 0, .commit 0, .pull 1, .snapshot 1 [1, 2],
    .drain 1 [] 0, .commit 1]

theorem second_bucket_served : ∃ s₁,
    Transition.run step (start twoBuckets sourceOfTwo subToAll) pullsOfOne = some s₁ ∧
      (deliveries s₁.log).length = 2 ∧
      ∃ ev ∈ deliveries (s₁.log.drop 0), ev.origin.bucketId = 2 := by
  have hrun : ∃ s₁ ∈ run step (start twoBuckets sourceOfTwo subToAll) pullsOfOne,
      (deliveries s₁.log).length = 2 ∧ ({1, 2} : Finset BucketId).card ≤ served (s₁.log.drop 0) := by
    decide +kernel
  have hG : Transition.Meets step (Backlogged {1, 2} 2)
      (start twoBuckets sourceOfTwo subToAll) pullsOfOne := by
    decide +kernel
  obtain ⟨s₁, hs1, hlen, hpulls⟩ := hrun
  exact ⟨s₁, hs1, hlen, no_bucket_starves twoBuckets sourceOfTwo subToAll.predicate (.inl rfl)
    (fun _ => none) 0 [] pullsOfOne _ s₁ rfl hs1 (fun t ht => by cases ht) {1, 2} 2 (by decide) hG hpulls⟩

end Pulls

end TerminalCommander
