import TerminalCommander.Core.Bucket
import TerminalCommander.Lib.KeyedLog

/-!
# The representation invariant of a bucket

`BucketInner.Ok` ties the redundant summaries of a bucket to its ring of events: the sequence
numbers increase, the two tallies count the ring, head, tail and count describe it, and the events
dropped plus the events retained number at most the tail, which keeps every `u64` counter from
saturating. `Evicts` is what an eviction leaves.
-/

namespace TerminalCommander

open KeyedLog List SignalEvent BySeverity Function Nat

/-! ## The tallies -/

theorem BySeverity.slot_modify_self (c : BySeverity) (f : Nat → Nat) (s : Severity) :
    (c.modify f s).slot s = f (c.slot s) := by
  cases s <;> rfl

theorem BySeverity.slot_modify_ne (c : BySeverity) (f : Nat → Nat) {s s' : Severity}
    (h : s' ≠ s) : (c.modify f s).slot s' = c.slot s' := by
  cases s <;> cases s' <;> first | rfl | exact absurd rfl h

def countEntry (n : Nat) : Option Nat := if n = 0 then none else some n

theorem countEntry_getD (n : Nat) : (countEntry n).getD 0 = n := by
  unfold countEntry
  split_ifs with h
  · exact h.symm
  · rfl

theorem countEntry_succ (n : Nat) : countEntry (n + 1) = some (n + 1) := if_neg (succ_ne_zero n)

variable {evs : List SignalEvent}

namespace BucketInner

def severityCount (evs : List SignalEvent) (s : Severity) : Nat :=
  evs.countP fun e => decide (e.severity = s)

def kindCount (evs : List SignalEvent) (k : Text) : Nat :=
  evs.countP fun e => decide (e.kind = k)

structure Tallied (b : BucketInner) (evs : List SignalEvent) : Prop where
  severity : ∀ s, b.bySeverity.slot s = severityCount evs s
  kind : ∀ k, b.byKind k = countEntry (kindCount evs k)

theorem severityCount_snoc (evs : List SignalEvent) (ev : SignalEvent) (s : Severity) :
    severityCount (evs ++ [ev]) s = severityCount evs s + if ev.severity = s then 1 else 0 := by
  unfold severityCount
  rw [countP_append, countP_cons, countP_nil, zero_add]
  simp only [decide_eq_true_eq]

theorem kindCount_snoc (evs : List SignalEvent) (ev : SignalEvent) (k : Text) :
    kindCount (evs ++ [ev]) k = kindCount evs k + if ev.kind = k then 1 else 0 := by
  unfold kindCount
  rw [countP_append, countP_cons, countP_nil, zero_add]
  simp only [decide_eq_true_eq]

theorem severityCount_cons (ev : SignalEvent) (evs : List SignalEvent) (s : Severity) :
    severityCount (ev :: evs) s = severityCount evs s + if ev.severity = s then 1 else 0 := by
  unfold severityCount
  rw [countP_cons]
  simp only [decide_eq_true_eq]

theorem kindCount_cons (ev : SignalEvent) (evs : List SignalEvent) (k : Text) :
    kindCount (ev :: evs) k = kindCount evs k + if ev.kind = k then 1 else 0 := by
  unfold kindCount
  rw [countP_cons]
  simp only [decide_eq_true_eq]

variable {b : BucketInner}

theorem Tallied.count (h : Tallied b evs)
    (ev : SignalEvent) (hlen : evs.length + 1 ≤ u64Max) : Tallied (b.count ev) (evs ++ [ev]) where
  severity := by
    intro s
    rw [severityCount_snoc]
    show (b.bySeverity.bump ev.severity).slot s = _
    unfold bump
    by_cases hs : s = ev.severity
    · subst hs
      have hle : severityCount evs ev.severity ≤ _ := countP_le_length
      rw [slot_modify_self, h.severity, if_pos rfl, satAdd_of_le (by omega)]
    · rw [slot_modify_ne _ _ hs, h.severity, if_neg (Ne.symm hs), add_zero]
  kind := by
    intro k
    rw [kindCount_snoc]
    show update b.byKind ev.kind _ k = _
    by_cases hk : k = ev.kind
    · subst hk
      have hle : kindCount evs ev.kind ≤ _ := countP_le_length
      rw [update_self, h.kind, countEntry_getD, if_pos rfl, wrapAdd_of_le (by omega),
        countEntry_succ]
    · rw [update_of_ne hk, h.kind, if_neg (Ne.symm hk), add_zero]

theorem Tallied.uncount {ev : SignalEvent}
    (h : Tallied b (ev :: evs)) : Tallied (b.uncount ev) evs where
  severity := by
    intro s
    have hs := h.severity s
    rw [severityCount_cons] at hs
    show (b.bySeverity.unbump ev.severity).slot s = _
    unfold unbump
    by_cases he : s = ev.severity
    · subst he
      rw [if_pos rfl] at hs
      rw [slot_modify_self, hs, Nat.add_sub_cancel]
    · rw [if_neg (Ne.symm he), Nat.add_zero] at hs
      rw [slot_modify_ne _ _ he, hs]
  kind := by
    intro k
    have hfront : b.byKind ev.kind = some (kindCount evs ev.kind + 1) := by
      rw [h.kind, kindCount_cons, if_pos rfl, countEntry_succ]
    have hk := h.kind k
    rw [kindCount_cons] at hk
    unfold BucketInner.uncount
    rw [hfront]
    by_cases he : k = ev.kind
    · subst he
      show update b.byKind ev.kind _ ev.kind = _
      rw [update_self, Nat.add_sub_cancel]
      rfl
    · show update b.byKind ev.kind _ k = _
      rw [if_neg (Ne.symm he), Nat.add_zero] at hk
      rw [update_of_ne he, hk]

/-! ## The ring and its summaries -/

structure Sound (b : BucketInner) : Prop where
  sorted : Increasing SignalEvent.seq b.events
  tallied : Tallied b b.events
  eventCount : b.state.eventCount = b.events.length
  head : b.state.headSeq = (b.events.head?.map (·.seq)).getD b.state.tailSeq
  tail : ∀ e, b.events.getLast? = some e → b.state.tailSeq = e.seq
  accounted : b.state.droppedCount + b.events.length ≤ b.state.tailSeq
  tail_le : b.state.tailSeq ≤ u64Max

structure Ok (b : BucketInner) : Prop extends Sound b where
  bounded : b.events.length ≤ b.config.maxEvents

theorem new_ok (id : BucketId) (config : BucketConfig) (now : Time) : (new id config now).Ok where
  sorted := List.Pairwise.nil
  tallied := ⟨fun s => by cases s <;> rfl, fun _ => rfl⟩
  eventCount := rfl
  head := rfl
  tail := fun e h => by cases h
  accounted := Nat.le_refl 0
  tail_le := Nat.zero_le _
  bounded := Nat.zero_le _

variable {e : SignalEvent}

theorem Sound.seq_le_tail (h : b.Sound) (he : e ∈ b.events) : e.seq ≤ b.state.tailSeq := by
  have hlast := getLast?_eq_some_getLast (ne_nil_of_mem he)
  rw [h.tail _ hlast, ← lastKey_of_getLast? seq 0 hlast]
  exact h.sorted.key_le_lastKey 0 he

theorem Sound.head_le (h : b.Sound) (he : e ∈ b.events) : b.state.headSeq ≤ e.seq := by
  have hs := h.sorted
  rw [h.head]
  rcases hev : b.events with _ | ⟨front, rest⟩
  · rw [hev] at he
    cases he
  · rw [hev] at he hs
    exact hs.head_le he

section

variable (b : BucketInner)

theorem refreshState_eq : b.refreshState =
    { b with state := { b.state with
        headSeq := (b.events.head?.map (·.seq)).getD b.state.tailSeq
        tailSeq := (b.events.getLast?.map (·.seq)).getD b.state.tailSeq
        eventCount := b.events.length
        lastEventAt := b.events.getLast?.map (·.timestamp) } } := by
  unfold refreshState
  rcases hev : b.events with _ | ⟨front, rest⟩
  · rfl
  · rw [head?_cons, getLast?_cons]
    rfl

@[simp] theorem refreshState_events : b.refreshState.events = b.events := by
  rw [refreshState_eq]

@[simp] theorem refreshState_config : b.refreshState.config = b.config := by
  rw [refreshState_eq]

@[simp] theorem refreshState_bucketId : b.refreshState.state.bucketId = b.state.bucketId := by
  rw [refreshState_eq]

@[simp] theorem refreshState_droppedCount :
    b.refreshState.state.droppedCount = b.state.droppedCount := by
  rw [refreshState_eq]

@[simp] theorem refreshState_tailSeq : b.refreshState.state.tailSeq =
    (b.events.getLast?.map (·.seq)).getD b.state.tailSeq := by
  rw [refreshState_eq]

end

/-! ## Eviction -/

structure Evicts (b b' : BucketInner) (gone : List SignalEvent) : Prop where
  events : b.events = gone ++ b'.events
  config : b'.config = b.config
  id : b'.state.bucketId = b.state.bucketId
  tail : b'.state.tailSeq = b.state.tailSeq
  dropped : b'.state.droppedCount = b.state.droppedCount + gone.length

structure Popped (stale : SignalEvent → List SignalEvent → Bool) (evs : List SignalEvent)
    (b r : BucketInner) (gone : List SignalEvent) : Prop where
  events : evs = gone ++ r.events
  tallied : Tallied r r.events
  config : r.config = b.config
  id : r.state.bucketId = b.state.bucketId
  tail : r.state.tailSeq = b.state.tailSeq
  dropped : r.state.droppedCount = b.state.droppedCount + gone.length
  gone_stale : ∀ e ∈ gone, ∃ rest, stale e rest = true
  front_fresh : ∀ e rest, r.events = e :: rest → stale e rest = false

theorem evictFront_popped (stale : SignalEvent → List SignalEvent → Bool) :
    ∀ (evs : List SignalEvent) (b : BucketInner), Tallied b evs →
      b.state.droppedCount + evs.length ≤ u64Max →
      ∃ gone, Popped stale evs b (evictFront stale evs b) gone := by
  intro evs
  induction evs with
  | nil =>
    intro b ht _
    refine ⟨[], rfl, ⟨ht.severity, ht.kind⟩, rfl, rfl, rfl, rfl, ?_, ?_⟩
    · intro e he
      cases he
    · intro e rest he
      cases he
  | cons ev rest ih =>
    intro b ht hd
    rw [length_cons] at hd
    rw [evictFront]
    split_ifs with hs
    · have hdrop : (b.dropped ev).state.droppedCount = b.state.droppedCount + 1 :=
        satAdd_of_le (show b.state.droppedCount + 1 ≤ u64Max by omega)
      obtain ⟨gone, h⟩ :=
        ih (b.dropped ev) ⟨ht.uncount.severity, ht.uncount.kind⟩ (by rw [hdrop]; omega)
      refine ⟨ev :: gone, congrArg _ h.events, h.tallied, h.config, h.id, h.tail, ?_, ?_,
        h.front_fresh⟩
      · rw [h.dropped, hdrop, length_cons]
        omega
      · intro e he
        rcases mem_cons.mp he with rfl | he
        · exact ⟨rest, hs⟩
        · exact h.gone_stale e he
    · refine ⟨[], rfl, ⟨ht.severity, ht.kind⟩, rfl, rfl, rfl, rfl, ?_, ?_⟩
      · intro e he
        cases he
      · rintro e r ⟨⟩
        exact Bool.eq_false_iff.mpr hs

variable {gone : List SignalEvent}

theorem Sound.refreshState_of_popped {r : BucketInner} (h : b.Sound)
    {stale : SignalEvent → List SignalEvent → Bool} (hp : Popped stale b.events b r gone) :
    r.refreshState.Sound ∧ r.refreshState.state.tailSeq = b.state.tailSeq := by
  have hlast : (r.events.getLast?.map (·.seq)).getD r.state.tailSeq = b.state.tailSeq := by
    rcases hl : r.events.getLast? with _ | last
    · exact hp.tail
    · exact (h.tail last (by rw [hp.events, getLast?_append, hl]; rfl)).symm
  have hsorted := h.sorted
  have hacc := h.accounted
  rw [hp.events] at hsorted hacc
  rw [length_append] at hacc
  rw [refreshState_eq]
  refine ⟨⟨(pairwise_append.mp hsorted).2.1, ⟨hp.tallied.severity, hp.tallied.kind⟩, rfl,
    ?_, ?_, ?_, ?_⟩, hlast⟩ <;> dsimp only
  · rw [hlast, hp.tail]
  · intro e hl
    rw [hl]
    rfl
  · rw [hlast, hp.dropped]
    omega
  · rw [hlast]
    exact h.tail_le

theorem Sound.evict (h : b.Sound) (stale : SignalEvent → List SignalEvent → Bool) :
    ∃ gone, Evicts b (evictFront stale b.events b).refreshState gone ∧
      (evictFront stale b.events b).refreshState.Sound ∧
      (∀ e ∈ gone, ∃ rest, stale e rest) ∧
      (∀ e rest, (evictFront stale b.events b).refreshState.events = e :: rest →
        stale e rest = false) := by
  obtain ⟨gone, hp⟩ :=
    evictFront_popped stale b.events b h.tallied (Nat.le_trans h.accounted h.tail_le)
  obtain ⟨hs, htail⟩ := h.refreshState_of_popped hp
  refine ⟨gone, ⟨?_, ?_, ?_, htail, ?_⟩, hs, hp.gone_stale, ?_⟩
  · rw [refreshState_events, ← hp.events]
  · rw [refreshState_config, hp.config]
  · rw [refreshState_bucketId, hp.id]
  · rw [refreshState_droppedCount, hp.dropped]
  · rw [refreshState_events]
    exact hp.front_fresh

theorem Evicts.refl (b : BucketInner) : Evicts b b [] := ⟨rfl, rfl, rfl, rfl, rfl⟩

theorem Evicts.trans {b1 b2 b3 : BucketInner} {gone' : List SignalEvent}
    (h : Evicts b1 b2 gone) (h' : Evicts b2 b3 gone') : Evicts b1 b3 (gone ++ gone') where
  events := by rw [h.events, h'.events, append_assoc]
  config := h'.config.trans h.config
  id := h'.id.trans h.id
  tail := h'.tail.trans h.tail
  dropped := by rw [h'.dropped, h.dropped, length_append, add_assoc]

theorem Evicts.mem {b' : BucketInner} (h : Evicts b b' gone) (he : e ∈ b'.events) :
    e ∈ b.events := by
  rw [h.events]
  exact mem_append_right gone he

theorem Evicts.length_le {b' : BucketInner} (h : Evicts b b' gone) :
    b'.events.length ≤ b.events.length := by
  rw [h.events, length_append]
  omega

theorem Ok.evictExpired (h : b.Ok) (now : Time) :
    ∃ gone, Evicts b (b.evictExpired now) gone ∧ (b.evictExpired now).Ok ∧
      (∀ e ∈ gone, e.timestamp < cutoff b.config now) := by
  obtain ⟨gone, hev, hs, hstale, -⟩ :=
    h.toSound.evict fun ev _ => ev.timestamp < cutoff b.config now
  have hb : (b.evictExpired now).events.length ≤ (b.evictExpired now).config.maxEvents :=
    hev.config ▸ Nat.le_trans hev.length_le h.bounded
  exact ⟨gone, hev, ⟨hs, hb⟩, fun e he => of_decide_eq_true (hstale e he).choose_spec⟩

theorem Sound.evictForCapacity (h : b.Sound) :
    ∃ gone, Evicts b b.evictForCapacity gone ∧ b.evictForCapacity.Ok := by
  obtain ⟨gone, hev, hs, -, hfresh⟩ :=
    h.evict fun _ rest => b.config.maxEvents < rest.length + 1
  have hb : b.evictForCapacity.events.length ≤ b.evictForCapacity.config.maxEvents := by
    rw [show b.evictForCapacity.config = b.config from hev.config]
    rcases hk : b.evictForCapacity.events with _ | ⟨e, rest⟩
    · exact Nat.zero_le _
    · exact Nat.not_lt.mp (of_decide_eq_false (hfresh e rest hk))
  exact ⟨gone, hev, hs, hb⟩

/-! ## Appending -/

structure Pushes (b : BucketInner) (ev : SignalEvent) (b' : BucketInner)
    (gone : List SignalEvent) : Prop where
  events : b.events ++ [ev] = gone ++ b'.events
  config : b'.config = b.config
  id : b'.state.bucketId = b.state.bucketId
  tail : b'.state.tailSeq = ev.seq
  dropped : b'.state.droppedCount = b.state.droppedCount + gone.length

theorem Sound.snoc (h : b.Sound) {ev : SignalEvent} (hseq : b.state.tailSeq < ev.seq) :
    ({ b.count ev with events := b.events ++ [ev] } : BucketInner).refreshState.Sound := by
  have hacc := h.accounted
  have hle := ev.seq_le
  have ht := h.tallied.count ev (by omega)
  have hlast : (b.events ++ [ev]).getLast? = some ev := getLast?_concat
  rw [refreshState_eq]
  refine ⟨?_, ⟨ht.severity, ht.kind⟩, rfl, ?_, ?_, ?_, ?_⟩ <;> dsimp only
  · exact h.sorted.concat fun x hx => Nat.lt_of_le_of_lt (h.seq_le_tail hx) hseq
  · rw [head?_append]
    cases b.events.head? <;> rfl
  · intro e he
    rw [he]
    rfl
  · rw [hlast, length_append]
    show b.state.droppedCount + (b.events.length + 1) ≤ ev.seq
    omega
  · rw [hlast]
    exact hle

theorem Ok.push (h : b.Ok) (ev : SignalEvent)
    (hseq : b.state.tailSeq < ev.seq) : ∃ gone, Pushes b ev (b.push ev) gone ∧ (b.push ev).Ok := by
  obtain ⟨gone, hev, hok⟩ := (h.toSound.snoc hseq).evictForCapacity
  obtain ⟨he, hc, hi, ht, hd⟩ := hev
  rw [refreshState_events] at he
  rw [refreshState_config] at hc
  rw [refreshState_bucketId] at hi
  rw [refreshState_tailSeq, getLast?_append_of_ne_nil _ (cons_ne_nil ev [])] at ht
  rw [refreshState_droppedCount] at hd
  exact ⟨gone, ⟨he, hc, hi, ht, hd⟩, hok⟩

/-! ## Patching -/

end BucketInner

structure EventCore where
  seq : Nat
  timestamp : Time
  severity : Severity
  kind : Text
  deriving DecidableEq, Repr

def SignalEvent.core (ev : SignalEvent) : EventCore := ⟨ev.seq, ev.timestamp, ev.severity, ev.kind⟩

namespace BucketInner

theorem patchFirst_core {seq count : Nat} {firstSeen lastSeen : Time} :
    ∀ {evs evs' : List SignalEvent}, patchFirst seq count firstSeen lastSeen evs = some evs' →
      evs'.map core = evs.map core := by
  intro evs
  induction evs with
  | nil => intro evs' h; cases h
  | cons ev rest ih =>
    intro evs' h
    rw [patchFirst] at h
    split_ifs at h with hs
    · cases h
      rfl
    · obtain ⟨rest', hr, rfl⟩ := Option.map_eq_some_iff.mp h
      rw [map_cons, map_cons, ih hr]

theorem patchFirst_eq_none {seq count : Nat} {firstSeen lastSeen : Time} :
    ∀ {evs : List SignalEvent},
      patchFirst seq count firstSeen lastSeen evs = none ↔ ∀ e ∈ evs, e.seq ≠ seq := by
  intro evs
  induction evs with
  | nil => exact ⟨fun _ e he => absurd he not_mem_nil, fun _ => rfl⟩
  | cons ev rest ih =>
    rw [patchFirst]
    split_ifs with hs
    · exact ⟨False.elim, fun h => absurd hs (h ev mem_cons_self)⟩
    · rw [Option.map_eq_none_iff, ih, forall_mem_cons]
      exact ⟨fun h => ⟨hs, h⟩, fun h => h.2⟩

theorem severityCount_eq_core (evs : List SignalEvent) (s : Severity) :
    severityCount evs s = (evs.map core).countP fun e => decide (e.severity = s) := by
  rw [countP_map]
  rfl

theorem kindCount_eq_core (evs : List SignalEvent) (k : Text) :
    kindCount evs k = (evs.map core).countP fun e => decide (e.kind = k) := by
  rw [countP_map]
  rfl

theorem Ok.withEvents {b : BucketInner} (h : b.Ok)
    (hc : evs.map core = b.events.map core) (n : Nat) :
    ({ b with events := evs, dedupeCollapsedCount := n } : BucketInner).Ok := by
  have hlen : evs.length = b.events.length := by
    rw [← length_map core, hc, length_map]
  have hseq : evs.map (·.seq) = b.events.map (·.seq) := by
    have := congrArg (List.map EventCore.seq) hc
    rwa [List.map_map, List.map_map] at this
  refine ⟨⟨?_, ⟨?_, ?_⟩, ?_, ?_, ?_, ?_, h.tail_le⟩, ?_⟩ <;> dsimp only
  · have hs := pairwise_map.mpr h.sorted
    rw [← hseq] at hs
    exact pairwise_map.mp hs
  · intro s
    rw [severityCount_eq_core, hc, ← severityCount_eq_core]
    exact h.tallied.severity s
  · intro k
    rw [kindCount_eq_core, hc, ← kindCount_eq_core]
    exact h.tallied.kind k
  · rw [hlen]
    exact h.eventCount
  · rw [← head?_map, hseq, head?_map]
    exact h.head
  · intro e he
    have hl : (b.events.map (·.seq)).getLast? = some e.seq := by
      rw [← hseq, getLast?_map, he]
      rfl
    rw [getLast?_map] at hl
    obtain ⟨last, hlast, hl⟩ := Option.map_eq_some_iff.mp hl
    rw [h.tail last hlast, hl]
  · rw [hlen]
    exact h.accounted
  · rw [hlen]
    exact h.bounded

end BucketInner

end TerminalCommander
