import TerminalCommander.Core.BucketInvariant

/-!
# Rows that have room

A bucket drops its oldest rows once it has more than `max_events`. So a row stays as long as the tail
is less than `max_events` above it, whatever is appended. `RowAt b seq P` says that a row with the
number `seq` and the property `P` is stored, if it still has room.
-/

namespace TerminalCommander

open KeyedLog List SignalEvent

theorem add_length_le_lastKey {α : Type*} {key : α → Nat} {x : α} (xs : List α) (d : Nat) :
    Increasing key (x :: xs) → key x + xs.length ≤ lastKey key d (x :: xs) := by
  induction xs generalizing x with
  | nil => exact fun _ => Nat.le_refl _
  | cons y ys ih =>
    intro h
    obtain ⟨hx, hrest⟩ := pairwise_cons.1 h
    have hlast : lastKey key d (x :: y :: ys) = lastKey key d (y :: ys) := by
      rw [lastKey, lastKey, getLast?_cons_cons]
    have hxy := hx y mem_cons_self
    have hle := ih hrest
    rw [hlast, length_cons]
    omega

namespace BucketInner

variable {b : BucketInner} {ev : SignalEvent}

theorem evictFront_capacity (n : Nat) (evs : List SignalEvent) (b : BucketInner) :
    (evictFront (fun _ rest => n < rest.length + 1) evs b).events = evs.drop (evs.length - n) := by
  induction evs generalizing b with
  | nil => rw [evictFront, drop_nil]
  | cons e rest ih =>
    rw [evictFront, length_cons]
    by_cases h : n < rest.length + 1
    · rw [if_pos (decide_eq_true h), ih, show rest.length + 1 - n = rest.length - n + 1 by omega,
        drop_succ_cons]
    · rw [if_neg (by simpa using h), show rest.length + 1 - n = 0 by omega, drop_zero]

theorem push_events (b : BucketInner) (ev : SignalEvent) : (b.push ev).events =
    (b.events ++ [ev]).drop (b.events.length + 1 - b.config.maxEvents) := by
  unfold push evictForCapacity
  dsimp only
  rw [refreshState_events, evictFront_capacity, refreshState_events, refreshState_config,
    length_append]
  rfl

theorem Ok.mem_push (h : b.Ok) (hseq : b.state.tailSeq < ev.seq) {e : SignalEvent}
    (he : e ∈ b.events ++ [ev]) (hroom : ev.seq < e.seq + b.config.maxEvents) :
    e ∈ (b.push ev).events := by
  have hsorted : Increasing seq (b.events ++ [ev]) :=
    h.sorted.concat fun x hx => Nat.lt_of_le_of_lt (h.toSound.seq_le_tail hx) hseq
  rw [push_events]
  have hlen : (b.events ++ [ev]).length = b.events.length + 1 := by
    rw [length_append, length_singleton]
  have hlast : lastKey seq 0 (b.events ++ [ev]) = ev.seq := lastKey_concat 0 _ _
  generalize b.events ++ [ev] = rows at he hsorted hlen hlast ⊢
  generalize hk : b.events.length + 1 - b.config.maxEvents = k
  rcases mem_append.1 ((take_append_drop k rows).symm ▸ he) with hold | hnew
  · exfalso
    -- the rows behind `e` are `max_events` many, up to the new tail
    have hsub : (e :: rows.drop k).Sublist rows := by
      conv_rhs => rw [← take_append_drop k rows]
      exact (singleton_sublist.2 hold).append (Sublist.refl _)
    have hle := add_length_le_lastKey (rows.drop k) 0 (hsorted.sublist hsub)
    have hpos : 0 < k := Nat.pos_of_ne_zero fun h0 => by
      rw [h0] at hold
      cases hold
    have hlastle : lastKey seq 0 (e :: rows.drop k) ≤ ev.seq := by
      obtain ⟨x, hx, heq⟩ := exists_lastKey seq 0 (cons_ne_nil e (rows.drop k))
      rw [heq, ← hlast]
      exact hsorted.key_le_lastKey 0 (hsub.subset hx)
    rw [length_drop, hlen] at hle
    omega
  · exact hnew

variable {count : Nat} {firstSeen lastSeen : Time}

theorem patchFirst_eq_map {seq : Nat} : ∀ {evs evs' : List SignalEvent},
    Increasing SignalEvent.seq evs → patchFirst seq count firstSeen lastSeen evs = some evs' →
      evs' = evs.map fun e =>
        if e.seq = seq then setAggregation count firstSeen lastSeen e else e := by
  intro evs
  induction evs with
  | nil =>
    intro evs' _ h
    cases h
  | cons x rest ih =>
    intro evs' hsorted h
    obtain ⟨hx, hrest⟩ := pairwise_cons.1 hsorted
    rw [patchFirst] at h
    rw [map_cons]
    split_ifs at h ⊢ with hxs
    · cases h
      have hothers : ∀ e ∈ rest, e.seq ≠ seq := fun e he => Nat.ne_of_gt (hxs ▸ hx e he)
      rw [map_congr_left fun e he => if_neg (hothers e he), map_id']
    · obtain ⟨rest', hrest', rfl⟩ := Option.map_eq_some_iff.1 h
      rw [ih hrest hrest']

/-! ## Rows -/

structure RowAt (b : BucketInner) (seq : Nat) (P : SignalEvent → Prop) : Prop where
  le_tail : seq ≤ b.state.tailSeq
  row : b.state.tailSeq < seq + b.config.maxEvents → ∃ e ∈ b.events, e.seq = seq ∧ P e

variable {seq : Nat} {P Q : SignalEvent → Prop}

theorem RowAt.push (h : b.RowAt seq P) (hok : b.Ok) (hseq : b.state.tailSeq < ev.seq) :
    (b.push ev).RowAt seq P := by
  obtain ⟨gone, hpush, -⟩ := hok.push ev hseq
  refine ⟨?_, fun hroom => ?_⟩
  · rw [hpush.tail]
    exact Nat.le_of_lt (Nat.lt_of_le_of_lt h.le_tail hseq)
  · rw [hpush.tail, hpush.config] at hroom
    obtain ⟨e, he, hes, hP⟩ := h.row (by omega)
    exact ⟨e, hok.mem_push hseq (mem_append_left _ he) (by rw [hes]; exact hroom), hes, hP⟩

theorem rowAt_push (hok : b.Ok) (hseq : b.state.tailSeq < ev.seq) (hP : P ev) :
    (b.push ev).RowAt ev.seq P := by
  obtain ⟨gone, hpush, -⟩ := hok.push ev hseq
  refine ⟨Nat.le_of_eq hpush.tail.symm, fun hroom => ?_⟩
  rw [hpush.tail, hpush.config] at hroom
  exact ⟨ev, hok.mem_push hseq (mem_append_right _ mem_cons_self) hroom, rfl, hP⟩

theorem RowAt.patch {evs : List SignalEvent} {n : Nat}
    (h : b.RowAt seq P) (hok : b.Ok) {target : Nat}
    (hpatch : patchFirst target count firstSeen lastSeen b.events = some evs)
    (hne : seq ≠ target → ∀ e, P e → Q e)
    (heq : seq = target → ∀ e, P e → Q (setAggregation count firstSeen lastSeen e)) :
    ({ b with events := evs, dedupeCollapsedCount := n } : BucketInner).RowAt seq Q := by
  obtain rfl := patchFirst_eq_map hok.sorted hpatch
  refine ⟨h.le_tail, fun hroom => ?_⟩
  obtain ⟨e, he, hes, hP⟩ := h.row hroom
  by_cases hst : seq = target
  · exact ⟨_, List.mem_map.2 ⟨e, he, if_pos (hes.trans hst)⟩, hes, heq hst e hP⟩
  · exact ⟨e, List.mem_map.2 ⟨e, he, if_neg (hes ▸ hst)⟩, hes, hne hst e hP⟩

theorem RowAt.of_missing (h : b.RowAt seq P) (hmiss : ∀ e ∈ b.events, e.seq ≠ seq) :
    b.RowAt seq Q := by
  refine ⟨h.le_tail, fun hroom => ?_⟩
  obtain ⟨e, he, hes, -⟩ := h.row hroom
  exact absurd hes (hmiss e he)

end BucketInner

end TerminalCommander
