import TerminalCommander.Core.BucketRun

/-!
# Reads past a cursor

The read loop computes a page of the ring (`readSince_events`, `readSince_nextCursor`), so the
library's facts about pages are facts about reads: what a read returns passes its filters, is in
order, and leaves out nothing up to its own cursor. A read begins with the eviction of expired
events; `eventsSince_spec` states the whole call.
-/

namespace TerminalCommander

open KeyedLog List SignalEvent

namespace BucketInner

theorem passes_iff {req : BucketReadRequest} {ev : SignalEvent} : passes req ev ↔
    req.cursor < ev.seq ∧ (∀ s, req.severityMin = some s → s.rank ≤ ev.severity.rank) ∧
      ∀ k, req.kindFilter = some k → ev.kind = k := by
  unfold passes
  rw [Bool.and_eq_true, Bool.and_eq_true, Option.all_eq_true, Option.all_eq_true, and_assoc]
  simp only [decide_eq_true_eq]

end BucketInner

def EventCore.passes (req : BucketReadRequest) (e : EventCore) : Bool :=
  decide (req.cursor < e.seq) &&
    (req.severityMin.all fun min => decide (min.rank ≤ e.severity.rank)) &&
    (req.kindFilter.all fun kind => decide (e.kind = kind))

namespace BucketInner

theorem passes_core (req : BucketReadRequest) (ev : SignalEvent) :
    ev.core.passes req = passes req ev := rfl

theorem cursor_lt_of_passes {req : BucketReadRequest} {ev : SignalEvent}
    (h : passes req ev) : req.cursor < ev.seq := (passes_iff.mp h).1

theorem readLimit_pos (req : BucketReadRequest) : 0 < readLimit req := Nat.le_max_left 1 _

theorem readLoop_eq (req : BucketReadRequest) (limit : Nat) :
    ∀ (evs : List SignalEvent) (acc : ReadAcc), acc.out.length ≤ limit →
      readLoop req limit evs acc =
        { out := acc.out ++ page (passes req) (limit - acc.out.length) evs
          lastSeq := lastKey seq acc.lastSeq
            (page (passes req) (limit - acc.out.length) evs)
          hasMore := acc.hasMore ||
            decide (limit < acc.out.length + (evs.filter (passes req)).length) } := by
  intro evs
  induction evs with
  | nil =>
    intro acc hle
    simp [readLoop, page, Nat.not_lt.mpr hle]
  | cons ev rest ih =>
    intro acc hle
    rw [readLoop]
    split_ifs with hp hfull
    · have h0 : limit - acc.out.length = 0 := by omega
      have hmore : limit < acc.out.length + ((ev :: rest).filter (passes req)).length := by
        rw [filter_cons_of_pos hp, length_cons]
        omega
      simp [page, h0, hmore]
    · obtain ⟨k, hk⟩ : ∃ k, limit - acc.out.length = k + 1 := ⟨limit - acc.out.length - 1, by omega⟩
      have hpage : page (passes req) (k + 1) (ev :: rest) = ev :: page (passes req) k rest := by
        rw [page, filter_cons_of_pos hp, take_succ_cons, page]
      have hlen : (acc.out ++ [ev]).length = acc.out.length + 1 := by simp
      have hk' : limit - (acc.out.length + 1) = k := by omega
      rw [ih _ (by dsimp only; omega)]
      dsimp only
      rw [hlen, hk', hk, hpage, filter_cons_of_pos hp, length_cons, append_assoc,
        Nat.add_assoc, Nat.add_comm 1]
      congr 1
      rcases eq_nil_or_concat (page (passes req) k rest) with hnil | ⟨init, last, hl⟩
      · rw [hnil]
        rfl
      · rw [hl, concat_eq_append, ← cons_append, lastKey_concat, lastKey_concat]
    · rw [ih acc hle, page, page, filter_cons_of_neg hp]

theorem readSince_events (b : BucketInner) (id : BucketId) (req : BucketReadRequest) :
    (b.readSince id req).events = page (passes req) (readLimit req) b.events := by
  unfold readSince
  rw [readLoop_eq req _ _ _ (Nat.zero_le _)]
  rfl

theorem readSince_nextCursor (b : BucketInner) (id : BucketId) (req : BucketReadRequest) :
    (b.readSince id req).nextCursor =
      lastKey seq req.cursor (page (passes req) (readLimit req) b.events) := by
  unfold readSince
  rw [readLoop_eq req _ _ _ (Nat.zero_le _)]
  rfl

structure ReadSpec (b : BucketInner) (req : BucketReadRequest) (resp : BucketReadResponse) :
    Prop where
  retained : ∀ e ∈ resp.events, e ∈ b.events ∧ passes req e = true
  sorted : Increasing SignalEvent.seq resp.events
  le_next : ∀ e ∈ resp.events, e.seq ≤ resp.nextCursor
  complete : ∀ e ∈ b.events, passes req e = true → e.seq ≤ resp.nextCursor → e ∈ resp.events
  length_le : resp.events.length ≤ readLimit req
  cursor_le : req.cursor ≤ resp.nextCursor
  next_le : resp.nextCursor ≤ max req.cursor b.state.tailSeq
  empty : resp.events = [] → resp.nextCursor = req.cursor ∧ ∀ e ∈ b.events, passes req e = false

theorem Sound.readSince {b : BucketInner} (h : b.Sound) (id : BucketId)
    (req : BucketReadRequest) : ReadSpec b req (b.readSince id req) := by
  have hcur : ∀ e ∈ page (passes req) (readLimit req) b.events, req.cursor < e.seq :=
    fun e he => cursor_lt_of_passes (of_mem_page he).2
  constructor
  case next_le =>
    rw [readSince_nextCursor]
    by_cases hnil : page (passes req) (readLimit req) b.events = []
    · rw [hnil]
      exact Nat.le_max_left _ _
    · obtain ⟨e, he, hlast⟩ := exists_lastKey seq req.cursor hnil
      rw [hlast]
      exact Nat.le_trans (h.seq_le_tail (of_mem_page he).1) (Nat.le_max_right _ _)
  all_goals simp only [readSince_events, readSince_nextCursor]
  case retained => exact fun e he => of_mem_page he
  case sorted => exact h.sorted.page _ _
  case le_next => exact fun e he => (h.sorted.page _ _).key_le_lastKey _ he
  case complete =>
    exact fun e he hp hle => h.sorted.mem_page he hp (cursor_lt_of_passes hp) hle
  case length_le => exact length_take_le _ _
  case cursor_le => exact le_lastKey hcur
  case empty =>
    intro hnil
    rw [hnil]
    exact ⟨rfl, fun e he => page_eq_nil (readLimit_pos req) hnil he⟩

end BucketInner

theorem BucketManager.eventsSince_cases (m : BucketManager) (id : BucketId)
    (req : BucketReadRequest) (now : Time) :
    (m.inner id = none ∧ m.eventsSince id req now = (.error (.notFound id), m)) ∨
    ∃ b, m.inner id = some b ∧ m.eventsSince id req now =
      (.ok ((b.evictExpired now).readSince id req), m.set id (b.evictExpired now)) := by
  unfold eventsSince
  rcases hb : m.inner id with _ | b
  · exact .inl ⟨rfl, rfl⟩
  · exact .inr ⟨b, rfl, rfl⟩

end TerminalCommander
