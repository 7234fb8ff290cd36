import TerminalCommander.Core.BucketRead

/-!
# Expiry

The eviction of expired events pops the front of the ring while the front is older than the time to
live (`evictExpired_events`). The ring is ordered by sequence number and not by timestamp, so a
young front keeps the stale events behind it: a read or a summary is free of stale events exactly
if every stale event has only expired events in front of it (`stale_events_hidden_iff`).
-/

namespace TerminalCommander

namespace BucketInner

theorem evictFront_events (p : SignalEvent → Bool) (evs : List SignalEvent) (b : BucketInner) :
    (evictFront (fun ev _ => p ev) evs b).events = evs.dropWhile p := by
  induction evs generalizing b with
  | nil => rfl
  | cons ev rest ih =>
    rw [evictFront, List.dropWhile_cons]
    split_ifs
    · exact ih _
    · rfl

theorem evictFront_config (stale : SignalEvent → List SignalEvent → Bool)
    (evs : List SignalEvent) (b : BucketInner) : (evictFront stale evs b).config = b.config := by
  induction evs generalizing b with
  | nil => rfl
  | cons ev rest ih =>
    rw [evictFront]
    split_ifs
    · exact ih _
    · rfl

@[simp] theorem evictExpired_events (b : BucketInner) (now : Time) : (b.evictExpired now).events =
    b.events.dropWhile fun ev => decide (ev.timestamp < cutoff b.config now) := by
  rw [evictExpired, refreshState_events]
  exact evictFront_events (fun ev => decide (ev.timestamp < cutoff b.config now)) b.events b

@[simp] theorem evictExpired_config (b : BucketInner) (now : Time) :
    (b.evictExpired now).config = b.config := by
  rw [evictExpired, refreshState_config, evictFront_config]

/-- The event is older than the time to live. -/
def Stale (config : BucketConfig) (now : Time) (ev : SignalEvent) : Prop :=
  ev.timestamp < now - config.ttlSecs * 1000000000

instance (config : BucketConfig) (now : Time) (ev : SignalEvent) :
    Decidable (Stale config now ev) :=
  inferInstanceAs (Decidable (_ < _))

theorem Stale.lt_cutoff {config : BucketConfig} {now : Time} {ev : SignalEvent}
    (h : Stale config now ev) : ev.timestamp < cutoff config now := by
  have hmin : ((min config.ttlSecs i64Max : Nat) : Int) ≤ config.ttlSecs :=
    Int.ofNat_le.mpr (Nat.min_le_left _ _)
  have hscale := Int.mul_le_mul_of_nonneg_right hmin (show (0 : Int) ≤ 1000000000 by decide)
  exact Int.lt_of_lt_of_le h (Int.sub_le_sub_left hscale now)

/-- A stale event has only events in front of it that expire with it. -/
def ExpiresInOrder (b : BucketInner) (now : Time) : Prop :=
  b.events.Pairwise fun x y => Stale b.config now y → x.timestamp < cutoff b.config now

instance (b : BucketInner) (now : Time) : Decidable (b.ExpiresInOrder now) :=
  inferInstanceAs (Decidable (List.Pairwise _ _))

end BucketInner

/-- Dropping from the front leaves no `q` behind exactly if each `q` has only `p`s in front. -/
theorem forall_dropWhile_iff {α : Type} {p q : α → Prop} [DecidablePred p] (h : ∀ x, q x → p x)
    (xs : List α) : (∀ y ∈ xs.dropWhile fun x => decide (p x), ¬ q y) ↔
      xs.Pairwise fun x y => q y → p x := by
  induction xs with
  | nil => simp
  | cons x xs ih =>
    rw [List.pairwise_cons, ← ih]
    by_cases hx : p x
    · simp [hx]
    · have hqx : ¬ q x := fun hq => hx (h x hq)
      have hdrop : ∀ y ∈ xs.dropWhile fun x => decide (p x), y ∈ xs :=
        fun y hy => (List.dropWhile_sublist _).mem hy
      simp [hx, hqx]
      exact fun hnone y hy => hnone y (hdrop y hy)

/-- The summary counts the events of the list. -/
structure BucketSummary.Counts (s : BucketSummary) (evs : List SignalEvent) : Prop where
  eventCount : s.eventCount = evs.length
  severity : ∀ sev, s.bySeverity.slot sev = BucketInner.severityCount evs sev
  kind : ∀ k, s.byKind k = countEntry (BucketInner.kindCount evs k)

open BucketInner in
/-- **Stale events.** After any calls, a read returns and the summary counts no event older than
the time to live exactly if every stale event has only expired events in front of it. -/
theorem stale_events_hidden_iff (cs : List BucketCall) (id : BucketId) (b : BucketInner)
    (hb : (BucketManager.new.calls cs).inner id = some b) (now : Time) :
    (∃ s, ((BucketManager.new.calls cs).summary id now).1 = .ok s ∧
      s.Counts (b.evictExpired now).events) ∧
    ((∀ ev ∈ (b.evictExpired now).events, ¬ Stale b.config now ev) ∧
      (∀ req resp, ((BucketManager.new.calls cs).eventsSince id req now).1 = .ok resp →
        ∀ ev ∈ resp.events, ¬ Stale b.config now ev) ↔ b.ExpiresInOrder now) := by
  have hok := BucketManager.new_ok.calls cs id b hb
  obtain ⟨gone, -, hok', -⟩ := hok.evictExpired now
  refine ⟨⟨(b.evictExpired now).summary, ?_, hok'.eventCount, hok'.tallied.1, hok'.tallied.2⟩, ?_⟩
  · simp only [BucketManager.summary, hb]
  · have hring := forall_dropWhile_iff (fun ev (h : Stale b.config now ev) => h.lt_cutoff) b.events
    rw [← evictExpired_events] at hring
    refine ⟨fun h => hring.mp h.1, fun h => ⟨hring.mpr h, ?_⟩⟩
    intro req resp hread ev hev
    simp only [BucketManager.eventsSince, hb, Except.ok.injEq] at hread
    subst hread
    exact hring.mpr h ev ((hok'.readSince id req).retained ev hev).1

def second (n : Nat) : Time := n * 1000000000

/-- A bucket that keeps its events for ten seconds got an event of each of these times. -/
def appendedAt (times : List Time) : BucketManager :=
  .calls .new (⟨1, .createBucket ⟨10, 10⟩ 0⟩ :: times.map fun t => ⟨1, .append (.bare 1 t [])⟩)

theorem ordered_events_hidden : ∃ b ∈ (appendedAt [0, second 100]).inner 1,
    ∀ ev ∈ (b.evictExpired (second 105)).events, ¬ BucketInner.Stale b.config (second 105) ev := by
  have hord : ∃ b ∈ (appendedAt [0, second 100]).inner 1, b.ExpiresInOrder (second 105) := by
    decide +kernel
  obtain ⟨b, hb, hord⟩ := hord
  exact ⟨b, hb, ((stale_events_hidden_iff _ 1 b hb _).2.mpr hord).1⟩

theorem stale_event_returned : ∃ b ∈ (appendedAt [second 100, 0]).inner 1, ∃ resp,
    ((appendedAt [second 100, 0]).eventsSince 1 ⟨0, none, none, none⟩ (second 105)).1 = .ok resp ∧
      ∃ ev ∈ resp.events, BucketInner.Stale b.config (second 105) ev := by
  have hstale : ∃ b ∈ (appendedAt [second 100, 0]).inner 1,
      ∃ ev ∈ ((b.evictExpired (second 105)).readSince 1 ⟨0, none, none, none⟩).events,
        BucketInner.Stale b.config (second 105) ev := by
    decide +kernel
  obtain ⟨b, hb, hev⟩ := hstale
  refine ⟨b, hb, _, ?_, hev⟩
  simp only [BucketManager.eventsSince, Option.mem_def.mp hb]

end TerminalCommander
