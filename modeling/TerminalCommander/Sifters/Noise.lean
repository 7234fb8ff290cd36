import Mathlib.Data.List.Sort
import TerminalCommander.Core.Activation

/-!
# Noise suppression

`Dedupe` after `sifters/src/noise.rs`: drafts below a severity that repeat one of the same key
within a window are collapsed. A repeat in the same batch is counted on the draft that the batch
emits, a later one by a patch of the stored row. The fields `DedupeEntry.taken`,
`DedupeAggregatePatch.key` and `Batch.collapsed` are not part of the source.
-/

namespace TerminalCommander

open List Option Function

def satAddU32 (a b : Nat) : Nat := min (a + b) u32Max

structure DedupeAggregatePatch where
  seq : Nat
  count : Nat
  firstSeen : Time
  lastSeen : Time
  key : Text
  deriving DecidableEq, Repr

structure NoisePolicy where
  dedupeSeverityMax : Severity
  dedupeWindowSecs : Nat
  dropProgressFrames : Bool
  deriving DecidableEq, Repr

def DEFAULT_DEDUPE_WINDOW_SECS : Nat := 5

def NoisePolicy.default : NoisePolicy := ⟨.high, DEFAULT_DEDUPE_WINDOW_SECS, true⟩

structure DedupeEntry where
  firstSeen : Time
  lastSeen : Time
  count : Nat
  representativeSeq : Option Nat
  taken : Nat
  deriving DecidableEq, Repr

structure Dedupe where
  state : Text → Option DedupeEntry
  maxSeenTs : Option Time

def Dedupe.new : Dedupe := ⟨fun _ => none, none⟩

/-! ## The key -/

def dedupeBypassKind (kind : Text) : Bool := decide (kind = "password_prompt".toList)

def sortedCaptures (captures : Option Captures) : Captures :=
  (captures.getD []).insertionSort fun a b => Text.le a.1 b.1 = true

def dedupeKey (u : Uuids) (rule : Option RuleRef) (captures : Option Captures) (kind : Text) :
    Text :=
  (match rule with
    | some r => "rul_".toList ++ u.simple r.id ++ '|' :: Nat.toDigits 10 r.version
    | none => "<no-rule>".toList) ++
  '|' :: kind ++ '|' ::
  (sortedCaptures captures).flatMap fun entry => entry.1 ++ '=' :: entry.2 ++ [';']

def EventDraft.dedupeKey (u : Uuids) (d : EventDraft) : Text :=
  TerminalCommander.dedupeKey u d.rule d.captures d.kind

def SignalEvent.dedupeKey (u : Uuids) (ev : SignalEvent) : Text :=
  TerminalCommander.dedupeKey u ev.rule ev.captures ev.kind

/-! ## Collapsing -/

structure Collapse where
  draft : EventDraft
  ordinal : Nat
  deriving DecidableEq, Repr

structure Batch where
  state : Text → Option DedupeEntry
  emit : List EventDraft
  patches : List DedupeAggregatePatch
  batchIndex : Text → Option Nat
  collapsed : List Collapse

def DedupeEntry.aggregate (entry : DedupeEntry) (d : EventDraft) : EventDraft :=
  { d with
    count := entry.count
    firstSeen := some entry.firstSeen
    lastSeen := some entry.lastSeen }

def DedupeEntry.take (entry : DedupeEntry) (d : EventDraft) : DedupeEntry :=
  { entry with
    count := satAddU32 entry.count 1
    lastSeen := d.timestamp
    taken := entry.taken + 1 }

def DedupeEntry.first (d : EventDraft) : DedupeEntry := ⟨d.timestamp, d.timestamp, 1, none, 1⟩

namespace Batch

def start (state : Text → Option DedupeEntry) : Batch := ⟨state, [], [], fun _ => none, []⟩

def represent (b : Batch) (key : Text) (entry : DedupeEntry) (d : EventDraft) : Batch :=
  { b with
    state := Function.update b.state key (some entry)
    batchIndex := Function.update b.batchIndex key (some b.emit.length)
    emit := b.emit ++ [entry.aggregate d] }

def collapse (b : Batch) (key : Text) (entry : DedupeEntry) (d : EventDraft) : Batch :=
  { b with
    state := Function.update b.state key (some entry)
    collapsed := b.collapsed ++ [⟨d, entry.taken⟩] }

def take (u : Uuids) (policy : NoisePolicy) (b : Batch) (d : EventDraft) : Batch :=
  if policy.dedupeSeverityMax.rank ≤ d.severity.rank then { b with emit := b.emit ++ [d] }
  else
    let key := d.dedupeKey u
    match b.state key with
    | some entry =>
      let entry := entry.take d
      match b.batchIndex key with
      | some index =>
        { b.collapse key entry d with emit := b.emit.modify index entry.aggregate }
      | none =>
        match entry.representativeSeq with
        | some seq =>
          { b.collapse key entry d with
            patches := b.patches ++ [⟨seq, entry.count, entry.firstSeen, entry.lastSeen, key⟩] }
        | none => b.represent key entry d
    | none => b.represent key (.first d) d

end Batch

namespace Dedupe

def dataClock (dd : Dedupe) (drafts : List EventDraft) : Option Time :=
  (dd.maxSeenTs.toList ++ drafts.map EventDraft.timestamp).max?

def retain (dd : Dedupe) (cutoff : Time) : Text → Option DedupeEntry :=
  fun key => (dd.state key).filter fun entry => decide (cutoff ≤ entry.lastSeen)

def cutoff (policy : NoisePolicy) (clock : Time) : Time :=
  clock - (min policy.dedupeWindowSecs i64Max : Nat) * 1000000000

def applyAt (u : Uuids) (dd : Dedupe) (drafts : List EventDraft) (policy : NoisePolicy)
    (now : Time) : Batch × Dedupe :=
  let clock := dd.dataClock drafts
  let batch := drafts.foldl (Batch.take u policy)
    (.start (dd.retain (cutoff policy (clock.getD now))))
  (batch, ⟨batch.state, clock⟩)

def registerEmitted (u : Uuids) (dd : Dedupe) (d : EventDraft) (seq : Nat) : Dedupe :=
  { dd with
    state := Function.update dd.state (d.dedupeKey u)
      ((dd.state (d.dedupeKey u)).map fun entry => { entry with representativeSeq := some seq }) }

end Dedupe

/-! ## Progress lines -/

def isProgressLine (text : Text) : Bool :=
  let t := text.trim
  t.isEmpty ||
    (t.all (fun c => c.isDigit || c == '.' || c == '%' || whiteSpace c) && t.contains '%') ||
    (decide (t.len = 1) && t.all fun c => "|/-\\*".toList.contains c) ||
    (t.splitOnce '/').any fun (a, b) =>
      !a.isEmpty && !b.isEmpty && a.all Char.isDigit && b.all Char.isDigit

/-! ## What a batch leaves -/

def LastPatch (patches : List DedupeAggregatePatch) (key : Text) (seq count : Nat) : Prop :=
  ∃ before p after, patches = before ++ p :: after ∧ p.key = key ∧ p.seq = seq ∧ p.count = count ∧
    ∀ p' ∈ after, p'.seq ≠ seq

theorem LastPatch.concat {patches : List DedupeAggregatePatch} {key : Text} {seq count : Nat}
    (h : LastPatch patches key seq count) {p : DedupeAggregatePatch} (hp : p.seq ≠ seq) :
    LastPatch (patches ++ [p]) key seq count := by
  obtain ⟨before, q, after, rfl, hkey, hseq, hcount, hafter⟩ := h
  refine ⟨before, q, after ++ [p], ?_, hkey, hseq, hcount, fun p' hp' => ?_⟩
  · rw [append_assoc, cons_append]
  · rcases mem_append.1 hp' with hp' | hp'
    · exact hafter p' hp'
    · rw [mem_singleton.1 hp']
      exact hp

def DistinctRows (state : Text → Option DedupeEntry) : Prop :=
  ∀ key key' e e' seq, state key = some e → state key' = some e' →
    e.representativeSeq = some seq → e'.representativeSeq = some seq → key = key'

theorem update_eq_some {state : Text → Option DedupeEntry} {key k : Text} {entry e : DedupeEntry}
    (h : update state key (some entry) k = some e) :
    (k = key ∧ e = entry) ∨ (k ≠ key ∧ state k = some e) := by
  by_cases hk : k = key
  · rw [hk, update_self, some.injEq] at h
    exact .inl ⟨hk, h.symm⟩
  · rw [update_of_ne hk] at h
    exact .inr ⟨hk, h⟩

def Counted (state : Text → Option DedupeEntry) : Prop :=
  ∀ key e, state key = some e → e.count = min e.taken u32Max

variable {id : BucketId}

namespace Batch

variable {u : Uuids} {policy : NoisePolicy} {b : Batch} {start : Text → Option DedupeEntry}
  {key : Text} {entry : DedupeEntry} {d : EventDraft}

structure Ok (u : Uuids) (start : Text → Option DedupeEntry) (b : Batch) : Prop where
  counted : Counted b.state
  rows : ∀ key e seq, b.state key = some e → e.representativeSeq = some seq →
    ∃ e₀, start key = some e₀ ∧ e₀.representativeSeq = some seq
  emitted : ∀ key index, b.batchIndex key = some index → ∃ d e, b.emit[index]? = some d ∧
    d.dedupeKey u = key ∧ b.state key = some e ∧ d.count = e.count
  collapsed : ∀ c ∈ b.collapsed, ∃ e, b.state (c.draft.dedupeKey u) = some e ∧
    c.ordinal ≤ e.taken ∧ (b.batchIndex (c.draft.dedupeKey u) ≠ none ∨
      ∃ seq, e.representativeSeq = some seq ∧
        LastPatch b.patches (c.draft.dedupeKey u) seq e.count)

theorem aggregate_dedupeKey (entry : DedupeEntry) (d : EventDraft) :
    (entry.aggregate d).dedupeKey u = d.dedupeKey u := rfl

theorem counted_update {state : Text → Option DedupeEntry} (h : Counted state)
    (hentry : entry.count = min entry.taken u32Max) : Counted (update state key (some entry)) := by
  intro k e he
  rcases update_eq_some he with ⟨-, rfl⟩ | ⟨-, he⟩
  · exact hentry
  · exact h k e he

theorem Ok.rows_update (h : Ok u start b) {old : Option DedupeEntry} (hold : b.state key = old)
    (hrow : ∀ seq, entry.representativeSeq = some seq →
      ∃ e0, old = some e0 ∧ e0.representativeSeq = some seq) (k : Text) (e : DedupeEntry)
    (seq : Nat) (he : update b.state key (some entry) k = some e)
    (hseq : e.representativeSeq = some seq) :
    ∃ e0, start k = some e0 ∧ e0.representativeSeq = some seq := by
  rcases update_eq_some he with ⟨rfl, rfl⟩ | ⟨-, he⟩
  · obtain ⟨e0, he0, hseq0⟩ := hrow seq hseq
    exact h.rows k e0 seq (hold.trans he0) hseq0
  · exact h.rows k e seq he hseq

theorem Ok.emit (h : Ok u start b) (d : EventDraft) : Ok u start
    { b with emit := b.emit ++ [d] } where
  counted := h.counted
  rows := h.rows
  emitted k index hk := by
    obtain ⟨d', e, hd', hrest⟩ := h.emitted k index hk
    exact ⟨d', e, by rw [getElem?_append_left (List.getElem?_eq_some_iff.1 hd').1, hd'], hrest⟩
  collapsed := h.collapsed

theorem Ok.represent (h : Ok u start b) (hkey : d.dedupeKey u = key)
    (hfree : ∀ e, b.state key = some e → b.batchIndex key = none ∧ e.representativeSeq = none)
    (hcount : entry.count = min entry.taken u32Max) (hrow : entry.representativeSeq = none) :
    Ok u start (b.represent key entry d) where
  counted := counted_update h.counted hcount
  rows := h.rows_update rfl fun seq hseq => by
    rw [hrow] at hseq
    cases hseq
  emitted k index hk := by
    dsimp only [Batch.represent] at hk ⊢
    by_cases hkk : k = key
    · rw [hkk, update_self, some.injEq] at hk
      rw [← hk, hkk]
      exact ⟨_, entry, getElem?_concat_length, hkey, update_self _ _ _, rfl⟩
    · rw [update_of_ne hkk] at hk
      obtain ⟨d', e, hd', hdkey, he, hd⟩ := h.emitted k index hk
      refine ⟨d', e, ?_, hdkey, ?_, hd⟩
      · rw [getElem?_append_left (List.getElem?_eq_some_iff.1 hd').1, hd']
      · rw [update_of_ne hkk, he]
  collapsed c hc := by
    obtain ⟨e, he, hord, hrest⟩ := h.collapsed c hc
    by_cases hkk : c.draft.dedupeKey u = key
    · rw [hkk] at he hrest
      obtain ⟨hindex, hnone⟩ := hfree e he
      rcases hrest with hrest | ⟨seq, hseq, -⟩
      · exact absurd hindex hrest
      · rw [hnone] at hseq
        cases hseq
    · refine ⟨e, ?_, hord, ?_⟩
      · exact (update_of_ne hkk _ _).trans he
      · dsimp only [Batch.represent]
        rwa [update_of_ne hkk]

theorem take_counted (h : entry.count = min entry.taken u32Max) (d : EventDraft) :
    (entry.take d).count = min (entry.take d).taken u32Max := by
  show min (entry.count + 1) u32Max = min (entry.taken + 1) u32Max
  rw [h]
  omega

theorem Ok.mem_collapse (h : Ok u start b) (he : b.state (d.dedupeKey u) = some entry) {c : Collapse}
    (hc : c ∈ (b.collapse (d.dedupeKey u) (entry.take d) d).collapsed) :
    c.draft.dedupeKey u = d.dedupeKey u ∧ c.ordinal ≤ (entry.take d).taken ∨
      c.draft.dedupeKey u ≠ d.dedupeKey u ∧ c ∈ b.collapsed := by
  rcases mem_append.1 hc with hc | hc
  · by_cases hkk : c.draft.dedupeKey u = d.dedupeKey u
    · obtain ⟨e, he', hord, -⟩ := h.collapsed c hc
      rw [hkk, he, some.injEq] at he'
      exact .inl ⟨hkk, Nat.le_succ_of_le (he' ▸ hord)⟩
    · exact .inr ⟨hkk, hc⟩
  · rw [mem_singleton.1 hc]
    exact .inl ⟨rfl, Nat.le_refl _⟩

theorem Ok.collapse_emitted (h : Ok u start b) (he : b.state (d.dedupeKey u) = some entry)
    {index : Nat} (hindex : b.batchIndex (d.dedupeKey u) = some index) :
    Ok u start { b.collapse (d.dedupeKey u) (entry.take d) d with
      emit := b.emit.modify index (entry.take d).aggregate } where
  counted := counted_update h.counted (take_counted (h.counted _ _ he) d)
  rows := h.rows_update he fun seq hseq => ⟨entry, rfl, hseq⟩
  emitted k index' hk := by
    replace hk : b.batchIndex k = some index' := hk
    obtain ⟨d', e, hd', hdkey, he', hd⟩ := h.emitted k index' hk
    dsimp only [Batch.collapse]
    by_cases hkk : k = d.dedupeKey u
    · rw [hkk, hindex, some.injEq] at hk
      subst hk
      rw [getElem?_modify_eq, hd', hkk]
      refine ⟨_, _, rfl, ?_, update_self _ _ _, rfl⟩
      rw [aggregate_dedupeKey, hdkey, hkk]
    · have hne : index ≠ index' := by
        rintro rfl
        obtain ⟨d'', -, hd'', hdkey', -⟩ := h.emitted _ _ hindex
        rw [hd', some.injEq] at hd''
        exact hkk (by rw [← hdkey, hd'', hdkey'])
      rw [getElem?_modify_ne _ _ hne, update_of_ne hkk]
      exact ⟨d', e, hd', hdkey, he', hd⟩
  collapsed c hc := by
    dsimp only [Batch.collapse]
    rcases h.mem_collapse he hc with ⟨hkk, hord⟩ | ⟨hkk, hc⟩
    · rw [hkk, update_self]
      exact ⟨_, rfl, hord, .inl (by rw [hindex]; exact some_ne_none _)⟩
    · rw [update_of_ne hkk]
      exact h.collapsed c hc

theorem Ok.collapse_patched (h : Ok u start b) (hstart : DistinctRows start)
    (he : b.state (d.dedupeKey u) = some entry) (hnone : b.batchIndex (d.dedupeKey u) = none)
    {seq : Nat} (hseq : entry.representativeSeq = some seq) :
    Ok u start { b.collapse (d.dedupeKey u) (entry.take d) d with
      patches := b.patches ++ [⟨seq, (entry.take d).count, (entry.take d).firstSeen,
        (entry.take d).lastSeen, d.dedupeKey u⟩] } where
  counted := counted_update h.counted (take_counted (h.counted _ _ he) d)
  rows := h.rows_update he fun seq hseq => ⟨entry, rfl, hseq⟩
  emitted k index hk := by
    replace hk : b.batchIndex k = some index := hk
    obtain ⟨d', e, hd', hdkey, he', hd⟩ := h.emitted k index hk
    dsimp only [Batch.collapse]
    by_cases hkk : k = d.dedupeKey u
    · rw [hkk, hnone] at hk
      cases hk
    · rw [update_of_ne hkk]
      exact ⟨d', e, hd', hdkey, he', hd⟩
  collapsed c hc := by
    dsimp only [Batch.collapse]
    rcases h.mem_collapse he hc with ⟨hkk, hord⟩ | ⟨hkk, hc⟩
    · rw [hkk, update_self]
      exact ⟨_, rfl, hord, .inr ⟨seq, hseq, b.patches, _, [], rfl, rfl, rfl, rfl, by simp⟩⟩
    · rw [update_of_ne hkk]
      obtain ⟨e, he', hord, hrest⟩ := h.collapsed c hc
      refine ⟨e, he', hord, hrest.imp id ?_⟩
      rintro ⟨seq', hseq', hlast⟩
      refine ⟨seq', hseq', hlast.concat fun heq => hkk ?_⟩
      -- another key with the same row
      obtain ⟨e1, he1, hrow1⟩ := h.rows _ _ _ he' hseq'
      obtain ⟨e2, he2, hrow2⟩ := h.rows _ _ _ he hseq
      rw [← show seq = seq' from heq] at hrow1
      exact hstart _ _ _ _ _ he1 he2 hrow1 hrow2

theorem Ok.take (h : Ok u start b) (hstart : DistinctRows start) (policy : NoisePolicy)
    (d : EventDraft) : Ok u start (b.take u policy d) := by
  unfold Batch.take
  split_ifs
  · exact h.emit d
  · dsimp only
    split
    · next entry he =>
      split
      · next index hindex => exact h.collapse_emitted he hindex
      · next hnone =>
        split
        · next seq hseq => exact h.collapse_patched hstart he hnone hseq
        · next hrow =>
          refine h.represent rfl (fun e he' => ⟨hnone, ?_⟩) (take_counted (h.counted _ _ he) d) hrow
          rw [he, some.injEq] at he'
          rwa [← he']
    · next he =>
      refine h.represent rfl (fun e he' => ?_) rfl rfl
      rw [he] at he'
      cases he'

def Sendable (id : BucketId) (d : EventDraft) : Prop := d.bucketId = id ∧ d.validate = .ok ()

theorem Sendable.aggregate {d : EventDraft} (h : Sendable id d)
    (entry : DedupeEntry) : Sendable id (entry.aggregate d) := h

theorem take_sendable (hb : ∀ d ∈ b.emit, Sendable id d) (hd : Sendable id d) :
    ∀ d' ∈ (b.take u policy d).emit, Sendable id d' := by
  have hconcat : ∀ d1, Sendable id d1 → ∀ d' ∈ b.emit ++ [d1], Sendable id d' := by
    intro d1 hd1 d' hd'
    rcases mem_append.1 hd' with hd' | hd'
    · exact hb d' hd'
    · rwa [mem_singleton.1 hd']
  unfold Batch.take
  split_ifs
  · exact hconcat d hd
  · dsimp only
    split
    · next entry he =>
      split
      · next index hindex =>
        intro d' hd'
        obtain ⟨i, hi⟩ := mem_iff_getElem?.1 hd'
        by_cases hii : index = i
        · subst hii
          rw [getElem?_modify_eq, Option.map_eq_map, map_eq_some_iff] at hi
          obtain ⟨d1, hd1, rfl⟩ := hi
          exact (hb d1 (mem_of_getElem? hd1)).aggregate _
        · rw [getElem?_modify_ne _ _ hii] at hi
          exact hb d' (mem_of_getElem? hi)
      · split
        · exact hb
        · exact hconcat _ (hd.aggregate _)
    · exact hconcat _ (hd.aggregate _)

end Batch

namespace Dedupe

variable {u : Uuids} {policy : NoisePolicy} {dd : Dedupe}

theorem start_ok (h : Counted dd.state) (cutoff : Time) :
    Batch.Ok u dd.state (.start (dd.retain cutoff)) where
  counted key e he := h key e (filter_eq_some_iff.1 he).1
  rows key e seq he hseq := ⟨e, (filter_eq_some_iff.1 he).1, hseq⟩
  emitted _ _ h := by cases h
  collapsed _ h := by cases h

theorem applyAt_ok (hcounted : Counted dd.state) (hrows : DistinctRows dd.state)
    (drafts : List EventDraft) (now : Time) :
    Batch.Ok u dd.state (applyAt u dd drafts policy now).1 := by
  have hstart : Batch.Ok u dd.state _ :=
    start_ok hcounted (cutoff policy ((dd.dataClock drafts).getD now))
  unfold applyAt
  dsimp only
  generalize Batch.start _ = b at hstart ⊢
  induction drafts generalizing b with
  | nil => exact hstart
  | cons d drafts ih => exact ih (b.take u policy d) (hstart.take hrows policy d)

theorem applyAt_sendable {drafts : List EventDraft}
    (h : ∀ d ∈ drafts, Batch.Sendable id d) (now : Time) :
    ∀ d ∈ (applyAt u dd drafts policy now).1.emit, Batch.Sendable id d := by
  have hfold : ∀ (b : Batch), (∀ d ∈ b.emit, Batch.Sendable id d) →
      ∀ d ∈ (drafts.foldl (Batch.take u policy) b).emit, Batch.Sendable id d := by
    induction drafts with
    | nil => exact fun _ hb => hb
    | cons d drafts ih =>
      intro b hb
      exact ih (fun d' hd' => h d' (mem_cons_of_mem d hd')) _
        (Batch.take_sendable hb (h d mem_cons_self))
  exact hfold _ fun d hd => by cases hd

end Dedupe

end TerminalCommander
