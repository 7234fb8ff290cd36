import TerminalCommander.Probes.MergedSignals

/-!
# The counts of collapsed drafts

`process_frame` of `probes/src/noise_pipeline.rs` against any sink: an emission is answered with a
fresh row or with nothing, and a patch succeeds. `rows` is the count last written to each row. The
count of an entry is that of its row as long as a draft that bypasses the dedupe does not have the
key of one that goes through it.
-/

namespace TerminalCommander

namespace ConservedCounts

open List Option Function NoisePipeline Transition Dedupe

structure Pipe where
  dedupe : Dedupe
  rows : Nat → Option Nat

structure FrameCall where
  drafts : List EventDraft
  text : Text
  now : Time
  answers : List (Option Nat)

def patchRow (rows : Nat → Option Nat) (p : DedupeAggregatePatch) : Nat → Option Nat :=
  Function.update rows p.seq (some p.count)

def emitAll (u : Uuids) : Pipe → List EventDraft → List (Option Nat) → Option Pipe
  | s, [], _ => some s
  | _, _ :: _, [] => none
  | s, _ :: ds, none :: answers => emitAll u s ds answers
  | s, d :: ds, some seq :: answers =>
    if s.rows seq = none then
      emitAll u ⟨s.dedupe.registerEmitted u d seq, Function.update s.rows seq (some d.count)⟩ ds
        answers
    else none

def processFrame (u : Uuids) (policy : NoisePolicy) (s : Pipe) (call : FrameCall) : Option Pipe :=
  if call.drafts.isEmpty && policy.dropProgressFrames && isProgressLine call.text then some s
  else
    let bypass := call.drafts.filter fun d => dedupeBypassKind d.kind
    let rest := call.drafts.filter fun d => !dedupeBypassKind d.kind
    let (batch, dedupe) := s.dedupe.applyAt u rest policy call.now
    emitAll u ⟨dedupe, batch.patches.foldl patchRow s.rows⟩ (bypass ++ batch.emit) call.answers

def Folding (policy : NoisePolicy) (d : EventDraft) : Prop :=
  d.severity.rank < policy.dedupeSeverityMax.rank ∧ dedupeBypassKind d.kind = false

def Agree (u : Uuids) (policy : NoisePolicy) (known : List EventDraft) : Prop :=
  ∀ d ∈ known, ∀ d' ∈ known, d.dedupeKey u = d'.dedupeKey u →
    (Folding policy d ↔ Folding policy d')

structure Conserved (u : Uuids) (policy : NoisePolicy) (known : List EventDraft) (s : Pipe) :
    Prop where
  counted : Counted s.dedupe.state
  distinct : DistinctRows s.dedupe.state
  rows : ∀ key e seq, s.dedupe.state key = some e → e.representativeSeq = some seq →
    s.rows seq = some e.count
  owned : ∀ d ∈ known, s.dedupe.state (d.dedupeKey u) ≠ none → Folding policy d

/-! ## A batch -/

structure Tallied (u : Uuids) (policy : NoisePolicy) (known : List EventDraft)
    (rows : Nat → Option Nat) (b : Batch) : Prop where
  patched : ∀ key e seq, b.state key = some e → e.representativeSeq = some seq →
    b.patches.foldl patchRow rows seq = some e.count
  once : ∀ i d, b.emit[i]? = some d → Folding policy d → b.batchIndex (d.dedupeKey u) = some i
  unrowed : ∀ key i e, b.batchIndex key = some i → b.state key = some e →
    e.representativeSeq = none
  owned : ∀ d ∈ known, b.state (d.dedupeKey u) ≠ none → Folding policy d
  emits : ∀ d ∈ b.emit, ∃ d' ∈ known, d.dedupeKey u = d'.dedupeKey u ∧
    (Folding policy d ↔ Folding policy d')

variable {s : Pipe}

section Batch

variable {u : Uuids} {policy : NoisePolicy} {known : List EventDraft} {rows : Nat → Option Nat}
  {start : Text → Option DedupeEntry} {b : Batch} {d : EventDraft} {entry : DedupeEntry}

section

variable (h : Tallied u policy known rows b)

include h

theorem Tallied.owned_update (hagree : Agree u policy known)
    (hd : d ∈ known) (hfold : Folding policy d) :
    ∀ d' ∈ known, update b.state (d.dedupeKey u) (some entry) (d'.dedupeKey u) ≠ none →
      Folding policy d' := by
  intro d' hd' hsome
  by_cases hkey : d'.dedupeKey u = d.dedupeKey u
  · exact (hagree d' hd' d hd hkey).mpr hfold
  · rw [update_of_ne hkey] at hsome
    exact h.owned d' hd' hsome

theorem Tallied.push (hd : d ∈ known)
    (hhigh : ¬Folding policy d) : Tallied u policy known rows { b with emit := b.emit ++ [d] } where
  patched := h.patched
  once i d' hi hfold := by
    rw [getElem?_append] at hi
    split_ifs at hi with hlt
    · exact h.once i d' hi hfold
    · rw [getElem?_singleton] at hi
      split_ifs at hi
      cases hi
      exact absurd hfold hhigh
  unrowed := h.unrowed
  owned := h.owned
  emits := forall_mem_append.mpr
    ⟨h.emits, forall_mem_singleton.mpr ⟨d, hd, rfl, Iff.rfl⟩⟩

theorem Tallied.represent (hok : Batch.Ok u start b)
    (hagree : Agree u policy known) (hd : d ∈ known) (hfold : Folding policy d)
    (hfree : ∀ e, b.state (d.dedupeKey u) = some e → b.batchIndex (d.dedupeKey u) = none)
    (hrow : entry.representativeSeq = none) :
    Tallied u policy known rows (b.represent (d.dedupeKey u) entry d) where
  patched key e seq he hseq := by
    rcases update_eq_some he with ⟨-, rfl⟩ | ⟨-, he⟩
    · rw [hrow] at hseq
      cases hseq
    · exact h.patched key e seq he hseq
  once i d' hi hfold' := by
    dsimp only [Batch.represent] at hi ⊢
    rw [getElem?_append] at hi
    split_ifs at hi with hlt
    · have hindex := h.once i d' hi hfold'
      by_cases hkey : d'.dedupeKey u = d.dedupeKey u
      · rw [hkey] at hindex
        obtain ⟨-, e, -, -, he, -⟩ := hok.emitted _ i hindex
        rw [hfree e he] at hindex
        cases hindex
      · rw [update_of_ne hkey, hindex]
    · rw [getElem?_singleton] at hi
      split_ifs at hi with hzero
      cases hi
      rw [Batch.aggregate_dedupeKey, update_self, some.injEq]
      omega
  unrowed key i e hi he := by
    rcases update_eq_some he with ⟨-, rfl⟩ | ⟨hkey, he⟩
    · exact hrow
    · exact h.unrowed key i e ((update_of_ne hkey _ _).symm.trans hi) he
  owned := h.owned_update hagree hd hfold
  emits := forall_mem_append.mpr
    ⟨h.emits, forall_mem_singleton.mpr ⟨d, hd, rfl, Iff.rfl⟩⟩

theorem Tallied.collapse_emitted (hagree : Agree u policy known)
    (hd : d ∈ known) (hfold : Folding policy d) (he : b.state (d.dedupeKey u) = some entry)
    {i : Nat} (hi : b.batchIndex (d.dedupeKey u) = some i) :
    Tallied u policy known rows { b.collapse (d.dedupeKey u) (entry.take d) d with
      emit := b.emit.modify i (entry.take d).aggregate } := by
  have hrow : (entry.take d).representativeSeq = none := h.unrowed _ i entry hi he
  have hmodify {j : Nat} {d' : EventDraft}
      (hj : (b.emit.modify i (entry.take d).aggregate)[j]? = some d') :
      ∃ d0, b.emit[j]? = some d0 ∧ d'.dedupeKey u = d0.dedupeKey u ∧
        (Folding policy d' ↔ Folding policy d0) := by
    rw [getElem?_modify, Option.map_eq_map, map_eq_some_iff] at hj
    obtain ⟨d0, hd0, rfl⟩ := hj
    refine ⟨d0, hd0, ?_⟩
    split_ifs
    · exact ⟨rfl, Iff.rfl⟩
    · exact ⟨rfl, Iff.rfl⟩
  refine ⟨fun key e seq hs hseq => ?_, fun j d' hj hfold' => ?_, fun key j e hj hs => ?_,
    h.owned_update hagree hd hfold, fun d' hd' => ?_⟩
  · rcases update_eq_some hs with ⟨-, rfl⟩ | ⟨-, hs⟩
    · rw [hrow] at hseq
      cases hseq
    · exact h.patched key e seq hs hseq
  · obtain ⟨d0, hd0, hkey, hiff⟩ := hmodify hj
    rw [hkey]
    exact h.once j d0 hd0 (hiff.mp hfold')
  · rcases update_eq_some hs with ⟨-, rfl⟩ | ⟨-, hs⟩
    · exact hrow
    · exact h.unrowed key j e hj hs
  · obtain ⟨j, hj⟩ := mem_iff_getElem?.mp hd'
    obtain ⟨d0, hd0, hkey, hiff⟩ := hmodify hj
    obtain ⟨d1, hd1, hkey1, hiff1⟩ := h.emits d0 (mem_of_getElem? hd0)
    exact ⟨d1, hd1, hkey.trans hkey1, hiff.trans hiff1⟩

section

variable (hok : Batch.Ok u start b) (hstart : DistinctRows start) (hagree : Agree u policy known)

include hok hstart hagree

theorem Tallied.collapse_patched (hd : d ∈ known)
    (hfold : Folding policy d) (he : b.state (d.dedupeKey u) = some entry)
    (hnone : b.batchIndex (d.dedupeKey u) = none) {seq : Nat}
    (hseq : entry.representativeSeq = some seq) :
    Tallied u policy known rows { b.collapse (d.dedupeKey u) (entry.take d) d with
      patches := b.patches ++ [⟨seq, (entry.take d).count, (entry.take d).firstSeen,
        (entry.take d).lastSeen, d.dedupeKey u⟩] } := by
  refine ⟨fun key e seq' hs hseq' => ?_, h.once, fun key j e hj hs => ?_,
    h.owned_update hagree hd hfold, h.emits⟩
  · rw [foldl_append, foldl_cons, foldl_nil, patchRow]
    rcases update_eq_some hs with ⟨-, rfl⟩ | ⟨hkey, hold⟩
    · obtain rfl : seq = seq' := some.inj (hseq.symm.trans hseq')
      rw [update_self]
    · have hne : seq' ≠ seq := by
        rintro rfl
        obtain ⟨e1, he1, hrow1⟩ := hok.rows _ _ _ hold hseq'
        obtain ⟨e2, he2, hrow2⟩ := hok.rows _ _ _ he hseq
        exact hkey (hstart _ _ _ _ _ he1 he2 hrow1 hrow2)
      rw [update_of_ne hne]
      exact h.patched key e seq' hold hseq'
  · rcases update_eq_some hs with ⟨rfl, -⟩ | ⟨-, hs⟩
    · cases hnone.symm.trans hj
    · exact h.unrowed key j e hj hs

theorem Tallied.take (hd : d ∈ known) (hkind : dedupeBypassKind d.kind = false) :
    Tallied u policy known rows (b.take u policy d) := by
  unfold Batch.take
  split_ifs with hhigh
  · exact h.push hd fun hfold => absurd hfold.1 (Nat.not_lt.mpr hhigh)
  have hfold : Folding policy d := ⟨Nat.not_le.mp hhigh, hkind⟩
  dsimp only
  split
  · next entry he =>
    split
    · next i hi => exact h.collapse_emitted hagree hd hfold he hi
    · next hnone =>
      split
      · next seq hseq => exact h.collapse_patched hok hstart hagree hd hfold he hnone hseq
      · next hrow => exact h.represent hok hagree hd hfold (fun _ _ => hnone) hrow
  · next hnew =>
    refine h.represent hok hagree hd hfold (fun e he => ?_) rfl
    rw [hnew] at he
    cases he

theorem Tallied.foldl {drafts : List EventDraft}
    (hdrafts : ∀ d ∈ drafts, d ∈ known ∧ dedupeBypassKind d.kind = false) :
    Tallied u policy known rows (drafts.foldl (Batch.take u policy) b) := by
  induction drafts generalizing b with
  | nil => exact h
  | cons d drafts ih =>
    obtain ⟨hd, hdrafts⟩ := forall_mem_cons.mp hdrafts
    exact ih (h.take hok hstart hagree hd.1 hd.2) (hok.take hstart policy d) hdrafts

end

theorem Tallied.count_eq (hok : Batch.Ok u start b)
    (hd : d ∈ b.emit) {e : DedupeEntry} (he : b.state (d.dedupeKey u) = some e) :
    d.count = e.count := by
  obtain ⟨i, hi⟩ := mem_iff_getElem?.mp hd
  obtain ⟨d', hd', hkey, hiff⟩ := h.emits d hd
  have hfold := h.owned d' hd' (hkey ▸ ne_none_iff_exists'.mpr ⟨e, he⟩)
  obtain ⟨d1, e1, hd1, -, he1, hcount⟩ := hok.emitted _ i (h.once i d hi (hiff.mpr hfold))
  rw [hi, some.injEq] at hd1
  rw [he, some.injEq] at he1
  rw [hd1, he1, hcount]

end

theorem Conserved.tallied (h : Conserved u policy known s)
    (hagree : Agree u policy known) {drafts : List EventDraft}
    (hdrafts : ∀ d ∈ drafts, d ∈ known ∧ dedupeBypassKind d.kind = false) (now : Time) :
    Tallied u policy known s.rows (s.dedupe.applyAt u drafts policy now).1 := by
  refine Tallied.foldl ⟨fun key e seq he hseq => ?_, ?_, ?_, fun d hd hsome => ?_, ?_⟩
    (start_ok h.counted _) h.distinct hagree hdrafts
  · exact h.rows key e seq (filter_eq_some_iff.mp he).1 hseq
  · simp [Batch.start]
  · simp [Batch.start]
  · exact h.owned d hd fun hnone => hsome (by simp [Batch.start, retain, hnone])
  · simp [Batch.start]

end Batch

/-! ## A frame -/

section Frame

variable {u : Uuids} {policy : NoisePolicy} {known : List EventDraft}

theorem Conserved.register (h : Conserved u policy known s) {d : EventDraft}
    (hd : ∀ e, s.dedupe.state (d.dedupeKey u) = some e → d.count = e.count) {seq : Nat}
    (hfresh : s.rows seq = none) : Conserved u policy known
      ⟨s.dedupe.registerEmitted u d seq, update s.rows seq (some d.count)⟩ := by
  have hother (key : Text) (e : DedupeEntry) (he : s.dedupe.state key = some e) :
      e.representativeSeq ≠ some seq := by
    intro hseq
    cases hfresh.symm.trans (h.rows key e seq he hseq)
  refine ⟨counted_register h.counted d seq,
    distinctRows_register h.distinct d hother, fun key e row he hrow => ?_,
    fun d' hd' hsome => h.owned d' hd' fun hnone => hsome ?_⟩
  · rcases registerEmitted_eq_some he with ⟨rfl, e0, he0, rfl⟩ | ⟨-, he⟩
    · obtain rfl : seq = row := some.inj hrow
      exact (update_self _ _ _).trans (congrArg some (hd e0 he0))
    · have hne : row ≠ seq := fun heq => hother key e he (heq ▸ hrow)
      exact (update_of_ne hne _ _).trans (h.rows key e row he hrow)
  · rw [registerEmitted_state, hnone]
    simp

theorem Conserved.emitAll : ∀ {todo : List EventDraft} {s s' : Pipe} {answers : List (Option Nat)},
    Conserved u policy known s →
    (∀ d ∈ todo, ∀ e, s.dedupe.state (d.dedupeKey u) = some e → d.count = e.count) →
    ConservedCounts.emitAll u s todo answers = some s' → Conserved u policy known s' := by
  intro todo
  induction todo with
  | nil =>
    intro s s' answers h _ hrun
    rw [ConservedCounts.emitAll, some.injEq] at hrun
    exact hrun ▸ h
  | cons d todo ih =>
    intro s s' answers h htodo hrun
    obtain ⟨hd, htodo⟩ := forall_mem_cons.mp htodo
    match answers with
    | [] => cases hrun
    | none :: answers => exact ih h htodo hrun
    | some seq :: answers =>
      rw [ConservedCounts.emitAll] at hrun
      split_ifs at hrun with hfresh
      refine ih (h.register hd hfresh) (fun d' hd' e he => ?_) hrun
      rcases registerEmitted_eq_some he with ⟨-, e0, he0, rfl⟩ | ⟨-, he⟩
      · exact htodo d' hd' e0 he0
      · exact htodo d' hd' e he

theorem Conserved.processFrame {s' : Pipe} (h : Conserved u policy known s)
    (hagree : Agree u policy known) {call : FrameCall} (hknown : ∀ d ∈ call.drafts, d ∈ known)
    (hrun : ConservedCounts.processFrame u policy s call = some s') :
    Conserved u policy known s' := by
  unfold ConservedCounts.processFrame at hrun
  split_ifs at hrun
  · cases hrun
    exact h
  dsimp only at hrun
  have hrest : ∀ d ∈ call.drafts.filter fun d => !dedupeBypassKind d.kind,
      d ∈ known ∧ dedupeBypassKind d.kind = false := fun d hd =>
    ⟨hknown d (List.mem_filter.mp hd).1, by simpa using (List.mem_filter.mp hd).2⟩
  have htally := h.tallied hagree hrest call.now
  have hok : Batch.Ok u s.dedupe.state (s.dedupe.applyAt u _ policy call.now).1 :=
    applyAt_ok h.counted h.distinct (call.drafts.filter fun d => !dedupeBypassKind d.kind)
      call.now
  refine Conserved.emitAll ⟨hok.counted, ?_, htally.patched, htally.owned⟩
    (forall_mem_append.mpr ⟨fun d hd e he => ?_, fun d hd e => htally.count_eq hok hd⟩) hrun
  · intro key key' e e' seq he he' hrow hrow'
    obtain ⟨e0, he0, hrow0⟩ := hok.rows key e seq he hrow
    obtain ⟨e0', he0', hrow0'⟩ := hok.rows key' e' seq he' hrow'
    exact h.distinct key key' e0 e0' seq he0 he0' hrow0 hrow0'
  · -- a bypassing draft has no entry
    obtain ⟨hmem, hkind⟩ := List.mem_filter.mp hd
    have hfold := htally.owned d (hknown d hmem) (ne_none_iff_exists'.mpr ⟨e, he⟩)
    rw [hfold.2] at hkind
    cases hkind

end Frame

def lineCall (drafts : List EventDraft) (answers : List (Option Nat)) : FrameCall :=
  ⟨drafts, [], 0, answers⟩

def xCalls : List FrameCall :=
  [lineCall (MergedSignals.lineDrafts NoisePipeline.xRuntime "x") [some 1],
    lineCall (MergedSignals.lineDrafts NoisePipeline.xRuntime "x") []]

def alikeRuntime : SifterRuntime scanExternals :=
  NoisePipeline.runtimeOf scanExternals
    [{ keywordRule "k".toList ["a|keyword=b".toList] with eventKind := "password_prompt".toList },
      { keywordRule "k".toList ["b".toList] with
        eventKind := "password_prompt|keyword=a".toList }]

def alikeDrafts : List EventDraft := MergedSignals.lineDrafts alikeRuntime "b a|keyword=b"

end ConservedCounts

end TerminalCommander
