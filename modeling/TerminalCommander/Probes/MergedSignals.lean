import TerminalCommander.Lib.ChunkedLines
import TerminalCommander.Probes.CollapsedSignal

/-!
# Which drafts are merged

The dedupe merges drafts with the same key, and the key is a text: rule, kind and captures printed
one behind the other, whatever they contain. It tells two signals apart as long as no kind contains
the mark behind it, no capture name the mark behind it and no captured text the mark behind it
(`dedupeKey_inj`). Otherwise two of them can be printed alike.
-/

namespace TerminalCommander

namespace MergedSignals

open ChunkedLines List Function

def SameKind (d d' : EventDraft) : Prop :=
  d.rule.map (fun r => (r.id, r.version)) = d'.rule.map (fun r => (r.id, r.version)) ∧
    d.kind = d'.kind ∧ sortedCaptures d.captures = sortedCaptures d'.captures

def Plain (d : EventDraft) : Prop :=
  '|' ∉ d.kind ∧ ∀ e ∈ d.captures.getD [], '=' ∉ e.1 ∧ ';' ∉ e.2

instance (d d' : EventDraft) : Decidable (SameKind d d') := inferInstanceAs (Decidable (_ ∧ _ ∧ _))

instance (d : EventDraft) : Decidable (Plain d) := inferInstanceAs (Decidable (_ ∧ _))

theorem printed_captures_inj : ∀ {a b : Captures}, (∀ e ∈ a, '=' ∉ e.1 ∧ ';' ∉ e.2) →
    (∀ e ∈ b, '=' ∉ e.1 ∧ ';' ∉ e.2) →
    (a.flatMap fun e => e.1 ++ '=' :: e.2 ++ [';']) =
      (b.flatMap fun e => e.1 ++ '=' :: e.2 ++ [';']) → a = b := by
  intro a
  induction a with
  | nil =>
    intro b _ _ h
    cases b with
    | nil => rfl
    | cons f b => simp at h
  | cons e a ih =>
    intro b ha hb h
    cases b with
    | nil => simp at h
    | cons f b =>
      obtain ⟨he, ha⟩ := forall_mem_cons.mp ha
      obtain ⟨hf, hb⟩ := forall_mem_cons.mp hb
      simp only [flatMap_cons, append_assoc, cons_append, nil_append] at h
      obtain ⟨hname, h⟩ := line_unique he.1 hf.1 h
      obtain ⟨hvalue, h⟩ := line_unique he.2 hf.2 h
      rw [Prod.ext hname hvalue, ih ha hb (by simpa using h)]

theorem plain_sorted {d : EventDraft} (h : Plain d) :
    ∀ e ∈ sortedCaptures d.captures, '=' ∉ e.1 ∧ ';' ∉ e.2 :=
  fun e he => h.2 e ((perm_insertionSort _ _).mem_iff.mp he)

theorem bar_not_mem_toDigits (n : Nat) : '|' ∉ Nat.toDigits 10 n :=
  fun h => absurd (Nat.isDigit_of_mem_toDigits (Nat.zero_lt_succ 9) (le_refl 10) h) (by simp)

def ruleText (u : Uuids) : Option RuleRef → Text
  | some r => "rul_".toList ++ u.simple r.id ++ '|' :: Nat.toDigits 10 r.version
  | none => "<no-rule>".toList

theorem ruleText_some (u : Uuids) (r : RuleRef) :
    ruleText u (some r) = "rul_".toList ++ u.simple r.id ++ '|' :: Nat.toDigits 10 r.version := rfl

theorem ruleText_ne {u : Uuids} {r : RuleRef} {t t' : Text} :
    ruleText u none ++ '|' :: t ≠ ruleText u (some r) ++ '|' :: t' := by
  have hnone : "<no-rule>".toList = '<' :: "no-rule>".toList := by decide +kernel
  have hsome : "rul_".toList = 'r' :: "ul_".toList := by decide +kernel
  show "<no-rule>".toList ++ _ ≠ "rul_".toList ++ _ ++ _ ++ _
  rw [hnone, hsome]
  exact fun h => absurd (List.cons.inj h).1 (by decide)

theorem ruleText_inj {u : Uuids} (hu : ∀ raw, '|' ∉ u.simple raw) {r r' : Option RuleRef}
    {t t' : Text} (h : ruleText u r ++ '|' :: t = ruleText u r' ++ '|' :: t') :
    r.map (fun r => (r.id, r.version)) = r'.map (fun r => (r.id, r.version)) ∧ t = t' := by
  cases r with
  | none =>
    cases r' with
    | none => exact ⟨rfl, (List.cons.inj ((append_right_inj (ruleText u none)).mp h)).2⟩
    | some r' => exact absurd h ruleText_ne
  | some r =>
    cases r' with
    | none => exact absurd h.symm ruleText_ne
    | some r' =>
      rw [ruleText_some, ruleText_some] at h
      simp only [append_assoc, cons_append] at h
      obtain ⟨hid, h⟩ := line_unique (hu r.id) (hu r'.id) (append_cancel_left h)
      obtain ⟨hversion, h⟩ := line_unique (bar_not_mem_toDigits _) (bar_not_mem_toDigits _) h
      have hid := congrArg u.parseStr hid
      have hversion := congrArg (Nat.ofDigitChars 10 · 0) hversion
      simp only [u.parseStr_simple, Except.ok.injEq, Nat.ofDigitChars_ten_toDigits] at hid hversion
      exact ⟨by simp [hid, hversion], h⟩

theorem dedupeKey_eq (u : Uuids) (rule : Option RuleRef) (captures : Option Captures)
    (kind : Text) : dedupeKey u rule captures kind = ruleText u rule ++ '|' :: (kind ++ '|' ::
      (sortedCaptures captures).flatMap fun e => e.1 ++ '=' :: e.2 ++ [';']) := by
  cases rule <;> exact append_assoc _ ('|' :: kind) _

theorem dedupeKey_inj {u : Uuids} (hu : ∀ raw, '|' ∉ u.simple raw) {d d' : EventDraft}
    (hd : Plain d) (hd' : Plain d') (h : d.dedupeKey u = d'.dedupeKey u) : SameKind d d' := by
  rw [EventDraft.dedupeKey, EventDraft.dedupeKey, dedupeKey_eq, dedupeKey_eq] at h
  obtain ⟨hrule, h⟩ := ruleText_inj hu h
  obtain ⟨hkind, h⟩ := line_unique hd.1 hd'.1 h
  exact ⟨hrule, hkind, printed_captures_inj (plain_sorted hd) (plain_sorted hd') h⟩

/-! ## What a batch folds -/

inductive DedupeCall where
  | apply (drafts : List EventDraft) (policy : NoisePolicy) (now : Time)
  | register (d : EventDraft) (seq : Nat)

def callDedupe (u : Uuids) (dd : Dedupe) : DedupeCall → Dedupe
  | .apply drafts policy now => (dd.applyAt u drafts policy now).2
  | .register d seq => dd.registerEmitted u d seq

def DedupeCall.drafts : DedupeCall → List EventDraft
  | .apply drafts _ _ => drafts
  | .register d _ => [d]

structure Folds (u : Uuids) (calls : List DedupeCall) (b : Batch) : Prop where
  emit : ∀ d ∈ b.emit, Plain d
  index : ∀ key i, b.batchIndex key = some i → (b.emit.map (·.dedupeKey u))[i]? = some key
  rows : ∀ key e seq, b.state key = some e → e.representativeSeq = some seq →
    ∃ d, .register d seq ∈ calls ∧ d.dedupeKey u = key
  folded : ∀ c ∈ b.collapsed, Plain c.draft ∧
    (c.draft.dedupeKey u ∈ b.emit.map (·.dedupeKey u) ∨
      ∃ p ∈ b.patches, ∃ d, .register d p.seq ∈ calls ∧ d.dedupeKey u = c.draft.dedupeKey u)

section Batch

variable {u : Uuids} {calls : List DedupeCall} {b : Batch} {d : EventDraft} {entry : DedupeEntry}

theorem Folds.rows_update (h : Folds u calls b) (entry : DedupeEntry)
    (hrow : ∀ seq, entry.representativeSeq = some seq →
      ∃ d', .register d' seq ∈ calls ∧ d'.dedupeKey u = d.dedupeKey u) (key : Text)
    (e : DedupeEntry) (seq : Nat) (he : update b.state (d.dedupeKey u) (some entry) key = some e)
    (hseq : e.representativeSeq = some seq) :
    ∃ d', .register d' seq ∈ calls ∧ d'.dedupeKey u = key := by
  rcases update_eq_some he with ⟨rfl, rfl⟩ | ⟨-, he⟩
  · exact hrow seq hseq
  · exact h.rows key e seq he hseq

theorem map_modify_aggregate (emit : List EventDraft) (i : Nat) (entry : DedupeEntry) :
    (emit.modify i entry.aggregate).map (·.dedupeKey u) = emit.map (·.dedupeKey u) := by
  refine ext_getElem? fun j => ?_
  simp only [getElem?_map, getElem?_modify]
  cases emit[j]? with
  | none => rfl
  | some d => by_cases hij : i = j <;> simp [hij, Batch.aggregate_dedupeKey]

theorem plain_modify_aggregate {emit : List EventDraft} (h : ∀ d ∈ emit, Plain d) (i : Nat)
    (entry : DedupeEntry) : ∀ d ∈ emit.modify i entry.aggregate, Plain d := by
  intro d hd
  obtain ⟨j, hj⟩ := mem_iff_getElem?.mp hd
  simp only [getElem?_modify, Option.map_eq_map, Option.map_eq_some_iff] at hj
  obtain ⟨d', hd', rfl⟩ := hj
  have hplain := h d' (mem_of_getElem? hd')
  split_ifs
  · exact hplain
  · exact hplain

theorem Folds.push (h : Folds u calls b) (hd : Plain d) :
    Folds u calls { b with emit := b.emit ++ [d] } where
  emit := List.forall_mem_append.mpr ⟨h.emit, List.forall_mem_singleton.mpr hd⟩
  index key i hi := by
    have hold := h.index key i hi
    rw [map_append, getElem?_append_left (List.getElem?_eq_some_iff.mp hold).1, hold]
  rows := h.rows
  folded c hc := by
    obtain ⟨hplain, hto⟩ := h.folded c hc
    refine ⟨hplain, hto.imp_left fun hmem => ?_⟩
    rw [map_append]
    exact mem_append_left _ hmem

theorem Folds.represent (h : Folds u calls b) (hd : Plain d)
    (hrow : entry.representativeSeq = none) :
    Folds u calls (b.represent (d.dedupeKey u) entry d) := by
  have hpush := h.push (d := entry.aggregate d) hd
  refine ⟨hpush.emit, fun key i hi => ?_, h.rows_update entry fun seq hseq => ?_, hpush.folded⟩
  · dsimp only [Batch.represent] at hi
    by_cases hkey : key = d.dedupeKey u
    · rw [hkey, update_self, Option.some.injEq] at hi
      rw [← hi, hkey]
      simp [Batch.represent, Batch.aggregate_dedupeKey]
    · rw [update_of_ne hkey] at hi
      exact hpush.index key i hi
  · rw [hrow] at hseq
    cases hseq

theorem Folds.take (h : Folds u calls b) (policy : NoisePolicy) (hd : Plain d) :
    Folds u calls (b.take u policy d) := by
  unfold Batch.take
  split_ifs
  · exact h.push hd
  dsimp only
  split
  · next entry he =>
    have hrows := h.rows_update (entry.take d) fun seq hseq => h.rows _ entry seq he hseq
    split
    · next i hi =>
      refine ⟨plain_modify_aggregate h.emit i _, fun key j hj => ?_, hrows, ?_⟩
      · rw [map_modify_aggregate]
        exact h.index key j hj
      · rw [map_modify_aggregate]
        refine forall_mem_append.mpr ⟨h.folded, forall_mem_singleton.mpr ⟨hd, .inl ?_⟩⟩
        exact mem_of_getElem? (h.index _ i hi)
    · split
      · next seq hseq =>
        refine ⟨h.emit, h.index, hrows, ?_⟩
        refine forall_mem_append.mpr ⟨fun c hc => ?_,
          forall_mem_singleton.mpr ⟨hd, .inr ⟨_, mem_append_right _ mem_cons_self, ?_⟩⟩⟩
        · obtain ⟨hplain, hto⟩ := h.folded c hc
          refine ⟨hplain, hto.imp_right ?_⟩
          rintro ⟨p, hp, hreg⟩
          exact ⟨p, mem_append_left _ hp, hreg⟩
        · exact h.rows _ entry seq he hseq
      · next hrow => exact h.represent hd hrow
  · exact h.represent hd rfl

theorem Folds.foldl (h : Folds u calls b) (policy : NoisePolicy) {drafts : List EventDraft}
    (hdrafts : ∀ d ∈ drafts, Plain d) : Folds u calls (drafts.foldl (Batch.take u policy) b) := by
  induction drafts generalizing b with
  | nil => exact h
  | cons d drafts ih =>
    obtain ⟨hd, hdrafts⟩ := forall_mem_cons.mp hdrafts
    exact ih (h.take policy hd) hdrafts

end Batch

def Registered (u : Uuids) (calls : List DedupeCall) (dd : Dedupe) : Prop :=
  ∀ key e seq, dd.state key = some e → e.representativeSeq = some seq →
    ∃ d, .register d seq ∈ calls ∧ d.dedupeKey u = key

theorem Registered.folds {u : Uuids} {calls : List DedupeCall} {dd : Dedupe}
    (h : Registered u calls dd) {drafts : List EventDraft} (hdrafts : ∀ d ∈ drafts, Plain d)
    (policy : NoisePolicy) (now : Time) : Folds u calls (dd.applyAt u drafts policy now).1 := by
  refine Folds.foldl ⟨?_, ?_, fun key e seq he hseq => ?_, ?_⟩ policy hdrafts
  · simp [Batch.start]
  · simp [Batch.start]
  · exact h key e seq (Option.filter_eq_some_iff.mp he).1 hseq
  · simp [Batch.start]

theorem registered_foldl {u : Uuids} (calls : List DedupeCall)
    (h : ∀ call ∈ calls, ∀ d ∈ call.drafts, Plain d) :
    Registered u calls (calls.foldl (callDedupe u) .new) := by
  induction calls using reverseRecOn with
  | nil => exact fun key e seq he => by simp [Dedupe.new] at he
  | append_singleton calls call ih =>
    obtain ⟨hcalls, hcall⟩ := forall_mem_append.mp h
    have hreg := ih hcalls
    rw [foldl_append, foldl_cons, foldl_nil]
    have hmore {key : Text} {seq : Nat} (hold : ∃ d, .register d seq ∈ calls ∧ d.dedupeKey u = key) :
        ∃ d, .register d seq ∈ calls ++ [call] ∧ d.dedupeKey u = key :=
      hold.imp fun d => And.imp_left (mem_append_left _)
    intro key e seq he hseq
    cases call with
    | apply drafts policy now =>
      exact hmore ((hreg.folds (hcall _ mem_cons_self) policy now).rows key e seq he hseq)
    | register d seq' =>
      rcases NoisePipeline.registerEmitted_eq_some he with ⟨hkey, e0, he0, rfl⟩ | ⟨hkey, he0⟩
      · obtain rfl : seq' = seq := Option.some.inj hseq
        exact ⟨d, by simp, hkey.symm⟩
      · exact hmore (hreg key e seq he0 hseq)

def lineDrafts {x : Externals} (runtime : SifterRuntime x) (text : String) : List EventDraft :=
  runtime.evaluate ⟨0, 0, .stdout, text.toList, some 1, none⟩ 1 0

def emitted (d : EventDraft) : List DedupeCall := [.apply [d] .default 0, .register d 1]

end MergedSignals

end TerminalCommander
