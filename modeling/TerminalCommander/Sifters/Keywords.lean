import TerminalCommander.Lib.Table
import TerminalCommander.Sifters.Runtime

/-!
# When keyword rules hide one another

All keywords go into one automaton, whose scan reports one pattern per match and no overlapping
matches. A rule fires if a match is reported for it; it should fire if one of its keywords
occurs. `keyword_rules_independent_iff` says for which lists of rules the two are the same:
those in which no two rules have keywords, minimal within their rule, that overlap in some text.
-/

namespace TerminalCommander

open PatternScan List Option SifterRuntimeInner Nat

def Externals.ScansStandard (x : Externals) : Prop :=
  ∀ ps ac, (∀ p ∈ ps, p ≠ []) → x.newAhoCorasick ps = .ok ac →
    ∀ t, StandardScan ps t 0 (x.findIter ac t)

/-! ## What building leaves -/

namespace BuildAcc

variable {x : Externals}

def owner (acc : BuildAcc x) (k : Nat) : Option Nat := acc.kwPatternToRule[k]?

structure Indexed (acc : BuildAcc x) (rules : List RuleDefinition) : Prop where
  rules : acc.keywordRules.map KeywordRule.rule = rules
  keywords : ∀ kr ∈ acc.keywordRules, kr.keywords = sortedKeywords (kr.rule.keywords.getD [])
  total : acc.kwPatternToRule.length = acc.kwPatterns.length
  owned : ∀ i p, Owned acc.kwPatterns acc.owner (some i) p ↔
    ∃ kr, acc.keywordRules[i]? = some kr ∧ p ∈ kr.keywords
  nonempty : ∀ p ∈ acc.kwPatterns, p ≠ []
  noRegex : acc.regexRules = []

theorem mem_sortedKeywords {kws : List Text} {p : Text} : p ∈ sortedKeywords kws ↔ p ∈ kws :=
  (perm_insertionSort _ kws).mem_iff

theorem owned_append {ps new : List Text} {map : List Nat} (n i : Nat) (p : Text)
    (hlen : map.length = ps.length) :
    Owned (ps ++ new) (fun k => (map ++ new.map fun _ => n)[k]?) (some i) p ↔
      Owned ps (fun k => map[k]?) (some i) p ∨ i = n ∧ p ∈ new := by
  constructor
  · rintro ⟨k, hk, ho⟩
    dsimp only at ho
    by_cases hlt : k < ps.length
    · rw [getElem?_append_left hlt] at hk
      rw [getElem?_append_left (hlen ▸ hlt)] at ho
      exact .inl ⟨k, hk, ho⟩
    · rw [getElem?_append_right (Nat.not_lt.mp hlt)] at hk
      rw [getElem?_append_right (hlen ▸ Nat.not_lt.mp hlt), getElem?_map, hlen, hk] at ho
      exact .inr ⟨(some.inj ho).symm, mem_of_getElem? hk⟩
  · rintro (⟨k, hk, ho⟩ | ⟨rfl, hp⟩)
    · have hlt : k < ps.length := (List.getElem?_eq_some_iff.mp hk).1
      refine ⟨k, ?_, ?_⟩
      · rw [getElem?_append_left hlt, hk]
      · dsimp only
        rw [getElem?_append_left (hlen ▸ hlt)]
        exact ho
    · obtain ⟨k, hk⟩ := mem_iff_getElem?.mp hp
      refine ⟨ps.length + k, ?_, ?_⟩
      · rw [getElem?_append_right (Nat.le_add_right _ _), Nat.add_sub_cancel_left, hk]
      · dsimp only
        rw [← hlen, getElem?_append_right (Nat.le_add_right _ _), Nat.add_sub_cancel_left,
          getElem?_map, hk]
        rfl

theorem Indexed.addKeyword {acc acc' : BuildAcc x} {rules : List RuleDefinition}
    {rule : RuleDefinition} (h : acc.Indexed rules) (hvalid : rule.validate x = .ok ())
    (hkind : rule.kind = .keyword) (hadd : acc.addKeyword rule = .ok acc') :
    acc'.Indexed (rules ++ [rule]) := by
  obtain ⟨kws, hkws, hne, hnonempty⟩ := RuleDefinition.validate_keyword hvalid hkind
  unfold BuildAcc.addKeyword at hadd
  rw [hkws] at hadd
  simp only [if_neg hne, Except.ok.injEq] at hadd
  subst hadd
  refine ⟨?_, ?_, ?_, ?_, ?_, h.noRegex⟩ <;> dsimp only
  · rw [map_append, h.rules]
    rfl
  · intro kr hkr
    rcases mem_append.mp hkr with hkr | hkr
    · exact h.keywords kr hkr
    · rw [mem_singleton.mp hkr, hkws]
      rfl
  · rw [length_append, length_append, length_map, h.total]
  · intro i p
    refine (owned_append acc.keywordRules.length i p h.total).trans ?_
    simp only [Table.getElem?_concat]
    constructor
    · rintro (hold | ⟨hi, hp⟩)
      · obtain ⟨kr, hkr, hp⟩ := (h.owned i p).mp hold
        exact ⟨kr, .inl hkr, hp⟩
      · exact ⟨_, .inr ⟨hi, rfl⟩, hp⟩
    · rintro ⟨kr, hkr | ⟨hi, rfl⟩, hp⟩
      · exact .inl ((h.owned i p).mpr ⟨kr, hkr, hp⟩)
      · exact .inr ⟨hi, hp⟩
  · intro p hp
    rcases mem_append.mp hp with hp | hp
    · exact h.nonempty p hp
    · exact hnonempty p (mem_sortedKeywords.mp hp)

theorem Indexed.add {acc acc' : BuildAcc x} {rules : List RuleDefinition} {rule : RuleDefinition}
    (h : acc.Indexed rules) (hkind : rule.kind = .keyword) (hadd : acc.add rule = .ok acc') :
    acc'.Indexed (rules ++ [rule]) := by
  unfold BuildAcc.add at hadd
  rcases hv : rule.validate x with e | ⟨⟩
  · rw [hv] at hadd
    cases hadd
  · rw [hv, hkind] at hadd
    dsimp only at hadd
    split_ifs at hadd
    exact h.addKeyword hv hkind hadd

theorem Indexed.addAll : ∀ {rules done : List RuleDefinition} {acc acc' : BuildAcc x},
    acc.Indexed done → (∀ r ∈ rules, r.kind = .keyword) → BuildAcc.addAll rules acc = .ok acc' →
    acc'.Indexed (done ++ rules) := by
  intro rules
  induction rules with
  | nil =>
    intro done acc acc' h _ hadd
    cases hadd
    rw [append_nil]
    exact h
  | cons rule rules ih =>
    intro done acc acc' h hkind hadd
    rw [BuildAcc.addAll, bind_eq_ok] at hadd
    obtain ⟨acc1, hadd1, hadd⟩ := hadd
    have h1 := h.add (hkind rule mem_cons_self) hadd1
    have h2 := ih h1 (fun r hr => hkind r (mem_cons_of_mem rule hr)) hadd
    rw [append_assoc] at h2
    exact h2

theorem indexed_nil : (⟨[], [], [], []⟩ : BuildAcc x).Indexed [] := by
  refine ⟨rfl, fun kr h => absurd h not_mem_nil, rfl, ?_, fun p h => absurd h not_mem_nil, rfl⟩
  intro i p
  constructor
  · rintro ⟨k, hk, -⟩
    cases hk
  · rintro ⟨kr, hkr, -⟩
    cases hkr

end BuildAcc

variable {rules : List RuleDefinition} {x : Externals}

theorem buildInner_keyword {inner : SifterRuntimeInner x} (hkind : ∀ r ∈ rules, r.kind = .keyword)
    (h : buildInner x rules = .ok inner) :
    ∃ acc : BuildAcc x, acc.Indexed rules ∧ inner.keywordRules = acc.keywordRules ∧
      inner.kwPatternToRule = acc.kwPatternToRule ∧ inner.regexSet = none ∧
      (acc.kwPatterns = [] ∧ inner.keywordAc = none ∨
        ∃ ac, x.newAhoCorasick acc.kwPatterns = .ok ac ∧ inner.keywordAc = some ac) := by
  unfold buildInner at h
  simp only [bind_eq_ok] at h
  obtain ⟨acc, hadd, keywordAc, hac, regexSet, hset, hinner⟩ := h
  have hidx := BuildAcc.indexed_nil.addAll hkind hadd
  rw [nil_append] at hidx
  cases hinner
  refine ⟨acc, hidx, rfl, rfl, ?_, ?_⟩
  · unfold buildRegexSet at hset
    rw [hidx.noRegex] at hset
    cases hset
    rfl
  · unfold buildKeywordAc at hac
    split_ifs at hac with hnil
    · cases hac
      exact .inl ⟨hnil, rfl⟩
    · rcases hnew : x.newAhoCorasick acc.kwPatterns with reason | ac
      · rw [hnew] at hac
        cases hac
      · rw [hnew] at hac
        cases hac
        exact .inr ⟨ac, rfl, rfl⟩

/-! ## What one pass emits -/

variable {i : Nat}

namespace SifterRuntimeInner

variable {x : Externals} (inner : SifterRuntimeInner x) (input : SiftInput)

def Hit (ms : List Match) (i : Nat) : Prop :=
  ∃ m ∈ ms, ∃ kr, inner.ruleOfMatch m = some (i, kr) ∧
    streamMatches kr.rule.stream input.frame.stream = true

structure Counts (seen : List Match) (acc : KeywordAcc) : Prop where
  length : acc.fired.length = inner.keywordRules.length
  fired : ∀ i, acc.fired[i]? = some true ↔ inner.Hit input seen i
  count : ∀ i, acc.out.countP (fun d => decide (d.1 = i)) =
    if acc.fired[i]? = some true then 1 else 0

variable {inner input}

variable {m : Match}

theorem ruleOfMatch_eq_some {kr : KeywordRule} : inner.ruleOfMatch m = some (i, kr) ↔
      inner.kwPatternToRule[m.pattern]? = some i ∧ inner.keywordRules[i]? = some kr := by
  unfold ruleOfMatch
  simp only [bind_eq_bind, bind_eq_some_iff, some.injEq, Prod.mk.injEq]
  constructor
  · rintro ⟨i', hi, kr', hkr, rfl, rfl⟩
    exact ⟨hi, hkr⟩
  · rintro ⟨hi, hkr⟩
    exact ⟨i, hi, kr, hkr, rfl, rfl⟩

theorem Hit.mono {ms : List Match} (h : inner.Hit input ms i) (m : Match) :
    inner.Hit input (ms ++ [m]) i := by
  obtain ⟨m', hm', h⟩ := h
  exact ⟨m', mem_append_left _ hm', h⟩

theorem hit_concat {ms : List Match} : inner.Hit input (ms ++ [m]) i ↔
    inner.Hit input ms i ∨ ∃ kr, inner.ruleOfMatch m = some (i, kr) ∧
      streamMatches kr.rule.stream input.frame.stream := by
  constructor
  · rintro ⟨m', hm', h⟩
    rcases mem_append.mp hm' with hm' | hm'
    · exact .inl ⟨m', hm', h⟩
    · exact .inr (mem_singleton.mp hm' ▸ h)
  · rintro (h | h)
    · exact h.mono m
    · exact ⟨m, mem_append_right _ (mem_singleton_self m), h⟩

variable {seen : List Match}

section

variable {acc : KeywordAcc} (h : inner.Counts input seen acc)

include h

theorem Counts.skip (hold : ∀ i kr, inner.ruleOfMatch m = some (i, kr) →
      streamMatches kr.rule.stream input.frame.stream → acc.fired[i]? = some true) :
    inner.Counts input (seen ++ [m]) acc := by
  refine ⟨h.length, fun i => ?_, h.count⟩
  rw [h.fired, hit_concat]
  constructor
  · exact .inl
  · rintro (hit | ⟨kr, hkr, hs⟩)
    · exact hit
    · exact (h.fired i).mp (hold i kr hkr hs)

theorem Counts.fire {kr : KeywordRule} (hm : inner.ruleOfMatch m = some (i, kr))
    (hs : streamMatches kr.rule.stream input.frame.stream)
    (hnew : acc.fired[i]? ≠ some true) (d : EventDraft) :
    inner.Counts input (seen ++ [m]) ⟨acc.fired.set i true, acc.out ++ [(i, d)]⟩ := by
  have hi : i < acc.fired.length := by
    rw [h.length]
    exact (List.getElem?_eq_some_iff.mp (ruleOfMatch_eq_some.mp hm).2).1
  have hset : ∀ j, (acc.fired.set i true)[j]? = some true ↔ acc.fired[j]? = some true ∨ j = i := by
    intro j
    rw [getElem?_set]
    by_cases hj : i = j
    · subst hj
      simp [hi]
    · simp [hj, Ne.symm hj]
  refine ⟨by rw [length_set, h.length], fun j => ?_, fun j => ?_⟩ <;> dsimp only
  · rw [hset, h.fired, hit_concat]
    constructor
    · rintro (hit | rfl)
      · exact .inl hit
      · exact .inr ⟨kr, hm, hs⟩
    · rintro (hit | ⟨kr', hm', -⟩)
      · exact .inl hit
      · rw [hm, some.injEq, Prod.mk.injEq] at hm'
        exact .inr hm'.1.symm
  · rw [countP_append, h.count, if_congr (hset j) rfl rfl, countP_singleton]
    by_cases hj : j = i
    · subst hj
      simp [hnew]
    · simp [hj, Ne.symm hj]

theorem Counts.step (m : Match) : inner.Counts input (seen ++ [m])
    (inner.keywordStep input acc m) := by
  unfold keywordStep
  rcases hm : inner.ruleOfMatch m with _ | ⟨i, kr⟩
  · exact h.skip fun i kr hkr => by rw [hm] at hkr; cases hkr
  · dsimp only
    split_ifs with hold hs
    · refine h.skip fun j kr' hkr _ => ?_
      rw [hm, some.injEq, Prod.mk.injEq] at hkr
      exact hkr.1 ▸ hold
    · rw [SiftInput.draft, buildDraft_eq]
      exact h.fire hm hs hold _
    · refine h.skip fun j kr' hkr hs' => ?_
      rw [hm, some.injEq, Prod.mk.injEq] at hkr
      exact absurd (hkr.2 ▸ hs') hs

end

theorem Counts.foldl : ∀ {ms seen : List Match} {acc : KeywordAcc}, inner.Counts input seen acc →
    inner.Counts input (seen ++ ms) (ms.foldl (inner.keywordStep input) acc) := by
  intro ms
  induction ms with
  | nil =>
    intro seen acc h
    rw [append_nil]
    exact h
  | cons m ms ih =>
    intro seen acc h
    have h' := ih (h.step m)
    rw [append_assoc] at h'
    exact h'

theorem counts_start : inner.Counts input [] ⟨inner.keywordRules.map fun _ => false, []⟩ := by
  have hfalse : ∀ i : Nat, (inner.keywordRules.map fun _ => false)[i]? ≠ some true := by
    intro i h
    rw [getElem?_map] at h
    obtain ⟨_, -, h⟩ := map_eq_some_iff.mp h
    cases h
  refine ⟨length_map _, fun i => ?_, fun i => (if_neg (hfalse i)).symm⟩
  constructor
  · exact fun h => absurd h (hfalse i)
  · rintro ⟨m, hm, -⟩
    cases hm

def draftCount (drafts : List (Nat × EventDraft)) (i : Nat) : Nat :=
  drafts.countP fun d => decide (d.1 = i)

variable (input) in
theorem keywordPass_count {ac : x.AhoCorasick} (hac : inner.keywordAc = some ac) (i : Nat) :
    (inner.Hit input (x.findIter ac input.text) i → draftCount (inner.keywordPass input) i = 1) ∧
      (¬ inner.Hit input (x.findIter ac input.text) i →
        draftCount (inner.keywordPass input) i = 0) := by
  have h : inner.Counts input (x.findIter ac input.text) _ := counts_start.foldl
  rw [← h.fired]
  unfold draftCount keywordPass
  simp only [hac]
  rw [h.count]
  exact ⟨fun hit => if_pos hit, fun hit => if_neg hit⟩

end SifterRuntimeInner

/-! ## Which rules should fire -/

def RuleDefinition.Occurs (rule : RuleDefinition) (input : SiftInput) : Prop :=
  streamMatches rule.stream input.frame.stream = true ∧
    ∃ kw ∈ rule.keywords.getD [], kw <:+: input.text

instance (rule : RuleDefinition) (input : SiftInput) : Decidable (rule.Occurs input) :=
  inferInstanceAs (Decidable (_ ∧ _))

def KeywordsIndependent {x : Externals} (inner : SifterRuntimeInner x)
    (rules : List RuleDefinition) : Prop :=
  ∀ (input : SiftInput) (i : Nat) (rule : RuleDefinition), rules[i]? = some rule →
    SifterRuntimeInner.draftCount (inner.evaluateTagged input) i =
      if rule.Occurs input then 1 else 0

def KeywordOf (rules : List RuleDefinition) (i : Nat) (kw : Text) : Prop :=
  ∃ rule, rules[i]? = some rule ∧ kw ∈ rule.keywords.getD []

def MinimalKeyword (rules : List RuleDefinition) (i : Nat) (kw : Text) : Prop :=
  KeywordOf rules i kw ∧ ∀ kw', KeywordOf rules i kw' → kw' <:+: kw → kw' = kw

def KeywordsClash (rules : List RuleDefinition) : Prop :=
  ∃ i j kw kw' t a b, i ≠ j ∧ MinimalKeyword rules i kw ∧ MinimalKeyword rules j kw' ∧
    Text.len t ≤ MAX_SIFT_BYTES ∧ OccursAt kw t a ∧ OccursAt kw' t b ∧
    a < b + kw'.length ∧ b < a + kw.length

theorem Text.len_le_of_infix {t u : Text} (h : u <:+: t) : u.len ≤ t.len := by
  obtain ⟨pre, post, rfl⟩ := h
  rw [Text.len_append, Text.len_append]
  omega

theorem SiftInput.len_text_le (input : SiftInput) : input.text.len ≤ MAX_SIFT_BYTES := by
  unfold SiftInput.text capText
  split_ifs with h
  · exact h
  · exact Text.len_takeBytes_le _ _

variable {acc : BuildAcc x}

section

variable (h : acc.Indexed rules)

include h

theorem BuildAcc.Indexed.owned_iff (i : Nat) (p : Text) :
    Owned acc.kwPatterns acc.owner (some i) p ↔ KeywordOf rules i p := by
  rw [h.owned, KeywordOf, ← h.rules]
  simp only [getElem?_map, map_eq_some_iff]
  constructor
  · rintro ⟨kr, hkr, hp⟩
    rw [h.keywords kr (mem_of_getElem? hkr), BuildAcc.mem_sortedKeywords] at hp
    exact ⟨kr.rule, ⟨kr, hkr, rfl⟩, hp⟩
  · rintro ⟨rule, ⟨kr, hkr, rfl⟩, hp⟩
    refine ⟨kr, hkr, ?_⟩
    rw [h.keywords kr (mem_of_getElem? hkr), BuildAcc.mem_sortedKeywords]
    exact hp

theorem BuildAcc.Indexed.minimal_iff (i : Nat) (p : Text) :
    Minimal acc.kwPatterns acc.owner (some i) p ↔ MinimalKeyword rules i p := by
  constructor
  · intro hp
    exact ⟨(h.owned_iff i p).mp hp.owned, fun q hq => hp.minimal q ((h.owned_iff i q).mpr hq)⟩
  · intro hp
    exact ⟨(h.owned_iff i p).mpr hp.1, fun q hq => hp.2 q ((h.owned_iff i q).mp hq)⟩

theorem BuildAcc.Indexed.owner_eq_some {r : Option Nat} {p : Text}
    (hp : Owned acc.kwPatterns acc.owner r p) : ∃ i, r = some i := by
  obtain ⟨k, hk, rfl⟩ := hp
  have hlt : k < acc.kwPatternToRule.length := by
    rw [h.total]
    exact (List.getElem?_eq_some_iff.mp hk).1
  exact ⟨_, getElem?_eq_getElem hlt⟩

theorem BuildAcc.Indexed.clash_iff : KeywordsClash rules ↔
      ∃ t r s p q a b, Text.len t ≤ MAX_SIFT_BYTES ∧
        Clash acc.kwPatterns acc.owner t r s p q a b := by
  constructor
  · rintro ⟨i, j, kw, kw', t, a, b, hij, hkw, hkw', hlen, ha, hb, h1, h2⟩
    exact ⟨t, some i, some j, kw, kw', a, b, hlen, fun he => hij (some.inj he),
      (h.minimal_iff i kw).mpr hkw, (h.minimal_iff j kw').mpr hkw', ha, hb, h1, h2⟩
  · rintro ⟨t, r, s, p, q, a, b, hlen, hc⟩
    obtain ⟨i, rfl⟩ := h.owner_eq_some hc.left.owned
    obtain ⟨j, rfl⟩ := h.owner_eq_some hc.right.owned
    exact ⟨i, j, p, q, t, a, b, fun he => hc.ne (by rw [he]), (h.minimal_iff i p).mp hc.left,
      (h.minimal_iff j q).mp hc.right, hlen, hc.leftAt, hc.rightAt, hc.left_lt, hc.right_lt⟩

end

theorem evaluate_scan (hx : x.ScansStandard)
    {inner : SifterRuntimeInner x} (hkind : ∀ r ∈ rules, r.kind = .keyword)
    (hbuild : buildInner x rules = .ok inner) :
    ∃ (acc : BuildAcc x) (ms : Text → List Match), acc.Indexed rules ∧
      (∀ t, StandardScan acc.kwPatterns t 0 (ms t)) ∧
      ∀ (input : SiftInput) (i : Nat) (rule : RuleDefinition), rules[i]? = some rule →
        (streamMatches rule.stream input.frame.stream ∧
            (∃ m ∈ ms input.text, acc.owner m.pattern = some i) →
          draftCount (inner.evaluateTagged input) i = 1) ∧
        (¬ (streamMatches rule.stream input.frame.stream ∧
            ∃ m ∈ ms input.text, acc.owner m.pattern = some i) →
          draftCount (inner.evaluateTagged input) i = 0) := by
  obtain ⟨acc, hidx, hrules, hmap, hset, hac⟩ := buildInner_keyword hkind hbuild
  rcases hac with ⟨hnil, hac⟩ | ⟨ac, hnew, hac⟩
  · refine ⟨acc, fun _ => [], hidx, fun t => .done fun m hm => ?_, fun input i rule _ => ⟨?_, ?_⟩⟩
    · obtain ⟨p, hp, -⟩ := hm.occurs
      rw [hnil] at hp
      cases hp
    · rintro ⟨-, m, hm, -⟩
      cases hm
    · intro _
      simp only [evaluateTagged, keywordPass, regexPass, hac, hset]
      rfl
  · refine ⟨acc, x.findIter ac, hidx, hx _ _ hidx.nonempty hnew, fun input i rule hrule => ?_⟩
    have hhit : inner.Hit input (x.findIter ac input.text) i ↔
        streamMatches rule.stream input.frame.stream ∧
          ∃ m ∈ x.findIter ac input.text, acc.owner m.pattern = some i := by
      rw [← hidx.rules, getElem?_map] at hrule
      obtain ⟨kr, hkr, rfl⟩ := map_eq_some_iff.mp hrule
      simp only [SifterRuntimeInner.Hit, ruleOfMatch_eq_some, hrules, hmap]
      constructor
      · rintro ⟨m, hm, kr', ⟨ho, hkr'⟩, hs⟩
        rw [hkr, some.injEq] at hkr'
        exact ⟨hkr' ▸ hs, m, hm, ho⟩
      · rintro ⟨hs, m, hm, ho⟩
        exact ⟨m, hm, kr, ⟨ho, hkr⟩, hs⟩
    have hcount := keywordPass_count input hac i
    rw [hhit] at hcount
    have heval : inner.evaluateTagged input = inner.keywordPass input := by
      simp only [evaluateTagged, regexPass, hset, append_nil]
    rw [heval]
    exact hcount

def frameFor (rule : RuleDefinition) (text : Text) : SiftInput :=
  ⟨⟨0, 0, rule.stream.getD .stdout, text, none, none⟩, 0, 0⟩

theorem streamMatches_frameFor (rule : RuleDefinition) (text : Text) :
    streamMatches rule.stream (frameFor rule text).frame.stream := by
  unfold streamMatches frameFor
  rcases rule.stream with _ | s
  · rfl
  · exact decide_eq_true rfl

/-- **Keyword rules.** The rules of a list are evaluated independently of one another, on every
frame, if and only if no two of them have minimal keywords that overlap. -/
theorem keyword_rules_independent_iff (x : Externals) (hx : x.ScansStandard)
    (rules : List RuleDefinition) (hkind : ∀ r ∈ rules, r.kind = .keyword)
    (inner : SifterRuntimeInner x) (hbuild : buildInner x rules = .ok inner) :
    KeywordsIndependent inner rules ↔ ¬ KeywordsClash rules := by
  obtain ⟨acc, ms, hidx, hscan, hcount⟩ := evaluate_scan hx hkind hbuild
  rw [hidx.clash_iff]
  constructor
  · rintro hind ⟨t, r, s, p, q, a, b, hlen, hclash⟩
    have hsmall : ∀ t u : Text, t.len ≤ MAX_SIFT_BYTES → u <:+: t → u.len ≤ MAX_SIFT_BYTES :=
      fun t u ht hu => le_trans (Text.len_le_of_infix hu) ht
    refine not_clash_of_reports hidx.nonempty hsmall ?_ _ hlen rfl hclash
    -- independence reports every owner, on a frame its stream filter accepts
    intro t ht
    refine ⟨ms t, hscan t, fun r p i hp hocc => ?_⟩
    obtain ⟨i, rfl⟩ := hidx.owner_eq_some hp
    obtain ⟨rule, hrule, hkw⟩ := (hidx.owned_iff i p).mp hp
    have htext : (frameFor rule t).text = t :=
      congrArg Prod.fst (if_pos ht)
    have hocc' : rule.Occurs (frameFor rule t) :=
      ⟨streamMatches_frameFor rule t, p, hkw, htext.symm ▸ hocc.isInfix⟩
    have hone := hind (frameFor rule t) i rule hrule
    rw [if_pos hocc'] at hone
    by_contra hnone
    have hzero := (hcount (frameFor rule t) i rule hrule).2 fun h => hnone (htext ▸ h.2)
    omega
  · intro hno input i rule hrule
    have hclash : ∀ r s p q a b, ¬ Clash acc.kwPatterns acc.owner input.text r s p q a b :=
      fun r s p q a b hc => hno ⟨_, r, s, p, q, a, b, input.len_text_le, hc⟩
    split_ifs with hocc
    · obtain ⟨hs, kw, hkw, hin⟩ := hocc
      refine (hcount input i rule hrule).1 ⟨hs, ?_⟩
      obtain ⟨p, hp, hpkw⟩ := exists_minimal ((hidx.owned_iff i kw).mpr ⟨rule, hrule, hkw⟩)
      obtain ⟨a, ha⟩ := exists_occursAt_iff.mpr (hpkw.trans hin)
      exact (hscan input.text).reports hidx.nonempty hclash hp ha (zero_le a)
    · refine (hcount input i rule hrule).2 ?_
      rintro ⟨hs, m, hm, ho⟩
      obtain ⟨p, hp, hpt, -⟩ := ((hscan input.text).candidate m hm).occurs
      obtain ⟨rule', hrule', hkw⟩ := (hidx.owned_iff i p).mp ⟨m.pattern, hp, ho⟩
      rw [hrule, some.injEq] at hrule'
      exact hocc ⟨hs, p, hrule'.symm ▸ hkw, hpt.isInfix⟩

/-! ## Concrete rules -/

def scanExternals : Externals where
  Regex := Unit
  RegexSet := Unit
  AhoCorasick := List Text
  compileBoundedRegex := fun _ => .ok ()
  compileBoundedRegexSet := fun _ => .ok ()
  setMatches := fun _ _ => []
  captureNames := fun _ => []
  captures := fun _ _ => none
  newAhoCorasick := fun ps => .ok ps
  findIter := fun ps t => scan ps t
  toLowercase := fun t => t
  newV5 := fun t => t.length

theorem scanExternals_scansStandard : scanExternals.ScansStandard := by
  rintro ps ac hne ⟨⟩ t
  exact scan_standard hne

def keywordRule (id : Text) (keywords : List Text) : RuleDefinition where
  id := id
  version := 1
  kind := .keyword
  status := .active
  severity := .info
  eventKind := "kw".toList
  stream := none
  pattern := none
  keywords := some keywords
  captures := []
  summaryTemplate := "hit".toList
  tags := []
  redact := []
  contextHint := ⟨0, 0⟩
  examples := []

def apartRules : List RuleDefinition :=
  [keywordRule "left".toList ["a".toList], keywordRule "right".toList ["b".toList]]

theorem keywordOf_apartRules {kw : Text} (h : KeywordOf apartRules i kw) :
    i = 0 ∧ kw = ['a'] ∨ i = 1 ∧ kw = ['b'] := by
  obtain ⟨rule, hrule, hkw⟩ := h
  match i, hrule with
  | 0, hrule =>
    cases hrule
    exact .inl ⟨rfl, mem_singleton.mp hkw⟩
  | 1, hrule =>
    cases hrule
    exact .inr ⟨rfl, mem_singleton.mp hkw⟩

theorem not_keywordsClash_apartRules : ¬ KeywordsClash apartRules := by
  rintro ⟨i, j, kw, kw', t, a, b, hij, ⟨hi, -⟩, ⟨hj, -⟩, -, ha, hb, hab, hba⟩
  rcases keywordOf_apartRules hi with ⟨rfl, rfl⟩ | ⟨rfl, rfl⟩ <;>
    rcases keywordOf_apartRules hj with ⟨rfl, rfl⟩ | ⟨rfl, rfl⟩
  · exact hij rfl
  · obtain rfl : a = b := by rw [length_singleton] at hab hba; omega
    have hchar := (ha 0 zero_lt_one).symm.trans (hb 0 zero_lt_one)
    revert hchar
    decide
  · obtain rfl : a = b := by rw [length_singleton] at hab hba; omega
    have hchar := (ha 0 zero_lt_one).symm.trans (hb 0 zero_lt_one)
    revert hchar
    decide
  · exact hij rfl

theorem apart_rules_independent :
    ∃ inner, buildInner scanExternals apartRules = .ok inner ∧
      KeywordsIndependent inner apartRules := by
  have hkind : ∀ r ∈ apartRules, r.kind = .keyword := by decide
  exact ⟨_, rfl, (keyword_rules_independent_iff scanExternals scanExternals_scansStandard
    apartRules hkind _ rfl).mpr not_keywordsClash_apartRules⟩

def sharedRules : List RuleDefinition :=
  [keywordRule "short".toList ["err".toList], keywordRule "long".toList ["error".toList]]

theorem shared_keyword_rule_hidden :
    ∃ inner, buildInner scanExternals sharedRules = .ok inner ∧
      ¬ KeywordsIndependent inner sharedRules := by
  refine ⟨_, rfl, fun h => ?_⟩
  have hcount := h (frameFor (keywordRule [] []) "error".toList) 1 _ rfl
  revert hcount
  decide +kernel

end TerminalCommander
