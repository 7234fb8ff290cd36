import TerminalCommander.Sifters.Keywords

/-!
# Redacted captures

A rule that redacts some of its groups makes drafts in which the text of these groups does not
show: two lines that it matches and that differ in nothing else have the same summary and the same
captures. The line itself reaches a draft only through the full-match keys, which such a rule
fills with a notice.
-/

namespace TerminalCommander

open List Option

def AlikeBut (hidden : List Text) (a b : Captures) : Prop :=
  List.Forall₂ (fun e f => e.1 = f.1 ∧ (e.1 ∉ hidden → e.2 = f.2)) a b

namespace AlikeBut

variable {hidden : List Text} {a b : Captures}

theorem eq (h : AlikeBut [] a b) : a = b := by
  induction h with
  | nil => rfl
  | cons hef _ ih => rw [ih, Prod.ext hef.1 (hef.2 not_mem_nil)]

theorem containsKey (h : AlikeBut hidden a b) (key : Text) :
    a.containsKey key = b.containsKey key := by
  induction h with
  | nil => rfl
  | cons hef _ ih =>
    simp only [Captures.containsKey, any_cons] at ih ⊢
    rw [hef.1, ih]

theorem insert (h : AlikeBut hidden a b) (key : Text) {v w : Text}
    (hvw : key ∉ hidden → v = w) : AlikeBut hidden (a.insert key v) (b.insert key w) := by
  unfold Captures.insert
  rw [h.containsKey key]
  split_ifs
  · refine forall₂_map_left_iff.mpr (forall₂_map_right_iff.mpr (h.imp ?_))
    intro e f hef
    rw [← hef.1]
    split_ifs
    · exact ⟨rfl, hvw⟩
    · exact hef
  · exact rel_append h (.cons ⟨rfl, hvw⟩ .nil)

theorem redact {key : Text} (h : AlikeBut (key :: hidden) a b) (v : Text) :
    AlikeBut hidden (a.map fun e => if e.1 = key then (key, v) else e)
      (b.map fun e => if e.1 = key then (key, v) else e) := by
  refine forall₂_map_left_iff.mpr (forall₂_map_right_iff.mpr (h.imp ?_))
  intro e f hef
  rw [← hef.1]
  split_ifs with he
  · exact ⟨rfl, fun _ => rfl⟩
  · exact ⟨hef.1, fun hmem => hef.2 (by simp [he, hmem])⟩

end AlikeBut

theorem Captures.redact_eq (captures : Captures) (key v : Text) :
    (if captures.containsKey key then captures.insert key v else captures) =
      captures.map fun e => if e.1 = key then (key, v) else e := by
  unfold Captures.insert
  split_ifs with hkey
  · rfl
  · symm
    simp only [Captures.containsKey, List.any_eq_true, decide_eq_true_eq] at hkey
    exact (map_congr_left fun e he => if_neg fun heq => hkey ⟨e, he, heq⟩).trans
      (List.map_id _)

theorem AlikeBut.foldl_redact {hidden : List Text} {a b : Captures} (h : AlikeBut hidden a b)
    (v : Text) :
    hidden.foldl (fun (acc : Captures) r => if acc.containsKey r then acc.insert r v else acc) a =
      hidden.foldl (fun (acc : Captures) r => if acc.containsKey r then acc.insert r v else acc)
        b := by
  induction hidden generalizing a b with
  | nil => exact h.eq
  | cons key hidden ih =>
    simp only [foldl_cons, Captures.redact_eq] at ih ⊢
    exact ih (h.redact v)

namespace SifterRuntimeInner

variable {x : Externals}

theorem namedCaptures_alike (rule : RegexRule x) {g g' : Text → Option Text}
    (hgroups : ∀ name ∈ x.captureNames rule.compiled,
      (g name).isSome = (g' name).isSome ∧ (name ∉ rule.rule.redact → g name = g' name)) :
    namedCaptures rule g = namedCaptures rule g' := by
  refine AlikeBut.foldl_redact ?_ _
  refine rel_foldl (P := AlikeBut rule.rule.redact)
    (R := fun n m => n = m ∧ n ∈ x.captureNames rule.compiled) ?_ .nil
    (forall₂_same.mpr fun n hn => ⟨rfl, hn⟩)
  rintro a b hab name _ ⟨rfl, hname⟩
  obtain ⟨hsome, hsame⟩ := hgroups name hname
  cases hg : g name <;> cases hg' : g' name <;> simp only [hg, hg', isSome] at hsome hsame ⊢
  · exact hab
  · cases hsome
  · cases hsome
  · exact hab.insert name fun hshown => some.inj (hsame hshown)

theorem mem_regexPass {inner : SifterRuntimeInner x} {input : SiftInput} {hit : Nat}
    {d : EventDraft} (h : (inner.keywordRules.length + hit, d) ∈ inner.regexPass input)
    {rule : RegexRule x} (hrule : inner.regexRules[hit]? = some rule) {g : Text → Option Text}
    (hcaptures : x.captures rule.compiled input.text = some g) :
    input.draft x rule.rule (namedCaptures rule g) = some d := by
  unfold regexPass at h
  split at h
  · cases h
  · obtain ⟨i, -, hi⟩ := mem_flatMap.mp h
    unfold regexStep at hi
    split at hi
    · cases hi
    · next rule' hrule' =>
      split_ifs at hi
      · split at hi
        · cases hi
        · next g' hg' =>
          obtain ⟨d', hd', heq⟩ := List.mem_map.mp hi
          obtain ⟨hindex, rfl⟩ := Prod.mk.inj heq
          obtain rfl : i = hit := by omega
          rw [hrule, some.injEq] at hrule'
          subst hrule'
          rw [hcaptures, some.injEq] at hg'
          subst hg'
          exact mem_toList.mp hd'
      · cases hi

/-- **Redaction.** Two lines that a rule with redaction matches, with the same groups taking part
and the same text in every group that is not redacted, have drafts that look the same. -/
theorem redacted_text_hidden (inner : SifterRuntimeInner x) (hit : Nat) (rule : RegexRule x)
    (hrule : inner.regexRules[hit]? = some rule) (hredact : rule.rule.redact ≠ [])
    (input input' : SiftInput) (g g' : Text → Option Text)
    (hmatch : x.captures rule.compiled input.text = some g)
    (hmatch' : x.captures rule.compiled input'.text = some g')
    (hgroups : ∀ name ∈ x.captureNames rule.compiled,
      (g name).isSome = (g' name).isSome ∧ (name ∉ rule.rule.redact → g name = g' name))
    (d d' : EventDraft)
    (hd : (inner.keywordRules.length + hit, d) ∈ inner.regexPass input)
    (hd' : (inner.keywordRules.length + hit, d') ∈ inner.regexPass input') :
    d.summary = d'.summary ∧ d.captures = d'.captures ∧ d.kind = d'.kind ∧
      d.severity = d'.severity ∧ d.tags = d'.tags := by
  have hdraft := mem_regexPass hd hrule hmatch
  have hdraft' := mem_regexPass hd' hrule hmatch'
  have hline : injectFullMatch (namedCaptures rule g) input.text rule.rule.redact =
      injectFullMatch (namedCaptures rule g') input'.text rule.rule.redact := by
    rw [namedCaptures_alike rule hgroups]
    simp only [injectFullMatch, fullMatchValue, if_neg hredact]
  simp only [SiftInput.draft, buildDraft_eq, some.injEq] at hdraft hdraft'
  rw [← hdraft, ← hdraft', hline]
  exact ⟨rfl, rfl, rfl, rfl, rfl⟩

def secretExternals : Externals :=
  { scanExternals with
    setMatches := fun _ _ => [0]
    captureNames := fun _ => ["a".toList]
    captures := fun _ t => some fun _ => some t }

def secretRule : RegexRule secretExternals :=
  ⟨{ keywordRule "k".toList [] with
      kind := .regex
      pattern := some "(?P<a>.*)".toList
      captures := ["a".toList]
      summaryTemplate := "login of $\x7ba\x7d".toList
      redact := ["a".toList] }, ()⟩

def secretLine (text : String) : SiftInput := ⟨⟨0, 0, .stdout, text.toList, some 1, none⟩, 0, 0⟩

theorem redacted_names_hidden : ∃ d d' : EventDraft,
    (0, d) ∈ regexPass ⟨[], none, [], [secretRule], some ()⟩ (secretLine "ann") ∧
      (0, d') ∈ regexPass ⟨[], none, [], [secretRule], some ()⟩ (secretLine "bob") ∧
      d.summary = d'.summary :=
  ⟨_, _, mem_cons_self, mem_cons_self,
    (redacted_text_hidden ⟨[], none, [], [secretRule], some ()⟩ 0 secretRule rfl (by decide)
      (secretLine "ann") (secretLine "bob") _ _ rfl rfl (by decide +kernel) _ _
      mem_cons_self mem_cons_self).1⟩

end SifterRuntimeInner

end TerminalCommander
