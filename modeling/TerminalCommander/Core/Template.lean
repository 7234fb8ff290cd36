import TerminalCommander.Core.Rule

/-!
# Accepted templates render

`validate_template_against_captures` and `render_template` of `core/src/rule.rs` read a template in
the same pieces: the placeholders, each from the leftmost `$` and brace to the next closing brace,
and the characters between them.
-/

namespace TerminalCommander

open List

inductive Fragment where
  | literal (c : Char)
  | placeholder (name : Text)

inductive Fragments : Text → List Fragment → Prop
  | nil : Fragments [] []
  | literal {c : Char} {rest : Text} {pieces : List Fragment} : ¬ ['$', '{'] <+: c :: rest →
      Fragments rest pieces → Fragments (c :: rest) (.literal c :: pieces)
  | placeholder {name rest : Text} {pieces : List Fragment} : '}' ∉ name → Fragments rest pieces →
      Fragments ('$' :: '{' :: (name ++ '}' :: rest)) (.placeholder name :: pieces)

def Fragment.rendered (captures : Captures) : Fragment → Text
  | .literal c => [c]
  | .placeholder name => (captures.get? name).getD []

section Reading

variable (id : Text) (listed : List Text) (captures : Captures) {c : Char} {name rest : Text}

theorem validateTemplateFrom_literal (h : ¬ ['$', '{'] <+: c :: rest) (i : Nat) :
    validateTemplateFrom id listed i none (c :: rest) =
      validateTemplateFrom id listed (i + c.utf8Size) none rest := by
  rw [validateTemplateFrom]
  rintro more rfl rfl
  exact h ⟨more, rfl⟩

theorem renderTemplateFrom_literal (h : ¬ ['$', '{'] <+: c :: rest) (i : Nat) (out : Text) :
    renderTemplateFrom captures i none (c :: rest) out =
      renderTemplateFrom captures (i + c.utf8Size) none rest (out ++ [c]) := by
  rw [renderTemplateFrom]
  rintro more rfl rfl
  exact h ⟨more, rfl⟩

theorem validateTemplateFrom_name (h : '}' ∉ name) (rest : Text) (start i : Nat) (read : Text) :
    ∃ j, validateTemplateFrom id listed i (some (start, read)) (name ++ '}' :: rest) =
      if isReservedMatchKey (read ++ name) ∨ read ++ name ∈ listed then
        validateTemplateFrom id listed j none rest
      else .error (.summaryTemplateUnknownCapture id (read ++ name)) := by
  induction name generalizing i read with
  | nil =>
    rw [append_nil]
    exact ⟨i + 1, if_pos rfl⟩
  | cons c name ih =>
    have hc : c ≠ '}' := fun heq => h (heq ▸ mem_cons_self)
    obtain ⟨j, hj⟩ := ih (fun hmem => h (mem_cons_of_mem c hmem)) (i + c.utf8Size) (read ++ [c])
    rw [append_assoc] at hj
    exact ⟨j, (if_neg hc).trans hj⟩

theorem renderTemplateFrom_name (h : '}' ∉ name) (rest : Text) (start i : Nat) (read out : Text)
    {value : Text} (hvalue : captures.get? (read ++ name) = some value) :
    ∃ j, renderTemplateFrom captures i (some (start, read)) (name ++ '}' :: rest) out =
      renderTemplateFrom captures j none rest (out ++ value) := by
  induction name generalizing i read with
  | nil =>
    rw [append_nil] at hvalue
    refine ⟨i + 1, (if_pos rfl).trans ?_⟩
    rw [hvalue]
  | cons c name ih =>
    have hc : c ≠ '}' := fun heq => h (heq ▸ mem_cons_self)
    rw [append_cons] at hvalue
    obtain ⟨j, hj⟩ := ih (fun hmem => h (mem_cons_of_mem c hmem)) (i + c.utf8Size) _ hvalue
    exact ⟨j, (if_neg hc).trans hj⟩

theorem validateTemplateFrom_open (h : '}' ∉ rest) (start i : Nat) (read : Text) :
    validateTemplateFrom id listed i (some (start, read)) rest =
      .error (.unbalancedTemplate id start) := by
  induction rest generalizing i read with
  | nil => rfl
  | cons c rest ih =>
    have hc : c ≠ '}' := fun heq => h (heq ▸ mem_cons_self)
    exact (if_neg hc).trans (ih (fun hmem => h (mem_cons_of_mem c hmem)) _ _)

end Reading

variable {id template : Text} {listed : List Text} {captures : Captures}

theorem exists_segments {i : Nat} (h : validateTemplateFrom id listed i none template = .ok ()) :
    ∃ pieces, Fragments template pieces := by
  induction hlen : template.length using Nat.strong_induction_on generalizing template i with
  | _ n ih =>
    subst hlen
    cases template with
    | nil => exact ⟨[], .nil⟩
    | cons c rest =>
      by_cases hopen : ['$', '{'] <+: c :: rest
      · obtain ⟨body, hbody⟩ := hopen
        cases hbody
        by_cases hclose : '}' ∈ body
        · obtain ⟨name, more, rfl, hname⟩ := eq_append_cons_of_mem hclose
          obtain ⟨j, hj⟩ := validateTemplateFrom_name id listed hname more i (i + 2) []
          have hmore : validateTemplateFrom id listed j none more = .ok () := by
            have hwhole := hj.symm.trans h
            split_ifs at hwhole
            exact hwhole
          obtain ⟨pieces, hpieces⟩ := ih more.length (by simp; omega) hmore rfl
          exact ⟨_, .placeholder hname hpieces⟩
        · have hwhole := (validateTemplateFrom_open id listed hclose i (i + 2) []).symm.trans h
          cases hwhole
      · rw [validateTemplateFrom_literal id listed hopen] at h
        obtain ⟨pieces, hpieces⟩ := ih rest.length (by simp) h rfl
        exact ⟨_, .literal hopen hpieces⟩

theorem render_fragments {pieces : List Fragment}
    (hvalues : ∀ name ∈ RESERVED_MATCH_KEYS ++ listed, (captures.get? name).isSome)
    (h : Fragments template pieces) : ∀ {i : Nat} (j : Nat) (out : Text),
    validateTemplateFrom id listed i none template = .ok () →
      renderTemplateFrom captures j none template out =
        .ok (out ++ pieces.flatMap (Fragment.rendered captures)) := by
  induction h with
  | nil =>
    intro i j out _
    rw [flatMap_nil, append_nil]
    rfl
  | @literal c rest pieces hopen _ ih =>
    intro i j out hvalid
    rw [validateTemplateFrom_literal id listed hopen] at hvalid
    rw [renderTemplateFrom_literal captures hopen, ih _ _ hvalid, append_assoc]
    rfl
  | @placeholder name rest pieces hname _ ih =>
    intro i j out hvalid
    obtain ⟨k, hk⟩ := validateTemplateFrom_name id listed hname rest i (i + 2) []
    have hwhole := hk.symm.trans hvalid
    split_ifs at hwhole with hlisted
    have hmem := mem_append.mpr (hlisted.imp_left of_decide_eq_true)
    obtain ⟨value, hvalue⟩ := Option.isSome_iff_exists.mp (hvalues name hmem)
    obtain ⟨l, hl⟩ := renderTemplateFrom_name captures hname rest j (j + 2) [] out hvalue
    have hrest := ih l (out ++ value) hwhole
    rw [flatMap_cons, Fragment.rendered, hvalue, ← append_assoc]
    exact hl.trans hrest

def greeting : Text := "hi $\x7bname\x7d".toList

/-- The value of `name` is the text of a placeholder. -/
def greeted : Captures := [("line".toList, []), ("match".toList, []), ("0".toList, []),
  ("name".toList, "$\x7bline\x7d".toList)]

end TerminalCommander
