import Mathlib.Data.List.DropRight
import Mathlib.Data.List.Infix

/-!
# Lists cut at a separator

The parts of a list between the occurrences of a separator (`List.splitOn`), the parts that are not
empty (`words`), and what collapsing runs of the separator (`squeeze`) leaves unchanged. A list of
parts joined by the separator begins with its first part (`front_join_iff`, `join_eq_iff`), and what
has no separator occurs in one part (`infix_iff_splitOn`).
-/

namespace Segments

open List

variable {α : Type*} [DecidableEq α] {sep : α}

def words (sep : α) (xs : List α) : List (List α) := (xs.splitOn sep).filter (!·.isEmpty)

def squeeze (sep : α) : Bool → List α → List α
  | _, [] => []
  | behind, x :: xs =>
    if x = sep then if behind then squeeze sep true xs else x :: squeeze sep true xs
    else x :: squeeze sep false xs

theorem words_append_sep (xs ys : List α) :
    words sep (xs ++ sep :: ys) = words sep xs ++ words sep ys := by
  unfold words
  rw [splitOn_append_cons_self, filter_append]

theorem words_sep_cons (ys : List α) : words sep (sep :: ys) = words sep ys := by
  have h : words sep ([] ++ sep :: ys) = words sep [] ++ words sep ys := words_append_sep [] ys
  rwa [nil_append, show words sep [] = [] from rfl, nil_append] at h

theorem squeeze_of_not_mem {xs : List α} (h : sep ∉ xs) : ∀ (behind : Bool) (ys : List α),
    xs ≠ [] → squeeze sep behind (xs ++ ys) = xs ++ squeeze sep false ys := by
  induction xs with
  | nil => exact fun _ _ hne => absurd rfl hne
  | cons x xs ih =>
    intro behind ys _
    have hx : x ≠ sep := fun heq => h (heq ▸ mem_cons_self)
    rw [cons_append, squeeze, if_neg hx, cons_append]
    cases xs with
    | nil => rfl
    | cons y xs => rw [ih (fun hmem => h (mem_cons_of_mem x hmem)) false ys (by simp)]

theorem squeeze_sublist (xs : List α) : ∀ behind, (squeeze sep behind xs).Sublist xs := by
  induction xs with
  | nil => exact fun _ => Sublist.refl []
  | cons x xs ih =>
    intro behind
    unfold squeeze
    split_ifs
    · exact (ih true).cons x
    · exact (ih true).cons_cons x
    · exact (ih false).cons_cons x

theorem squeeze_append {xs : List α} : ∀ {behind : Bool}, (xs = [] → behind = false) →
    xs.getLast? ≠ some sep → ∀ ys : List α,
      squeeze sep behind (xs ++ ys) = squeeze sep behind xs ++ squeeze sep false ys := by
  induction xs with
  | nil =>
    intro behind hbehind _ ys
    rw [hbehind rfl]
    rfl
  | cons x xs ih =>
    intro behind _ hlast ys
    have hxs : xs.getLast? ≠ some sep := by
      cases xs with
      | nil => exact fun h => nomatch h
      | cons y xs => rwa [getLast?_cons_cons] at hlast
    rw [cons_append, squeeze, squeeze]
    by_cases hx : x = sep
    · have hne : xs ≠ [] := fun hnil => hlast (by rw [hnil, hx]; rfl)
      rw [if_pos hx, if_pos hx, ih (fun hnil => absurd hnil hne) hxs]
      split_ifs <;> rfl
    · rw [if_neg hx, if_neg hx, ih (fun _ => rfl) hxs]
      rfl

theorem squeeze_run {seps : List α} (h : ∀ x ∈ seps, x = sep) (ys : List α) :
    squeeze sep false (seps ++ sep :: ys) = sep :: squeeze sep true ys := by
  have hrun : ∀ behind, squeeze sep true (seps ++ sep :: ys) = squeeze sep true ys ∧
      squeeze sep behind (seps ++ sep :: ys) =
        if behind then squeeze sep true ys else sep :: squeeze sep true ys := by
    induction seps with
    | nil =>
      intro behind
      rw [nil_append, squeeze, if_pos rfl, if_pos rfl, squeeze, if_pos rfl]
      exact ⟨rfl, rfl⟩
    | cons x seps ih =>
      obtain ⟨htrue, -⟩ := ih (fun y hy => h y (mem_cons_of_mem x hy)) true
      intro behind
      rw [cons_append, squeeze, if_pos (h x mem_cons_self), if_pos rfl, squeeze,
        if_pos (h x mem_cons_self), htrue, h x mem_cons_self]
      exact ⟨rfl, rfl⟩
  exact (hrun false).2

theorem cut_at_sep (sep : α) (xs : List α) :
    sep ∉ xs ∨ ∃ front rest, xs = front ++ sep :: rest ∧ sep ∉ front := by
  by_cases h : sep ∈ xs
  · obtain ⟨front, rest, hxs, hfront⟩ := eq_append_cons_of_mem h
    exact Or.inr ⟨front, rest, hxs, hfront⟩
  · exact Or.inl h

theorem words_squeeze (xs : List α) : ∀ behind, words sep
    (squeeze sep behind xs) = words sep xs := by
  induction hlen : xs.length using Nat.strong_induction_on generalizing xs with
  | _ n ih =>
    subst hlen
    intro behind
    rcases cut_at_sep sep xs with hnot | ⟨front, rest, rfl, hfront⟩
    · cases xs with
      | nil => rfl
      | cons x xs =>
        have h := squeeze_of_not_mem hnot behind [] (by simp)
        rw [append_nil] at h
        rw [h, squeeze, append_nil]
    · have hrest := ih rest.length (by simp; omega) rest rfl true
      cases front with
      | nil =>
        rw [nil_append, words_sep_cons, squeeze, if_pos rfl]
        cases behind with
        | true => exact hrest
        | false =>
          rw [if_neg Bool.false_ne_true, words_sep_cons]
          exact hrest
      | cons x front =>
        rw [squeeze_of_not_mem hfront behind _ (by simp), squeeze, if_pos rfl,
          if_neg Bool.false_ne_true, words_append_sep, words_append_sep, hrest]

omit [DecidableEq α] in
theorem part_of_mem_splitOnP {p : α → Bool} {xs part : List α} (h : part ∈ xs.splitOnP p) :
    (∀ x ∈ part, p x = false) ∧ part ⊆ xs := by
  induction xs generalizing part with
  | nil =>
    obtain rfl := mem_singleton.mp h
    exact ⟨fun _ hx => (not_mem_nil hx).elim, Subset.refl []⟩
  | cons x xs ih =>
    rw [splitOnP_cons_eq_if_modifyHead] at h
    split_ifs at h with hx
    · rcases mem_cons.mp h with rfl | h
      · exact ⟨fun _ hx => (not_mem_nil hx).elim, nil_subset _⟩
      · exact ⟨(ih h).1, fun y hy => mem_cons_of_mem x ((ih h).2 hy)⟩
    · obtain ⟨first, rest, hsplit⟩ := exists_cons_of_ne_nil (splitOnP_ne_nil p xs)
      rw [hsplit, modifyHead_cons] at h
      rcases mem_cons.mp h with rfl | h
      · obtain ⟨hsep, hsub⟩ := ih (hsplit ▸ mem_cons_self)
        exact ⟨forall_mem_cons.mpr ⟨eq_false_of_ne_true hx, hsep⟩, cons_subset_cons x hsub⟩
      · obtain ⟨hsep, hsub⟩ := ih (hsplit ▸ mem_cons_of_mem first h)
        exact ⟨hsep, fun y hy => mem_cons_of_mem x (hsub hy)⟩

theorem part_of_mem_splitOn {xs part : List α} (h : part ∈ xs.splitOn sep) :
    sep ∉ part ∧ part ⊆ xs := by
  obtain ⟨hsep, hsub⟩ := part_of_mem_splitOnP h
  exact ⟨fun hmem => by simpa using hsep sep hmem, hsub⟩

/-! ## Joined parts -/

omit [DecidableEq α] in
theorem intercalate_cons (part : List α) (parts : List (List α)) :
    [sep].intercalate (part :: parts) =
      part ++ if parts = [] then [] else sep :: [sep].intercalate parts := by
  cases parts with
  | nil => simp
  | cons next parts => rw [intercalate_cons_cons]; simp

omit [DecidableEq α] in
theorem mem_join {parts : List (List α)} {x : α} (h : x ∈ [sep].intercalate parts) :
    x = sep ∨ ∃ part ∈ parts, x ∈ part := by
  induction parts with
  | nil => cases h
  | cons part parts ih =>
    rw [intercalate_cons, mem_append] at h
    rcases h with h | h
    · exact Or.inr ⟨part, mem_cons_self, h⟩
    · split_ifs at h
      · cases h
      · rcases mem_cons.mp h with h | h
        · exact Or.inl h
        · exact (ih h).imp_right fun ⟨p, hp, hx⟩ => ⟨p, mem_cons_of_mem part hp, hx⟩

theorem append_sep_inj {xs ys rest more : List α} (hxs : sep ∉ xs) (hys : sep ∉ ys)
    (h : xs ++ sep :: rest = ys ++ sep :: more) : xs = ys := by
  have hsplit := congrArg (splitOn sep) h
  rw [splitOn_append_cons_self_of_not_mem hxs, splitOn_append_cons_self_of_not_mem hys] at hsplit
  exact (List.cons.inj hsplit).1

omit [DecidableEq α] in
theorem join_eq_iff {parts : List (List α)} {part : List α} (hne : parts ≠ [])
    (hpart : sep ∉ part) : [sep].intercalate parts = part ↔ parts = [part] := by
  constructor
  · intro h
    cases parts with
    | nil => exact absurd rfl hne
    | cons first parts =>
      rw [intercalate_cons] at h
      split_ifs at h with hparts
      · rw [append_nil] at h
        rw [h, hparts]
      · exact absurd (h ▸ by simp) hpart
  · rintro rfl
    exact intercalate_singleton

theorem front_join_iff {parts : List (List α)} {part : List α} (hparts : ∀ p ∈ parts, sep ∉ p)
    (hpart : sep ∉ part) : part ++ [sep] <+: [sep].intercalate parts ↔
      parts.head? = some part ∧ parts ≠ [part] := by
  cases parts with
  | nil => simp
  | cons first rest =>
    have hfirst := hparts first mem_cons_self
    rw [intercalate_cons, head?_cons]
    constructor
    · rintro ⟨more, hmore⟩
      rw [append_assoc, singleton_append] at hmore
      split_ifs at hmore with hrest
      · rw [append_nil] at hmore
        exact absurd (hmore ▸ by simp) hfirst
      · refine ⟨congrArg some (append_sep_inj hpart hfirst hmore).symm, fun h => hrest ?_⟩
        exact (List.cons.inj h).2
    · rintro ⟨hhead, hmore⟩
      obtain rfl := Option.some.inj hhead
      have hrest : rest ≠ [] := fun h => hmore (by rw [h])
      rw [if_neg hrest]
      exact ⟨[sep].intercalate rest, by simp⟩

/-! ## Occurrences -/

omit [DecidableEq α] in
theorem infix_append_sep {part xs ys : List α} (hpart : sep ∉ part) :
    part <:+: xs ++ sep :: ys ↔ part <:+: xs ∨ part <:+: ys := by
  constructor
  · rintro ⟨front, back, h⟩
    rcases append_eq_append_iff.mp h with ⟨more, hxs, -⟩ | ⟨more, hfront, hback⟩
    · exact Or.inl ⟨front, more, hxs.symm⟩
    · cases more with
      | nil => exact Or.inl ⟨front, [], by simpa using hfront⟩
      | cons x more =>
        obtain ⟨rfl, rfl⟩ := List.cons.inj hback
        rcases append_eq_append_iff.mp hfront with ⟨mid, -, hmid⟩ | ⟨mid, -, hmid⟩
        · exact absurd (hmid ▸ by simp) hpart
        · cases mid with
          | nil => exact absurd (by rw [nil_append] at hmid; rw [← hmid]; simp) hpart
          | cons y mid =>
            obtain ⟨rfl, rfl⟩ := List.cons.inj hmid
            exact Or.inr ⟨mid, back, rfl⟩
  · rintro (h | h)
    · exact h.trans (prefix_append xs (sep :: ys)).isInfix
    · exact h.trans (((suffix_cons sep ys).trans (suffix_append xs (sep :: ys))).isInfix)

theorem infix_iff_splitOn (sep : α) {part : List α} (hpart : sep ∉ part) (xs : List α) :
    part <:+: xs ↔ ∃ p ∈ xs.splitOn sep, part <:+: p := by
  induction hlen : xs.length using Nat.strong_induction_on generalizing xs with
  | _ n ih =>
    subst hlen
    rcases cut_at_sep sep xs with hnot | ⟨front, rest, rfl, hfront⟩
    · rw [splitOn_eq_singleton hnot]
      simp
    · rw [infix_append_sep hpart, splitOn_append_cons_self_of_not_mem hfront,
        ih rest.length (by simp; omega) rest rfl, exists_mem_cons_iff]

omit [DecidableEq α] in
theorem infix_append_of_disjoint {part xs ys : List α} (hne : part ≠ []) (h : ∀ y ∈ ys, y ∉ part) :
    part <:+: xs ++ ys ↔ part <:+: xs := by
  cases ys with
  | nil => rw [append_nil]
  | cons y ys =>
    rw [infix_append_sep (h y mem_cons_self)]
    refine or_iff_left fun hys => ?_
    obtain ⟨p, part, rfl⟩ := exists_cons_of_ne_nil hne
    exact h p (mem_cons_of_mem y (hys.subset mem_cons_self)) mem_cons_self

/-! ## The end of a list -/

theorem rdropWhile_append_cons {β : Type*} {p : β → Bool} {x : β} (hx : p x = false)
    (xs ys : List β) : (xs ++ x :: ys).rdropWhile p = xs ++ x :: ys.rdropWhile p := by
  unfold rdropWhile
  rw [reverse_append, reverse_cons, append_assoc, dropWhile_append]
  split_ifs with hempty
  · rw [List.isEmpty_iff.mp hempty]
    simp [hx]
  · simp

end Segments
