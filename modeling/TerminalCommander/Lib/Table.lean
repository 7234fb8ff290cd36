import Mathlib.Data.List.Basic

/-!
# Tables

A list whose entries are named by their positions. Entries are appended and replaced, so that a
position keeps naming the same entry: the calls, tasks and jobs of a system are kept like this.
-/

namespace Table

open List

variable {β : Type*} {l : List β} {b c : β} {i k : Nat}

theorem getElem?_concat : (l ++ [b])[i]? = some c ↔ l[i]? = some c ∨ i = l.length ∧ b = c := by
  rcases Nat.lt_trichotomy i l.length with hlt | heq | hgt
  · rw [getElem?_append_left hlt]
    exact ⟨.inl, fun h => h.resolve_right fun h => by omega⟩
  · subst heq
    rw [getElem?_concat_length, getElem?_eq_none (Nat.le_refl _)]
    simp
  · rw [getElem?_eq_none (by simp; omega), getElem?_eq_none (by omega)]
    simp only [reduceCtorEq, false_or, false_iff, not_and]
    omega

theorem set_cases (h : (l.set k b)[i]? = some c) : (i = k ∧ c = b) ∨ (i ≠ k ∧ l[i]? = some c) := by
  rw [getElem?_set] at h
  split_ifs at h with hik hlt
  · exact .inl ⟨hik.symm, (Option.some.inj h).symm⟩
  · exact .inr ⟨Ne.symm hik, h⟩

theorem getElem?_set_of_some (h : l[k]? = some c) (b : β) : (l.set k b)[k]? = some b :=
  getElem?_set_self (List.getElem?_eq_some_iff.mp h).1

theorem mem_set_or_eq {a : β} (hk : l[k]? = some a) (hc : c ∈ l) : c = a ∨ c ∈ l.set k b := by
  obtain ⟨i, hi⟩ := mem_iff_getElem?.mp hc
  by_cases hik : k = i
  · rw [hik, hi] at hk
    exact Or.inl (Option.some.inj hk)
  · refine Or.inr (mem_iff_getElem?.mpr ⟨i, ?_⟩)
    rw [getElem?_set_ne hik]
    exact hi

theorem mem_set_self {a : β} (hk : l[k]? = some a) (b : β) : b ∈ l.set k b :=
  mem_iff_getElem?.mpr ⟨k, getElem?_set_of_some hk b⟩

end Table
