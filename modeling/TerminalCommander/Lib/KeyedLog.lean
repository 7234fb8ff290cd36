import Mathlib.Data.List.Basic

/-!
# Logs with increasing keys

A log is a list whose elements carry strictly increasing keys. `page p n` is what a reader gets
who asks for at most `n` elements satisfying `p`, and `lastKey` is the cursor that reader resumes
from. The point of the module is `Increasing.mem_page`: a page leaves out nothing up to its own
cursor.
-/

namespace KeyedLog

open List

variable {α : Type*} (key : α → Nat)

abbrev Increasing (xs : List α) : Prop := xs.Pairwise fun x y => key x < key y

def lastKey (d : Nat) (xs : List α) : Nat := (xs.getLast?.map key).getD d

def page (p : α → Bool) (n : Nat) (xs : List α) : List α := (xs.filter p).take n

variable {key}

@[simp] theorem lastKey_nil (d : Nat) : lastKey key d [] = d := rfl

@[simp] theorem lastKey_concat (d : Nat) (xs : List α) (x : α) :
    lastKey key d (xs ++ [x]) = key x := by
  rw [lastKey, getLast?_concat]
  rfl

variable {x : α} {xs : List α}

theorem lastKey_of_getLast? (key : α → Nat) (d : Nat) (h : xs.getLast? = some x) :
    lastKey key d xs = key x := by
  rw [lastKey, h]
  rfl

theorem lastKey_append (d : Nat) (xs ys : List α) :
    lastKey key d (xs ++ ys) = lastKey key (lastKey key d xs) ys := by
  rcases eq_nil_or_concat ys with rfl | ⟨init, last, rfl⟩
  · rw [append_nil, lastKey_nil]
  · rw [concat_eq_append, ← append_assoc, lastKey_concat, lastKey_concat]

theorem exists_lastKey (key : α → Nat) (d : Nat) (h : xs ≠ []) :
    ∃ x ∈ xs, lastKey key d xs = key x :=
  ⟨xs.getLast h, getLast_mem h, lastKey_of_getLast? key d (getLast?_eq_some_getLast h)⟩

theorem Increasing.key_le_lastKey (h : Increasing key xs) (d : Nat)
    (hx : x ∈ xs) : key x ≤ lastKey key d xs := by
  obtain ⟨init, last, rfl⟩ := (eq_nil_or_concat xs).resolve_left (ne_nil_of_mem hx)
  rw [concat_eq_append] at h hx ⊢
  rw [lastKey_concat]
  rcases mem_append.mp hx with hi | hi
  · exact Nat.le_of_lt ((pairwise_append.mp h).2.2 x hi last (mem_singleton_self _))
  · exact Nat.le_of_eq (congrArg _ (mem_singleton.mp hi))

variable {y : α}

theorem Increasing.concat (h : Increasing key xs)
    (hy : ∀ x ∈ xs, key x < key y) : Increasing key (xs ++ [y]) := by
  refine pairwise_append.mpr ⟨h, pairwise_singleton _ _, ?_⟩
  intro x hx z hz
  rw [mem_singleton.mp hz]
  exact hy x hx

theorem Increasing.head_le (h : Increasing key (x :: xs)) (hy : y ∈ x :: xs) : key x ≤ key y := by
  rcases mem_cons.mp hy with rfl | hr
  · exact Nat.le_refl _
  · exact Nat.le_of_lt ((pairwise_cons.mp h).1 y hr)

theorem Increasing.eq_of_key_eq (h : Increasing key xs) (hx : x ∈ xs)
    (hy : y ∈ xs) (he : key x = key y) : x = y := by
  induction xs with
  | nil => cases hx
  | cons z zs ih =>
    obtain ⟨hz, hzs⟩ := pairwise_cons.mp h
    rcases mem_cons.mp hx with rfl | hx' <;> rcases mem_cons.mp hy with rfl | hy'
    · rfl
    · exact absurd (hz y hy') (by omega)
    · exact absurd (hz x hx') (by omega)
    · exact ih hzs hx' hy'

theorem Increasing.page (h : Increasing key xs) (p : α → Bool) (n : Nat) :
    Increasing key (page p n xs) := h.sublist ((take_sublist n _).trans filter_sublist)

variable {n : Nat} {p : α → Bool}

theorem of_mem_page (h : x ∈ page p n xs) : x ∈ xs ∧ p x :=
  List.mem_filter.mp (mem_of_mem_take h)

theorem page_eq_nil (hn : 0 < n) (h : page p n xs = []) (hx : x ∈ xs) : p x = false := by
  have hf : xs.filter p = [] := by
    rcases take_eq_nil_iff.mp h with h0 | hf
    · omega
    · exact hf
  exact Bool.eq_false_iff.mpr (filter_eq_nil_iff.mp hf x hx)

/-- Everything behind a cut has a larger key than the cursor in front of it. -/
theorem Increasing.lastKey_take_lt (h : Increasing key xs) {d : Nat} (hx : x ∈ xs.drop n)
    (hd : d < key x) : lastKey key d (xs.take n) < key x := by
  have hcut : Increasing key (xs.take n ++ xs.drop n) := by
    rw [take_append_drop]
    exact h
  by_cases hnil : xs.take n = []
  · rw [hnil, lastKey_nil]
    exact hd
  · obtain ⟨y, hy, hlast⟩ := exists_lastKey key d hnil
    rw [hlast]
    exact (pairwise_append.mp hcut).2.2 y hy x hx

theorem Increasing.mem_page (h : Increasing key xs) {d : Nat} (hx : x ∈ xs) (hp : p x)
    (hd : d < key x)
    (hle : key x ≤ lastKey key d (KeyedLog.page p n xs)) : x ∈ KeyedLog.page p n xs := by
  have hf : x ∈ (xs.filter p).take n ++ (xs.filter p).drop n := by
    rw [take_append_drop]
    exact List.mem_filter.mpr ⟨hx, hp⟩
  rcases mem_append.mp hf with ht | hdrop
  · exact ht
  · have hlt := Increasing.lastKey_take_lt (h.sublist filter_sublist) hdrop hd
    exact absurd hle (Nat.not_le.mpr hlt)

/-- What stands past the cursor of a cut is what stands behind the cut. -/
theorem Increasing.filter_past (h : Increasing key xs) {d : Nat} (hd : ∀ x ∈ xs, d < key x)
    (n : Nat) : xs.filter (fun x => lastKey key d (xs.take n) < key x) = xs.drop n := by
  have htake : ∀ x ∈ xs.take n, ¬ decide (lastKey key d (xs.take n) < key x) := by
    intro x hx
    have := Increasing.key_le_lastKey (h.sublist (take_sublist n xs)) d hx
    simpa using this
  have hdrop : ∀ x ∈ xs.drop n, decide (lastKey key d (xs.take n) < key x) := by
    intro x hx
    simpa using h.lastKey_take_lt hx (hd x (mem_of_mem_drop hx))
  conv_lhs => rw [← take_append_drop n xs, filter_append]
  simp only [take_append_drop]
  rw [filter_eq_nil_iff.mpr htake, filter_eq_self.mpr hdrop, nil_append]

def ahead (key : α → Nat) (k : Nat) (xs : List α) : Nat := xs.countP fun y => decide (key y < k)

theorem Increasing.mem_take_iff : ∀ {xs : List α}, Increasing key xs → ∀ {n : Nat} {x : α},
    x ∈ xs → (x ∈ xs.take n ↔ ahead key (key x) xs < n) := by
  intro xs
  induction xs with
  | nil =>
    intro _ n x hx
    cases hx
  | cons y ys ih =>
    intro h n x hx
    obtain ⟨hlt, hys⟩ := pairwise_cons.mp h
    unfold ahead at ih ⊢
    cases n with
    | zero => simp
    | succ n =>
      rcases mem_cons.mp hx with rfl | hx
      · -- nothing is in front of the head
        have hzero : ys.countP (fun z => decide (key z < key x)) = 0 := by
          rw [countP_eq_zero]
          intro z hz
          have := hlt z hz
          simp only [decide_eq_true_eq]
          omega
        simp [hzero]
      · have hyx := hlt x hx
        have hne : x ≠ y := fun heq => Nat.lt_irrefl _ (heq ▸ hyx)
        rw [take_succ_cons, mem_cons, or_iff_right hne, ih hys hx, countP_cons,
          if_pos (decide_eq_true hyx), Nat.add_lt_add_iff_right]

theorem Increasing.mem_page_iff (h : Increasing key xs) (hx : x ∈ xs) (hp : p x) :
    x ∈ KeyedLog.page p n xs ↔ ahead key (key x) (xs.filter p) < n :=
  Increasing.mem_take_iff (h.sublist filter_sublist) (List.mem_filter.mpr ⟨hx, hp⟩)

theorem le_lastKey {d : Nat} (h : ∀ x ∈ xs, d < key x) : d ≤ lastKey key d xs := by
  by_cases hnil : xs = []
  · rw [hnil]
    exact Nat.le_refl d
  · obtain ⟨x, hx, hlast⟩ := exists_lastKey key d hnil
    exact hlast ▸ Nat.le_of_lt (h x hx)

end KeyedLog
