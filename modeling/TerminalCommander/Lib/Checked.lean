import Mathlib.Algebra.GroupWithZero.Nat
import Mathlib.Data.List.Basic

/-!
# Computations that can fail at run time

A subtraction of unsigned numbers, a slice, an index or an `unwrap` stops the program if its operand
is out of range, and a loop may not end. `Checked` makes each of these a fault. A slice of a list
whose elements have different sizes must fall between two elements: `cut`. A loop that reads a list
by positions is followed by `read_induction`.
-/

inductive Fault where
  | underflow
  | slice
  | unwrap
  | fuel
  deriving DecidableEq, Repr

abbrev Checked (α : Type) := Except Fault α

namespace Checked

open List

variable {α β : Type}

def sub (a b : Nat) : Checked Nat := if b ≤ a then .ok (a - b) else .error .underflow

def sliceTo (xs : List α) (n : Nat) : Checked (List α) :=
  if n ≤ xs.length then .ok (xs.take n) else .error .slice

def sliceFrom (xs : List α) (n : Nat) : Checked (List α) :=
  if n ≤ xs.length then .ok (xs.drop n) else .error .slice

def index (xs : List α) (i : Nat) : Checked α :=
  match xs[i]? with
  | some x => .ok x
  | none => .error .slice

def update (xs : List α) (i : Nat) (x : α) : Checked (List α) :=
  if i < xs.length then .ok (xs.set i x) else .error .slice

def slice (xs : List α) (a b : Nat) : Checked (List α) :=
  if a ≤ b ∧ b ≤ xs.length then .ok ((xs.take b).drop a) else .error .slice

def unwrap : Option α → Checked α
  | some x => .ok x
  | none => .error .unwrap

def cut (size : α → Nat) : List α → Nat → Checked (List α × List α)
  | xs, 0 => .ok ([], xs)
  | [], _ + 1 => .error .slice
  | x :: xs, n + 1 =>
    if size x ≤ n + 1 then
      (cut size xs (n + 1 - size x)).map fun parts => (x :: parts.1, parts.2)
    else .error .slice

variable {a b : Nat}

theorem sub_of_le (h : b ≤ a) : sub a b = .ok (a - b) := if_pos h

variable {xs : List α}

theorem sliceTo_of_le {n : Nat} (h : n ≤ xs.length) : sliceTo xs n = .ok (xs.take n) := if_pos h

theorem sliceFrom_of_le {n : Nat} (h : n ≤ xs.length) : sliceFrom xs n = .ok (xs.drop n) := if_pos h

variable {i : Nat}

theorem index_of_getElem? {x : α} (h : xs[i]? = some x) : index xs i = .ok x := by
  unfold index
  rw [h]

theorem index_append (front : List α) (x : α) (rest : List α) :
    index (front ++ x :: rest) front.length = .ok x := by
  refine index_of_getElem? ?_
  rw [getElem?_append_right (Nat.le_refl _), Nat.sub_self]
  rfl

theorem update_append (front : List α) (x y : α) (rest : List α) :
    update (front ++ x :: rest) front.length y = .ok (front ++ y :: rest) := by
  unfold update
  rw [if_pos (by simp), set_append_right _ _ (Nat.le_refl _), Nat.sub_self]
  rfl

theorem update_of_lt {x : α} (h : i < xs.length) : update xs i x = .ok (xs.set i x) := if_pos h

theorem mapM_eq_ok_map {f : α → Checked β} {g : α → β}
    (h : ∀ x ∈ xs, f x = .ok (g x)) : xs.mapM f = .ok (xs.map g) := by
  induction xs with
  | nil => rfl
  | cons x xs ih =>
    rw [mapM_cons, h x mem_cons_self, ih fun y hy => h y (mem_cons_of_mem x hy)]
    rfl

/-! ## Returning -/

def Returns (x : Checked α) : Prop := ∃ a, x = .ok a

theorem returns_ok (a : α) : Returns (.ok a : Checked α) := ⟨a, rfl⟩

theorem index_returns (h : i < xs.length) : Returns (index xs i) :=
  ⟨xs[i], index_of_getElem? (getElem?_eq_getElem h)⟩

theorem slice_returns (hab : a ≤ b) (hb : b ≤ xs.length) :
    Returns (slice xs a b) := ⟨_, if_pos ⟨hab, hb⟩⟩

theorem Returns.bind {x : Checked α} {f : α → Checked β} (hx : Returns x)
    (hf : ∀ a, x = .ok a → Returns (f a)) : Returns (x >>= f) := by
  obtain ⟨a, rfl⟩ := hx
  exact hf a rfl

/-! ## Reading a list by positions -/

theorem read_induction {P : List α → Nat → List α → Prop} (done : ∀ xs, P xs xs.length [])
    (step : ∀ front x rest, P (front ++ x :: rest) (front.length + 1) rest →
      (∀ y more, rest = y :: more → P (front ++ x :: rest) (front.length + 2) more) →
      P (front ++ x :: rest) front.length (x :: rest)) (rest : List α) :
    ∀ front, P (front ++ rest) front.length rest := by
  induction hlen : rest.length using Nat.strongRecOn generalizing rest with
  | _ n ih =>
    intro front
    cases rest with
    | nil =>
      rw [append_nil]
      exact done front
    | cons x rest =>
      subst hlen
      refine step front x rest ?_ fun y more hrest => ?_
      · have h := ih rest.length (Nat.lt_succ_self _) rest rfl (front ++ [x])
        rwa [append_assoc, length_append] at h
      · subst hrest
        have h := ih more.length (by simp only [length_cons]; omega) more rfl (front ++ [x, y])
        rwa [append_assoc, length_append] at h

/-! ## Cuts -/

variable {size : α → Nat}

theorem cut_append (hpos : ∀ x, 0 < size x) (xs ys : List α) :
    cut size (xs ++ ys) (xs.map size).sum = .ok (xs, ys) := by
  induction xs with
  | nil => cases ys <;> rfl
  | cons x xs ih =>
    have hx := hpos x
    rw [map_cons, sum_cons, cons_append]
    obtain ⟨n, hn⟩ : ∃ n, size x + (xs.map size).sum = n + 1 :=
      ⟨size x + (xs.map size).sum - 1, by omega⟩
    rw [hn, cut, if_pos (by omega), show n + 1 - size x = (xs.map size).sum by omega, ih]
    rfl

theorem cut_eq_ok : ∀ {zs : List α} {n : Nat} {xs ys : List α},
    cut size zs n = .ok (xs, ys) → zs = xs ++ ys ∧ (xs.map size).sum = n := by
  intro zs
  induction zs with
  | nil =>
    intro n xs ys h
    cases n with
    | zero =>
      cases h
      exact ⟨rfl, rfl⟩
    | succ n => cases h
  | cons z zs ih =>
    intro n xs ys h
    cases n with
    | zero =>
      cases h
      exact ⟨rfl, rfl⟩
    | succ n =>
      rw [cut] at h
      split_ifs at h with hle
      cases hcut : cut size zs (n + 1 - size z) with
      | error e =>
        rw [hcut] at h
        cases h
      | ok parts =>
        rw [hcut] at h
        cases h
        obtain ⟨hzs, hsum⟩ := ih hcut
        refine ⟨by rw [cons_append, ← hzs], ?_⟩
        rw [map_cons, sum_cons, hsum]
        omega

end Checked
