import Mathlib.Logic.Function.Basic

/-!
# Upserts

Conditions of SQL have three values: a comparison with `NULL` is neither true nor false, and a
`WHERE` takes a row only if its condition is true. An upsert inserts a row whose key is not in the
table, and otherwise changes the row that is there, if the condition on the two holds.
-/

namespace Sql

variable {α κ ρ : Type*}

abbrev Truth := Option Bool

namespace Truth

def or : Truth → Truth → Truth
  | some true, _ => some true
  | _, some true => some true
  | some false, some false => some false
  | _, _ => none

def and : Truth → Truth → Truth
  | some false, _ => some false
  | _, some false => some false
  | some true, some true => some true
  | _, _ => none

def holds (t : Truth) : Bool := t == some true

@[simp] theorem holds_or (t u : Truth) : (t.or u).holds = (t.holds || u.holds) := by
  rcases t with _ | _ | _ <;> rcases u with _ | _ | _ <;> rfl

@[simp] theorem holds_and (t u : Truth) : (t.and u).holds = (t.holds && u.holds) := by
  rcases t with _ | _ | _ <;> rcases u with _ | _ | _ <;> rfl

end Truth

def eq [DecidableEq α] : Option α → Option α → Truth
  | some a, some b => some (decide (a = b))
  | _, _ => none

def is [DecidableEq α] (a b : Option α) : Truth := some (decide (a = b))

@[simp] theorem holds_eq_some [DecidableEq α] (a : Option α) (b : α) :
    (eq a (some b)).holds = decide (a = some b) := by
  cases a with
  | none => rfl
  | some a => by_cases h : a = b <;> simp [eq, Truth.holds, h]

@[simp] theorem holds_eq_none [DecidableEq α] (a : Option α) : (eq a none).holds = false := by
  cases a <;> rfl

@[simp] theorem holds_is [DecidableEq α] (a b : Option α) : (is a b).holds = decide (a = b) := by
  by_cases h : a = b <;> simp [is, Truth.holds, h]

/-! ## One row -/

def upsertRow (set : ρ → ρ → ρ) (cond : ρ → ρ → Truth) (excluded : ρ) : Option ρ → ρ
  | none => excluded
  | some old => if (cond old excluded).holds then set old excluded else old

def upsert [DecidableEq κ] (key : ρ → κ) (set : ρ → ρ → ρ) (cond : ρ → ρ → Truth) (excluded : ρ)
    (table : κ → Option ρ) : κ → Option ρ :=
  Function.update table (key excluded) (some (upsertRow set cond excluded (table (key excluded))))

variable [DecidableEq κ] {key : ρ → κ} {set : ρ → ρ → ρ} {cond : ρ → ρ → Truth}

end Sql
