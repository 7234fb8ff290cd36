import Mathlib.Algebra.GroupWithZero.Nat
import Mathlib.Data.List.Basic

/-!
# Text, machine integers and fallible code

A Rust string is modelled by its characters; `Text.len` is its length in UTF-8 bytes, which is
what the source compares with its byte caps. A slice at a character boundary is a list prefix, so
no slice of the model can be off a boundary; `Text.takeBytes` is the cut at the last boundary
that fits, the one shape in which the source truncates.
-/

namespace TerminalCommander

abbrev Text := List Char

instance Text.decidableMem (t : Text) (ts : List Text) : Decidable (t ∈ ts) := inferInstance

-- a quantifier over the characters of a text is decided by going through the text, never through
-- all characters
instance (priority := 2000) Text.decidableBall (t : Text) (p : Char → Prop) [DecidablePred p] :
    Decidable (∀ c ∈ t, p c) := List.decidableBAll p t

instance (priority := 2000) Text.decidableBex (t : Text) (p : Char → Prop) [DecidablePred p] :
    Decidable (∃ c ∈ t, p c) := List.decidableBEx p t

def Text.len : Text → Nat
  | [] => 0
  | c :: t => c.utf8Size + Text.len t

def Text.takeBytes : Nat → Text → Text
  | _, [] => []
  | n, c :: t => if c.utf8Size ≤ n then c :: Text.takeBytes (n - c.utf8Size) t else []

def Text.le : Text → Text → Bool
  | [], _ => true
  | _ :: _, [] => false
  | c :: t, d :: u => c.toNat < d.toNat || (c.toNat == d.toNat && Text.le t u)

@[simp] theorem Text.len_nil : Text.len [] = 0 := rfl

@[simp] theorem Text.len_append (t u : Text) : Text.len (t ++ u) = Text.len t + Text.len u := by
  induction t with
  | nil => simp
  | cons c t ih => rw [List.cons_append, Text.len, Text.len, ih]; omega

theorem Text.len_takeBytes_le (t : Text) : ∀ n, Text.len (Text.takeBytes n t) ≤ n := by
  induction t with
  | nil => intro n; exact Nat.zero_le n
  | cons c t ih =>
    intro n
    rw [Text.takeBytes]
    split_ifs with h
    · have := ih (n - c.utf8Size)
      rw [Text.len]; omega
    · exact Nat.zero_le n

def whiteSpace (c : Char) : Bool :=
  let n := c.toNat
  (9 ≤ n && n ≤ 13) || n == 0x20 || n == 0x85 || n == 0xA0 || n == 0x1680 ||
    (0x2000 ≤ n && n ≤ 0x200A) || n == 0x2028 || n == 0x2029 || n == 0x202F || n == 0x205F ||
    n == 0x3000

def u64Max : Nat := 2 ^ 64 - 1

def u32Max : Nat := 2 ^ 32 - 1

def i64Max : Nat := 2 ^ 63 - 1

def satAdd (a b : Nat) : Nat := min (a + b) u64Max

def wrapAdd (a b : Nat) : Nat := (a + b) % 2 ^ 64

theorem satAdd_of_le {a b : Nat} (h : a + b ≤ u64Max) : satAdd a b = a + b := Nat.min_eq_left h

theorem wrapAdd_of_le {a b : Nat} (h : a + b ≤ u64Max) : wrapAdd a b = a + b := by
  unfold wrapAdd
  unfold u64Max at h
  exact Nat.mod_eq_of_lt (by omega)

/-! ## Fallible code -/

theorem bind_eq_ok {ε β γ : Type} {a : Except ε β} {f : β → Except ε γ} {c : γ} :
    a >>= f = .ok c ↔ ∃ b, a = .ok b ∧ f b = .ok c := by
  rcases a with e | b
  · constructor
    · intro h
      cases h
    · rintro ⟨b, h, -⟩
      cases h
  · constructor
    · exact fun h => ⟨b, rfl, h⟩
    · rintro ⟨b', ⟨⟩, h⟩
      exact h

end TerminalCommander
