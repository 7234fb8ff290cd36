import Mathlib.Data.List.Basic

/-!
# Regular expressions from their source text

A fragment of the regular expressions of the crate `regex`, read from source text: anchors,
literals, `.`, classes `[^c]`, and the star of each of them, one after the other. `parse` refuses
what is not of this fragment. The meaning is the documented one, without flags: a match may begin
and end anywhere, `^` holds at the beginning of the text only and `$` at its end only, and `.` is
any character but a newline.
-/

namespace Regex

open List

inductive Atom where
  | literal (c : Char)
  | dot
  | except (c : Char)
  deriving DecidableEq, Repr

def Atom.Member : Atom → Char → Prop
  | .literal d, c => c = d
  | .dot, c => c ≠ '\n'
  | .except d, c => c ≠ d

inductive Piece where
  | start
  | stop
  | one (a : Atom)
  | star (a : Atom)
  deriving DecidableEq, Repr

/-! ## Matching -/

def Follows : List Piece → Bool → List Char → Prop
  | [], _, _ => True
  | .start :: re, atStart, t => atStart = true ∧ Follows re atStart t
  | .stop :: re, atStart, t => t = [] ∧ Follows re atStart t
  | .one a :: re, _, t => ∃ c rest, t = c :: rest ∧ a.Member c ∧ Follows re false rest
  | .star a :: re, atStart, t => ∃ run rest, t = run ++ rest ∧ (∀ c ∈ run, a.Member c) ∧
      Follows re (atStart && run.isEmpty) rest

def IsMatch (re : List Piece) (t : List Char) : Prop :=
  ∃ before after, t = before ++ after ∧ Follows re before.isEmpty after

theorem isMatch_start (re : List Piece) (t : List Char) :
    IsMatch (.start :: re) t ↔ Follows re true t := by
  constructor
  · rintro ⟨before, after, rfl, hstart, hre⟩
    obtain rfl : before = [] := List.isEmpty_iff.mp hstart
    exact hre
  · exact fun hre => ⟨[], t, rfl, rfl, hre⟩

/-! ## Source text -/

def isMeta (c : Char) : Bool := "\\.+*?()|[]\x7b\x7d^$#&-~".toList.contains c

def escape (t : List Char) : List Char := t.flatMap fun c => if isMeta c then ['\\', c] else [c]

theorem length_escape_pos (c : Char) : 0 < (escape [c]).length := by
  unfold escape
  rw [flatMap_singleton]
  split_ifs <;> simp

def parseAtom : List Char → Option (Atom × List Char)
  | [] => none
  | c :: rest =>
    if c = '.' then some (.dot, rest)
    else if c = '[' then
      match rest with
      | '^' :: d :: ']' :: rest => if isMeta d then none else some (.except d, rest)
      | _ => none
    else if c = '\\' then
      match rest with
      | d :: rest => if isMeta d then some (.literal d, rest) else none
      | [] => none
    else if isMeta c then none
    else some (.literal c, rest)

def parseFrom : Nat → List Char → Option (List Piece)
  | _, [] => some []
  | 0, _ :: _ => none
  | n + 1, c :: rest =>
    if c = '^' then (parseFrom n rest).map (.start :: ·)
    else if c = '$' then (parseFrom n rest).map (.stop :: ·)
    else (parseAtom (c :: rest)).bind fun (a, rest) =>
      if rest.head? = some '*' then (parseFrom n rest.tail).map (.star a :: ·)
      else (parseFrom n rest).map (.one a :: ·)

def parse (source : List Char) : Option (List Piece) := parseFrom source.length source

@[simp] theorem parseFrom_nil (n : Nat) : parseFrom n [] = some [] := by
  cases n <;> rfl

theorem parseFrom_atom {n : Nat} {source rest : List Char} {a : Atom}
    (hatom : parseAtom source = some (a, rest))
    (hhead : source.head? ≠ some '^' ∧ source.head? ≠ some '$') :
    parseFrom (n + 1) source =
      if rest.head? = some '*' then (parseFrom n rest.tail).map (.star a :: ·)
      else (parseFrom n rest).map (.one a :: ·) := by
  cases source with
  | nil => simp [parseAtom] at hatom
  | cons c source =>
    have hc : c ≠ '^' ∧ c ≠ '$' := by simpa using hhead
    rw [parseFrom, if_neg hc.1, if_neg hc.2, hatom]
    rfl

theorem parseAtom_escape (c : Char) (rest : List Char) :
    parseAtom (escape [c] ++ rest) = some (.literal c, rest) := by
  unfold escape
  rw [flatMap_singleton]
  by_cases hmeta : isMeta c
  · rw [if_pos hmeta]
    simp [parseAtom, hmeta]
  · rw [if_neg hmeta]
    have hne : ∀ d, isMeta d → c ≠ d := by
      rintro d hd rfl
      exact hmeta hd
    simp only [singleton_append, parseAtom, if_neg (hne '.' (by decide)),
      if_neg (hne '[' (by decide)), if_neg (hne '\\' (by decide)), if_neg hmeta]

theorem head?_escape (c : Char) (rest : List Char) : (escape [c] ++ rest).head? ≠ some '^' ∧
    (escape [c] ++ rest).head? ≠ some '$' ∧ (escape [c] ++ rest).head? ≠ some '*' := by
  unfold escape
  rw [flatMap_singleton]
  by_cases hmeta : isMeta c
  · rw [if_pos hmeta]
    exact ⟨by simp, by simp, by simp⟩
  · rw [if_neg hmeta]
    have hne : ∀ d, isMeta d → c ≠ d := by
      rintro d hd rfl
      exact hmeta hd
    simp only [singleton_append, head?_cons, ne_eq, Option.some.injEq]
    exact ⟨hne _ (by decide), hne _ (by decide), hne _ (by decide)⟩

end Regex
