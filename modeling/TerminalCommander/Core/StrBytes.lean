import TerminalCommander.Core.Str

/-!
# Byte positions in strings

The source finds places in a string as byte positions and cuts the string at sums of them. A text
has its positions in characters; `bytePos` is the byte position of the same place. A cut at a byte
position that belongs to a place is the list's `take` and `drop` there. A truncation that steps down
to the next character boundary is `takeBytes`.
-/

namespace TerminalCommander

namespace Text

open List Text

def bytePos (t : Text) (i : Nat) : Nat := Text.len (t.take i)

def findBytes (p t : Text) : Option Nat := (find p t).map t.bytePos

def findCharBytes (p : Char → Bool) (t : Text) : Option Nat := (t.findChar p).map t.bytePos

def rfindCharBytes (p : Char → Bool) (t : Text) : Option Nat := (t.rfindChar p).map t.bytePos

def slice (t : Text) (a b : Nat) : Checked Text := do
  let front ← t.sliceTo b
  front.sliceFrom a

def isCharBoundary (t : Text) (n : Nat) : Bool :=
  match Checked.cut Char.utf8Size t n with
  | .ok _ => true
  | .error _ => false

def floorBoundary (t : Text) : Nat → Nat
  | 0 => 0
  | n + 1 => if t.isCharBoundary (n + 1) then n + 1 else t.floorBoundary n

/-! ## Places -/

theorem sliceTo_bytePos (t : Text) (i : Nat) : t.sliceTo (t.bytePos i) = .ok (t.take i) := by
  have h := sliceTo_append (t.take i) (t.drop i)
  rwa [take_append_drop] at h

theorem sliceFrom_bytePos (t : Text) (i : Nat) : t.sliceFrom (t.bytePos i) = .ok (t.drop i) := by
  have h := sliceFrom_append (t.take i) (t.drop i)
  rwa [take_append_drop] at h

theorem bytePos_add (t : Text) (i j : Nat) :
    t.bytePos (i + j) = t.bytePos i + bytePos (t.drop i) j := by
  unfold bytePos
  rw [take_add, len_append]

theorem bytePos_toAsciiLowercase (t : Text) (i : Nat) :
    t.toAsciiLowercase.bytePos i = t.bytePos i := by
  unfold bytePos toAsciiLowercase
  rw [← map_take]
  exact len_toAsciiLowercase _

variable {t : Text}

theorem bytePos_of_prefix {p : Text} (h : p <+: t) : t.bytePos p.length = p.len := by
  obtain ⟨rest, rfl⟩ := h
  unfold bytePos
  rw [take_left]

variable {i : Nat}

theorem bytePos_prefix {u : Text} (h : u <+: t) (hi : i ≤ u.length) :
    u.bytePos i = t.bytePos i := by
  obtain ⟨rest, rfl⟩ := h
  unfold bytePos
  rw [take_append_of_le_length hi]

theorem bytePos_find {p : Text} (h : find p t = some i) :
    t.bytePos i + p.len = t.bytePos (i + p.length) := by
  rw [bytePos_add, bytePos_of_prefix (prefix_drop_of_find h)]

theorem bytePos_find_lower {p : Text} (h : find p t.toAsciiLowercase = some i) :
    t.toAsciiLowercase.bytePos i + p.len = t.bytePos (i + p.length) := by
  rw [bytePos_find h, bytePos_toAsciiLowercase]

theorem bytePos_findChar {p : Char → Bool} (hascii : ∀ c, p c → c.utf8Size = 1)
    (h : t.findChar p = some i) : t.bytePos i + 1 = t.bytePos (i + 1) := by
  obtain ⟨hlt, hc, -⟩ := findIdx?_eq_some_iff_getElem.mp h
  rw [bytePos_add, drop_eq_getElem_cons hlt]
  show _ = _ + len [t[i]]
  rw [len, len_nil, hascii _ hc]

/-! ## Sizes -/

theorem len_take_add_drop_le (t : Text) {a b : Nat} (h : a ≤ b) :
    len (t.take a) + len (t.drop b) ≤ t.len := by
  have hle := bytePos_add t a (b - a)
  have hlen := congrArg len (take_append_drop b t)
  rw [Nat.add_sub_cancel' h] at hle
  unfold bytePos at hle
  rw [len_append] at hlen
  omega

theorem len_take_le (t : Text) (n : Nat) : len (t.take n) ≤ t.len := by
  have h := t.len_take_add_drop_le (Nat.le_refl n)
  omega

/-! ## Truncations -/

variable {n : Nat}

theorem takeBytes_of_le (h : t.len ≤ n) : t.takeBytes n = t := by
  have htake := takeBytes_append h []
  rw [append_nil, takeBytes] at htake
  rw [htake, append_nil]

theorem truncate_eq_takeBytes (n : Nat) (t : Text) : t.truncate n = t.takeBytes n := by
  unfold truncate
  split_ifs with h
  · rfl
  · rw [takeBytes_of_le (Nat.not_lt.mp h)]

theorem isCharBoundary_iff : t.isCharBoundary n ↔ ∃ u v, t = u ++ v ∧ u.len = n := by
  unfold isCharBoundary
  constructor
  · intro h
    split at h
    · next parts hcut =>
      obtain ⟨ht, hn⟩ := Checked.cut_eq_ok hcut
      exact ⟨parts.1, parts.2, ht, (len_eq_sum _).trans hn⟩
    · cases h
  · rintro ⟨u, v, rfl, rfl⟩
    rw [cut_append]

theorem sliceTo_returns_iff : Checked.Returns (t.sliceTo n) ↔ t.isCharBoundary n := by
  unfold sliceTo isCharBoundary
  cases Checked.cut Char.utf8Size t n with
  | ok parts => exact ⟨fun _ => rfl, fun _ => ⟨parts.1, rfl⟩⟩
  | error e =>
    refine ⟨fun ⟨u, hu⟩ => ?_, fun h => ?_⟩
    · cases hu
    · cases h

theorem takeBytes_prefix (t : Text) : ∀ n, t.takeBytes n <+: t := by
  induction t with
  | nil => exact fun _ => prefix_rfl
  | cons c t ih =>
    intro n
    rw [takeBytes]
    split_ifs
    · exact (prefix_cons_inj c).mpr (ih _)
    · exact List.nil_prefix

theorem takeBytes_len (u v : Text) : (u ++ v).takeBytes u.len = u := by
  rw [takeBytes_append (Nat.le_refl _), Nat.sub_self]
  cases v with
  | nil => exact append_nil u
  | cons c v =>
    have hpos := c.utf8Size_pos
    rw [takeBytes, if_neg (by omega), append_nil]

theorem takeBytes_succ_of_not : ∀ {n : Nat}, t.isCharBoundary (n + 1) = false →
    t.takeBytes (n + 1) = t.takeBytes n := by
  induction t with
  | nil => exact fun _ => rfl
  | cons c t ih =>
    intro n h
    have hne : ¬ ∃ u v : Text, c :: t = u ++ v ∧ u.len = n + 1 := fun hex => by
      rw [isCharBoundary_iff.mpr hex] at h
      cases h
    rw [takeBytes, takeBytes]
    by_cases hfit : c.utf8Size ≤ n
    · rw [if_pos (by omega), if_pos hfit, show n + 1 - c.utf8Size = n - c.utf8Size + 1 by omega]
      congr 1
      refine ih (Bool.eq_false_iff.mpr fun hb => hne ?_)
      obtain ⟨u, v, rfl, hu⟩ := isCharBoundary_iff.mp hb
      refine ⟨c :: u, v, rfl, ?_⟩
      rw [len, hu]
      omega
    · rw [if_neg hfit, if_neg]
      intro hle
      refine hne ⟨[c], t, rfl, ?_⟩
      rw [len, len_nil]
      omega

theorem floorBoundary_eq (t : Text) (n : Nat) : t.floorBoundary n = (t.takeBytes n).len := by
  induction n with
  | zero =>
    have h := takeBytes_len [] t
    rw [nil_append] at h
    rw [show t.takeBytes 0 = [] from h]
    rfl
  | succ n ih =>
    rw [floorBoundary]
    split_ifs with h
    · obtain ⟨u, v, rfl, hu⟩ := isCharBoundary_iff.mp h
      rw [← hu, takeBytes_len]
    · rw [ih, takeBytes_succ_of_not (Bool.eq_false_iff.mpr h)]

theorem sliceTo_floorBoundary (t : Text) (n : Nat) :
    t.sliceTo (t.floorBoundary n) = .ok (t.takeBytes n) := by
  obtain ⟨rest, hrest⟩ := t.takeBytes_prefix n
  have h := sliceTo_append (t.takeBytes n) rest
  rwa [hrest, ← floorBoundary_eq] at h

end Text

end TerminalCommander
