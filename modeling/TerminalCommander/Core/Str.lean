import Mathlib.Data.List.DropRight
import Mathlib.Data.List.Infix
import TerminalCommander.Core.Text
import TerminalCommander.Lib.Checked

/-!
# Functions on strings

The methods of Rust's `str` that the redaction, the shell deny and the failsafe use, on texts.
Positions count characters; the source's byte positions of the same places differ from them only
behind characters outside ASCII. Where the source cuts a string at a byte position that it has
computed, the cut is `sliceTo` or `sliceFrom`, which fail off a character boundary.
-/

namespace TerminalCommander

namespace Text

open List Option Char

def toAsciiLowercase (t : Text) : Text := t.map Char.toLower

def eqIgnoreAsciiCase (t u : Text) : Bool := t.toAsciiLowercase == u.toAsciiLowercase

def trimStart (t : Text) : Text := t.dropWhile whiteSpace

def trimEnd (t : Text) : Text := t.rdropWhile whiteSpace

def trim (t : Text) : Text := t.trimStart.trimEnd

def find (p : Text) : Text → Option Nat
  | [] => if p.isEmpty then some 0 else none
  | c :: t => if p <+: c :: t then some 0 else (find p t).map (· + 1)

def findChar (p : Char → Bool) (t : Text) : Option Nat := t.findIdx? p

def rfindChar (p : Char → Bool) (t : Text) : Option Nat :=
  (t.reverse.findIdx? p).map (t.length - 1 - ·)

def splitWhitespace (t : Text) : List Text := (t.splitOnP whiteSpace).filter (· ≠ [])

def join (sep : Text) (ts : List Text) : Text := sep.intercalate ts

def truncate (n : Nat) (t : Text) : Text := if n < t.len then t.takeBytes n else t

def stripPrefix (t p : Text) : Option Text := if p <+: t then some (t.drop p.length) else none

def stripSuffix (t p : Text) : Option Text :=
  if p <:+ t then some (t.take (t.length - p.length)) else none

def splitOnce (c : Char) (t : Text) : Option (Text × Text) :=
  match t.dropWhile (· != c) with
  | [] => none
  | _ :: rest => some (t.takeWhile (· != c), rest)

def trimEndMatches (p : Char → Bool) (t : Text) : Text := t.rdropWhile p

def behindLast (sep : Char → Bool) (t : Text) : Text := t.rtakeWhile fun c => !sep c

def replaceChar (c d : Char) (t : Text) : Text := t.map fun e => if e = c then d else e

def sliceTo (t : Text) (n : Nat) : Checked Text := (Checked.cut Char.utf8Size t n).map Prod.fst

def sliceFrom (t : Text) (n : Nat) : Checked Text := (Checked.cut Char.utf8Size t n).map Prod.snd

def byteIs (t : Text) (n : Nat) (c : Char) : Bool :=
  match Checked.cut Char.utf8Size t n with
  | .ok (_, d :: _) => d == c
  | _ => false

/-! ## Words -/

@[simp] theorem splitWhitespace_nil : splitWhitespace [] = [] := by
  unfold splitWhitespace
  rw [splitOnP_nil]
  rfl

variable {c : Char} {t u : Text}

theorem splitWhitespace_cut (h : whiteSpace c) :
    splitWhitespace (t ++ c :: u) = splitWhitespace t ++ splitWhitespace u := by
  unfold splitWhitespace
  rw [splitOnP_append_cons _ _ h, filter_append]

theorem splitWhitespace_word (hne : t ≠ []) (h : ∀ c ∈ t, whiteSpace c = false) :
    splitWhitespace t = [t] := by
  unfold splitWhitespace
  rw [splitOnP_eq_singleton h]
  simp [hne]

def EndsBlank (t : Text) : Prop := ∀ c ∈ t.getLast?, whiteSpace c = true

def StartsBlank (t : Text) : Prop := ∀ c ∈ t.head?, whiteSpace c = true

instance (t : Text) : Decidable (EndsBlank t) :=
  Option.decidableForallMem t.getLast?

instance (t : Text) : Decidable (StartsBlank t) :=
  Option.decidableForallMem t.head?

theorem splitWhitespace_startsBlank (h : StartsBlank u) :
    splitWhitespace (t ++ u) = splitWhitespace t ++ splitWhitespace u := by
  cases u with
  | nil => rw [append_nil, splitWhitespace_nil, append_nil]
  | cons c u =>
    have hc : whiteSpace c := h c rfl
    have hu := splitWhitespace_cut (t := []) (u := u) hc
    rw [nil_append, splitWhitespace_nil, nil_append] at hu
    rw [splitWhitespace_cut hc, hu]

theorem splitWhitespace_endsBlank (h : EndsBlank t) :
    splitWhitespace (t ++ u) = splitWhitespace t ++ splitWhitespace u := by
  rcases eq_nil_or_concat' t with rfl | ⟨t, c, rfl⟩
  · rw [nil_append, splitWhitespace_nil, nil_append]
  · have hc : whiteSpace c := h c getLast?_concat
    have ht := splitWhitespace_cut (t := t) (u := []) hc
    rw [splitWhitespace_nil, append_nil] at ht
    rw [append_assoc, singleton_append, splitWhitespace_cut hc, ht]

theorem splitWhitespace_blank (h : ∀ c ∈ t, whiteSpace c) : splitWhitespace t = [] := by
  induction t with
  | nil => exact splitWhitespace_nil
  | cons c t ih =>
    have hc := splitWhitespace_cut (t := []) (u := t) (h c mem_cons_self)
    rw [nil_append, splitWhitespace_nil, nil_append] at hc
    rw [hc]
    exact ih fun d hd => h d (mem_cons_of_mem c hd)

/-! ## Letter case -/

theorem isUpper_iff : c.isUpper ↔ 65 ≤ c.toNat ∧ c.toNat ≤ 90 := by
  show decide (c.val ≥ 'A'.val ∧ c.val ≤ 'Z'.val) ↔ _
  rw [decide_eq_true_eq]
  exact Iff.rfl

theorem isLower_iff : c.isLower ↔ 97 ≤ c.toNat ∧ c.toNat ≤ 122 := by
  show (decide (c.val ≥ 'a'.val) && decide (c.val ≤ 'z'.val)) ↔ _
  rw [Bool.and_eq_true, decide_eq_true_eq, decide_eq_true_eq]
  exact Iff.rfl

theorem isAlpha_iff : c.isAlpha ↔
    (65 ≤ c.toNat ∧ c.toNat ≤ 90) ∨ (97 ≤ c.toNat ∧ c.toNat ≤ 122) := by
  show (c.isUpper || c.isLower) ↔ _
  rw [Bool.or_eq_true, isUpper_iff, isLower_iff]

theorem toLower_of_whiteSpace (h : whiteSpace c) : c.toLower = c := by
  unfold toLower
  rw [dif_neg]
  rintro ⟨hA, hZ⟩
  unfold whiteSpace at h
  have h1 : 65 ≤ c.toNat := hA
  have h2 : c.toNat ≤ 90 := hZ
  simp only [Bool.or_eq_true, Bool.and_eq_true, decide_eq_true_eq, beq_iff_eq] at h
  omega

theorem toLower_cases (c : Char) : c.toLower = c ∨ c.toLower.isLower := by
  unfold toLower
  split_ifs with h
  · right
    obtain ⟨hA, hZ⟩ := h
    have h1 : 65 ≤ c.toNat := hA
    have h2 : c.toNat ≤ 90 := hZ
    rw [isLower_iff]
    simp only [Char.toNat, UInt32.toNat_add] at h1 h2 ⊢
    have hdiff : ('a'.val - 'A'.val).toNat = 32 := rfl
    rw [hdiff]
    omega
  · exact .inl rfl

theorem mem_of_mem_toAsciiLowercase {d : Char} (hd : d.isLower = false)
    (h : d ∈ t.toAsciiLowercase) : d ∈ t := by
  obtain ⟨c, hc, rfl⟩ := List.mem_map.mp h
  rcases toLower_cases c with hself | hlower
  · rw [hself]
    exact hc
  · rw [hd] at hlower
    cases hlower

theorem utf8Size_toLower (c : Char) : c.toLower.utf8Size = c.utf8Size := by
  unfold toLower
  split_ifs with h
  · obtain ⟨hA, hZ⟩ := h
    have h1 : 65 ≤ c.toNat := hA
    have h2 : c.toNat ≤ 90 := hZ
    unfold utf8Size
    rw [if_pos, if_pos]
    · exact UInt32.le_iff_toNat_le.mpr (Nat.le_trans h2 (by decide))
    · simp only [UInt32.le_iff_toNat_le, UInt32.toNat_add]
      simp
      omega
  · rfl

theorem len_toAsciiLowercase (t : Text) : t.toAsciiLowercase.len = t.len := by
  induction t with
  | nil => rfl
  | cons c t ih =>
    show c.toLower.utf8Size + Text.len (toAsciiLowercase t) = c.utf8Size + Text.len t
    rw [ih, utf8Size_toLower]

/-! ## Joined and truncated texts -/

theorem join_append {sep : Text} {ts us : List Text} (ht : ts ≠ []) (hu : us ≠ []) :
    join sep (ts ++ us) = join sep ts ++ (sep ++ join sep us) := by
  unfold join
  induction ts with
  | nil => exact absurd rfl ht
  | cons t ts ih =>
    cases ts with
    | nil =>
      obtain ⟨u, us, rfl⟩ := exists_cons_of_ne_nil hu
      rw [singleton_append, intercalate_cons_cons, intercalate_singleton, append_assoc]
    | cons t' ts =>
      rw [cons_append, cons_append, intercalate_cons_cons, ← cons_append,
        ih (cons_ne_nil t' ts), intercalate_cons_cons]
      simp only [append_assoc]

theorem prefix_join (sep t : Text) (ts : List Text) : t <+: join sep (t :: ts) := by
  unfold join
  cases ts with
  | nil =>
    rw [intercalate_singleton]
  | cons t' ts =>
    rw [intercalate_cons_cons, append_assoc]
    exact prefix_append _ _

theorem takeBytes_append : ∀ {n : Nat}, t.len ≤ n → ∀ u : Text,
    takeBytes n (t ++ u) = t ++ takeBytes (n - t.len) u := by
  induction t with
  | nil => exact fun _ _ => rfl
  | cons c t ih =>
    intro n h u
    rw [Text.len] at h
    rw [cons_append, takeBytes, if_pos (by omega), ih (by omega), Text.len, Nat.sub_add_eq,
      cons_append]

theorem prefix_truncate {n : Nat} (h : t.len ≤ n) (u : Text) : t <+: truncate n (t ++ u) := by
  unfold truncate
  split_ifs
  · rw [takeBytes_append h]
    exact prefix_append _ _
  · exact prefix_append _ _

/-! ## Occurrences -/

variable {p : Text}

theorem isInfix_of_find {i : Nat} (h : find p t = some i) : p <:+: t := by
  induction t generalizing i with
  | nil =>
    unfold find at h
    split_ifs at h with hp
    rw [List.isEmpty_iff.mp hp]
  | cons c t ih =>
    unfold find at h
    split_ifs at h with hp
    · exact hp.isInfix
    · obtain ⟨j, hj, -⟩ := map_eq_some_iff.mp h
      exact (ih hj).trans (suffix_cons c t).isInfix

theorem prefix_drop_of_find : ∀ {i : Nat}, find p t = some i → p <+: t.drop i := by
  induction t with
  | nil =>
    intro i h
    unfold find at h
    split_ifs at h with hp
    rw [List.isEmpty_iff.mp hp]
    exact List.nil_prefix
  | cons c t ih =>
    intro i h
    unfold find at h
    split_ifs at h with hp
    · cases h
      exact hp
    · obtain ⟨j, hj, rfl⟩ := map_eq_some_iff.mp h
      exact ih hj

theorem find_behind {sep d : Char} (hsep : sep ∉ p) (hd : d ∈ p) (t : Text) :
    ∀ {front : Text}, d ∉ front →
      find p (front ++ sep :: t) = (find p t).map (· + (front.length + 1)) := by
  have hsplit : ∀ {front : Text}, d ∉ front → ¬ p <+: front ++ sep :: t := by
    intro front hfront hpre
    rcases prefix_or_prefix_of_prefix hpre (prefix_append front _) with hin | hout
    · exact hfront (hin.subset hd)
    · -- the separator would be a character of the string
      obtain ⟨rest, rfl⟩ := hout
      have hrest := (prefix_append_right_inj front).mp hpre
      cases rest with
      | nil =>
        rw [append_nil] at hd
        exact hfront hd
      | cons e rest =>
        rw [(cons_prefix_cons.mp hrest).1] at hsep
        exact hsep (mem_append_right front mem_cons_self)
  intro front
  induction front with
  | nil =>
    intro hfront
    have hnot : ¬ p <+: sep :: t := hsplit hfront
    rw [nil_append, find, if_neg hnot]
    rfl
  | cons c front ih =>
    intro hfront
    have hnot : ¬ p <+: c :: (front ++ sep :: t) := hsplit hfront
    rw [cons_append, find, if_neg hnot, ih fun h => hfront (mem_cons_of_mem c h), Option.map_map]
    rfl

theorem find_isSome_iff : (find p t).isSome ↔ p <:+: t := by
  refine ⟨fun h => isInfix_of_find (some_get h).symm, fun h => ?_⟩
  induction t with
  | nil =>
    rw [infix_nil.mp h]
    rfl
  | cons c t ih =>
    unfold find
    split_ifs with hp
    · rfl
    · rw [isSome_map]
      exact ih ((infix_cons_iff.mp h).resolve_left hp)

theorem find_append (hp : p ≠ []) (h : ∀ s, s <:+ t → p <+: s ++ u → p <+: s) :
    find p (t ++ u) = (find p t).or ((find p u).map (· + t.length)) := by
  induction t with
  | nil =>
    have hnil : find p [] = none := by simp [find, hp]
    rw [hnil, none_or]
    simp
  | cons c t ih =>
    have ih := ih fun s hs => h s (hs.trans (suffix_cons c t))
    have hhere : p <+: c :: (t ++ u) ↔ p <+: c :: t :=
      ⟨h _ suffix_rfl, fun hc => hc.trans (prefix_append (c :: t) u)⟩
    rw [cons_append, find, find]
    simp only [hhere]
    split_ifs
    · rw [some_or]
    · rw [ih]
      cases find p t with
      | none =>
        rw [none_or, map_none, none_or, Option.map_map]
        rfl
      | some i => rfl

/-! ## Slices -/

theorem len_eq_sum (t : Text) : t.len = (t.map utf8Size).sum := by
  induction t with
  | nil => rfl
  | cons c t ih => rw [len, ih, map_cons, sum_cons]

theorem cut_append (t u : Text) : Checked.cut utf8Size (t ++ u) t.len = .ok (t, u) := by
  rw [len_eq_sum]
  exact Checked.cut_append utf8Size_pos t u

theorem sliceTo_append (t u : Text) : sliceTo (t ++ u) t.len = .ok t := by
  unfold sliceTo
  rw [cut_append]
  rfl

theorem sliceFrom_append (t u : Text) : sliceFrom (t ++ u) t.len = .ok u := by
  unfold sliceFrom
  rw [cut_append]
  rfl

theorem byteIs_iff {n : Nat} : byteIs t n c ↔ ∃ u v, t = u ++ c :: v ∧ u.len = n := by
  unfold byteIs
  constructor
  · intro h
    split at h
    · rename_i u d v hcut
      obtain ⟨ht, hn⟩ := Checked.cut_eq_ok hcut
      rw [beq_iff_eq] at h
      exact ⟨u, v, h ▸ ht, (len_eq_sum u).trans hn⟩
    · cases h
  · rintro ⟨u, v, rfl, rfl⟩
    rw [cut_append]
    exact beq_self_eq_true c

end Text

end TerminalCommander
