import Mathlib.Data.List.MinMax
import TerminalCommander.Core.Str

/-!
# The mount that owns a path

`backend_from_mountinfo` of `probes/src/file.rs` and the 9P guard `check_filesystem` of
`store/src/lib.rs` keep the longest mount point that the path begins with. Of several mounts on one
point they keep the first, which the later ones hide; the guard takes `/mnt/c` for a parent of
`/mnt/c2`; and neither undoes the escapes of the mount table.
-/

namespace TerminalCommander.Mounts

open List

structure Mount where
  point : Text
  fsType : Text
  deriving DecidableEq, Repr

/-- The fifth field, and the one behind the `-`. -/
def mountOf (line : Text) : Option Mount := do
  let fields := line.splitWhitespace
  let dash ← fields.findIdx? (· = ['-'])
  return ⟨← fields[4]?, ← fields[dash + 1]?⟩

/-- A `\r` in front of the `\n` is blank, as is the text behind the last one. -/
def mounts (mountinfo : Text) : List Mount := (mountinfo.splitOn '\n').filterMap mountOf

def keepLonger (covers : Text → Bool) (best : Option Mount) (m : Mount) : Option Mount :=
  if covers m.point then
    match best with
    | none => some m
    | some b => if b.point.len < m.point.len then some m else some b
  else best

def best (covers : Text → Bool) (mountinfo : Text) : Option Mount :=
  (mounts mountinfo).foldl (keepLonger covers) none

def pathHasMountPrefix (target mountPoint : Text) : Bool :=
  mountPoint = ['/'] ∨ ∃ rest ∈ target.stripPrefix mountPoint, rest = [] ∨ rest.head? = some '/'

def on9p (m : Option Mount) : Bool := m.any (·.fsType = "9p".toList)

inductive FileWatchBackend where
  | notify | poll
  deriving DecidableEq, Repr

def backendFromMountinfo (mountinfo target : Text) : FileWatchBackend :=
  if on9p (best (pathHasMountPrefix target) mountinfo) then .poll else .notify

/-- Whether a store in the canonical directory `target` is refused. -/
def checkFilesystem (mountinfo target : Text) : Bool :=
  on9p (best (fun point => point <+: target) mountinfo)

/-! ## The owner -/

/-- The text that the mount table escapes: three octal digits behind a backslash. -/
def unescape : Text → Text
  | '\\' :: a :: b :: c :: rest =>
    if '0' ≤ a ∧ a ≤ '3' ∧ '0' ≤ b ∧ b ≤ '7' ∧ '0' ≤ c ∧ c ≤ '7' then
      Char.ofNat (Nat.ofDigitChars 8 [a, b, c] 0) :: unescape rest
    else '\\' :: unescape (a :: b :: c :: rest)
  | c :: rest => c :: unescape rest
  | [] => []

/-- The components of `point` are the first ones of `path`. -/
def IsParent (point path : Text) : Prop := point = ['/'] ∨ point ++ ['/'] <+: path ++ ['/']

instance (point path : Text) : Decidable (IsParent point path) :=
  inferInstanceAs (Decidable (_ ∨ _))

/-- The longest mount point over the path, and of the mounts on it the one listed last. -/
def owner (mountinfo path : Text) : Option Mount :=
  ((mounts mountinfo).reverse.filter fun m => IsParent (unescape m.point) path).argmax
    fun m => (unescape m.point).len

theorem pathHasMountPrefix_iff {target point : Text} :
    pathHasMountPrefix target point ↔ IsParent point target := by
  unfold pathHasMountPrefix IsParent Text.stripPrefix
  rw [decide_eq_true_eq]
  refine or_congr_right ⟨?_, fun ⟨more, h⟩ => ?_⟩
  · rintro ⟨rest, hrest, h⟩
    obtain ⟨⟨tail, rfl⟩, hrest⟩ := Option.ite_none_right_eq_some.mp hrest
    rw [drop_left, Option.some.injEq] at hrest
    subst hrest
    rcases h with rfl | h
    · rw [append_nil]
    · obtain ⟨tail, rfl⟩ := head?_eq_some_iff.mp h
      exact ⟨tail ++ ['/'], by simp⟩
  · rcases eq_nil_or_concat' more with rfl | ⟨more, c, rfl⟩
    · obtain rfl : point = target := by simpa using h
      exact ⟨[], by simp, .inl rfl⟩
    · rw [← append_assoc] at h
      obtain ⟨rfl, -⟩ := append_inj' h rfl
      exact ⟨'/' :: more, by simp, .inr rfl⟩

def firstLongest (covers : Text → Bool) (mountinfo : Text) : Option Mount :=
  ((mounts mountinfo).filter fun m => covers m.point).argmax fun m => m.point.len

theorem foldl_keepLonger (covers : Text → Bool) (ms : List Mount) : ∀ best,
    ms.foldl (keepLonger covers) best = (ms.filter fun m => covers m.point).foldl
      (argAux fun b c => c.point.len < b.point.len) best := by
  induction ms with
  | nil => exact fun _ => rfl
  | cons m ms ih =>
    intro best
    rw [foldl_cons, ih]
    unfold keepLonger
    cases hcovers : covers m.point with
    | false =>
      rw [filter_cons_of_neg (by simp [hcovers])]
      rfl
    | true =>
      rw [filter_cons_of_pos (by simpa using hcovers), foldl_cons]
      cases best <;> rfl

theorem best_eq (covers : Text → Bool) (mountinfo : Text) :
    best covers mountinfo = firstLongest covers mountinfo := foldl_keepLonger covers _ none

def stacked : Text := ("36 1 0:1 / / rw - ext4 d rw\n37 36 0:2 / /mnt/c rw - ext4 d rw\n" ++
  "38 37 0:3 / /mnt/c rw - 9p d rw\n").toList

end TerminalCommander.Mounts
