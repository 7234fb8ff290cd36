import TerminalCommander.Core.StrBytes

/-!
# Search snippets

`center_snippet` of `daemon/src/ipc/handlers/file.rs` cuts a window of `max_snippet` bytes around a
match and moves both of its edges down to character boundaries. It shows the match, but the left
edge moves away from the right one: the snippet fits only if the right edge moves as far.
-/

namespace TerminalCommander

open Text List

/-- The loop `while end > start && !line.is_char_boundary(end)`. -/
def stepDown (line : Text) (start : Nat) : Nat → Nat
  | 0 => 0
  | n + 1 =>
    if start < n + 1 && !line.isCharBoundary (n + 1) then stepDown line start n else n + 1

def snippetEnd (line : Text) (col maxSnippet : Nat) : Nat :=
  min (col - maxSnippet / 2 + maxSnippet) line.len

def snippetStart (line : Text) (col maxSnippet : Nat) : Nat :=
  snippetEnd line col maxSnippet - maxSnippet

def centerSnippet (line : Text) (col maxSnippet : Nat) : Checked Text :=
  if line.len ≤ maxSnippet then .ok line
  else
    let start := line.floorBoundary (snippetStart line col maxSnippet)
    let stop := stepDown line start (snippetEnd line col maxSnippet)
    line.slice start (if stop < start then start else stop)

/-- How far a position stands behind the last character boundary. -/
def overhang (line : Text) (n : Nat) : Nat := n - (line.takeBytes n).len

theorem isCharBoundary_floorBoundary (line : Text) (n : Nat) :
    line.isCharBoundary (line.floorBoundary n) := by
  obtain ⟨rest, hrest⟩ := line.takeBytes_prefix n
  rw [isCharBoundary_iff, floorBoundary_eq]
  exact ⟨_, rest, hrest.symm, rfl⟩

theorem stepDown_eq {line : Text} {start : Nat} (hstart : line.isCharBoundary start)
    {n : Nat} (h : start ≤ n) : stepDown line start n = line.floorBoundary n := by
  induction n with
  | zero => rfl
  | succ n ih =>
    rw [stepDown, floorBoundary]
    by_cases hb : line.isCharBoundary (n + 1)
    · simp [hb]
    · have hlt : start < n + 1 := by
        refine Nat.lt_of_le_of_ne h ?_
        rintro rfl
        exact hb hstart
      simp [hb, hlt, ih (by omega)]

theorem takeBytes_mono (t : Text) {m n : Nat} (h : m ≤ n) : t.takeBytes m <+: t.takeBytes n := by
  obtain ⟨rest, hrest⟩ := t.takeBytes_prefix m
  have hkept := takeBytes_append (Nat.le_trans (len_takeBytes_le t m) h) rest
  rw [hrest] at hkept
  rw [hkept]
  exact prefix_append _ _

variable {line : Text} {maxSnippet col : Nat}

/-- The snippet is what the right edge keeps of the line, without what the left edge cuts off. -/
theorem centerSnippet_eq (hlong : maxSnippet < line.len) {snippet : Text}
    (hcut : line.takeBytes (snippetStart line col maxSnippet) ++ snippet =
      line.takeBytes (snippetEnd line col maxSnippet)) :
    centerSnippet line col maxSnippet = .ok snippet := by
  have hstart := len_takeBytes_le line (snippetStart line col maxSnippet)
  have hlen := congrArg Text.len hcut
  rw [len_append] at hlen
  have hstop := stepDown_eq (isCharBoundary_floorBoundary line (snippetStart line col maxSnippet))
    (n := snippetEnd line col maxSnippet) (by rw [floorBoundary_eq]; unfold snippetStart at *; omega)
  unfold centerSnippet slice
  rw [if_neg (by omega)]
  dsimp only
  rw [hstop, if_neg (by rw [floorBoundary_eq, floorBoundary_eq]; omega), sliceTo_floorBoundary, ← hcut,
    floorBoundary_eq]
  exact sliceFrom_append _ _

/-- **Snippets.** A snippet around the character at `col` is cut at character boundaries and has the
character in it. It fits exactly if the line does or its right edge moves as far as the left one. -/
theorem snippet_fits_iff (u v : Text) (c : Char) (maxSnippet : Nat) (h : 8 ≤ maxSnippet) :
    ∃ a b, centerSnippet (u ++ c :: v) u.len maxSnippet = .ok (a ++ c :: b) ∧ a <:+ u ∧ b <+: v ∧
      (Text.len (a ++ c :: b) ≤ maxSnippet ↔ Text.len (u ++ c :: v) ≤ maxSnippet ∨
        overhang (u ++ c :: v) (snippetStart (u ++ c :: v) u.len maxSnippet) ≤
          overhang (u ++ c :: v) (snippetEnd (u ++ c :: v) u.len maxSnippet)) := by
  by_cases hlong : Text.len (u ++ c :: v) ≤ maxSnippet
  · exact ⟨u, v, if_pos hlong, suffix_rfl, prefix_rfl, iff_of_true hlong (.inl hlong)⟩
  have hsize := c.utf8Size_le_four
  have hu : (u ++ c :: v).takeBytes u.len = u := takeBytes_len u (c :: v)
  have huc : (u ++ c :: v).takeBytes (u ++ [c]).len = u ++ [c] := by
    have hlen := takeBytes_len (u ++ [c]) v
    rwa [append_assoc] at hlen
  have hlen : (u ++ [c]).len = u.len + c.utf8Size := by rw [len_append]; rfl
  have htotal : Text.len (u ++ c :: v) = (u ++ [c]).len + v.len := by
    rw [← len_append, append_assoc]
    rfl
  have hwindow : snippetEnd (u ++ c :: v) u.len maxSnippet =
      snippetStart (u ++ c :: v) u.len maxSnippet + maxSnippet := by
    unfold snippetStart snippetEnd
    omega
  -- the left edge is not behind the character, and the right edge not before its end
  have hleft : snippetStart (u ++ c :: v) u.len maxSnippet ≤ u.len := by
    unfold snippetStart snippetEnd
    omega
  have hright : (u ++ [c]).len ≤ snippetEnd (u ++ c :: v) u.len maxSnippet := by
    unfold snippetEnd
    omega
  obtain ⟨a, ha⟩ := hu ▸ takeBytes_mono (u ++ c :: v) hleft
  obtain ⟨b, hb⟩ := huc ▸ takeBytes_mono (u ++ c :: v) hright
  have hcut : (u ++ c :: v).takeBytes (snippetStart (u ++ c :: v) u.len maxSnippet) ++
      (a ++ c :: b) = (u ++ c :: v).takeBytes (snippetEnd (u ++ c :: v) u.len maxSnippet) := by
    rw [← hb, ← append_assoc, ha, append_assoc]
    rfl
  have hbv : u ++ [c] ++ b <+: u ++ [c] ++ v := by
    rw [hb, append_assoc]
    exact takeBytes_prefix _ _
  refine ⟨a, b, centerSnippet_eq (Nat.not_le.mp hlong) hcut, ⟨_, ha⟩,
    (prefix_append_right_inj _).mp hbv, ?_⟩
  have hsum := congrArg Text.len hcut
  have hstart := len_takeBytes_le (u ++ c :: v) (snippetStart (u ++ c :: v) u.len maxSnippet)
  have hend := len_takeBytes_le (u ++ c :: v) (snippetEnd (u ++ c :: v) u.len maxSnippet)
  rw [len_append _ (a ++ c :: b)] at hsum
  rw [or_iff_right hlong]
  unfold overhang
  omega

theorem ascii_snippet_fits : ∃ a b, centerSnippet "needle in a haystack".toList 12 8 =
    .ok (a ++ 'h' :: b) ∧ Text.len (a ++ 'h' :: b) ≤ 8 := by
  obtain ⟨a, b, hret, -, -, hfits⟩ :=
    snippet_fits_iff "needle in a ".toList "aystack".toList 'h' 8 (by decide)
  exact ⟨a, b, hret, hfits.mpr (by decide +kernel)⟩

/-- The left edge falls into the two-byte character and moves back before it. -/
theorem snippet_too_long : centerSnippet "aébbbcbbbbbb".toList 6 8 = .ok "ébbbcbbb".toList ∧
    Text.len "ébbbcbbb".toList = 9 := by
  decide +kernel

end TerminalCommander
