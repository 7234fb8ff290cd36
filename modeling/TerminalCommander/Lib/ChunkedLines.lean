import Mathlib.Data.List.Basic

/-!
# Lines of a stream that comes in chunks

A reader hands a stream over in chunks, and a line is read off it by searching each chunk for the
separator. What is kept of a line is up to the caller (`push`). If it is a function `kept` of the
bytes pushed, the lines do not depend on the chunks (`readLine_line`, `readLine_tail`), and neither
does a loop over them (`foldLines_eq`).
-/

namespace ChunkedLines

open List

variable {α σ τ : Type} [DecidableEq α]

def complete (sep : α) (stream : List α) : List (List α) := (stream.splitOn sep).dropLast

def lines (sep : α) (stream : List α) : List (List α × Bool) :=
  (complete sep stream).map (·, true) ++
    ((stream.splitOn sep).getLast?.filter (!·.isEmpty)).toList.map (·, false)

def joined (sep : α) (ls : List (List α)) : List α := ls.flatMap (· ++ [sep])

def readLine (sep : α) (push : σ → List α → σ) (acc : σ) (sawInput : Bool) :
    List (List α) → Option (σ × Bool) × List (List α)
  | [] => (if sawInput then some (acc, false) else none, [])
  | chunk :: rest =>
    if chunk.isEmpty then readLine sep push acc sawInput rest
    else
      match chunk.idxOf? sep with
      | some i => (some (push acc (chunk.take i), true), chunk.drop (i + 1) :: rest)
      | none => readLine sep push (push acc chunk) true rest

def foldLines (sep : α) (push : σ → List α → σ) (init : σ) (step : τ → σ × Bool → Option τ) :
    Nat → τ → List (List α) → Option τ
  | 0, _, _ => none
  | fuel + 1, t, chunks =>
    match readLine sep push init false chunks with
    | (none, _) => some t
    | (some line, rest) =>
      match step t line with
      | none => some t
      | some t' => foldLines sep push init step fuel t' rest

def walk (step : τ → σ → Option τ) (t : τ) : List σ → τ
  | [] => t
  | line :: rest =>
    match step t line with
    | none => t
    | some t' => walk step t' rest

variable {sep : α} {line more stream : List α}

theorem complete_line (h : sep ∉ line) :
    complete sep (line ++ sep :: more) = line :: complete sep more := by
  rw [complete, splitOn_append_cons_self_of_not_mem h,
    dropLast_cons_of_ne_nil (splitOn_ne_nil sep more), complete]

theorem complete_tail (h : sep ∉ stream) : complete sep stream = [] := by
  rw [complete, splitOn_eq_singleton h, dropLast_singleton]

theorem lines_line (h : sep ∉ line) :
    lines sep (line ++ sep :: more) = (line, true) :: lines sep more := by
  unfold lines
  rw [complete_line h, splitOn_append_cons_self_of_not_mem h,
    getLast?_cons_of_ne_nil (splitOn_ne_nil sep more)]
  rfl

theorem lines_tail (h : sep ∉ stream) :
    lines sep stream = if stream.isEmpty then [] else [(stream, false)] := by
  unfold lines
  rw [complete_tail h, splitOn_eq_singleton h]
  cases stream <;> rfl

theorem line_or_tail (sep : α) (stream : List α) :
    sep ∉ stream ∨ ∃ line more, stream = line ++ sep :: more ∧ sep ∉ line := by
  by_cases h : sep ∈ stream
  · obtain ⟨line, more, hstr, hline⟩ := eq_append_cons_of_mem h
    exact .inr ⟨line, more, hstr, hline⟩
  · exact .inl h

@[elab_as_elim]
theorem line_induction (sep : α) {motive : List α → Prop} (stream : List α)
    (tail : ∀ stream, sep ∉ stream → motive stream)
    (line : ∀ line more, sep ∉ line → motive more → motive (line ++ sep :: more)) :
    motive stream := by
  rcases line_or_tail sep stream with h | ⟨l, more, hstr, h⟩
  · exact tail stream h
  · rw [hstr]
    exact line l more h (line_induction sep more tail line)
termination_by stream.length
decreasing_by
  rw [hstr, length_append, length_cons]
  omega

theorem complete_split (sep : α) (stream : List α) :
    ∃ tail, stream = joined sep (complete sep stream) ++ tail ∧ sep ∉ tail := by
  induction stream using line_induction sep with
  | tail stream h => exact ⟨stream, by rw [complete_tail h]; rfl, h⟩
  | line line more h ih =>
    obtain ⟨tail, hmore, htail⟩ := ih
    refine ⟨tail, ?_, htail⟩
    rw [complete_line h]
    nth_rewrite 1 [hmore]
    simp [joined]

theorem not_mem_complete (h : line ∈ complete sep stream) : sep ∉ line := by
  induction stream using line_induction sep with
  | tail stream htail => simp [complete_tail htail] at h
  | line first more hfirst ih =>
    rw [complete_line hfirst, mem_cons] at h
    rcases h with rfl | h
    · exact hfirst
    · exact ih h

theorem complete_joined_append {ls : List (List α)} (h : ∀ line ∈ ls, sep ∉ line)
    (rest : List α) : complete sep (joined sep ls ++ rest) = ls ++ complete sep rest := by
  induction ls with
  | nil => rfl
  | cons line ls ih =>
    have hrest := ih fun l hl => h l (mem_cons_of_mem line hl)
    have hline : complete sep (line ++ sep :: (joined sep ls ++ rest)) = _ :=
      complete_line (h line mem_cons_self)
    rw [hrest] at hline
    simpa [joined] using hline

theorem idxOf?_line (h : sep ∉ line) : (line ++ sep :: more).idxOf? sep = some line.length := by
  induction line with
  | nil => simp [idxOf?_cons]
  | cons x line ih =>
    rw [mem_cons, not_or] at h
    simp [idxOf?_cons, ih h.2, Ne.symm h.1]

theorem line_unique {line' more' : List α} (h : sep ∉ line) (h' : sep ∉ line')
    (heq : line ++ sep :: more = line' ++ sep :: more') : line = line' ∧ more = more' := by
  have hlen : some line.length = some line'.length := by
    rw [← idxOf?_line h, heq, idxOf?_line h']
  obtain ⟨hline, hmore⟩ := append_inj heq (Option.some.inj hlen)
  exact ⟨hline, (List.cons.inj hmore).2⟩

omit [DecidableEq α] in
theorem within_line {chunk rest : List α} (h : sep ∉ chunk)
    (heq : chunk ++ rest = line ++ sep :: more) :
    ∃ back, line = chunk ++ back ∧ rest = back ++ sep :: more := by
  rcases append_eq_append_iff.mp heq with ⟨back, hline, hrest⟩ | ⟨cs, hchunk, hrest⟩
  · exact ⟨back, hline, hrest⟩
  · cases cs with
    | nil => exact ⟨[], by simpa using hchunk.symm, by simpa using hrest.symm⟩
    | cons c cs =>
      rw [cons_append, List.cons.injEq] at hrest
      rw [hchunk, hrest.1] at h
      exact absurd (mem_append_right _ mem_cons_self) h

section Kept

variable {push : σ → List α → σ} {kept : List α → σ}
  (hkept : ∀ front chunk, push (kept front) chunk = kept (front ++ chunk))

include hkept

theorem readLine_line : ∀ {chunks : List (List α)} {front line : List α} {sawInput : Bool},
    sep ∉ line → chunks.flatten = line ++ sep :: more →
    ∃ rest, readLine sep push (kept front) sawInput chunks =
        (some (kept (front ++ line), true), rest) ∧
      rest.flatten = more := by
  intro chunks
  induction chunks with
  | nil =>
    intro front line sawInput _ h
    simp at h
  | cons chunk rest ih =>
    intro front line sawInput hline h
    rw [flatten_cons] at h
    by_cases hempty : chunk = []
    · rw [hempty, nil_append] at h
      rw [readLine, if_pos (by simp [hempty])]
      exact ih hline h
    rw [readLine, if_neg (by simpa using hempty)]
    rcases line_or_tail sep chunk with hchunk | ⟨before, back, rfl, hbef⟩
    · -- the chunk is a part of the line
      obtain ⟨back, rfl, hback⟩ := within_line hchunk h
      obtain ⟨rest', hrun, hmore⟩ := @ih (front ++ chunk) back true
        (fun hmem => hline (mem_append_right _ hmem)) hback
      rw [idxOf?_eq_none_iff.mpr hchunk, hkept]
      exact ⟨rest', by rw [hrun, append_assoc], hmore⟩
    · -- the line ends in the chunk
      rw [append_assoc, cons_append] at h
      obtain ⟨rfl, hback⟩ := line_unique hbef hline h
      refine ⟨back :: rest, ?_, hback⟩
      simp [idxOf?_line hbef, hkept]

theorem readLine_tail : ∀ {chunks : List (List α)} {front : List α} {sawInput : Bool},
    sep ∉ chunks.flatten →
    readLine sep push (kept front) sawInput chunks =
      (if sawInput || !chunks.flatten.isEmpty then some (kept (front ++ chunks.flatten), false)
        else none, []) := by
  intro chunks
  induction chunks with
  | nil =>
    intro front sawInput _
    simp [readLine]
  | cons chunk rest ih =>
    intro front sawInput h
    rw [flatten_cons, mem_append, not_or] at h
    by_cases hempty : chunk = []
    · rw [readLine, if_pos (by simp [hempty]), ih h.2, hempty]
      simp
    · rw [readLine, if_neg (by simpa using hempty), idxOf?_eq_none_iff.mpr h.1]
      simp [ih h.2, hkept, hempty]

theorem foldLines_eq {step : τ → σ × Bool → Option τ} : ∀ {fuel : Nat} {t : τ}
    {chunks : List (List α)}, chunks.flatten.length < fuel →
    foldLines sep push (kept []) step fuel t chunks =
      some (walk step t ((lines sep chunks.flatten).map fun l => (kept l.1, l.2))) := by
  intro fuel
  induction fuel with
  | zero =>
    intro t chunks hfuel
    omega
  | succ fuel ih =>
    intro t chunks hfuel
    rw [foldLines]
    rcases line_or_tail sep chunks.flatten with htail | ⟨line, more, hstr, hline⟩
    · rw [readLine_tail hkept htail, lines_tail htail]
      by_cases hempty : chunks.flatten = []
      · simp [hempty, walk]
      · -- the last line: the next read finds nothing
        have hend (t : τ) : foldLines sep push (kept []) step fuel t [] = some t := by
          have := length_pos_iff.mpr hempty
          obtain ⟨fuel, rfl⟩ : ∃ n, fuel = n + 1 := ⟨fuel - 1, by omega⟩
          simp [foldLines, readLine]
        cases hstep : step t (kept chunks.flatten, false) <;>
          simp [hempty, walk, hstep, hend]
    · obtain ⟨rest, hread, hrest⟩ := readLine_line hkept hline hstr
      have hlength := congrArg List.length hstr
      rw [length_append, length_cons] at hlength
      rw [hread, hstr, lines_line hline]
      cases hstep : step t (kept line, true) with
      | none => simp [walk, hstep]
      | some t' =>
        simp only [walk, hstep, map_cons, nil_append]
        rw [ih (by rw [hrest]; omega), hrest]

end Kept

end ChunkedLines
