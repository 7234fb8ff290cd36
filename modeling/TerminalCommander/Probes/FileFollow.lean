import TerminalCommander.Lib.Transition
import TerminalCommander.Probes.LineRead

/-!
# Following a file

The two follow modes of `run` in `probes/src/file.rs`, against a file that others append to and
truncate between any two steps of the probe. A poll opens the file, judges from its identity and its
size whether it is still the file that was read before, and reads from the position on, one
`fill_buf` at a time. `Sys.truncated` and `seen` are not part of the source; `scan_once`, a file
that cannot be opened, the metrics and the events of the frames are left out.
-/

namespace TerminalCommander

namespace FileFollow

open LineRead ChunkedLines List Transition Nat

variable {I : Type} [DecidableEq I]

inductive FileProbeMode where
  | followEnd | followBeginning
  deriving DecidableEq, Repr

structure Follow (I : Type) where
  pos : Nat
  lineNo : Nat
  lastSize : Option Nat
  lastIdentity : Option I
  frames : List Frame
  deriving DecidableEq, Repr

inductive Reader where
  | idle
  | reading (off : Nat) (chunks : List Bytes) (seen : Bytes)
  deriving DecidableEq, Repr

structure Sys (I : Type) where
  file : Bytes
  probe : Follow I
  reader : Reader
  truncated : Bool
  deriving DecidableEq, Repr

inductive Act (I : Type) where
  | append (bytes : Bytes)
  | truncate (n : Nat)
  | poll (identity : Option I)
  | fill (n : Nat)
  deriving DecidableEq, Repr

def rotated : Option I → Option I → Bool
  | some prev, some curr => prev != curr
  | _, _ => false

def opened (mode : FileProbeMode) (size : Nat) (identity : Option I) (p : Follow I) : Follow I :=
  let start :=
    if p.lastSize.isNone then
      match mode with
      | .followEnd => size
      | .followBeginning => 0
    else p.pos
  let pos :=
    if rotated p.lastIdentity identity then 0
    else if p.lastSize.any (size < ·) then 0
    else start
  { p with pos, lastSize := some size, lastIdentity := identity }

def emit (u : Utf8Lossy) (p : Follow I) (line : (Bytes × Nat) × Bool) : Option (Follow I) :=
  let line := fileLine u line
  if !line.terminated then none
  else
    some { p with
      lineNo := satAdd p.lineNo 1
      pos := satAdd p.pos line.rawLen
      frames := p.frames ++ [fileFrame (satAdd p.lineNo 1) p.pos line] }

def readNew (u : Utf8Lossy) (p : Follow I) (reader : List Bytes) : Follow I :=
  (foldLines newline pushFile ([], 0) (emit u) (reader.flatten.length + 1) p reader).getD p

def step (u : Utf8Lossy) (mode : FileProbeMode) (s : Sys I) : Act I → Option (Sys I)
  | .append bytes =>
    -- the size of a file is a u64
    if s.file.length + bytes.length ≤ u64Max then some { s with file := s.file ++ bytes } else none
  | .truncate n =>
    if n < s.file.length then some { s with file := s.file.take n, truncated := true } else none
  | .poll identity =>
    match s.reader with
    | .reading .. => none
    | .idle =>
      let p := opened mode s.file.length identity s.probe
      some { s with
        probe := p
        reader := if p.pos < s.file.length then .reading p.pos [] s.file else .idle
        truncated := false }
  | .fill n =>
    match s.reader with
    | .idle => none
    | .reading off chunks _ =>
      let chunk := (s.file.drop off).take (n + 1)
      if chunk.isEmpty then some { s with probe := readNew u s.probe chunks, reader := .idle }
      else some { s with reader := .reading (off + chunk.length) (chunks ++ [chunk]) s.file }

def init (file : Bytes) : Sys I := ⟨file, ⟨0, 0, none, none, []⟩, .idle, false⟩

inductive Moves (u : Utf8Lossy) (mode : FileProbeMode) (s : Sys I) : Act I → Sys I → Prop where
  | append {bytes : Bytes} (hfits : (s.file ++ bytes).length ≤ u64Max) :
    Moves u mode s (.append bytes) { s with file := s.file ++ bytes }
  | truncate {n : Nat} :
    Moves u mode s (.truncate n) { s with file := s.file.take n, truncated := true }
  | poll {identity : Option I} {p : Follow I} (hidle : s.reader = .idle)
    (hp : p = opened mode s.file.length identity s.probe) :
    Moves u mode s (.poll identity) { s with
      probe := p
      reader := if p.pos < s.file.length then .reading p.pos [] s.file else .idle
      truncated := false }
  | last {n off : Nat} {chunks : List Bytes} {seen : Bytes}
    (hr : s.reader = .reading off chunks seen) (hend : s.file.length ≤ off) :
    Moves u mode s (.fill n) { s with probe := readNew u s.probe chunks, reader := .idle }
  | fill {n off : Nat} {chunks : List Bytes} {seen chunk : Bytes}
    (hr : s.reader = .reading off chunks seen) (hmore : off < s.file.length)
    (hchunk : chunk = (s.file.drop off).take (n + 1)) :
    Moves u mode s (.fill n)
      { s with reader := .reading (off + chunk.length) (chunks ++ [chunk]) s.file }

variable {mode : FileProbeMode} {a : Act I}

theorem step_moves {u : Utf8Lossy} {s s' : Sys I}
    (h : step u mode s a = some s') : Moves u mode s a s' := by
  cases a with
  | append bytes =>
    rw [step] at h
    split_ifs at h with hfits
    cases h
    exact .append (by simpa using hfits)
  | truncate n =>
    rw [step] at h
    split_ifs at h
    cases h
    exact .truncate
  | poll identity =>
    rw [step] at h
    split at h
    · cases h
    · rename_i hidle
      cases h
      exact .poll hidle rfl
  | fill n =>
    rw [step] at h
    split at h
    · cases h
    · rename_i off chunks seen hr
      dsimp only at h
      split_ifs at h with hempty
      · cases h
        exact .last hr (by simpa using hempty)
      · cases h
        exact .fill hr (by simpa using hempty) rfl

/-! ## Handing out lines -/

def ended (u : Utf8Lossy) (line : Bytes) : FileLineRead := fileLine u (capped line, true)

def emitLine (u : Utf8Lossy) (p : Follow I) (line : Bytes) : Follow I :=
  { p with
    lineNo := satAdd p.lineNo 1
    pos := satAdd p.pos (ended u line).rawLen
    frames := p.frames ++ [fileFrame (satAdd p.lineNo 1) p.pos (ended u line)] }

omit [DecidableEq I] in
theorem readNew_eq (u : Utf8Lossy) (p : Follow I) (reader : List Bytes) :
    readNew u p reader = (complete newline reader.flatten).foldl (emitLine u) p := by
  unfold readNew
  rw [show (([], 0) : Bytes × Nat) = capped [] by simp [capped],
    foldLines_eq pushFile_capped (lt_succ_self _), Option.getD_some]
  generalize reader.flatten = stream
  induction stream using line_induction newline generalizing p with
  | tail stream h =>
    rw [lines_tail h, complete_tail h]
    cases stream <;> rfl
  | line line more h ih =>
    rw [lines_line h, complete_line h, map_cons, foldl_cons, ← ih]
    rfl

theorem length_joined_cons (line : Bytes) (ls : List Bytes) :
    (joined newline (line :: ls)).length = line.length + 1 + (joined newline ls).length := by
  rw [joined, flatMap_cons, length_append, length_append]
  rfl

theorem length_le_joined (ls : List Bytes) : ls.length ≤ (joined newline ls).length := by
  induction ls with
  | nil => simp
  | cons line ls ih =>
    rw [length_joined_cons, length_cons]
    omega

variable {line : Bytes}

theorem ended_rawLen (u : Utf8Lossy) (h : line.length + 1 ≤ u64Max) :
    (ended u line).rawLen = line.length + 1 := by
  simp only [ended, fileLine, capped, if_true, satAdd]
  omega

/-! ## A file that only grows -/

def framesOf (u : Utf8Lossy) : Nat → Nat → List Bytes → List Frame
  | _, _, [] => []
  | n, off, line :: ls =>
    fileFrame (n + 1) off (ended u line) :: framesOf u (n + 1) (off + line.length + 1) ls

theorem framesOf_append (u : Utf8Lossy) (n off : Nat) (ls ms : List Bytes) :
    framesOf u n off (ls ++ ms) =
      framesOf u n off ls ++ framesOf u (n + ls.length) (off + (joined newline ls).length) ms := by
  induction ls generalizing n off with
  | nil => rfl
  | cons line ls ih =>
    rw [cons_append, framesOf, ih, framesOf, length_joined_cons, cons_append, length_cons]
    congr 3 <;> omega

omit [DecidableEq I] in
theorem foldl_emitLine (u : Utf8Lossy) {ls : List Bytes} : ∀ {p : Follow I},
    p.pos + (joined newline ls).length ≤ u64Max → p.lineNo + ls.length ≤ u64Max →
    ls.foldl (emitLine u) p = { p with
      pos := p.pos + (joined newline ls).length
      lineNo := p.lineNo + ls.length
      frames := p.frames ++ framesOf u p.lineNo p.pos ls } := by
  induction ls with
  | nil =>
    intro p _ _
    simp [joined, framesOf]
  | cons line ls ih =>
    intro p hpos hline
    rw [length_joined_cons] at hpos ⊢
    rw [length_cons] at hline ⊢
    have hemit : emitLine u p line = { p with
        pos := p.pos + line.length + 1
        lineNo := p.lineNo + 1
        frames := p.frames ++ [fileFrame (p.lineNo + 1) p.pos (ended u line)] } := by
      rw [emitLine, ended_rawLen u (by omega), satAdd_of_le (by omega), satAdd_of_le (by omega)]
      rfl
    rw [foldl_cons, hemit, ih (by simp only; omega) (by simp only; omega)]
    simp only [framesOf, append_assoc, singleton_append, Follow.mk.injEq, and_true]
    omega

def Grows (id : I) : Act I → Prop
  | .append _ => True
  | .truncate _ => False
  | .poll identity => ∀ i ∈ identity, i = id
  | .fill _ => True

structure HandedOut (u : Utf8Lossy) (id : I) (s : Sys I) (done : List Bytes) (rest : Bytes) :
    Prop where
  whole : ∀ line ∈ done, newline ∉ line
  file : s.file = joined newline done ++ rest
  fits : s.file.length ≤ u64Max
  pos : s.probe.pos = (joined newline done).length
  lineNo : s.probe.lineNo = done.length
  frames : s.probe.frames = framesOf u 0 0 done
  size : ∀ n ∈ s.probe.lastSize, n ≤ s.file.length
  start : s.probe.lastSize = none → done = []
  identity : ∀ i ∈ s.probe.lastIdentity, i = id
  reader : ∀ off chunks seen, s.reader = .reading off chunks seen →
    s.probe.lastSize ≠ none ∧ off = s.probe.pos + chunks.flatten.length ∧
      chunks.flatten <+: rest

section Growing

variable {u : Utf8Lossy} {id : I} {s s' : Sys I} {done : List Bytes} {rest : Bytes}

omit [DecidableEq I] in
theorem HandedOut.length (h : HandedOut u id s done rest) :
    s.file.length = s.probe.pos + rest.length := by
  rw [h.file, h.pos, length_append]

theorem HandedOut.opened_pos (h : HandedOut u id s done rest) {identity : Option I}
    (hid : ∀ i ∈ identity, i = id) :
    (opened .followBeginning s.file.length identity s.probe).pos = s.probe.pos := by
  have hrotated : rotated s.probe.lastIdentity identity = false := by
    have hlast := h.identity
    cases hi : identity <;> cases hl : s.probe.lastIdentity <;> simp_all [rotated]
  cases hsize : s.probe.lastSize with
  | none =>
    have hpos := h.pos
    rw [h.start hsize] at hpos
    simp [opened, hsize, hpos, joined]
  | some n =>
    have hle : ¬s.file.length < n := not_lt.mpr (h.size n hsize)
    simp [opened, hsize, hrotated, hle]

omit [DecidableEq I] in
theorem HandedOut.handOut (h : HandedOut u id s done rest) {chunks : List Bytes}
    (hchunks : chunks.flatten = rest) (hsize : s.probe.lastSize ≠ none) : ∃ done' rest',
      HandedOut u id { s with probe := readNew u s.probe chunks, reader := .idle } done' rest' ∧
        newline ∉ rest' := by
  obtain ⟨tail, hrest, htail⟩ := complete_split newline rest
  have hpos := h.pos
  have hlineNo := h.lineNo
  have hfits := h.fits
  rw [h.length, hrest, length_append] at hfits
  have hlines := length_le_joined (complete newline rest)
  have hdone := length_le_joined done
  refine ⟨done ++ complete newline rest, tail, ?_, htail⟩
  rw [readNew_eq, hchunks, foldl_emitLine u (by omega) (by omega)]
  exact { h with
    whole := fun line hline =>
      (mem_append.mp hline).elim (h.whole line) not_mem_complete
    file := by
      rw [h.file]
      nth_rewrite 1 [hrest]
      simp [joined]
    pos := by simp [joined, hpos]
    lineNo := by simp [hlineNo]
    frames := by simp [h.frames, framesOf_append, hpos, hlineNo]
    start := fun hn => absurd hn hsize
    reader := fun _ _ _ hr => by cases hr }

theorem HandedOut.step (h : HandedOut u id s done rest) (ha : Grows id a)
    (hstep : Moves u .followBeginning s a s') : ∃ done' rest', HandedOut u id s' done' rest' ∧
      ((∀ bytes, a ≠ .append bytes) → s'.reader = .idle → newline ∉ rest') := by
  cases hstep with
  | @append bytes hfits =>
    refine ⟨done, rest ++ bytes, ?_, fun hne => absurd rfl (hne bytes)⟩
    exact { h with
      file := by rw [h.file, append_assoc]
      fits := hfits
      size := fun n hn => (h.size n hn).trans (by simp)
      reader := fun off chunks seen hr =>
        have ⟨hsize, hoff, hchunks⟩ := h.reader off chunks seen hr
        ⟨hsize, hoff, hchunks.trans (prefix_append _ _)⟩ }
  | truncate => exact ha.elim
  | @poll identity p hidle hp =>
    have hpos : p.pos = s.probe.pos := hp ▸ h.opened_pos ha
    refine ⟨done, rest, ?_, ?_⟩
    · subst hp
      exact { h with
        pos := hpos.trans h.pos
        size := fun n hn => by cases hn; exact le_rfl
        start := fun hn => by cases hn
        identity := ha
        reader := fun off chunks seen hr => by
          simp only at hr
          split_ifs at hr
          cases hr
          simp [opened] }
    · intro _ hend
      simp only [hpos] at hend
      split_ifs at hend with hlt
      have hlength := h.length
      have hrest : rest = [] := length_eq_zero_iff.mp (by omega)
      simp [hrest]
  | @last n off chunks seen hr hend =>
    -- the end of the file: everything behind the position has been read
    obtain ⟨hsize, hoff, more, hrest⟩ := h.reader off chunks seen hr
    have hlength := h.length
    rw [← hrest, length_append] at hlength
    rw [length_eq_zero_iff.mp (by omega : more.length = 0), append_nil] at hrest
    obtain ⟨done', rest', hout, htail⟩ := h.handOut hrest hsize
    exact ⟨done', rest', hout, fun _ _ => htail⟩
  | @fill n off chunks seen chunk hr hmore hchunk =>
    obtain ⟨hsize, hoff, more, hrest⟩ := h.reader off chunks seen hr
    have hdrop : s.file.drop off = more := by
      rw [h.file, hoff, h.pos, ← drop_drop, drop_left, ← hrest, drop_left]
    refine ⟨done, rest, { h with reader := ?_ }, fun _ hend => by cases hend⟩
    intro off' chunks' seen' hr'
    cases hr'
    refine ⟨hsize, by simp [hoff, add_assoc], ?_⟩
    rw [flatten_append, ← hrest, flatten_singleton, hchunk, hdrop]
    exact (prefix_append_right_inj _).mpr (List.take_prefix _ _)

end Growing

/-- At the end of every poll a follower has handed out the complete lines of the file, in order and
once each. -/
theorem follows_exactly_once (u : Utf8Lossy) (id : I) (file : Bytes) (hfile : file.length ≤ u64Max)
    (acts : List (Act I)) (a : Act I) (s s' : Sys I) (hgrows : ∀ b ∈ a :: acts, Grows id b)
    (hprobe : ∀ bytes, a ≠ .append bytes)
    (hrun : Transition.run (step u .followBeginning) (init file) acts = some s)
    (hlast : step u .followBeginning s a = some s') (hidle : s'.reader = .idle) :
    s'.probe.frames = framesOf u 0 0 (complete newline s'.file) := by
  have hinit : HandedOut u id (init file) [] file :=
    { whole := by simp
      file := by simp [init, joined]
      fits := hfile
      pos := rfl
      lineNo := rfl
      frames := rfl
      size := by simp [init]
      start := fun _ => rfl
      identity := by simp [init]
      reader := by simp [init] }
  have hkeep (s : Sys I) (b : Act I) (s' : Sys I) (h : ∃ done rest, HandedOut u id s done rest)
      (hb : Grows id b) (hstep : step u .followBeginning s b = some s') :
      ∃ done rest, HandedOut u id s' done rest := by
    obtain ⟨done, rest, h⟩ := h
    obtain ⟨done', rest', h', -⟩ := h.step hb (step_moves hstep)
    exact ⟨done', rest', h'⟩
  obtain ⟨done, rest, hs⟩ := run_invariant hkeep ⟨[], file, hinit⟩
    (meets_of_mem fun b hb => hgrows b (mem_cons_of_mem a hb)) hrun
  obtain ⟨done', rest', hs', hrest⟩ := hs.step (hgrows a mem_cons_self) (step_moves hlast)
  rw [hs'.frames, hs'.file, complete_joined_append hs'.whole, complete_tail (hrest hprobe hidle),
    append_nil]

def threeWrites : List (Act Unit) :=
  [.poll none, .fill 5, .fill 0, .append [99], .poll (some ()), .fill 0, .append [10, 100], .fill 7]

theorem follows_three_writes :
    ∃ s s' : Sys Unit,
      Transition.run (step asciiLossy .followBeginning) (init [97, 10, 98]) threeWrites = some s ∧
      step asciiLossy .followBeginning s (.fill 0) = some s' ∧
      s'.file = [97, 10, 98, 99, 10, 100] ∧
      s'.probe.frames = framesOf asciiLossy 0 0 (complete newline s'.file) :=
  ⟨_, _, rfl, rfl, rfl, follows_exactly_once asciiLossy () [97, 10, 98] (by decide +kernel)
    threeWrites (.fill 0) _ _ (by simp [threeWrites, Grows]) (by simp) rfl rfl rfl⟩

/-! ## A file that is truncated -/

def LineStart (content : Bytes) (off : Nat) : Prop :=
  off ≤ content.length ∧ ∀ b ∈ (content.take off).getLast?, b = newline

def Caught (s : Sys I) : Act I → Prop
  | .poll _ => s.truncated = true → ∀ n ∈ s.probe.lastSize, s.file.length < n
  | _ => True

instance Caught.decidable (s : Sys I) : ∀ a, Decidable (Caught s a)
  | .append _ | .truncate _ | .fill _ => isTrue trivial
  | .poll _ =>
    inferInstanceAs (Decidable (_ → _))

def Settled (s : Sys I) : Act I → Prop
  | .fill _ => s.truncated = true → ∀ off chunks seen, s.reader = .reading off chunks seen →
      s.file.length ≤ off
  | _ => True

structure ReadFrom (content : Bytes) (pos off : Nat) (chunks : List Bytes) : Prop where
  off : off = pos + chunks.flatten.length
  chunks : chunks.flatten <+: content.drop pos

structure Within (mode : FileProbeMode) (s : Sys I) : Prop where
  fits : s.file.length ≤ u64Max
  fresh : s.probe.lastSize = none → s.probe.pos = 0 ∧ s.reader = .idle
  pos : s.truncated = false → s.probe.pos ≤ s.file.length
  start : s.truncated = false → mode = .followBeginning → LineStart s.file s.probe.pos
  reader : s.truncated = false → ∀ off chunks seen, s.reader = .reading off chunks seen →
    ReadFrom s.file s.probe.pos off chunks

section Truncated

omit [DecidableEq I]

variable {content : Bytes}

theorem LineStart.append {off : Nat} (h : LineStart content off) (more : Bytes) :
    LineStart (content ++ more) off := by
  refine ⟨h.1.trans (by simp), ?_⟩
  rw [take_append_of_le_length h.1]
  exact h.2

theorem LineStart.next {more : Bytes} {pos : Nat} (hpos : pos ≤ content.length)
    (h : content.drop pos = line ++ newline :: more) : LineStart content (pos + line.length + 1) ∧
      content.drop (pos + line.length + 1) = more := by
  obtain ⟨front, hfront, hlen⟩ : ∃ front, content = front ++ (line ++ newline :: more) ∧
      front.length = pos :=
    ⟨content.take pos, by rw [← h, take_append_drop], by simp [hpos]⟩
  have hsplit : content = (front ++ line ++ [newline]) ++ more := by simp [hfront]
  have hend : pos + line.length + 1 = (front ++ line ++ [newline]).length := by
    simp [hlen, add_assoc]
  rw [hend, hsplit]
  refine ⟨⟨by simp, ?_⟩, drop_left⟩
  rw [take_left]
  simp

theorem emitLine_pos (u : Utf8Lossy) {p : Follow I}
    (h : p.pos + line.length + 1 ≤ u64Max) : (emitLine u p line).pos = p.pos + line.length + 1 := by
  show satAdd p.pos (ended u line).rawLen = _
  rw [ended_rawLen u (by omega), satAdd_of_le (by omega)]
  omega

theorem foldl_emitLine_lastSize (u : Utf8Lossy) (ls : List Bytes) (p : Follow I) :
    (ls.foldl (emitLine u) p).lastSize = p.lastSize := by
  induction ls generalizing p with
  | nil => rfl
  | cons line ls ih => exact ih (emitLine u p line)

theorem ReadFrom.more {pos off : Nat} {chunks : List Bytes}
    (h : ReadFrom content pos off chunks) (n : Nat) :
    ReadFrom content pos (off + ((content.drop off).take n).length)
      (chunks ++ [(content.drop off).take n]) := by
  obtain ⟨more, hmore⟩ := h.chunks
  have hdrop : content.drop off = more := by
    rw [h.off, ← drop_drop, ← hmore, drop_left]
  constructor
  · rw [flatten_append, length_append, flatten_singleton, h.off, add_assoc]
  · rw [flatten_append, flatten_singleton, ← hmore, hdrop]
    exact (prefix_append_right_inj _).mpr (List.take_prefix _ _)

def StartLines (content : Bytes) (p p' : Follow I) : Prop :=
  ∃ new, p'.frames = p.frames ++ new ∧
    ∀ f ∈ new, ∃ off, f.byteOffset = some off ∧ LineStart content off

theorem foldl_emitLine_within (u : Utf8Lossy) (hfits : content.length ≤ u64Max)
    (stream : Bytes) : ∀ {p : Follow I}, p.pos ≤ content.length → stream <+: content.drop p.pos →
    ((complete newline stream).foldl (emitLine u) p).pos ≤ content.length ∧
      (LineStart content p.pos →
        LineStart content ((complete newline stream).foldl (emitLine u) p).pos ∧
          StartLines content p ((complete newline stream).foldl (emitLine u) p)) := by
  induction stream using line_induction newline with
  | tail stream h =>
    intro p hpos _
    rw [complete_tail h, foldl_nil]
    exact ⟨hpos, fun hstart => ⟨hstart, [], by simp, by simp⟩⟩
  | line line more h ih =>
    rintro p hpos ⟨rest, hdrop⟩
    rw [complete_line h, foldl_cons]
    rw [append_assoc, cons_append] at hdrop
    obtain ⟨hstart', hmore⟩ := LineStart.next hpos hdrop.symm
    have hpos' := emitLine_pos u (hstart'.1.trans hfits)
    obtain ⟨hlast, hlines⟩ := @ih (emitLine u p line) (hpos' ▸ hstart'.1)
      ⟨rest, by rw [hpos', hmore]⟩
    refine ⟨hlast, fun hstart => ?_⟩
    obtain ⟨hend, new, hnew, hall⟩ := hlines (hpos' ▸ hstart')
    refine ⟨hend, fileFrame (satAdd p.lineNo 1) p.pos (ended u line) :: new, ?_, ?_⟩
    · rw [hnew]
      simp [emitLine]
    · intro f hf
      rcases mem_cons.mp hf with rfl | hf
      · exact ⟨p.pos, rfl, hstart⟩
      · exact hall f hf

end Truncated

theorem lineStart_zero (content : Bytes) : LineStart content 0 := ⟨zero_le _, by simp⟩

theorem opened_pos (mode : FileProbeMode) (identity : Option I) {s : Sys I} (h : Within mode s)
    (hcaught : Caught s (.poll identity)) : (opened mode s.file.length identity s.probe).pos = 0 ∨
      (mode = .followEnd ∧ s.probe.pos = 0 ∧
        (opened mode s.file.length identity s.probe).pos = s.file.length) ∨
      (s.truncated = false ∧
        (opened mode s.file.length identity s.probe).pos = s.probe.pos) := by
  cases hsize : s.probe.lastSize with
  | none =>
    cases mode <;> by_cases hr : rotated s.probe.lastIdentity identity <;>
      simp [opened, hsize, hr, (h.fresh hsize).1]
  | some n =>
    by_cases hr : rotated s.probe.lastIdentity identity
    · simp [opened, hr]
    by_cases hlt : s.file.length < n
    · simp [opened, hsize, hlt]
    · refine .inr (.inr ⟨?_, by simp [opened, hsize, hr, hlt]⟩)
      rw [← Bool.not_eq_true]
      exact fun htrunc => hlt (hcaught htrunc n hsize)

theorem Within.step {u : Utf8Lossy} {s s' : Sys I}
    (h : Within mode s) (ha : Caught s a) (hstep : Moves u mode s a s') : Within mode s' := by
  cases hstep with
  | @append bytes hfits =>
    exact { h with
      fits := hfits
      pos := fun ht => (h.pos ht).trans (by simp)
      start := fun ht hmode => (h.start ht hmode).append bytes
      reader := fun ht off chunks seen hr =>
        have hread := h.reader ht off chunks seen hr
        ⟨hread.off, hread.chunks.trans (by
          rw [drop_append_of_le_length (h.pos ht)]
          exact prefix_append _ _)⟩ }
  | @truncate n =>
    exact { h with
      fits := (List.take_prefix n s.file).length_le.trans h.fits
      pos := by simp
      start := by simp
      reader := by simp }
  | @poll identity p hidle hp =>
    have hopened := opened_pos mode identity h ha
    rw [← hp] at hopened
    exact {
      fits := h.fits
      fresh := by simp [hp, opened]
      pos := fun _ => by
        rcases hopened with h0 | ⟨-, -, hlen⟩ | ⟨ht, hpos⟩
        · simp [h0]
        · simp [hlen]
        · simpa [hpos] using h.pos ht
      start := fun _ hmode => by
        rcases hopened with h0 | ⟨hend, -⟩ | ⟨ht, hpos⟩
        · simpa only [h0] using lineStart_zero s.file
        · rw [hmode] at hend
          cases hend
        · simpa only [hpos] using h.start ht hmode
      reader := fun _ off chunks seen hr => by
        simp only at hr
        split_ifs at hr
        cases hr
        exact ⟨by simp, by simp⟩ }
  | @last n off chunks seen hr hend =>
    have hread (ht : s.truncated = false) :=
      foldl_emitLine_within u h.fits chunks.flatten (h.pos ht)
        (h.reader ht off chunks seen hr).chunks
    rw [readNew_eq]
    exact {
      fits := h.fits
      fresh := fun hnone => by
        rw [foldl_emitLine_lastSize] at hnone
        simp [(h.fresh hnone).2] at hr
      pos := fun ht => (hread ht).1
      start := fun ht hmode => ((hread ht).2 (h.start ht hmode)).1
      reader := fun _ _ _ _ hr => by cases hr }
  | @fill n off chunks seen chunk hr hmore hchunk =>
    exact { h with
      fresh := fun hnone => by simp [(h.fresh hnone).2] at hr
      reader := fun ht off' chunks' seen' hr' => by
        cases hr'
        exact hchunk ▸ (h.reader ht off chunks seen hr).more (n + 1) }

def SeenWhole (s : Sys I) : Prop :=
  ∀ off chunks seen, s.reader = .reading off chunks seen →
    seen.length ≤ u64Max ∧ LineStart seen s.probe.pos ∧ ReadFrom seen s.probe.pos off chunks

theorem SeenWhole.step {u : Utf8Lossy} {s s' : Sys I} (hs : SeenWhole s)
    (h : Within .followBeginning s) (ha : Caught s a) (hset : Settled s a)
    (hstep : Moves u .followBeginning s a s') : SeenWhole s' := by
  have h' := h.step ha hstep
  cases hstep with
  | poll hidle hp =>
    intro off chunks seen hr
    have hread := h'.reader rfl off chunks seen hr
    simp only at hr
    split_ifs at hr
    cases hr
    exact ⟨h.fits, h'.start rfl rfl, hread⟩
  | last =>
    intro _ _ _ hr
    cases hr
  | @fill n off chunks seen chunk hr hmore hchunk =>
    have ht : s.truncated = false := by
      rw [← Bool.not_eq_true]
      exact fun ht => absurd (hset ht off chunks seen hr) (not_le.mpr hmore)
    intro off' chunks' seen' hr'
    have hread := h'.reader ht off' chunks' seen' hr'
    cases hr'
    exact ⟨h.fits, h.start ht rfl, hread⟩
  | _ => exact hs

omit [DecidableEq I] in
theorem within_init (mode : FileProbeMode) {file : Bytes} (hfile : file.length ≤ u64Max) :
    Within (I := I) mode (init file) where
  fits := hfile
  fresh := fun _ => ⟨rfl, rfl⟩
  pos := fun _ => zero_le _
  start := fun _ _ => lineStart_zero file
  reader := fun _ _ _ _ hr => by cases hr

theorem SeenWhole.startLines {u : Utf8Lossy} {s s' : Sys I}
    (hs : SeenWhole s) (hstep : Moves u mode s a s') :
    s'.probe.frames = s.probe.frames ∨ ∃ off chunks seen, s.reader = .reading off chunks seen ∧
      StartLines seen s.probe s'.probe := by
  cases hstep with
  | poll hidle hp =>
    left
    rw [hp]
    rfl
  | @last n off chunks seen hr hend =>
    obtain ⟨hfits, hstart, hread⟩ := hs off chunks seen hr
    refine .inr ⟨off, chunks, seen, hr, ?_⟩
    rw [readNew_eq]
    exact ((foldl_emitLine_within u hfits _ hstart.1 hread.chunks).2 hstart).2
  | _ => exact .inl rfl

/-- A file that shrinks below the position is read from its start again as long as every open after
a truncation finds less than the open before it has found; and then every frame starts with a line
of the file. -/
theorem truncation_rereads (u : Utf8Lossy) (mode : FileProbeMode) (file : Bytes)
    (hfile : file.length ≤ u64Max) (acts : List (Act I)) (a : Act I) (s s' : Sys I)
    (hcaught : Transition.Meets (step u mode) Caught (init file) (acts ++ [a]))
    (hrun : Transition.run (step u mode) (init file) acts = some s)
    (hlast : step u mode s a = some s') :
    ((∃ identity, a = .poll identity) → s.file.length < s.probe.pos → s'.probe.pos = 0) ∧
      (mode = .followBeginning →
        Transition.Meets (step u mode) (fun s a => Caught s a ∧ Settled s a) (init file)
          (acts ++ [a]) →
        s'.probe.frames = s.probe.frames ∨ ∃ off chunks seen, s.reader = .reading off chunks seen ∧
          StartLines seen s.probe s'.probe) := by
  constructor
  · rintro ⟨identity, rfl⟩ hlt
    obtain ⟨hacts, ha⟩ := hcaught.of_append hrun
    have hs := run_invariant (fun _ _ _ h ha hstep => h.step ha (step_moves hstep))
      (within_init mode hfile) hacts hrun
    cases step_moves hlast with
    | poll hidle hp =>
      rw [hp]
      rcases opened_pos mode identity hs ha with h0 | ⟨-, hzero, -⟩ | ⟨ht, -⟩
      · exact h0
      · omega
      · have hle := hs.pos ht
        omega
  · rintro rfl hmeets
    have hs : Within .followBeginning s ∧ SeenWhole s :=
      run_invariant (I := fun s => Within .followBeginning s ∧ SeenWhole s)
        (fun _ _ _ h ha hstep => ⟨h.1.step ha.1 (step_moves hstep),
          h.2.step h.1 ha.1 ha.2 (step_moves hstep)⟩)
        ⟨within_init _ hfile, fun _ _ _ hr => by cases hr⟩ (hmeets.of_append hrun).1 hrun
    exact hs.2.startLines (step_moves hlast)

def emptied : List (Act Unit) :=
  [.poll none, .fill 7, .fill 0, .truncate 0, .append [98]]

theorem emptied_rereads : ∃ s s' : Sys Unit,
    Transition.run (step asciiLossy .followBeginning) (init [97, 10]) emptied = some s ∧
      step asciiLossy .followBeginning s (.poll none) = some s' ∧ s.probe.pos = 2 ∧
      s'.probe.pos = 0 :=
  ⟨_, _, rfl, rfl, rfl, (truncation_rereads asciiLossy .followBeginning [97, 10] (by decide +kernel)
    emptied (.poll none) _ _ (by decide +kernel) rfl rfl).1 ⟨none, rfl⟩ (by decide +kernel)⟩

/-- The file grows while it is read, so the next open compares with a size that lies behind the
position: a file that has been emptied and is shorter than the position is not read again, and when
it has grown past the position a frame starts in the middle of its line. -/
theorem regrown_read_within_line : ∃ s s₁ s₂ s₃ : Sys Unit,
    Transition.run (step asciiLossy .followBeginning) (init [97, 10])
        [.poll none, .append [98, 98, 10], .fill 7, .fill 0, .truncate 0, .append [120, 120, 120]]
        = some s ∧
      step asciiLossy .followBeginning s (.poll none) = some s₁ ∧
      s.file.length < s.probe.pos ∧ s₁.probe.pos = 5 ∧
      Transition.run (step asciiLossy .followBeginning) s₁
        [.append [120, 120, 120, 10], .poll none, .fill 7] = some s₂ ∧
      step asciiLossy .followBeginning s₂ (.fill 0) = some s₃ ∧
      s₃.probe.frames.getLast?.bind Frame.byteOffset = some 5 ∧
      s₂.file = [120, 120, 120, 120, 120, 120, 10] ∧ ¬LineStart s₂.file 5 :=
  ⟨_, _, _, _, rfl, rfl, by decide, rfl, rfl, rfl, rfl, rfl, by
    rintro ⟨-, h⟩
    exact absurd (h 120 rfl) (by decide)⟩

end FileFollow

end TerminalCommander
