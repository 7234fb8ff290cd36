import TerminalCommander.Core.Str
import TerminalCommander.Lib.ChunkedLines

/-!
# Reading a line

`read_line_bounded` of `probes/src/process.rs`, `read_file_line` of `probes/src/file.rs` and the
frame that each probe makes of a line (`SourceFrame::new`). Both keep the first 64 KiB of a line.
The process probe counts what it drops in the frame's `truncated_bytes`; the file probe counts the
bytes of the line on disk and says nothing of those it drops.
-/

namespace TerminalCommander

namespace LineRead

open ChunkedLines List

abbrev Bytes : Type := List UInt8

def newline : UInt8 := 10

def MAX_LINE_BYTES : Nat := 64 * 1024

def MAX_FILE_LINE_BYTES : Nat := 64 * 1024

def MAX_FRAME_BYTES : Nat := 8 * 1024

structure Utf8Lossy where
  decode : Bytes → Text
  ascii : ∀ bytes, (∀ b ∈ bytes, b < 128) → decode bytes = bytes.map fun b => Char.ofNat b.toNat

/-! ## The process probe's lines -/

structure BoundedLine where
  bytes : Bytes
  dropped : Nat
  deriving DecidableEq, Repr

def accumulate (l : BoundedLine) (more : Bytes) : BoundedLine :=
  let room := MAX_LINE_BYTES - l.bytes.length
  if more.length ≤ room then { l with bytes := l.bytes ++ more }
  else ⟨l.bytes ++ more.take room, satAdd l.dropped (more.length - room)⟩

def readLineBounded (reader : List Bytes) : Option BoundedLine × List Bytes :=
  (readLine newline accumulate ⟨[], 0⟩ false reader).map (Option.map Prod.fst) id

def readLinesBounded (calls : Nat) (reader : List Bytes) : Option (List BoundedLine) :=
  foldLines newline accumulate ⟨[], 0⟩ (fun out line => some (out ++ [line.1])) calls [] reader

def bounded (line : Bytes) : BoundedLine :=
  ⟨line.take MAX_LINE_BYTES, min (line.length - MAX_LINE_BYTES) u64Max⟩

theorem accumulate_bounded (front chunk : Bytes) :
    accumulate (bounded front) chunk = bounded (front ++ chunk) := by
  have hroom : MAX_LINE_BYTES - (front.take MAX_LINE_BYTES).length =
      MAX_LINE_BYTES - front.length := by
    rw [length_take]
    omega
  simp only [accumulate, bounded, hroom, take_append, length_append, satAdd]
  split_ifs with h
  · rw [take_of_length_le h, BoundedLine.mk.injEq]
    exact ⟨rfl, by omega⟩
  · rw [BoundedLine.mk.injEq]
    exact ⟨rfl, by omega⟩

theorem walk_append (out : List BoundedLine) (ls : List (BoundedLine × Bool)) :
    walk (fun out line => some (out ++ [line.1])) out ls = out ++ ls.map Prod.fst := by
  induction ls generalizing out with
  | nil => simp [walk]
  | cons l ls ih => simp [walk, ih]

theorem readLinesBounded_eq {calls : Nat} {reader : List Bytes}
    (h : reader.flatten.length < calls) : readLinesBounded calls reader =
      some ((lines newline reader.flatten).map fun piece => bounded piece.1) := by
  unfold readLinesBounded
  rw [show (⟨[], 0⟩ : BoundedLine) = bounded [] by simp [bounded],
    foldLines_eq accumulate_bounded h, walk_append]
  simp

/-- The lines do not depend on how the stream comes in: they are the pieces between newlines, each
cut to the limit, with the number of bytes cut off as far as it fits the counter. -/
theorem bounded_lines_of_any_chunks (reader : List Bytes) : ∃ enough, ∀ calls, enough ≤ calls →
    readLinesBounded calls reader = some ((lines newline reader.flatten).map fun piece =>
      ⟨piece.1.take MAX_LINE_BYTES, min (piece.1.length - MAX_LINE_BYTES) u64Max⟩) :=
  ⟨reader.flatten.length + 1, fun _ h => readLinesBounded_eq h⟩

/-- The counter of dropped bytes stops at its largest value. -/
theorem dropped_saturates : ∃ (reader : List Bytes) (calls : Nat) (line : BoundedLine),
    (∀ chunk ∈ reader, chunk ≠ []) ∧
      lines newline reader.flatten = [(reader.flatten, false)] ∧
      readLinesBounded calls reader = some [line] ∧
      line.dropped ≠ reader.flatten.length - MAX_LINE_BYTES := by
  obtain ⟨n, hn⟩ : ∃ n, n = MAX_LINE_BYTES + u64Max + 1 := ⟨_, rfl⟩
  have hstr : (replicate n ([97] : Bytes)).flatten = replicate n 97 :=
    flatten_replicate_singleton
  have hlines : lines newline (replicate n 97) = [(replicate n 97, false)] := by
    rw [lines_tail (by simp [newline]), if_neg (by simp [hn])]
  refine ⟨replicate n [97], n + 1, bounded (replicate n 97), ?_, ?_, ?_, ?_⟩
  · simp
  · rw [hstr, hlines]
  · rw [readLinesBounded_eq (by rw [hstr]; simp), hstr, hlines]
    rfl
  · rw [hstr, bounded, length_replicate]
    show min (n - MAX_LINE_BYTES) u64Max ≠ n - MAX_LINE_BYTES
    omega

/-! ## The file probe's lines -/

structure FileLineRead where
  text : Text
  rawLen : Nat
  terminated : Bool
  deriving DecidableEq, Repr

def pushCapped (buf more : Bytes) : Bytes :=
  let room := MAX_FILE_LINE_BYTES - buf.length
  buf ++ more.take (min room more.length)

def decodeFileLine (u : Utf8Lossy) (bytes : Bytes) : Text :=
  (u.decode bytes).trimEndMatches (· == '\r')

def pushFile (acc : Bytes × Nat) (chunk : Bytes) : Bytes × Nat :=
  (pushCapped acc.1 chunk, satAdd acc.2 chunk.length)

def fileLine (u : Utf8Lossy) (line : (Bytes × Nat) × Bool) : FileLineRead :=
  ⟨decodeFileLine u line.1.1, if line.2 then satAdd line.1.2 1 else line.1.2, line.2⟩

def readFileLine (u : Utf8Lossy) (reader : List Bytes) : Option FileLineRead × List Bytes :=
  (readLine newline pushFile ([], 0) false reader).map (Option.map (fileLine u)) id

def capped (line : Bytes) : Bytes × Nat :=
  (line.take MAX_FILE_LINE_BYTES, min line.length u64Max)

theorem pushFile_capped (front chunk : Bytes) :
    pushFile (capped front) chunk = capped (front ++ chunk) := by
  simp only [pushFile, pushCapped, capped, satAdd, take_append, length_append,
    length_take, Prod.mk.injEq, append_cancel_left_eq]
  constructor
  · rw [show MAX_FILE_LINE_BYTES - min MAX_FILE_LINE_BYTES front.length =
      MAX_FILE_LINE_BYTES - front.length by omega, ← take_eq_take_min]
  · omega

/-! ## Frames -/

structure Frame where
  text : Text
  line : Option Nat
  byteOffset : Option Nat
  truncatedBytes : Nat
  deriving DecidableEq, Repr

def capText (text : Text) : Text × Nat :=
  if text.len ≤ MAX_FRAME_BYTES then (text, 0)
  else
    let kept := text.takeBytes MAX_FRAME_BYTES
    (kept, min (text.len - kept.len) u32Max)

def Frame.new (text : Text) : Frame := ⟨(capText text).1, none, none, (capText text).2⟩

def processFrame (u : Utf8Lossy) (lineNo : Nat) (line : BoundedLine) : Frame :=
  let frame := Frame.new ((u.decode line.bytes).trimEndMatches (· == '\r'))
  { frame with
    line := some lineNo
    truncatedBytes :=
      if 0 < line.dropped then min (frame.truncatedBytes + min line.dropped u32Max) u32Max
      else frame.truncatedBytes }

def fileFrame (lineNo pos : Nat) (line : FileLineRead) : Frame :=
  { Frame.new line.text with line := some lineNo, byteOffset := some pos }

inductive Lane where
  | process
  | file (scanOnce : Bool)
  deriving DecidableEq, Repr

def nextFrame (u : Utf8Lossy) (lineNo pos : Nat) (reader : List Bytes) : Lane → Option Frame
  | .process => (readLineBounded reader).1.map (processFrame u lineNo)
  | .file scanOnce =>
    match (readFileLine u reader).1 with
    | none => none
    | some line =>
      if !line.terminated && !scanOnce then none else some (fileFrame lineNo pos line)

/-! ## Accounting -/

def Printable (line : Bytes) : Prop := ∀ b ∈ line, 32 ≤ b ∧ b < 127

def Next (lane : Lane) (line stream : Bytes) : Prop :=
  (∃ more, stream = line ++ newline :: more) ∨
    (stream = line ∧ line ≠ [] ∧ lane ≠ .file false)

def shown (line : Bytes) : Text := line.map fun b => Char.ofNat b.toNat

theorem printable_char {b : UInt8} (h : 32 ≤ b ∧ b < 127) :
    (Char.ofNat b.toNat).utf8Size = 1 ∧ Char.ofNat b.toNat ≠ '\r' := by
  have hall : ∀ n < 127, 32 ≤ n → (Char.ofNat n).utf8Size = 1 ∧ Char.ofNat n ≠ '\r' := by
    decide +kernel
  exact hall b.toNat h.2 h.1

section Printable

variable {line : Bytes} (h : Printable line)

include h

theorem newline_not_mem : newline ∉ line := fun hmem => absurd (h _ hmem).1 (by decide)

theorem Printable.take (n : Nat) : Printable (line.take n) :=
  fun b hb => h b (mem_of_mem_take hb)

theorem len_shown : (shown line).len = line.length := by
  induction line with
  | nil => rfl
  | cons b line ih =>
    have hb := h b mem_cons_self
    simp only [shown, map_cons, Text.len, length_cons]
    rw [(printable_char hb).1, ← ih fun b hb => h b (mem_cons_of_mem _ hb), shown]
    omega

theorem takeBytes_shown : ∀ n, (shown line).takeBytes n = shown (line.take n) := by
  induction line with
  | nil => simp [shown, Text.takeBytes]
  | cons b line ih =>
    intro n
    have hb := h b mem_cons_self
    have ih := ih fun b hb => h b (mem_cons_of_mem _ hb)
    simp only [shown] at ih ⊢
    rw [map_cons, Text.takeBytes, (printable_char hb).1]
    cases n with
    | zero => simp
    | succ n => simp [ih]

theorem decode_printable (u : Utf8Lossy) :
    (u.decode line).trimEndMatches (· == '\r') = shown line := by
  rw [u.ascii _ fun b hb => Nat.lt_trans (h b hb).2 (by decide)]
  refine rdropWhile_eq_self_iff.mpr fun hne => ?_
  obtain ⟨b, hb, hlast⟩ := List.mem_map.mp (getLast_mem hne)
  simp [← hlast, (printable_char (h b hb)).2]

theorem new_shown (hlength : line.length < 2 ^ 32) :
    (Frame.new (shown line)).text.len = min line.length MAX_FRAME_BYTES ∧
      (Frame.new (shown line)).truncatedBytes = line.length - MAX_FRAME_BYTES := by
  simp only [Frame.new, capText, len_shown h]
  split_ifs with hle
  · simp only [len_shown h]
    omega
  · simp only [takeBytes_shown h, len_shown (h.take _), length_take, u32Max]
    omega

end Printable

section Next

variable {lane : Lane} {line : Bytes} {reader : List Bytes} (hline : newline ∉ line)
  (hnext : Next lane line reader.flatten)

include hline hnext

theorem readLine_next {σ : Type} {push : σ → Bytes → σ} {kept : Bytes → σ}
    (hkept : ∀ front chunk, push (kept front) chunk = kept (front ++ chunk)) :
    ∃ terminated, (terminated = true ∨ lane ≠ .file false) ∧
      (readLine newline push (kept []) false reader).1 = some (kept line, terminated) := by
  rcases hnext with ⟨more, hstr⟩ | ⟨hstr, hne, hlane⟩
  · obtain ⟨rest, hread, -⟩ := readLine_line hkept hline hstr
    exact ⟨true, .inl rfl, by rw [hread, nil_append]⟩
  · refine ⟨false, .inr hlane, ?_⟩
    rw [readLine_tail hkept (hstr ▸ hline), hstr]
    simp [hne]

theorem readLineBounded_next : (readLineBounded reader).1 = some (bounded line) := by
  obtain ⟨terminated, -, hread⟩ := readLine_next hline hnext accumulate_bounded
  rw [show bounded [] = ⟨[], 0⟩ by simp [bounded]] at hread
  simp [readLineBounded, hread]

theorem readFileLine_next (u : Utf8Lossy) : ∃ terminated, (terminated = true ∨ lane ≠ .file false) ∧
    (readFileLine u reader).1 = some (fileLine u (capped line, terminated)) := by
  obtain ⟨terminated, hlane, hread⟩ := readLine_next hline hnext pushFile_capped
  rw [show capped [] = ([], 0) by simp [capped]] at hread
  exact ⟨terminated, hlane, by simp [readFileLine, hread]⟩

end Next

section Accounts

variable (u : Utf8Lossy) (lineNo pos : Nat) {line : Bytes} {reader : List Bytes}
  (hprint : Printable line) (hlength : line.length < 2 ^ 32)

include hprint hlength

theorem process_accounts (hnext : Next .process line reader.flatten) :
    ∃ frame, nextFrame u lineNo pos reader .process = some frame ∧
      frame.text.len + frame.truncatedBytes = line.length := by
  obtain ⟨htext, htrunc⟩ :=
    new_shown (hprint.take MAX_LINE_BYTES) (by rw [length_take]; omega)
  rw [nextFrame, readLineBounded_next (newline_not_mem hprint) hnext, Option.map_some]
  refine ⟨_, rfl, ?_⟩
  have hframe : MAX_FRAME_BYTES ≤ MAX_LINE_BYTES := by decide
  have hfits : line.length ≤ u32Max := Nat.le_sub_one_of_lt hlength
  have hmax : u32Max ≤ u64Max :=
    Nat.sub_le_sub_right (Nat.pow_le_pow_right (by decide) (by decide)) 1
  simp only [processFrame, bounded, decode_printable (hprint.take _), htext, htrunc, length_take]
  -- the limits are kept apart from their values, which are large
  generalize u32Max = a, u64Max = b, MAX_LINE_BYTES = c, MAX_FRAME_BYTES = d at *
  split_ifs <;> omega

theorem file_accounts {scanOnce : Bool} (hnext : Next (.file scanOnce) line reader.flatten) :
    ∃ frame, nextFrame u lineNo pos reader (.file scanOnce) = some frame ∧
      frame.text.len + frame.truncatedBytes = min line.length MAX_FILE_LINE_BYTES := by
  obtain ⟨htext, htrunc⟩ :=
    new_shown (hprint.take MAX_FILE_LINE_BYTES) (by rw [length_take]; omega)
  obtain ⟨terminated, hlane, hread⟩ := readFileLine_next (newline_not_mem hprint) hnext u
  have hemits : (!terminated && !scanOnce) = false := by
    rcases hlane with rfl | hlane
    · rfl
    · cases scanOnce
      · exact absurd rfl hlane
      · simp
  simp only [nextFrame, hread, fileLine, hemits]
  refine ⟨_, rfl, ?_⟩
  simp only [fileFrame, capped, decodeFileLine, decode_printable (hprint.take _), htext,
    htrunc, length_take]
  omega

end Accounts

/-- The frame accounts for every byte of its line, except where the file reader drops some. -/
theorem frame_accounts_iff (u : Utf8Lossy) (lineNo pos : Nat) (lane : Lane) (line : Bytes)
    (reader : List Bytes) (hprint : Printable line) (hlength : line.length < 2 ^ 32)
    (hnext : Next lane line reader.flatten) :
    ∃ frame, nextFrame u lineNo pos reader lane = some frame ∧
      (frame.text.len + frame.truncatedBytes = line.length ↔
        lane = .process ∨ line.length ≤ MAX_FILE_LINE_BYTES) := by
  cases lane with
  | process =>
    obtain ⟨frame, hframe, htotal⟩ := process_accounts u lineNo pos hprint hlength hnext
    exact ⟨frame, hframe, by simp [htotal]⟩
  | file scanOnce =>
    obtain ⟨frame, hframe, htotal⟩ := file_accounts u lineNo pos hprint hlength hnext
    refine ⟨frame, hframe, ?_⟩
    simp only [htotal, reduceCtorEq, false_or]
    omega

def asciiLossy : Utf8Lossy := ⟨fun bytes => bytes.map fun b => Char.ofNat b.toNat, fun _ _ => rfl⟩

theorem frame_accounts_two_chunks :
    ∃ frame, nextFrame asciiLossy 1 0 [[104], [105, 10, 104]] (.file false) = some frame ∧
      (frame.text.len + frame.truncatedBytes = 2 ↔
        Lane.file false = .process ∨ 2 ≤ MAX_FILE_LINE_BYTES) :=
  frame_accounts_iff asciiLossy 1 0 (.file false) [104, 105] [[104], [105, 10, 104]]
    (by simp [Printable]) (by decide) (.inl ⟨[104], rfl⟩)

/-- A line of the file probe that is one byte over the limit loses a byte that is not counted. -/
theorem file_byte_lost : ∃ (line : Bytes) (frame : Frame), Printable line ∧
    line.length = 65537 ∧ nextFrame asciiLossy 1 0 [line, [10]] (.file false) = some frame ∧
    frame.text.len + frame.truncatedBytes ≠ line.length := by
  obtain ⟨line, hline⟩ : ∃ line : Bytes, line = replicate 65537 97 := ⟨_, rfl⟩
  have hlength : line.length = 65537 := by rw [hline, length_replicate]
  have hprint : Printable line := by
    intro b hb
    rw [hline] at hb
    rw [eq_of_mem_replicate hb]
    decide
  obtain ⟨frame, hframe, htotal⟩ := file_accounts asciiLossy 1 0 hprint (by omega)
    (.inl ⟨[], rfl⟩ : Next (.file false) line [line, [10]].flatten)
  refine ⟨line, frame, hprint, hlength, hframe, ?_⟩
  rw [htotal, MAX_FILE_LINE_BYTES]
  omega

end LineRead

end TerminalCommander
