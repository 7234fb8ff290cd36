import TerminalCommander.Core.Text

/-!
# Reading UTF-16 as UTF-8

`Utf16Decoder` of `probes/src/utf16.rs`: an adapter that transcodes a stream that starts with a byte
order mark, or looks like UTF-16, and passes any other through. A code unit may be cut by the end of
a chunk, and the output may be larger than the buffer of the caller, so both are kept for the next
read. The inner stream is the list of the chunks that its reads return.
-/

namespace TerminalCommander

namespace Utf16

open List

abbrev Bytes : Type := List UInt8

def SNIFF_WINDOW : Nat := 256

def SNIFF_MIN : Nat := 16

inductive Latch where
  | undecided | passThrough | le | be
  deriving DecidableEq, Repr

structure Utf16Decoder where
  inner : List Bytes
  latch : Latch
  carry : Option UInt8
  pending : Bytes
  pendingPos : Nat
  deriving DecidableEq, Repr

def Utf16Decoder.new (inner : List Bytes) : Utf16Decoder := ⟨inner, .undecided, none, [], 0⟩

def combine (first second : UInt8) (be : Bool) : Nat :=
  if be then first.toNat * 256 + second.toNat else second.toNat * 256 + first.toNat

def isSurrogate (a : Nat) : Bool := 0xD800 ≤ a && a < 0xE000

def decodeUnits : List Nat → List Char
  | [] => []
  | [a] => [if isSurrogate a then '\uFFFD' else Char.ofNat a]
  | a :: b :: rest =>
    if !isSurrogate a then Char.ofNat a :: decodeUnits (b :: rest)
    else if a < 0xDC00 && 0xDC00 ≤ b && b < 0xE000 then
      Char.ofNat (0x10000 + (a - 0xD800) * 1024 + (b - 0xDC00)) :: decodeUnits rest
    else '\uFFFD' :: decodeUnits (b :: rest)

def units (be : Bool) : Bytes → List Nat × Option UInt8
  | a :: b :: rest => ((units be rest).1.cons (combine a b be), (units be rest).2)
  | [a] => ([], some a)
  | [] => ([], none)

def decodeUtf16 (d : Utf16Decoder) (input : Bytes) : Utf16Decoder :=
  let be := decide (d.latch = .be)
  let (us, carry) :=
    match d.carry, input with
    | some first, [] => ([], some first)
    | some first, second :: rest =>
      ((units be rest).1.cons (combine first second be), (units be rest).2)
    | none, input => units be input
  { d with
    carry := carry
    pending := d.pending ++ (decodeUnits us).flatMap String.utf8EncodeChar }

def every : Bytes → Bytes × Bytes
  | a :: b :: rest => ((every rest).1.cons a, (every rest).2.cons b)
  | [a] => ([a], [])
  | [] => ([], [])

def detect (chunk : Bytes) : Latch × Nat :=
  match chunk with
  | 0xFF :: 0xFE :: _ => (.le, 2)
  | 0xFE :: 0xFF :: _ => (.be, 2)
  | _ =>
    let window := chunk.take SNIFF_WINDOW
    if window.length < SNIFF_MIN then (.passThrough, 0)
    else
      let (evens, odds) := every window
      let evenText := evens.countP fun b => 0x01 ≤ b && b ≤ 0x7F
      let oddZero := odds.countP fun b => b == 0
      if odds.length * 7 ≤ oddZero * 10 && evens.length * 7 ≤ evenText * 10 then (.le, 0)
      else (.passThrough, 0)

def consumeRaw (d : Utf16Decoder) (input : Bytes) : Utf16Decoder :=
  let (latch, skip) := if d.latch = .undecided then detect input else (d.latch, 0)
  let d := { d with latch := latch }
  match latch with
  | .passThrough => { d with pending := d.pending ++ input.drop skip }
  | _ => decodeUtf16 d (input.drop skip)

def pollRead (size : Nat) : List Bytes → Utf16Decoder → Bytes × Utf16Decoder
  | inner, d =>
    if d.pendingPos < d.pending.length then
      let out := (d.pending.drop d.pendingPos).take size
      (out, { d with inner := inner, pendingPos := d.pendingPos + out.length })
    else
      let d := { d with pending := [], pendingPos := 0 }
      match inner with
      | [] => ([], { d with inner := [] })
      | [] :: rest => ([], { d with inner := rest })
      | chunk :: rest =>
        if d.latch = .passThrough then
          -- the inner stream fills the caller's buffer itself
          (chunk.take size, { d with
            inner := if chunk.length ≤ size then rest else chunk.drop size :: rest })
        else pollRead size rest (consumeRaw d chunk)

def Utf16Decoder.read (d : Utf16Decoder) (size : Nat) : Bytes × Utf16Decoder :=
  pollRead size d.inner d

def Utf16Decoder.readMany (d : Utf16Decoder) : List Nat → List Bytes
  | [] => []
  | size :: sizes => (d.read size).1 :: (d.read size).2.readMany sizes

/-! ## The encodings -/

def bom (be : Bool) : Bytes := if be then [0xFE, 0xFF] else [0xFF, 0xFE]

def unitBytes (be : Bool) (c : Char) : Bytes :=
  let hi := UInt8.ofNat (c.toNat / 256)
  let lo := UInt8.ofNat (c.toNat % 256)
  if be then [hi, lo] else [lo, hi]

def encodeUtf16 (be : Bool) (text : List Char) : Bytes := text.flatMap (unitBytes be)

def encodeUtf8 (text : List Char) : Bytes := text.flatMap String.utf8EncodeChar

def Bmp (text : List Char) : Prop := ∀ c ∈ text, c.toNat < 0x10000

theorem isSurrogate_toNat (c : Char) : isSurrogate c.toNat = false := by
  have h := c.valid
  simp only [isSurrogate, Bool.and_eq_false_iff, decide_eq_false_iff_not]
  rcases h with h | h
  · exact .inl (Nat.not_le.mpr h)
  · exact .inr (Nat.not_lt.mpr (Nat.le_of_lt_succ (Nat.succ_lt_succ h.1)))

theorem decodeUnits_toNat (text : List Char) : decodeUnits (text.map Char.toNat) = text := by
  induction text with
  | nil => rfl
  | cons c text ih =>
    cases text with
    | nil => simp [decodeUnits, isSurrogate_toNat]
    | cons c' text =>
      rw [map_cons] at ih
      simp only [map_cons, decodeUnits, isSurrogate_toNat, Bool.not_false, if_true, ih,
        Char.ofNat_toNat]

theorem combine_unitBytes {be : Bool} {c : Char} (hc : c.toNat < 0x10000) {a b : UInt8}
    (h : unitBytes be c = [a, b]) : combine a b be = c.toNat := by
  have hparts : (UInt8.ofNat (c.toNat / 256)).toNat = c.toNat / 256 ∧
      (UInt8.ofNat (c.toNat % 256)).toNat = c.toNat % 256 := by
    simp only [UInt8.toNat_ofNat']
    omega
  cases be <;> (cases h; simp only [combine, hparts]; simp; omega)

theorem units_encode (be : Bool) (bytes : Bytes) : ∀ {text : List Char} {more : Bytes}, Bmp text →
    bytes ++ more = encodeUtf16 be text →
    ∃ done rest, text = done ++ rest ∧ (units be bytes).1 = done.map Char.toNat ∧
      (units be bytes).2.toList ++ more = encodeUtf16 be rest := by
  fun_induction units be bytes with
  | case1 a b bytes ih =>
    intro text more hbmp h
    cases text with
    | nil => simp [encodeUtf16] at h
    | cons c text =>
      obtain ⟨hc, hbmp⟩ := forall_mem_cons.mp hbmp
      rw [encodeUtf16, flatMap_cons] at h
      obtain ⟨a', b', hunit⟩ : ∃ a' b', unitBytes be c = [a', b'] := by
        cases be <;> exact ⟨_, _, rfl⟩
      rw [hunit] at h
      simp only [cons_append, nil_append, List.cons.injEq] at h
      obtain ⟨rfl, rfl, h⟩ := h
      obtain ⟨done, rest, rfl, hunits, hleft⟩ := ih hbmp h
      exact ⟨c :: done, rest, rfl, by simp [hunits, combine_unitBytes hc hunit], hleft⟩
  | case2 a | case3 =>
    intro text more _ h
    exact ⟨[], text, rfl, rfl, h⟩

/-! ## Reading -/

def latchOf (be : Bool) : Latch := if be then .be else .le

structure Decoding (be : Bool) (inner : List Bytes) (d : Utf16Decoder) (rest : List Char) :
    Prop where
  latch : d.latch = latchOf be
  bmp : Bmp rest
  input : d.carry.toList ++ inner.flatten = encodeUtf16 be rest

def outstanding (d : Utf16Decoder) (rest : List Char) : Bytes :=
  d.pending.drop d.pendingPos ++ encodeUtf8 rest

section Reading

variable {be : Bool} {inner : List Bytes} {d : Utf16Decoder} {rest : List Char}

theorem decodeUtf16_eq (hlatch : d.latch = latchOf be) (input : Bytes) :
    decodeUtf16 d input = { d with
      carry := (units be (d.carry.toList ++ input)).2
      pending := d.pending ++
        encodeUtf8 (decodeUnits (units be (d.carry.toList ++ input)).1) } := by
  have hbe : decide (d.latch = .be) = be := by cases be <;> simp [hlatch, latchOf]
  unfold decodeUtf16
  rw [hbe]
  cases hcarry : d.carry with
  | none => rfl
  | some first =>
    cases input with
    | nil => simp [units, decodeUnits, encodeUtf8]
    | cons second rest => simp [units, encodeUtf8]

theorem Decoding.chunk {chunk : Bytes} (h : Decoding be (chunk :: inner) d rest) :
    ∃ done rest', rest = done ++ rest' ∧ Decoding be inner (decodeUtf16 d chunk) rest' ∧
      (decodeUtf16 d chunk).pending = d.pending ++ encodeUtf8 done ∧
      (decodeUtf16 d chunk).pendingPos = d.pendingPos := by
  have hinput := h.input
  rw [flatten_cons, ← append_assoc] at hinput
  obtain ⟨done, rest', hrest, hunits, hleft⟩ := units_encode be _ h.bmp hinput
  refine ⟨done, rest', hrest, ?_⟩
  rw [decodeUtf16_eq h.latch, hunits, decodeUnits_toNat]
  exact ⟨⟨h.latch, fun c hc => h.bmp c (hrest ▸ mem_append_right done hc), hleft⟩, rfl, rfl⟩

theorem Decoding.nil (h : Decoding be [] d rest) : rest = [] := by
  have hinput := congrArg List.length h.input
  cases rest with
  | nil => rfl
  | cons c rest => cases be <;> cases hcarry : d.carry <;> simp_all [encodeUtf16, unitBytes]

variable {size : Nat}

theorem pollRead_chunk {chunk : Bytes} (h : ¬d.pendingPos < d.pending.length)
    (hlatch : d.latch ≠ .passThrough) (hchunk : chunk ≠ []) : pollRead size (chunk :: inner) d =
      pollRead size inner (consumeRaw { d with pending := [], pendingPos := 0 } chunk) := by
  obtain ⟨byte, chunk, rfl⟩ := exists_cons_of_ne_nil hchunk
  rw [pollRead, if_neg h]
  exact if_neg hlatch

theorem consumeRaw_decided (hlatch : d.latch = latchOf be) (chunk : Bytes) :
    consumeRaw d chunk = decodeUtf16 d chunk := by
  obtain ⟨_, latch, _, _, _⟩ := d
  cases hlatch
  cases be <;> rfl

structure Returns (be : Bool) (before : Bytes) (out : Bytes) (d : Utf16Decoder)
    (rest : List Char) : Prop where
  decoding : Decoding be d.inner d rest
  chunks : [] ∉ d.inner
  next : before = out ++ outstanding d rest
  ended : out = [] → before = []

theorem Decoding.pending (hsize : 1 ≤ size) (h : Decoding be inner d rest)
    (hchunks : [] ∉ inner) (hpend : d.pendingPos < d.pending.length) :
    Returns be (outstanding d rest) (pollRead size inner d).1 (pollRead size inner d).2 rest := by
  rw [pollRead, if_pos hpend]
  refine ⟨⟨h.latch, h.bmp, h.input⟩, hchunks, ?_, fun hnil => ?_⟩
  · show d.pending.drop d.pendingPos ++ _ = _ ++ (d.pending.drop (d.pendingPos + _) ++ _)
    rw [← drop_drop, ← append_assoc]
    rw [prefix_iff_eq_append.mp (List.take_prefix size _)]
  · have hlength := congrArg List.length hnil
    simp only [length_take, length_drop, length_nil] at hlength
    omega

theorem Decoding.pollRead (hsize : 1 ≤ size) (h : Decoding be inner d rest) (hchunks : [] ∉ inner) :
    ∃ rest', Returns be (outstanding d rest) (Utf16.pollRead size inner d).1
      (Utf16.pollRead size inner d).2 rest' := by
  -- by induction on the chunks: one that leaves no output is followed by the next
  induction inner generalizing d rest with
  | nil =>
    by_cases hpend : d.pendingPos < d.pending.length
    · exact ⟨rest, h.pending hsize hchunks hpend⟩
    · have hrest := h.nil
      have hnone : outstanding d rest = [] := by
        simp [outstanding, hrest, encodeUtf8, drop_eq_nil_of_le (Nat.not_lt.mp hpend)]
      rw [pollRead, if_neg hpend, hnone]
      refine ⟨rest, ⟨h.latch, h.bmp, h.input⟩, not_mem_nil, ?_, fun _ => rfl⟩
      simp [outstanding, hrest, encodeUtf8]
  | cons chunk inner ih =>
    by_cases hpend : d.pendingPos < d.pending.length
    · exact ⟨rest, h.pending hsize hchunks hpend⟩
    · obtain ⟨hchunk, hchunks⟩ := not_or.mp (mt mem_cons.mpr hchunks)
      have hlatch : d.latch ≠ .passThrough := by
        rw [h.latch]
        cases be <;> decide
      have hcleared : Decoding be (chunk :: inner) { d with pending := [], pendingPos := 0 } rest :=
        ⟨h.latch, h.bmp, h.input⟩
      obtain ⟨done, rest', hrest, hnext, hout, hpos⟩ := hcleared.chunk
      have hsame : outstanding d rest =
          outstanding (decodeUtf16 { d with pending := [], pendingPos := 0 } chunk) rest' := by
        simp [outstanding, hrest, hout, hpos, encodeUtf8, drop_eq_nil_of_le (Nat.not_lt.mp hpend)]
      rw [pollRead_chunk hpend hlatch (Ne.symm hchunk), consumeRaw_decided hcleared.latch, hsame]
      exact ih hnext hchunks

structure ReadsTo (whole : Bytes) (outs : List Bytes) : Prop where
  inOrder : outs.flatten <+: whole
  notEarly : ∀ before after, outs = before ++ [] :: after → before.flatten = whole
  ends : whole.length < outs.length → [] ∈ outs

theorem ReadsTo.cons {out more : Bytes} {outs : List Bytes} (h : ReadsTo more outs)
    (hended : out = [] → more = []) : ReadsTo (out ++ more) (out :: outs) := by
  refine ⟨?_, fun before after hsplit => ?_, fun hlong => ?_⟩
  · rw [flatten_cons]
    exact prefix_append_right_inj out |>.mpr h.inOrder
  · cases before with
    | nil =>
      obtain ⟨rfl, -⟩ := List.cons.inj hsplit
      simp [hended rfl]
    | cons _ before =>
      obtain ⟨rfl, htail⟩ := List.cons.inj hsplit
      rw [flatten_cons, h.notEarly before after htail]
  · by_cases hout : out = []
    · simp [hout]
    · have hpos := length_pos_iff.mpr hout
      rw [length_append, length_cons] at hlong
      exact mem_cons_of_mem _ (h.ends (by omega))

theorem readMany_readsTo {whole : Bytes} {sizes : List Nat} (hsizes : ∀ size ∈ sizes, 1 ≤ size)
    (hread : ∀ size, 1 ≤ size → ∃ rest, Returns be whole (d.read size).1 (d.read size).2 rest) :
    ReadsTo whole (d.readMany sizes) := by
  induction sizes generalizing d whole with
  | nil =>
    refine ⟨List.nil_prefix, fun before after hsplit => ?_, fun hlong => ?_⟩
    · cases before <;> cases hsplit
    · exact absurd hlong (Nat.not_lt_zero _)
  | cons size sizes ih =>
    obtain ⟨hsize, hsizes⟩ := forall_mem_cons.mp hsizes
    obtain ⟨rest, hret⟩ := hread size hsize
    rw [hret.next]
    refine ReadsTo.cons (ih hsizes fun size hsize => ?_) fun hout => ?_
    · exact hret.decoding.pollRead hsize hret.chunks
    · exact (append_eq_nil_iff.mp (hret.next ▸ hret.ended hout)).2

theorem pollRead_first (be : Bool) (size : Nat) (inner : List Bytes) (chunk : Bytes)
    (chunks : List Bytes) : pollRead size ((bom be ++ chunk) :: inner) (.new chunks) =
      pollRead size inner (decodeUtf16 ⟨chunks, latchOf be, none, [], 0⟩ chunk) := by
  have hmark : consumeRaw (.new chunks) (bom be ++ chunk) =
      decodeUtf16 ⟨chunks, latchOf be, none, [], 0⟩ chunk := by
    cases be <;> rfl
  have hchunk : bom be ++ chunk ≠ [] := by cases be <;> simp [bom]
  rw [← hmark]
  exact pollRead_chunk (Nat.lt_irrefl 0) Latch.noConfusion hchunk

end Reading

/-- A text of the Basic Multilingual Plane is read as its UTF-8 encoding, however its UTF-16 bytes
are cut into chunks and whatever the buffers of the caller. -/
theorem reads_utf8_of_any_chunks (be : Bool) {text : List Char} {first : Bytes}
    {inner : List Bytes} {sizes : List Nat} (hbmp : Bmp text)
    (hbytes : (first :: inner).flatten = bom be ++ encodeUtf16 be text)
    (hfirst : 2 ≤ first.length) (hinner : [] ∉ inner) (hsizes : ∀ size ∈ sizes, 1 ≤ size) :
    ReadsTo (encodeUtf8 text) ((Utf16Decoder.new (first :: inner)).readMany sizes) := by
  -- the first chunk is the mark and some bytes of the text
  obtain ⟨chunk, rfl⟩ : ∃ chunk, first = bom be ++ chunk := by
    have hmark : bom be <+: first := by
      refine prefix_of_prefix_length_le (hbytes ▸ prefix_append _ _)
        (flatten_cons ▸ prefix_append _ _) ?_
      cases be <;> exact hfirst
    exact ⟨_, (prefix_iff_eq_append.mp hmark).symm⟩
  rw [flatten_cons, append_assoc, append_cancel_left_eq] at hbytes
  have hstart : Decoding be (chunk :: inner)
      ⟨(bom be ++ chunk) :: inner, latchOf be, none, [], 0⟩ text := ⟨rfl, hbmp, hbytes⟩
  obtain ⟨done, rest, hrest, hnext, hout, hpos⟩ := hstart.chunk
  have hwhole : encodeUtf8 text = outstanding (decodeUtf16
      ⟨(bom be ++ chunk) :: inner, latchOf be, none, [], 0⟩ chunk) rest := by
    simp [outstanding, hrest, hout, hpos, encodeUtf8]
  have hreads : ∀ size, 1 ≤ size → ∃ rest, Returns be (encodeUtf8 text)
      ((Utf16Decoder.new ((bom be ++ chunk) :: inner)).read size).1
      ((Utf16Decoder.new ((bom be ++ chunk) :: inner)).read size).2 rest := by
    intro size hsize
    rw [Utf16Decoder.read, hwhole]
    have hread := hnext.pollRead hsize hinner
    rwa [← pollRead_first] at hread
  exact readMany_readsTo hsizes hreads

/-- A character cut after its first byte, the euro sign returned a byte at a time. -/
theorem reads_euro_sign :
    ReadsTo (encodeUtf8 ['a', '€']) ((Utf16Decoder.new
      [[0xFF, 0xFE, 0x61], [0x00, 0xAC], [0x20]]).readMany [8, 1, 1, 1, 1]) ∧
    (Utf16Decoder.new [[0xFF, 0xFE, 0x61], [0x00, 0xAC], [0x20]]).readMany [8, 1, 1, 1, 1] =
      [[0x61], [0xE2], [0x82], [0xAC], []] :=
  ⟨reads_utf8_of_any_chunks false (by unfold Bmp; decide) (by decide +kernel) (by decide)
    (by decide) (by decide), by decide +kernel⟩

end Utf16

end TerminalCommander
