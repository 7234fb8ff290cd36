import TerminalCommander.Core.OsGuard.Line

/-!
# Texts read back

Two decoders of the guard invert the encodings they are for: `split_env_words` the quoting of
`env -S`, and `decode_utf16le_base64` the text of PowerShell's `-EncodedCommand`. The base64 decoder
keeps sixteen bits of what it has read; eight of them are always those of the next byte.
-/

namespace TerminalCommander

open List Option

namespace ShellDeny

def escaped (word : Text) : Text :=
  word.flatMap fun c => if c = '\\' ∨ c = '\'' then ['\\', c] else [c]

def envQuote (word : Text) : Text := '\'' :: (escaped word ++ ['\''])

theorem splitEnvLoop_escaped (words : List Text) (rest : Text) : ∀ word read : Text,
    splitEnvLoop false (some '\'') (some read) words (escaped word ++ '\'' :: rest) =
      splitEnvLoop false none (some (read ++ word)) words rest := by
  intro word
  induction word with
  | nil =>
    intro read
    rw [append_nil]
    rfl
  | cons c word ih =>
    intro read
    have hword : read ++ c :: word = read ++ [c] ++ word := by simp
    rw [hword, ← ih (read ++ [c])]
    by_cases hc : c = '\\' ∨ c = '\''
    · rcases hc with rfl | rfl <;> rfl
    · obtain ⟨hback, hquote⟩ := not_or.mp hc
      have hcons : escaped (c :: word) = c :: escaped word := by
        simp only [escaped, flatMap_cons, if_neg hc, singleton_append]
      rw [hcons, cons_append, splitEnvLoop, if_neg (by simpa using Ne.symm hquote), if_pos rfl,
        if_neg fun h => hback h.1]
      rfl

theorem splitEnvLoop_envQuote (words : List Text) (word rest : Text) :
    splitEnvLoop false none none words (envQuote word ++ rest) =
      splitEnvLoop false none (some word) words rest := by
  rw [envQuote, cons_append, append_assoc]
  exact splitEnvLoop_escaped words rest word []

/-- **Quoted words are read back.** -/
theorem splitEnvWords_envQuote (words : List Text) :
    splitEnvWords (Text.join [' '] (words.map envQuote)) = some words := by
  suffices h : ∀ read : List Text,
      splitEnvLoop false none none read (Text.join [' '] (words.map envQuote)) =
        some (read ++ words) from h []
  induction words with
  | nil =>
    intro read
    rw [append_nil]
    exact congrArg some (append_nil read)
  | cons word words ih =>
    intro read
    cases words with
    | nil =>
      have hjoin : Text.join [' '] ([word].map envQuote) = envQuote word ++ [] := rfl
      rw [hjoin, splitEnvLoop_envQuote]
      rfl
    | cons next words =>
      have hjoin : Text.join [' '] ((word :: next :: words).map envQuote) =
          envQuote word ++ ' ' :: Text.join [' '] ((next :: words).map envQuote) := rfl
      rw [hjoin, splitEnvLoop_envQuote]
      refine (ih (read ++ [word])).trans ?_
      rw [append_assoc]
      rfl

end ShellDeny

namespace OsGuard

/-! ## Base64 of UTF-16LE -/

def base64Digit (n : Nat) : Char :=
  "ABCDEFGHIJKLMNOPQRSTUVWXYZabcdefghijklmnopqrstuvwxyz0123456789+/".toList.getD n '='

/-- The digits of the standard encoding, without padding. -/
def base64Digits : List Nat → Text
  | a :: b :: c :: bytes => base64Digit (a / 4) :: base64Digit (a % 4 * 16 + b / 16) ::
      base64Digit (b % 16 * 4 + c / 64) :: base64Digit (c % 64) :: base64Digits bytes
  | [a, b] => [a / 4, a % 4 * 16 + b / 16, b % 16 * 4].map base64Digit
  | [a] => [a / 4, a % 4 * 16].map base64Digit
  | [] => []

def base64Padding (bytes : List Nat) : Text := replicate ((3 - bytes.length % 3) % 3) '='

def utf16 (c : Char) : List Nat :=
  if c.toNat < 0x10000 then [c.toNat]
  else [0xD800 + (c.toNat - 0x10000) / 0x400, 0xDC00 + (c.toNat - 0x10000) % 0x400]

def utf16leBytes (text : Text) : List Nat :=
  (text.flatMap utf16).flatMap fun unit => [unit % 256, unit / 256]

theorem base64Value_digit :
    ∀ n < 64, base64Digit n ≠ '=' ∧ base64Value (base64Digit n) = some n := by
  decide +kernel

section Digits

variable {n : Nat} (hn : n < 64) (bits : Nat) (text : Text)

include hn

theorem base64Bytes_first : base64Bytes bits 0 (base64Digit n :: text) =
    base64Bytes ((bits * 64 + n) % 65536) 6 text := by
  obtain ⟨hne, hvalue⟩ := base64Value_digit n hn
  rw [base64Bytes, if_neg hne, hvalue]
  rfl

theorem base64Bytes_next (pending : Nat) : base64Bytes bits (pending + 2) (base64Digit n :: text) =
      (base64Bytes ((bits * 64 + n) % 65536) pending text).map
        ((bits * 64 + n) % 65536 / 2 ^ pending % 256 :: ·) := by
  obtain ⟨hne, hvalue⟩ := base64Value_digit n hn
  rw [base64Bytes, if_neg hne, hvalue, ← Nat.shiftRight_eq_div_pow]
  exact if_pos (Nat.le_add_left 8 pending)

end Digits

theorem base64Bytes_digits {tail : Text}
    (htail : ∀ bits pending, base64Bytes bits pending tail = some []) :
    ∀ (bytes : List Nat) (bits : Nat), (∀ b ∈ bytes, b < 256) →
      base64Bytes bits 0 (base64Digits bytes ++ tail) = some bytes
  | [], bits, _ => htail bits 0
  | [a], bits, h => by
    have ha := h a (by simp)
    simp only [base64Digits, map_cons, map_nil, cons_append, nil_append]
    rw [base64Bytes_first (by omega), base64Bytes_next (by omega) _ _ 4, htail]
    simp only [map_some, some.injEq, cons.injEq, and_true]
    omega
  | [a, b], bits, h => by
    have ha := h a (by simp)
    have hb := h b (by simp)
    simp only [base64Digits, map_cons, map_nil, cons_append, nil_append]
    rw [base64Bytes_first (by omega), base64Bytes_next (by omega) _ _ 4,
      base64Bytes_next (by omega) _ _ 2, htail]
    simp only [map_some, some.injEq, cons.injEq, and_true]
    exact ⟨by omega, by omega⟩
  | a :: b :: c :: bytes, bits, h => by
    have ha := h a (by simp)
    have hb := h b (by simp)
    have hc := h c (by simp)
    simp only [base64Digits, cons_append]
    rw [base64Bytes_first (by omega), base64Bytes_next (by omega) _ _ 4,
      base64Bytes_next (by omega) _ _ 2, base64Bytes_next (by omega) _ _ 0,
      base64Bytes_digits htail bytes _ fun d hd => h d (by simp [hd])]
    simp only [map_some, some.injEq, cons.injEq, and_true]
    exact ⟨by omega, by omega, by omega⟩

variable {unit : Nat}

theorem fromUtf16Lossy_unit (h : ¬ (0xD800 ≤ unit ∧ unit < 0xE000)) (units : List Nat) :
    fromUtf16Lossy (unit :: units) = Char.ofNat unit :: fromUtf16Lossy units := by
  cases units with
  | nil => simp only [fromUtf16Lossy, if_neg h]
  | cons next units =>
    rw [fromUtf16Lossy, if_neg (by omega), if_neg h]

theorem toNat_scalar (c : Char) : c.toNat < 0xD800 ∨ 0xDFFF < c.toNat ∧ c.toNat < 0x110000 :=
  c.valid

theorem fromUtf16Lossy_utf16 (c : Char) (units : List Nat) :
    fromUtf16Lossy (utf16 c ++ units) = c :: fromUtf16Lossy units := by
  have hscalar := toNat_scalar c
  unfold utf16
  split_ifs with hbmp
  · rw [singleton_append, fromUtf16Lossy_unit (by omega), Char.ofNat_toNat]
  · have hpair : 0x10000 + (0xD800 + (c.toNat - 0x10000) / 0x400 - 0xD800) * 0x400 +
        (0xDC00 + (c.toNat - 0x10000) % 0x400 - 0xDC00) = c.toNat := by omega
    rw [cons_append, singleton_append, fromUtf16Lossy, if_pos (by omega), hpair, Char.ofNat_toNat]

theorem fromUtf16Lossy_flatMap (text : Text) : fromUtf16Lossy (text.flatMap utf16) = text := by
  induction text with
  | nil => rfl
  | cons c text ih => rw [flatMap_cons, fromUtf16Lossy_utf16, ih]

theorem lt_of_mem_utf16 {c : Char} (h : unit ∈ utf16 c) : unit < 0x10000 := by
  have hscalar := toNat_scalar c
  unfold utf16 at h
  split_ifs at h with hbmp
  · rwa [mem_singleton.mp h]
  · rcases mem_pair.mp h with h | h <;> omega

theorem utf16Units_bytes (units : List Nat) :
    utf16Units (units.flatMap fun unit => [unit % 256, unit / 256]) = units := by
  induction units with
  | nil => rfl
  | cons unit units ih =>
    rw [flatMap_cons, cons_append, singleton_append, utf16Units, ih, Nat.mod_add_div]

theorem lt_of_mem_utf16leBytes {text : Text} {b : Nat} (h : b ∈ utf16leBytes text) : b < 256 := by
  obtain ⟨unit, hunit, hb⟩ := mem_flatMap.mp h
  obtain ⟨c, -, hc⟩ := mem_flatMap.mp hunit
  have hlt := lt_of_mem_utf16 hc
  rcases mem_pair.mp hb with rfl | rfl <;> omega

/-- **Encoded payloads are read back**, with or without the padding. -/
theorem decodeUtf16leBase64_encoded (text : Text) :
    decodeUtf16leBase64 (base64Digits (utf16leBytes text)) = some text ∧
      decodeUtf16leBase64 (base64Digits (utf16leBytes text) ++ base64Padding (utf16leBytes text)) =
        some text := by
  have hread : ∀ tail, (∀ bits pending, base64Bytes bits pending tail = some []) →
      decodeUtf16leBase64 (base64Digits (utf16leBytes text) ++ tail) = some text := by
    intro tail htail
    rw [decodeUtf16leBase64, base64Bytes_digits htail _ 0 fun b hb => lt_of_mem_utf16leBytes hb,
      map_some, utf16leBytes, utf16Units_bytes, fromUtf16Lossy_flatMap]
  refine ⟨?_, hread _ fun bits pending => ?_⟩
  · have hplain := hread [] fun _ _ => rfl
    rwa [append_nil] at hplain
  · unfold base64Padding
    cases (3 - (utf16leBytes text).length % 3) % 3 <;> rfl

end OsGuard

end TerminalCommander
