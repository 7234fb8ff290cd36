import TerminalCommander.Core.StrBytes
import TerminalCommander.Daemon.Command.RedactShell

/-!
# The two lanes of the redaction

Whether `redact_shell_line` shows a line as `redact_argv` shows its words, for words without blanks
and quotes. Both walk the words and look one word ahead. The argv lane looks at every word; behind
`-h` and `--header` the shell lane goes on after the header's value, and does not look at the value
itself. So the lanes differ where a header's value is a flag that masks the next word.
-/

namespace TerminalCommander

open List Option Text Carry Nat

/-! ## Sizes -/

theorem len_redacted : ARGV_HEAD_REDACTED.len = 10 := by decide +kernel

theorem len_take_headerSep_le (token : Text) (n : Nat) :
    len (token.take n ++ headerSep (token.drop n) ++ ARGV_HEAD_REDACTED) ≤ token.len + 10 := by
  have hkept : len (token.take n) + len (headerSep (token.drop n)) ≤ token.len := by
    have hle := token.len_take_add_drop_le (le_refl n)
    unfold headerSep
    split_ifs with hblank
    · cases hdrop : token.drop n with
      | nil =>
        rw [hdrop] at hblank
        cases hblank
      | cons c rest =>
        rw [hdrop] at hblank hle
        rw [Option.some.inj hblank, len] at hle
        rw [len, len_nil]
        omega
    · rw [len_nil]
      omega
  rw [len_append, len_append, len_redacted]
  omega

theorem len_maskHeaderCredential_le (token : Text) :
    (maskHeaderCredential token).len ≤ token.len + 10 := by
  unfold maskHeaderCredential
  dsimp only
  split
  · have := token.len_take_le
    rw [len_append, len_redacted]
    exact Nat.add_le_add_right (this _) 10
  · split
    · exact len_take_headerSep_le token _
    · split
      · exact len_take_headerSep_le token _
      · exact Nat.le_add_right _ _

variable {token : Text}

theorem len_maskUrlUserinfo_le {masked : Text} (h : maskUrlUserinfo token = some masked) :
    masked.len ≤ token.len + 10 := by
  unfold maskUrlUserinfo at h
  simp only [bind_eq_bind, bind_eq_some_iff, Option.pure_def] at h
  obtain ⟨pos, -, atSign, -, colon, hcolon, hmasked⟩ := h
  rw [← Option.some.inj hmasked]
  -- the colon stands before the at sign
  have hlt : colon < atSign := by
    obtain ⟨hlen, -⟩ := findIdx?_eq_some_iff_getElem.mp hcolon
    exact lt_of_lt_of_le hlen (length_take_le _ _)
  have := token.len_take_add_drop_le (show pos + 3 + colon + 1 ≤ pos + 3 + atSign by omega)
  rw [len_append, len_append, len_redacted]
  omega

inductive MaskShape (token : Text) : Text → Prop
  | same : MaskShape token token
  | cut (n : Nat) : MaskShape token (token.take n ++ ARGV_HEAD_REDACTED)
  | header (n : Nat) : MaskShape token (token.take n ++ maskHeaderCredential (token.drop n))
  | url (masked : Text) (h : maskUrlUserinfo token = some masked) : MaskShape token masked

theorem maskShape (token : Text) : MaskShape token (maskTokenInline token) := by
  unfold maskTokenInline
  dsimp only
  split
  · exact .cut _
  split
  · exact .cut 2
  split
  · exact .cut 2
  split
  · exact .cut _
  split
  · exact .header 9
  split
  · next masked hurl => exact .url masked hurl
  split
  · exact .header 0
  split
  · split
    · exact .cut _
    · exact .same
  · exact .same

theorem len_maskTokenInline_le (token : Text) : (maskTokenInline token).len ≤ token.len + 10 := by
  have hshape := maskShape token
  generalize maskTokenInline token = masked at hshape ⊢
  cases hshape with
  | same => exact Nat.le_add_right _ _
  | cut n =>
    rw [len_append, len_redacted]
    exact Nat.add_le_add_right (token.len_take_le n) 10
  | header n =>
    have hrest := len_maskHeaderCredential_le (token.drop n)
    have hle := token.len_take_add_drop_le (Nat.le_refl n)
    rw [len_append]
    omega
  | url _ h => exact len_maskUrlUserinfo_le h

theorem maskHeaderCredential_ne_nil (h : token ≠ []) : maskHeaderCredential token ≠ [] := by
  rcases maskHeaderCredential_cases token with heq | ⟨before, heq⟩
  · rw [heq]
    exact h
  · rw [← heq]
    exact append_ne_nil_of_right_ne_nil _ (by decide)

theorem maskTokenInline_ne_nil (h : token ≠ []) : maskTokenInline token ≠ [] := by
  have hmask : ARGV_HEAD_REDACTED ≠ [] := by decide
  have hshape := maskShape token
  generalize maskTokenInline token = masked at hshape ⊢
  cases hshape with
  | same => exact h
  | cut n => exact append_ne_nil_of_right_ne_nil _ hmask
  | header n =>
    rcases eq_nil_or_concat' (token.drop n) with hnil | ⟨rest, c, hrest⟩
    · rw [← take_append_drop n token, hnil, append_nil] at h
      exact append_ne_nil_of_left_ne_nil h _
    · refine append_ne_nil_of_right_ne_nil _ (maskHeaderCredential_ne_nil ?_)
      rw [hrest]
      exact append_ne_nil_of_right_ne_nil _ (cons_ne_nil c [])
  | url _ hurl =>
    unfold maskUrlUserinfo at hurl
    simp only [bind_eq_bind, bind_eq_some_iff, Option.pure_def] at hurl
    obtain ⟨pos, -, atSign, -, colon, -, heq⟩ := hurl
    rw [← Option.some.inj heq]
    exact append_ne_nil_of_left_ne_nil (append_ne_nil_of_right_ne_nil _ hmask) _

theorem len_maskNext_le (token value : Text) : (maskNext token value).len ≤ value.len + 10 := by
  unfold maskNext
  split_ifs
  · rw [len_redacted]
    exact le_add_left _ _
  · rw [len_redacted]
    exact le_add_left _ _
  · exact len_maskHeaderCredential_le value
  · exact le_add_right _ _

theorem maskNext_ne_nil (token : Text) {value : Text} (h : value ≠ []) :
    maskNext token value ≠ [] := by
  rcases maskNext_cases token value with heq | ⟨before, heq⟩
  · rw [heq]
    exact h
  · rw [← heq]
    exact append_ne_nil_of_right_ne_nil _ (by decide)

/-! ## Plain words -/

structure PlainWord (word : Text) : Prop where
  nonempty : word ≠ []
  short : word.len ≤ 64
  unblank : ∀ c ∈ word, whiteSpace c = false
  unquoted : ∀ c ∈ word, isQuote c = false

instance (word : Text) : Decidable (PlainWord word) :=
  decidable_of_iff (word ≠ [] ∧ word.len ≤ 64 ∧ (∀ c ∈ word, whiteSpace c = false) ∧
      ∀ c ∈ word, isQuote c = false)
    ⟨fun ⟨h₁, h₂, h₃, h₄⟩ => ⟨h₁, h₂, h₃, h₄⟩,
      fun h => ⟨h.nonempty, h.short, h.unblank, h.unquoted⟩⟩

theorem PlainWord.strip {word : Text} (h : PlainWord word) :
    stripSurroundingQuotes word = word := by
  cases word with
  | nil => rfl
  | cons c rest =>
    rw [stripSurroundingQuotes, h.unquoted c mem_cons_self]
    rfl

theorem PlainWord.headerSpan {word : Text} (h : PlainWord word) (rest : List Text) :
    headerSpan (word :: rest) = 0 := by
  cases word with
  | nil => rfl
  | cons c word =>
    simp only [TerminalCommander.headerSpan, head?_cons, h.unquoted c mem_cons_self]
    rfl

variable {words : List Text}

theorem splitWhitespace_join (h : ∀ word ∈ words, PlainWord word) :
    (Text.join [' '] words).splitWhitespace = words := by
  induction words with
  | nil => exact Text.splitWhitespace_nil
  | cons word words ih =>
    have hword := h word mem_cons_self
    have hone := Text.splitWhitespace_word hword.nonempty hword.unblank
    cases words with
    | nil =>
      rw [Text.join, intercalate_singleton]
      exact hone
    | cons next words =>
      have hrest := ih fun w hw => h w (mem_cons_of_mem word hw)
      have hjoin : Text.join [' '] (word :: next :: words) =
          word ++ ' ' :: Text.join [' '] (next :: words) := by
        unfold Text.join
        rw [intercalate_cons_cons, append_assoc]
        rfl
      rw [hjoin, Text.splitWhitespace_cut (by decide), hone, hrest]
      rfl

/-! ## Layer A in both lanes -/

def inertFrom (token : Text) : List Text → Bool
  | [] => true
  | value :: rest =>
    (!isHeaderFlag token ||
      (rest.head?.all fun next => maskNext (maskNext token value) next == next)) &&
    inertFrom (maskNext token value) rest

def inertHeaders : List Text → Bool
  | [] => true
  | word :: words => inertFrom word words

theorem next_read {value : Text} (htoken : PlainWord token) (hvalue : PlainWord value)
    (rest : List Text) : (next .read token (value :: rest)).text value = maskNext token value ∧
      ((∃ text, next .read token (value :: rest) = .header text 0) ∧
          isHeaderFlag token ∨
        next .read token (value :: rest) = .read ∨
        next .read token (value :: rest) = .masked) := by
  unfold Carry.next maskNext
  dsimp only
  rw [htoken.strip, hvalue.strip, hvalue.headerSpan]
  split_ifs with hsec huser hhead
  · exact ⟨rfl, .inr (.inr rfl)⟩
  · exact ⟨rfl, .inr (.inr rfl)⟩
  · refine ⟨?_, .inl ⟨⟨_, rfl⟩, hhead⟩⟩
    show maskHeaderCredential (Text.join [' '] [stripSurroundingQuotes value]) = _
    rw [hvalue.strip, Text.join, intercalate_singleton]
  · exact ⟨hvalue.strip, .inr (.inl rfl)⟩

inductive Carry.Plain : Carry → Prop
  | read : Carry.Plain .read
  | masked : Carry.Plain .masked
  | header (text : Text) : Carry.Plain (.header text 0)

theorem shellLayerA_eq_lookAhead {rest : List Text} (hrest : ∀ word ∈ rest, PlainWord word) :
    ∀ {carry : Carry} {raw : Text}, PlainWord raw → carry.Plain →
      (∀ text, carry = .header text 0 → ∀ next ∈ rest.head?, maskNext text next = next) →
      inertFrom (carry.text raw) rest →
      shellLayerA carry (raw :: rest) = lookAhead (carry.text raw) rest := by
  induction rest with
  | nil =>
    intro carry raw _ _ _ _
    rfl
  | cons value rest ih =>
    intro carry raw hraw hplain hhead hinert
    have hvalue := hrest value mem_cons_self
    have htail : ∀ word ∈ rest, PlainWord word := fun w hw => hrest w (mem_cons_of_mem value hw)
    rw [inertFrom, Bool.and_eq_true] at hinert
    rw [shellLayerA, lookAhead]
    congr 1
    cases hplain with
    | read =>
      have htext : Carry.text .read raw = raw := hraw.strip
      rw [htext] at hinert ⊢
      obtain ⟨hnext, hcases⟩ := next_read hraw hvalue rest
      rw [← hnext] at hinert ⊢
      rcases hcases with ⟨⟨text, hcarry⟩, hflag⟩ | hcarry | hcarry
      · rw [hcarry] at hinert ⊢
        refine ih htail hvalue (.header text) (fun text' heq next hmem => ?_) hinert.2
        cases heq
        have hall := hinert.1
        rw [hflag, Bool.not_true, Bool.false_or, hmem, all_some, beq_iff_eq] at hall
        exact hall
      · rw [hcarry] at hinert ⊢
        exact ih htail hvalue .read (fun text heq => by cases heq) hinert.2
      · rw [hcarry] at hinert ⊢
        exact ih htail hvalue .masked (fun text heq => by cases heq) hinert.2
    | masked =>
      have hkeeps : maskNext (Carry.text .masked raw) value = value :=
        EndsMasked.maskNext suffix_rfl value
      rw [hkeeps] at hinert ⊢
      have hread : Carry.text .read value = value := hvalue.strip
      have h : inertFrom (Carry.text .read value) rest → shellLayerA .read (value :: rest) =
          lookAhead (Carry.text .read value) rest :=
        ih htail hvalue .read fun text heq => by cases heq
      rw [hread] at h
      exact h hinert.2
    | header text =>
      have hkeeps : maskNext (Carry.text (.header text 0) raw) value = value :=
        hhead text rfl value rfl
      rw [hkeeps] at hinert ⊢
      have hread : Carry.text .read value = value := hvalue.strip
      have h : inertFrom (Carry.text .read value) rest → shellLayerA .read (value :: rest) =
          lookAhead (Carry.text .read value) rest :=
        ih htail hvalue .read fun text heq => by cases heq
      rw [hread] at h
      exact h hinert.2

theorem shellLayerA_eq_layerA (h : ∀ word ∈ words, PlainWord word)
    (hinert : inertHeaders words) : shellLayerA .read words = layerA words := by
  cases words with
  | nil => rfl
  | cons word words =>
    have hword := h word mem_cons_self
    have htext : text .read word = word := hword.strip
    have heq : inertFrom (text .read word) words → shellLayerA .read (word :: words) =
        lookAhead (text .read word) words :=
      shellLayerA_eq_lookAhead (fun w hw => h w (mem_cons_of_mem word hw)) hword .read
        fun text heq => by cases heq
    rw [htext] at heq
    exact heq hinert

/-! ## The previews -/

theorem mem_lookAhead {rest : List Text} (hrest : ∀ word ∈ rest, PlainWord word) :
    ∀ {token : Text}, token ≠ [] → token.len ≤ 74 →
      ∀ t ∈ lookAhead token rest, t ≠ [] ∧ t.len ≤ 74 := by
  induction rest with
  | nil =>
    intro token hne hlen t ht
    rw [mem_singleton.mp ht]
    exact ⟨hne, hlen⟩
  | cons value rest ih =>
    intro token hne hlen t ht
    rcases mem_cons.mp ht with rfl | ht
    · exact ⟨hne, hlen⟩
    · have hvalue := hrest value mem_cons_self
      have hle := len_maskNext_le token value
      have hshort := hvalue.short
      exact ih (fun w hw => hrest w (mem_cons_of_mem value hw))
        (maskNext_ne_nil token hvalue.nonempty) (by omega) t ht

theorem mem_layerA (h : ∀ word ∈ words, PlainWord word) :
    ∀ t ∈ layerA words, t ≠ [] ∧ t.len ≤ 74 := by
  cases words with
  | nil =>
    intro t ht
    exact (not_mem_nil ht).elim
  | cons word words =>
    have hword := h word mem_cons_self
    exact mem_lookAhead (fun w hw => h w (mem_cons_of_mem word hw)) hword.nonempty
      (le_trans hword.short (by decide))

def curlWords : List Text :=
  ["curl", "-h", "x-key:k1", "--token", "k2", "-v"].map String.toList

def headerThenPassword : List Text := ["-h", "--password", "secret"].map String.toList

end TerminalCommander
