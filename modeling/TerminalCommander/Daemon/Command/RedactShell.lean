import TerminalCommander.Daemon.Command.Redact

/-!
# The audit preview of a shell line

`redact_shell_line` of `daemon/src/command.rs`: the line is cut at white space, every token loses
one pair of quotes around it, and the two layers of `redactArgv` run over the tokens. A header's
value that a quote opens extends to the token that closes the quote; the value of any other flag is
one token, whatever its quotes.
-/

namespace TerminalCommander

open List Text

def SHELL_LINE_PREVIEW_BYTES : Nat := ARGV_HEAD_ITEM_BYTES

def isQuote (c : Char) : Bool := c == '\'' || c == '"'

def stripSurroundingQuotes : Text → Text
  | [] => []
  | first :: rest =>
    if isQuote first && rest.getLast? == some first then rest.dropLast else first :: rest

def headerSpan : List Text → Nat
  | [] => 0
  | first :: rest =>
    match first.head? with
    | none => 0
    | some quote =>
      if !isQuote quote || (decide (2 ≤ first.len) && first.getLast? == some quote) then 0
      else min (rest.findIdx (fun raw => raw.getLast? == some quote) + 1) rest.length

inductive Carry where
  | read
  | masked
  | header (text : Text) (extra : Nat)
  | cleared (extra : Nat)
  deriving DecidableEq, Repr

namespace Carry

def text : Carry → Text → Text
  | .read, raw => stripSurroundingQuotes raw
  | .masked, _ => ARGV_HEAD_REDACTED
  | .header text _, _ => text
  | .cleared _, _ => []

def next : Carry → Text → List Text → Carry
  | .read, raw, rest =>
    match rest with
    | [] => .read
    | value :: _ =>
      let token := stripSurroundingQuotes raw
      if isSecretFlag token then .masked
      else if isUserFlag token && (stripSurroundingQuotes value).contains ':' then .masked
      else if isHeaderFlag token then
        .header (maskHeaderCredential
          (Text.join [' '] ((rest.take (headerSpan rest + 1)).map stripSurroundingQuotes)))
          (headerSpan rest)
      else .read
  | .masked, _, _ => .read
  | .header _ 0, _, _ => .read
  | .header _ (extra + 1), _, _ => .cleared extra
  | .cleared 0, _, _ => .read
  | .cleared (extra + 1), _, _ => .cleared extra

end Carry

def shellLayerA (carry : Carry) : List Text → List Text
  | [] => []
  | raw :: rest => carry.text raw :: shellLayerA (carry.next raw rest) rest

def redactShellLine (line : Text) : Text :=
  let tokens := (shellLayerA .read line.splitWhitespace).map maskTokenInline
  Text.truncate SHELL_LINE_PREVIEW_BYTES (Text.join [' '] (tokens.filter (· ≠ [])))

/-! ## Shell words -/

inductive Quoting where
  | bare | single | double
  deriving DecidableEq, Repr

def bareChar (c : Char) : Bool := !whiteSpace c && !"'\"\\|&;<>()`".toList.contains c

def staysQuoted : Text → Bool
  | [] => true
  | ['\\'] => false
  | '\\' :: _ :: t => staysQuoted t
  | c :: t => c != '"' && staysQuoted t

def Quoting.admits : Quoting → Text → Bool
  | .bare, t => !t.isEmpty && t.all bareChar
  | .single, t => !t.contains '\''
  | .double, t => staysQuoted t

def Quoting.render : Quoting → Text → Text
  | .bare, t => t
  | .single, t => '\'' :: t ++ ['\'']
  | .double, t => '"' :: t ++ ['"']

structure ShellWord where
  pieces : List (Quoting × Text)
  nonempty : pieces ≠ []
  admitted : ∀ p ∈ pieces, p.1.admits p.2 = true

namespace ShellWord

def text (w : ShellWord) : Text := w.pieces.flatMap fun p => p.1.render p.2

def form (w : ShellWord) : List Quoting := w.pieces.map Prod.fst

end ShellWord

/-! ## Tokens before the flag -/

def carryAfter (carry : Carry) : List Text → List Text → Carry
  | [], _ => carry
  | raw :: before, rest => carryAfter (carry.next raw (before ++ rest)) before rest

theorem carryAfter_cleared (rest : List Text) : ∀ {before : List Text} {extra : Nat},
    before.length ≤ extra → carryAfter (.cleared extra) before rest =
      .cleared (extra - before.length) := by
  intro before
  induction before with
  | nil => exact fun _ => rfl
  | cons raw before ih =>
    intro extra hle
    rw [length_cons] at hle
    obtain ⟨extra, rfl⟩ := Nat.exists_eq_add_of_le' (Nat.le_of_add_left_le hle)
    show carryAfter (.cleared extra) before rest = _
    rw [ih (by omega), length_cons]
    congr 1
    omega

variable {flag : Text}

theorem headerSpan_stable {value : Text} {before : List Text} (rest : List Text)
    (h : headerSpan (value :: (before ++ [flag])) ≤ before.length) :
    headerSpan (value :: (before ++ flag :: rest)) = headerSpan (value :: (before ++ [flag])) := by
  unfold headerSpan at h ⊢
  cases hquote : value.head? with
  | none => simp only [hquote]
  | some quote =>
    simp only [hquote] at h ⊢
    split_ifs at h ⊢
    · rfl
    · simp only [findIdx_append, length_append, length_cons, length_nil] at h ⊢
      by_cases hin : before.findIdx (fun raw => raw.getLast? == some quote) < before.length
      · rw [if_pos hin] at h ⊢
        rw [if_pos hin]
        omega
      · rw [if_neg hin] at h
        omega

theorem next_stable {carry : Carry} {raw : Text} {before : List Text} (rest : List Text)
    (h : carryAfter (carry.next raw (before ++ [flag])) before [flag] = .read) :
    carry.next raw (before ++ flag :: rest) = carry.next raw (before ++ [flag]) := by
  cases carry with
  | read =>
    cases before with
    | nil =>
      unfold Carry.next at h ⊢
      simp only [nil_append, carryAfter] at h ⊢
      split_ifs at h ⊢
      rfl
    | cons value before =>
      unfold Carry.next at h ⊢
      simp only [cons_append] at h ⊢
      split_ifs at h ⊢
      · rfl
      · rfl
      · by_cases hspan : headerSpan (value :: (before ++ [flag])) ≤ before.length
        · have htake : ∀ rest : List Text, (value :: (before ++ flag :: rest)).take
              (headerSpan (value :: (before ++ [flag])) + 1) =
                value :: before.take (headerSpan (value :: (before ++ [flag]))) := by
            intro rest
            rw [take_succ_cons, take_append_of_le_length hspan]
          rw [headerSpan_stable rest hspan, htake, htake]
        · -- the value covers the flag, which is then not read
          obtain ⟨extra, hextra⟩ : ∃ extra, headerSpan (value :: (before ++ [flag])) = extra + 1 :=
            ⟨_, (Nat.succ_pred (by omega)).symm⟩
          rw [hextra] at h hspan
          have hcleared := carryAfter_cleared [flag] (Nat.le_of_lt_succ (Nat.lt_of_not_le hspan))
          exact absurd (hcleared.symm.trans h) (by simp)
      · rfl
  | masked => rfl
  | header text extra => cases extra <;> rfl
  | cleared extra => cases extra <;> rfl

theorem shellLayerA_stable {rest rest' : List Text}
    (hflag : shellLayerA .read (flag :: rest) = shellLayerA .read (flag :: rest')) :
    ∀ {before : List Text} {carry : Carry}, carryAfter carry before [flag] = .read →
      shellLayerA carry (before ++ flag :: rest) = shellLayerA carry (before ++ flag :: rest') := by
  intro before
  induction before with
  | nil =>
    intro carry h
    rw [show carry = .read from h]
    exact hflag
  | cons raw before ih =>
    intro carry h
    rw [cons_append, cons_append, shellLayerA, shellLayerA, next_stable rest h,
      next_stable rest' h, ih h]

/-! ## The flag's own token -/

def IsFlagWord (flag : Text) : Prop := flag.toAsciiLowercase ∈ SECRET_VALUE_FLAGS

instance (flag : Text) : Decidable (IsFlagWord flag) := Text.decidableMem _ _

section

variable (h : IsFlagWord flag)

include h

theorem IsFlagWord.not_whiteSpace : ∀ c ∈ flag, whiteSpace c = false := by
  intro c hc
  by_contra hblank
  have hmem : c ∈ flag.toAsciiLowercase := List.mem_map.mpr
    ⟨c, hc, toLower_of_whiteSpace (eq_true_of_ne_false hblank)⟩
  have hflags : ∀ f ∈ SECRET_VALUE_FLAGS, ∀ d ∈ f, whiteSpace d = false := by decide +kernel
  exact hblank (hflags _ h c hmem)

theorem IsFlagWord.head : ∃ c rest, flag = c :: rest ∧ isQuote c = false := by
  have hflags : ∀ f ∈ SECRET_VALUE_FLAGS, f.head? = some '-' := by decide +kernel
  have hhead := hflags _ h
  cases flag with
  | nil => cases hhead
  | cons c rest =>
    refine ⟨c, rest, rfl, ?_⟩
    by_contra hquote
    have hlower : c.toLower = '-' := Option.some.inj hhead
    have hcases : c = '\'' ∨ c = '"' := by
      simpa [isQuote, or_iff_not_imp_left] using hquote
    rcases hcases with rfl | rfl <;> exact absurd hlower (by decide)

theorem IsFlagWord.strip : stripSurroundingQuotes flag = flag := by
  obtain ⟨c, rest, rfl, hquote⟩ := h.head
  rw [stripSurroundingQuotes, hquote]
  rfl

theorem IsFlagWord.trim : flag.trim = flag := by
  unfold Text.trim Text.trimEnd Text.trimStart
  have hstart : flag.dropWhile whiteSpace = flag := by
    rw [dropWhile_eq_self_iff]
    intro hl
    rw [h.not_whiteSpace _ (getElem_mem hl)]
    exact Bool.false_ne_true
  rw [hstart, rdropWhile_eq_self_iff]
  intro hne
  rw [h.not_whiteSpace _ (getLast_mem hne)]
  exact Bool.false_ne_true

theorem IsFlagWord.isSecretFlag : TerminalCommander.isSecretFlag flag := by
  unfold TerminalCommander.isSecretFlag flagKey
  rw [h.trim, contains_eq_mem]
  exact decide_eq_true h

theorem shellLayerA_flag (value : Text) (rest : List Text) :
    shellLayerA .read (flag :: value :: rest) =
      flag :: ARGV_HEAD_REDACTED :: shellLayerA .read rest := by
  have hnext : Carry.next .read flag (value :: rest) = .masked := by
    show (if TerminalCommander.isSecretFlag (stripSurroundingQuotes flag) then _ else _) = _
    rw [h.strip, if_pos h.isSecretFlag]
  rw [shellLayerA, hnext, shellLayerA]
  show stripSurroundingQuotes flag :: ARGV_HEAD_REDACTED :: _ = _
  rw [h.strip]
  rfl

end

/-! ## The flag in its line -/

structure FlagSite where
  before : Text
  flag : Text
  gap : Text
  after : Text
  before_endsBlank : before.EndsBlank
  isFlag : IsFlagWord flag
  gap_nonempty : gap ≠ []
  gap_blank : ∀ c ∈ gap, whiteSpace c = true
  after_startsBlank : after.StartsBlank

namespace FlagSite

def line (site : FlagSite) (value : Text) : Text :=
  site.before ++ (site.flag ++ (site.gap ++ (value ++ site.after)))

def ReadsFlag (site : FlagSite) : Prop :=
  carryAfter .read site.before.splitWhitespace [site.flag] = .read

instance (site : FlagSite) : Decidable site.ReadsFlag :=
  inferInstanceAs (Decidable (carryAfter .read _ _ = _))

theorem tokens (site : FlagSite) (value : Text) : (site.line value).splitWhitespace =
    site.before.splitWhitespace ++
      site.flag :: (value.splitWhitespace ++ site.after.splitWhitespace) := by
  have hgap : Text.StartsBlank (site.gap ++ (value ++ site.after)) := by
    intro c hc
    cases hg : site.gap with
    | nil => exact absurd hg site.gap_nonempty
    | cons d gap =>
      rw [hg, cons_append, head?_cons] at hc
      cases hc
      exact site.gap_blank c (hg ▸ mem_cons_self)
  have hends : Text.EndsBlank site.gap := fun c hc => site.gap_blank c (mem_of_getLast? hc)
  have hflag : site.flag ≠ [] := by
    obtain ⟨c, rest, hc, -⟩ := site.isFlag.head
    rw [hc]
    exact cons_ne_nil c rest
  unfold line
  rw [splitWhitespace_endsBlank site.before_endsBlank, splitWhitespace_startsBlank hgap,
    splitWhitespace_word hflag site.isFlag.not_whiteSpace,
    splitWhitespace_endsBlank hends, splitWhitespace_blank site.gap_blank,
    nil_append, splitWhitespace_startsBlank site.after_startsBlank]
  rfl

theorem preview_eq (site : FlagSite) (hreads : site.ReadsFlag) {value value' : Text}
    (h : value.splitWhitespace = [value]) (h' : value'.splitWhitespace = [value']) :
    redactShellLine (site.line value) = redactShellLine (site.line value') := by
  have hlayer : shellLayerA .read (site.line value).splitWhitespace =
      shellLayerA .read (site.line value').splitWhitespace := by
    rw [site.tokens, site.tokens, h, h']
    refine shellLayerA_stable ?_ hreads
    rw [singleton_append, singleton_append, shellLayerA_flag site.isFlag,
      shellLayerA_flag site.isFlag]
  unfold redactShellLine
  rw [hlayer]

end FlagSite

/-! ## Values with blanks -/

def ShellWord.Unbroken (w : ShellWord) : Prop := ∀ c ∈ w.text, whiteSpace c = false

instance (w : ShellWord) : Decidable w.Unbroken :=
  inferInstanceAs (Decidable (∀ c ∈ w.text, _))

theorem Quoting.render_ne_nil {q : Quoting} {t : Text} (h : q.admits t) : q.render t ≠ [] := by
  cases q with
  | bare =>
    intro hnil
    rw [show t = [] from hnil] at h
    cases h
  | single => exact cons_ne_nil _ _
  | double => exact cons_ne_nil _ _

theorem ShellWord.text_ne_nil (w : ShellWord) : w.text ≠ [] := by
  obtain ⟨p, ps, hp⟩ := exists_cons_of_ne_nil w.nonempty
  unfold text
  rw [hp, flatMap_cons]
  exact fun hnil => Quoting.render_ne_nil (w.admitted p (hp ▸ mem_cons_self))
    (append_eq_nil_iff.mp hnil).1

theorem ShellWord.Unbroken.tokens {w : ShellWord} (h : w.Unbroken) :
    w.text.splitWhitespace = [w.text] := splitWhitespace_word w.text_ne_nil h

theorem ShellWord.unbroken_of_bare {w : ShellWord} (h : ∀ q ∈ w.form, q = .bare) : w.Unbroken := by
  intro c hc
  obtain ⟨p, hp, hcp⟩ := mem_flatMap.mp hc
  have hbare : p.1 = .bare := h _ (List.mem_map_of_mem hp)
  have hok := w.admitted p hp
  rw [hbare] at hcp hok
  have hchar : bareChar c := by
    simp only [Quoting.admits, Bool.and_eq_true, List.all_eq_true] at hok
    exact hok.2 c hcp
  simp only [bareChar, Bool.and_eq_true, Bool.not_eq_true'] at hchar
  exact hchar.1

def letters (form : List Quoting) : List (Quoting × Text) := form.map fun q => (q, ['a'])

theorem letters_admitted (form : List Quoting) : ∀ p ∈ letters form, p.1.admits p.2 := by
  intro p hp
  obtain ⟨q, -, rfl⟩ := List.mem_map.mp hp
  cases q <;> decide

def lettersText (form : List Quoting) : Text := (letters form).flatMap fun p => p.1.render p.2

theorem mem_lettersText {form : List Quoting} {c : Char} (hc : c ∈ lettersText form) :
    c ∈ "a'\"".toList := by
  obtain ⟨p, hp, hcp⟩ := mem_flatMap.mp hc
  obtain ⟨q, -, rfl⟩ := List.mem_map.mp hp
  have hall : ∀ q : Quoting, ∀ c ∈ q.render ['a'], c ∈ "a'\"".toList := by
    intro q
    cases q <;> decide
  exact hall q c hcp

def brokenWord (before : List Quoting) (q : Quoting) (after : List Quoting) (hq : q ≠ .bare)
    (c : Char) (hc : c ∈ ['b', 'c']) : ShellWord where
  pieces := letters before ++ (q, ['a', ' ', c]) :: letters after
  nonempty := by simp
  admitted := by
    intro p hp
    rcases List.mem_append.mp hp with hp | hp
    · exact letters_admitted before p hp
    · rcases List.mem_cons.mp hp with rfl | hp
      · have hall : ∀ c ∈ ['b', 'c'], Quoting.admits .single ['a', ' ', c] = true ∧
            Quoting.admits .double ['a', ' ', c] = true := by decide
        cases q with
        | bare => exact absurd rfl hq
        | single => exact (hall c hc).1
        | double => exact (hall c hc).2
      · exact letters_admitted after p hp

theorem brokenWord_form (before : List Quoting) (q : Quoting) (after : List Quoting)
    (hq : q ≠ .bare) (c : Char) (hc : c ∈ ['b', 'c']) :
    (brokenWord before q after hq c hc).form = before ++ q :: after := by
  have hletters : ∀ form : List Quoting, (letters form).map Prod.fst = form := by
    intro form
    unfold letters
    rw [List.map_map]
    exact List.map_id form
  show (letters before ++ (q, ['a', ' ', c]) :: letters after).map Prod.fst = _
  rw [map_append, map_cons, hletters, hletters]

theorem brokenWord_tokens (before : List Quoting) (q : Quoting) (after : List Quoting)
    (hq : q ≠ .bare) (c : Char) (hc : c ∈ ['b', 'c']) : ∃ first rest,
      (brokenWord before q after hq c hc).text.splitWhitespace = [first, c :: rest] ∧
        ∀ d ∈ rest, d ∈ "a'\"".toList := by
  have hplain : ∀ d ∈ "a'\"".toList, whiteSpace d = false := by decide
  have hcplain : ∀ c ∈ ['b', 'c'], whiteSpace c = false := by decide
  obtain ⟨mark, hmark, hrender⟩ : ∃ mark ∈ "a'\"".toList,
      q.render ['a', ' ', c] = [mark, 'a'] ++ ' ' :: [c, mark] := by
    cases q with
    | bare => exact absurd rfl hq
    | single => exact ⟨'\'', by decide, rfl⟩
    | double => exact ⟨'"', by decide, rfl⟩
  have htext : (brokenWord before q after hq c hc).text =
      (lettersText before ++ [mark, 'a']) ++ ' ' :: (c :: mark :: lettersText after) := by
    show ((letters before ++ (q, ['a', ' ', c]) :: letters after).flatMap fun p =>
      p.1.render p.2) = _
    rw [flatMap_append, flatMap_cons, hrender]
    simp only [lettersText, append_assoc, cons_append, nil_append]
  refine ⟨lettersText before ++ [mark, 'a'], mark :: lettersText after, ?_, fun d hd => ?_⟩
  · rw [htext, splitWhitespace_cut (by decide), splitWhitespace_word (by simp),
      splitWhitespace_word (by simp)]
    · rfl
    · intro d hd
      rcases mem_cons.mp hd with rfl | hd
      · exact hcplain d hc
      · rcases mem_cons.mp hd with rfl | hd
        · exact hplain d hmark
        · exact hplain d (mem_lettersText hd)
    · intro d hd
      rcases mem_append.mp hd with hd | hd
      · exact hplain d (mem_lettersText hd)
      · rcases mem_cons.mp hd with rfl | hd
        · exact hplain d hmark
        · rw [mem_singleton.mp hd]
          decide
  · rcases mem_cons.mp hd with rfl | hd
    · exact hmark
    · exact mem_lettersText hd

theorem IsFlagWord.len_le (h : IsFlagWord flag) : flag.len ≤ 17 := by
  have hflags : ∀ f ∈ SECRET_VALUE_FLAGS, len f ≤ 17 := by decide +kernel
  rw [← len_toAsciiLowercase]
  exact hflags _ h

theorem IsFlagWord.maskTokenInline (h : IsFlagWord flag) :
    TerminalCommander.maskTokenInline flag = flag := by
  have hflags : ∀ f ∈ SECRET_VALUE_FLAGS, ':' ∉ f ∧ '=' ∉ f ∧ ' ' ∉ f ∧
      ("-p".toList.isPrefixOf f → len f = 2) := by
    decide +kernel
  obtain ⟨hcolon, hequals, hblank, hshort⟩ := hflags _ h
  have hnot : ∀ {d : Char}, d.toLower = d → d ∉ flag.toAsciiLowercase → d ∉ flag := by
    intro d hd hnot hmem
    exact hnot (List.mem_map.mpr ⟨d, hmem, hd⟩)
  refine maskTokenInline_plain (hnot (by decide) hcolon) (hnot (by decide) hequals)
    (hnot (by decide) hblank) ?_
  unfold attachedShort
  by_cases hp : "-p".toList.isPrefixOf flag.toAsciiLowercase
  · rw [← len_toAsciiLowercase, hshort hp, decide_eq_false (by decide), Bool.and_false]
  · rw [eq_false_of_ne_true hp, Bool.and_false, Bool.false_and]

theorem FlagSite.broken_preview (site : FlagSite) (hbef : site.before = [])
    (before : List Quoting) (q : Quoting) (after : List Quoting) (hq : q ≠ .bare) (c : Char)
    (hc : c ∈ ['b', 'c']) : site.flag ++ (' ' :: ARGV_HEAD_REDACTED ++ [' ', c]) <+:
      redactShellLine (site.line (brokenWord before q after hq c hc).text) := by
  obtain ⟨first, rest, htokens, hrest⟩ := brokenWord_tokens before q after hq c hc
  have hquote : ∀ c ∈ ['b', 'c'], isQuote c = false := by decide
  have hstrip : stripSurroundingQuotes (c :: rest) = c :: rest := by
    rw [stripSurroundingQuotes, hquote c hc]
    rfl
  have hmask : maskTokenInline (c :: rest) = c :: rest := by
    have hletter : ∀ c ∈ ['b', 'c'], c ≠ ':' ∧ c ≠ '=' ∧ c ≠ ' ' ∧ c ≠ '-' := by decide
    have hother : ∀ d ∈ [':', '=', ' '], d ∉ "a'\"".toList := by decide
    have hnot : ∀ d ∈ [':', '=', ' '], c ≠ d → d ∉ c :: rest := by
      intro d hd hne hmem
      rcases mem_cons.mp hmem with heq | hmem
      · exact hne heq.symm
      · exact hother d hd (hrest d hmem)
    obtain ⟨h1, h2, h3, h4⟩ := hletter c hc
    refine maskTokenInline_plain (hnot _ (by decide) h1) (hnot _ (by decide) h2)
      (hnot _ (by decide) h3) ?_
    have hdash : "-".toList.isPrefixOf (c :: rest) = false := by
      show ('-' == c && _) = false
      rw [beq_eq_false_iff_ne.mpr (Ne.symm h4), Bool.false_and]
    unfold attachedShort
    rw [hdash]
    rfl
  have hlayer : ∃ tail, shellLayerA .read
      (site.line (brokenWord before q after hq c hc).text).splitWhitespace =
        site.flag :: ARGV_HEAD_REDACTED :: (c :: rest) :: tail := by
    rw [site.tokens, hbef, splitWhitespace_nil, nil_append, htokens]
    simp only [cons_append, nil_append]
    rw [shellLayerA_flag site.isFlag, shellLayerA]
    exact ⟨_, by rw [show Carry.text .read (c :: rest) = _ from hstrip]⟩
  obtain ⟨tail, htail⟩ := hlayer
  have hflag : site.flag ≠ [] := by
    obtain ⟨d, r, hd, -⟩ := site.isFlag.head
    rw [hd]
    exact cons_ne_nil d r
  have hredacted : maskTokenInline ARGV_HEAD_REDACTED = ARGV_HEAD_REDACTED := by decide +kernel
  have htokens : ((shellLayerA .read
      (site.line (brokenWord before q after hq c hc).text).splitWhitespace).map
        maskTokenInline).filter (· ≠ []) =
      [site.flag, ARGV_HEAD_REDACTED] ++ (c :: rest) :: (tail.map maskTokenInline).filter (· ≠ []) := by
    rw [htail, map_cons, map_cons, map_cons, site.isFlag.maskTokenInline, hredacted,
      hmask, filter_cons_of_pos (by simpa using hflag),
      filter_cons_of_pos (by decide), filter_cons_of_pos (by simp)]
    rfl
  have hjoin : join [' '] [site.flag, ARGV_HEAD_REDACTED] =
      site.flag ++ (' ' :: ARGV_HEAD_REDACTED) := by
    unfold join
    rw [intercalate_cons_cons, intercalate_singleton, append_assoc]
    rfl
  obtain ⟨more, hmore⟩ := Text.prefix_join [' '] (c :: rest)
    ((tail.map maskTokenInline).filter (· ≠ []))
  have hlen : len (site.flag ++ (' ' :: ARGV_HEAD_REDACTED ++ [' ', c])) ≤
      SHELL_LINE_PREVIEW_BYTES := by
    have hshort : ∀ c ∈ ['b', 'c'], len (' ' :: ARGV_HEAD_REDACTED ++ [' ', c]) = 13 := by
      decide
    have := site.isFlag.len_le
    rw [len_append, hshort c hc]
    exact Nat.le_trans (Nat.add_le_add_right this 13) (by decide)
  unfold redactShellLine
  dsimp only
  rw [htokens, join_append (cons_ne_nil _ _) (cons_ne_nil _ _), hjoin, ← hmore]
  have hsplit : site.flag ++ (' ' :: ARGV_HEAD_REDACTED) ++ ([' '] ++ (c :: rest ++ more)) =
      site.flag ++ (' ' :: ARGV_HEAD_REDACTED ++ [' ', c]) ++ (rest ++ more) := by
    simp only [append_assoc, cons_append, nil_append]
  rw [hsplit]
  exact Text.prefix_truncate hlen _

/-- **The value of a secret flag in a shell line.** If the flag is read as a flag, the preview is
the same for all values that have no white space in their quotes. If the flag begins the line, it
is the same for all values of a form exactly if the form has no quotes. -/
theorem shell_secret_hidden (site : FlagSite) :
    (site.ReadsFlag → ∀ w w' : ShellWord, w.form = w'.form → w.Unbroken → w'.Unbroken →
      redactShellLine (site.line w.text) = redactShellLine (site.line w'.text)) ∧
    (site.before = [] → ∀ form : List Quoting,
      (∀ w w' : ShellWord, w.form = form → w'.form = form →
        redactShellLine (site.line w.text) = redactShellLine (site.line w'.text)) ↔
      ∀ q ∈ form, q = .bare) := by
  refine ⟨fun hreads w w' _ hw hw' => site.preview_eq hreads hw.tokens hw'.tokens,
    fun hbef form => ⟨fun hall q hq => ?_, fun hbare w w' hw hw' => ?_⟩⟩
  · by_contra hquoted
    obtain ⟨before, after, rfl⟩ := append_of_mem hq
    have hshown := site.broken_preview hbef before q after hquoted
    have heq := hall (brokenWord before q after hquoted 'b' (by decide))
      (brokenWord before q after hquoted 'c' (by decide))
      (brokenWord_form before q after hquoted 'b' (by decide))
      (brokenWord_form before q after hquoted 'c' (by decide))
    have hb := hshown 'b' (by decide)
    rw [heq] at hb
    have hsame := (prefix_of_prefix_length_le hb (hshown 'c' (by decide)) (by simp)).eq_of_length
      (by simp)
    simp at hsame
  · have hreads : site.ReadsFlag := by
      unfold FlagSite.ReadsFlag
      rw [hbef, splitWhitespace_nil]
      rfl
    have hunbroken : ∀ v : ShellWord, v.form = form → v.Unbroken := fun v hv =>
      ShellWord.unbroken_of_bare (hv ▸ hbare)
    exact site.preview_eq hreads (hunbroken w hw).tokens (hunbroken w' hw').tokens

def mysqlSite : FlagSite where
  before := "mysql ".toList
  flag := "--Password".toList
  gap := " ".toList
  after := " shop".toList
  before_endsBlank := by decide
  isFlag := by decide
  gap_nonempty := by decide
  gap_blank := by decide
  after_startsBlank := by decide

def bareSite : FlagSite where
  before := []
  flag := "--token".toList
  gap := " ".toList
  after := []
  before_endsBlank := by decide
  isFlag := by decide
  gap_nonempty := by decide
  gap_blank := by decide
  after_startsBlank := by decide

def quotedWord (text : String) (h : Quoting.admits .single text.toList = true) : ShellWord :=
  ⟨[(.single, text.toList)], List.cons_ne_nil _ _, by simpa using h⟩

theorem quoted_password_hidden :
    redactShellLine (mysqlSite.line (quotedWord "hunter2" (by decide)).text) =
        redactShellLine (mysqlSite.line (quotedWord "s3cret" (by decide)).text) ∧
      ∀ w w' : ShellWord, w.form = [.bare] → w'.form = [.bare] →
        redactShellLine (bareSite.line w.text) = redactShellLine (bareSite.line w'.text) :=
  ⟨(shell_secret_hidden mysqlSite).1 (by decide +kernel)
      (quotedWord "hunter2" (by decide)) (quotedWord "s3cret" (by decide)) rfl
      (by decide) (by decide),
    ((shell_secret_hidden bareSite).2 rfl [.bare]).mpr (by decide)⟩

/-- A quoted password with a blank is masked up to the blank. -/
theorem password_tail_shown :
    redactShellLine (mysqlSite.line (quotedWord "correct horse" (by decide)).text) =
        "mysql --Password <redacted> horse' shop".toList ∧
      redactShellLine (mysqlSite.line (quotedWord "correct donkey" (by decide)).text) =
        "mysql --Password <redacted> donkey' shop".toList ∧
      (quotedWord "correct horse" (by decide)).form =
        (quotedWord "correct donkey" (by decide)).form := by
  decide +kernel

end TerminalCommander
