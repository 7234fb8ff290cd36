import TerminalCommander.Core.Str

/-!
# The audit projection of a command line

`redact_argv` of `daemon/src/command.rs` and the masks it is made of. Layer A looks ahead from each
token to the next one: a secret flag masks it, `-u` masks a `user:pass`, `-h` masks the credential
of a header. Layer B masks inside each token. Layer A walks a copy that it is masking, so a flag
that stands behind a flag is masked before it is looked at.
-/

namespace TerminalCommander

open List Text

def ARGV_HEAD_ITEMS : Nat := 3

def ARGV_HEAD_ITEM_BYTES : Nat := 128

def ARGV_HEAD_REDACTED : Text := "<redacted>".toList

def SECRET_VALUE_FLAGS : List Text :=
  ["-p", "--password", "--passwd", "--pass", "--pwd", "--token", "--secret", "--key", "--api-key",
    "--apikey", "--api_key", "--access-key", "--accesskey", "--access_key", "--secret-key",
    "--secretkey", "--auth", "--authorization", "--bearer", "--credential",
    "--credentials"].map String.toList

/-! ## The masks -/

def headerSep (value : Text) : Text := if value.head? = some ' ' then [' '] else []

def maskHeaderCredential (token : Text) : Text :=
  let lower := token.toAsciiLowercase
  match Text.find "bearer ".toList lower with
  | some pos => token.take (pos + 7) ++ ARGV_HEAD_REDACTED
  | none =>
    match Text.find "authorization:".toList lower with
    | some pos =>
      token.take (pos + 14) ++ headerSep (token.drop (pos + 14)) ++ ARGV_HEAD_REDACTED
    | none =>
      match token.findChar (· == ':') with
      | some colon =>
        token.take (colon + 1) ++ headerSep (token.drop (colon + 1)) ++ ARGV_HEAD_REDACTED
      | none => token

def maskUrlUserinfo (token : Text) : Option Text := do
  let schemeEnd ← Text.find "://".toList token
  let afterScheme := schemeEnd + 3
  let authority := (token.drop afterScheme).takeWhile fun c => !"/?#".toList.contains c
  let atSign ← Text.rfindChar (· == '@') authority
  let colon ← Text.findChar (· == ':') (authority.take atSign)
  return token.take (afterScheme + colon + 1) ++ ARGV_HEAD_REDACTED ++
    token.drop (afterScheme + atSign)

def envKeyIsSecret (keyLower : Text) : Bool :=
  (["password", "passwd", "pwd", "pgpassword", "mysql_pwd", "token", "secret", "apikey", "api_key",
    "access_key", "secret_key", "auth", "authorization"].map String.toList).contains keyLower ||
  (["_token", "_secret", "_password", "_passwd", "_pwd", "_key", "_apikey", "_api_key",
    "_access_key", "_secret_key"].map String.toList).any (·.isSuffixOf keyLower)

def attachedShort (letter : Text) (token : Text) : Bool :=
  "-".toList.isPrefixOf token && !"--".toList.isPrefixOf token &&
    letter.isPrefixOf token.toAsciiLowercase && decide (2 < token.len)

def maskTokenInline (token : Text) : Text :=
  let lower := token.toAsciiLowercase
  match SECRET_VALUE_FLAGS.find? (fun flag => (flag ++ ['=']).isPrefixOf lower) with
  | some flag => token.take (flag.length + 1) ++ ARGV_HEAD_REDACTED
  | none =>
    if attachedShort "-p".toList token then token.take 2 ++ ARGV_HEAD_REDACTED
    else if attachedShort "-u".toList token && (token.drop 2).contains ':' then
      token.take 2 ++ ARGV_HEAD_REDACTED
    else
      match (["--user=", "--proxy-user="].map String.toList).find? (fun flag =>
        flag.isPrefixOf lower && (token.drop flag.length).contains ':') with
      | some flag => token.take flag.length ++ ARGV_HEAD_REDACTED
      | none =>
        if "--header=".toList.isPrefixOf lower then
          token.take 9 ++ maskHeaderCredential (token.drop 9)
        else
          match maskUrlUserinfo token with
          | some masked => masked
          | none =>
            if "bearer ".toList <:+: lower ∨ "authorization:".toList <:+: lower then
              maskHeaderCredential token
            else
              match token.findChar (· == '=') with
              | some eq =>
                if envKeyIsSecret (Text.toAsciiLowercase (token.take eq)) then
                  token.take (eq + 1) ++ ARGV_HEAD_REDACTED
                else token
              | none => token

/-! ## The argv -/

def flagKey (token : Text) : Text := token.trim.toAsciiLowercase

def isSecretFlag (token : Text) : Bool := SECRET_VALUE_FLAGS.contains (flagKey token)

def isUserFlag (token : Text) : Bool :=
  (["-u", "--user", "--proxy-user"].map String.toList).contains (flagKey token)

def isHeaderFlag (token : Text) : Bool :=
  (["-h", "--header"].map String.toList).contains (flagKey token)

def maskNext (token value : Text) : Text :=
  if isSecretFlag token then ARGV_HEAD_REDACTED
  else if isUserFlag token && value.contains ':' then ARGV_HEAD_REDACTED
  else if isHeaderFlag token then maskHeaderCredential value
  else value

def lookAhead (token : Text) : List Text → List Text
  | [] => [token]
  | value :: rest => token :: lookAhead (maskNext token value) rest

def layerA : List Text → List Text
  | [] => []
  | token :: rest => lookAhead token rest

def redactArgv (argv : List Text) (maxItems : Option Nat) : List Text :=
  let head := maxItems.elim argv argv.take
  ((layerA head).map maskTokenInline).map (Text.truncate ARGV_HEAD_ITEM_BYTES)

def redactArgvHead (argv : List Text) : List Text := redactArgv argv (some ARGV_HEAD_ITEMS)

/-! ## Masked tokens are no flags -/

def EndsMasked (token : Text) : Prop := ARGV_HEAD_REDACTED <:+ token

theorem maskHeaderCredential_cases (token : Text) :
    maskHeaderCredential token = token ∨ EndsMasked (maskHeaderCredential token) := by
  unfold maskHeaderCredential
  simp only
  split
  · exact .inr (suffix_append _ _)
  · split
    · exact .inr (suffix_append _ _)
    · split
      · exact .inr (suffix_append _ _)
      · exact .inl rfl

theorem maskNext_cases (token value : Text) :
    maskNext token value = value ∨ EndsMasked (maskNext token value) := by
  unfold maskNext
  split_ifs
  · exact .inr suffix_rfl
  · exact .inr suffix_rfl
  · exact maskHeaderCredential_cases value
  · exact .inl rfl

variable {token : Text}

theorem EndsMasked.flagKey (h : EndsMasked token) : ARGV_HEAD_REDACTED <:+ flagKey token := by
  obtain ⟨before, rfl⟩ := h
  have hstart : ∃ b, trimStart (before ++ ARGV_HEAD_REDACTED) = b ++ ARGV_HEAD_REDACTED := by
    unfold trimStart
    rw [dropWhile_append]
    split_ifs
    · exact ⟨[], by decide⟩
    · exact ⟨_, rfl⟩
  obtain ⟨b, hb⟩ := hstart
  unfold TerminalCommander.flagKey trim
  rw [hb]
  have hend : trimEnd (b ++ ARGV_HEAD_REDACTED) = b ++ ARGV_HEAD_REDACTED := by
    unfold trimEnd
    rw [show b ++ ARGV_HEAD_REDACTED = (b ++ "<redacted".toList) ++ ['>'] by
      rw [append_assoc]; rfl, rdropWhile_concat_neg _ _ _ (by decide)]
  rw [hend]
  unfold toAsciiLowercase
  rw [map_append]
  exact ⟨b.map Char.toLower, by rw [append_cancel_left_eq]; decide⟩

theorem EndsMasked.maskNext (h : EndsMasked token) (value : Text) :
    maskNext token value = value := by
  have hkey := h.flagKey
  have hnot : ∀ flags : List Text, (∀ flag ∈ flags, ¬ ARGV_HEAD_REDACTED <:+ flag) →
      flags.contains (TerminalCommander.flagKey token) = false := by
    intro flags hflags
    rw [contains_eq_mem, decide_eq_false_iff_not]
    exact fun hmem => hflags _ hmem hkey
  unfold TerminalCommander.maskNext isSecretFlag isUserFlag isHeaderFlag
  rw [hnot _ (by decide), hnot _ (by decide), hnot _ (by decide)]
  rfl

theorem maskTokenInline_plain (hcolon : ':' ∉ token) (hequals : '=' ∉ token)
    (hblank : ' ' ∉ token) (hshort : attachedShort "-p".toList token = false) :
    maskTokenInline token = token := by
  have hlower : ∀ {d : Char}, d.isLower = false → d ∉ token → ∀ p : Text, d ∈ p →
      ¬ p <:+: token.toAsciiLowercase := by
    intro d hd hnot p hp hin
    exact hnot (mem_of_mem_toAsciiLowercase hd (hin.subset hp))
  have hnpre : ∀ p : Text, '=' ∈ p → p.isPrefixOf token.toAsciiLowercase = false := by
    intro p hp
    rw [← Bool.not_eq_true, List.isPrefixOf_iff_prefix]
    exact fun h => hlower (by decide) hequals p hp h.isInfix
  have hflags : SECRET_VALUE_FLAGS.find? (fun flag =>
      (flag ++ ['=']).isPrefixOf token.toAsciiLowercase) = none := by
    rw [find?_eq_none]
    intro flag _
    rw [hnpre _ (by simp)]
    exact Bool.false_ne_true
  have husers : (["--user=", "--proxy-user="].map String.toList).find? (fun flag =>
      flag.isPrefixOf token.toAsciiLowercase && (token.drop flag.length).contains ':') = none := by
    rw [find?_eq_none]
    intro flag hflag
    have hmem : ∀ f ∈ ["--user=", "--proxy-user="].map String.toList, '=' ∈ f := by decide
    rw [hnpre _ (hmem _ hflag)]
    exact Bool.false_ne_true
  have hdrop : (token.drop 2).contains ':' = false := by
    rw [contains_eq_mem, decide_eq_false_iff_not]
    exact fun h => hcolon (mem_of_mem_drop h)
  have hurl : maskUrlUserinfo token = none := by
    have hfind : find "://".toList token = none := by
      rw [Option.eq_none_iff_forall_ne_some]
      intro i hi
      exact hcolon ((isInfix_of_find hi).subset (by decide))
    rw [maskUrlUserinfo, hfind]
    rfl
  have hfindEq : token.findChar (· == '=') = none := by
    unfold findChar
    rw [findIdx?_eq_none_iff]
    intro c hc
    rw [beq_eq_false_iff_ne]
    rintro rfl
    exact hequals hc
  unfold maskTokenInline
  dsimp only
  rw [hflags, hshort, hdrop, Bool.and_false, husers, hurl, hfindEq]
  simp only [Bool.false_eq_true, if_false, hnpre "--header=".toList (by decide)]
  rw [if_neg]
  rintro (h | h)
  · exact hlower (by decide) hblank _ (by decide) h
  · exact hlower (by decide) hcolon _ (by decide) h

/-! ## A flag behind a flag -/

def arriving : List Text → Text → Text
  | [], token => token
  | first :: before, token => maskNext (before.foldl maskNext first) token

theorem lookAhead_append (rest : List Text) (value : Text) (after : List Text) :
    ∀ token, lookAhead token (rest ++ value :: after) =
      lookAhead token rest ++ lookAhead (maskNext (rest.foldl maskNext token) value) after := by
  induction rest with
  | nil => exact fun token => rfl
  | cons next rest ih =>
    intro token
    rw [cons_append, lookAhead, lookAhead, ih, cons_append]
    rfl

theorem layerA_append (before : List Text) (token : Text) (after : List Text) :
    layerA (before ++ token :: after) = layerA before ++ lookAhead (arriving before token) after := by
  cases before with
  | nil => rfl
  | cons first before => exact lookAhead_append before token after first

theorem arriving_concat (before : List Text) (last token : Text) :
    arriving (before ++ [last]) token = maskNext (arriving before last) token := by
  cases before with
  | nil => rfl
  | cons first before =>
    show maskNext ((before ++ [last]).foldl maskNext first) token = _
    rw [foldl_append]
    rfl

def standsAsValue : List Text → Text → Bool
  | [], _ => false
  | previous :: before, token =>
    !standsAsValue before previous && decide (maskNext previous token ≠ token)

theorem arriving_cases (before : List Text) : ∀ token,
    (standsAsValue before.reverse token = false → arriving before token = token) ∧
    (standsAsValue before.reverse token → EndsMasked (arriving before token)) := by
  induction before using reverseRecOn with
  | nil => exact fun token => ⟨fun _ => rfl, nofun⟩
  | append_singleton before previous ih =>
    intro token
    rw [reverse_append, reverse_singleton, singleton_append, standsAsValue, arriving_concat]
    cases hprevious : standsAsValue before.reverse previous with
    | true =>
      -- the token before is masked: it is no flag any more
      rw [((ih previous).2 hprevious).maskNext]
      exact ⟨fun _ => rfl, nofun⟩
    | false =>
      rw [(ih previous).1 hprevious, Bool.not_false, Bool.true_and]
      refine ⟨fun h => ?_, fun h => ?_⟩
      · exact not_not.mp (of_decide_eq_false h)
      · exact (maskNext_cases previous token).resolve_left (of_decide_eq_true h)

theorem lookAhead_eq_cons (token : Text) (after : List Text) :
    ∃ rest, lookAhead token after = token :: rest := by
  cases after with
  | nil => exact ⟨[], rfl⟩
  | cons value after => exact ⟨_, rfl⟩

/-- **The value of a secret flag.** The audit projection does not depend on it exactly if the flag
does not itself stand where it is masked as a value. -/
theorem secret_value_hidden_iff (before after : List Text) (flag value : Text)
    (hflag : isSecretFlag flag = true) :
    (∀ value', redactArgv (before ++ flag :: value' :: after) none =
        redactArgv (before ++ flag :: value :: after) none) ↔
      standsAsValue before.reverse flag = false := by
  have hlayer : ∀ value', layerA (before ++ flag :: value' :: after) = layerA before ++
      arriving before flag :: lookAhead (maskNext (arriving before flag) value') after :=
    fun value' => layerA_append before flag (value' :: after)
  constructor
  · intro hall
    by_contra hstands
    have hmasked := (arriving_cases before flag).2 (eq_true_of_ne_false hstands)
    -- the flag is gone, so two values that no rule masks are shown as they are
    have hshown := (hall "a".toList).trans (hall "b".toList).symm
    simp only [redactArgv, Option.elim_none, hlayer, hmasked.maskNext, map_append,
      map_cons, append_cancel_left_eq, List.cons.injEq, true_and] at hshown
    obtain ⟨ra, hra⟩ := lookAhead_eq_cons "a".toList after
    obtain ⟨rb, hrb⟩ := lookAhead_eq_cons "b".toList after
    rw [hra, hrb, map_cons, map_cons, map_cons, map_cons] at hshown
    exact absurd (List.cons.inj hshown).1 (by decide +kernel)
  · intro hkeeps value'
    have harrives := (arriving_cases before flag).1 hkeeps
    have hmask : ∀ v, maskNext flag v = ARGV_HEAD_REDACTED := fun v => by
      unfold maskNext
      rw [if_pos hflag]
    simp only [redactArgv, Option.elim_none, hlayer, harrives, hmask]

/-- Behind a program name and an ordinary option, a password is not shown. -/
theorem password_hidden :
    redactArgv ["mysql".toList, "--verbose".toList, "--password".toList, "a=b".toList] none =
      redactArgv ["mysql".toList, "--verbose".toList, "--password".toList, "hunter2".toList]
        none :=
  (secret_value_hidden_iff ["mysql".toList, "--verbose".toList] [] "--password".toList
    "hunter2".toList (by decide)).mpr (by decide +kernel) "a=b".toList

/-- Behind `-p`, the flag `--token` is masked as its value, and the token is shown. -/
theorem token_behind_flag_shown :
    isSecretFlag "--token".toList = true ∧
      redactArgv ["mysql".toList, "-p".toList, "--token".toList, "s3cret".toList] none =
        ["mysql".toList, "-p".toList, "<redacted>".toList, "s3cret".toList] ∧
      redactArgv ["mysql".toList, "-p".toList, "--token".toList, "other".toList] none =
        ["mysql".toList, "-p".toList, "<redacted>".toList, "other".toList] := by
  decide +kernel

end TerminalCommander
