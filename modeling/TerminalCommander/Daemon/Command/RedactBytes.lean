import TerminalCommander.Core.StrBytes
import TerminalCommander.Daemon.Command.RedactShell

/-!
# The audit projections, slice by slice

The projections of `daemon/src/command.rs` with every slice, index and subtraction of the source,
each of which stops the program where it does not apply. The loops run over positions. Each function
returns, and those of an argv return what their counterparts in `Redact` say, apart from
`subject_for_argv`: it cuts the program name at byte 256, wherever that falls.
-/

namespace TerminalCommander

open List Option Text Nat

namespace Audit

def subjectForArgv (argv : List Text) : Checked Text :=
  let head := argv.head?.getD []
  if 256 < head.len then head.sliceTo 256 else return head

/-! ## The masks -/

def maskHeaderCredential (token : Text) : Checked Text :=
  let lower := token.toAsciiLowercase
  match Text.findBytes "bearer ".toList lower with
  | some pos => do
    let front ← token.sliceTo (pos + Text.len "bearer ".toList)
    return front ++ ARGV_HEAD_REDACTED
  | none =>
    match Text.findBytes "authorization:".toList lower with
    | some pos => do
      let keepEnd := pos + Text.len "authorization:".toList
      let front ← token.sliceTo keepEnd
      let rest ← token.sliceFrom keepEnd
      return front ++ headerSep rest ++ ARGV_HEAD_REDACTED
    | none =>
      match token.findCharBytes (· == ':') with
      | some colon => do
        let keepEnd := colon + 1
        let front ← token.sliceTo keepEnd
        let rest ← token.sliceFrom keepEnd
        return front ++ headerSep rest ++ ARGV_HEAD_REDACTED
      | none => return token

def maskUrlUserinfo (token : Text) : Checked (Option Text) :=
  match Text.findBytes "://".toList token with
  | none => return none
  | some schemeEnd => do
    let afterScheme := schemeEnd + 3
    let rest ← token.sliceFrom afterScheme
    let authorityEnd := (rest.findCharBytes fun c => "/?#".toList.contains c).getD rest.len
    let authority ← rest.sliceTo authorityEnd
    match authority.rfindCharBytes (· == '@') with
    | none => return none
    | some atSign => do
      let userinfo ← authority.sliceTo atSign
      match userinfo.findCharBytes (· == ':') with
      | none => return none
      | some colon => do
        let front ← token.sliceTo (afterScheme + colon + 1)
        let back ← token.sliceFrom (afterScheme + atSign)
        return some (front ++ ARGV_HEAD_REDACTED ++ back)

def keepFront (token : Text) (n : Nat) : Checked Text := do
  let front ← token.sliceTo n
  return front ++ ARGV_HEAD_REDACTED

def maskUser (token lower : Text) : List Text → Checked (Option Text)
  | [] => return none
  | flag :: flags =>
    if flag.isPrefixOf lower then do
      let value ← token.sliceFrom flag.len
      if value.contains ':' then return some (← keepFront token flag.len)
      else maskUser token lower flags
    else maskUser token lower flags

def attachedUser (token : Text) : Checked Bool :=
  if attachedShort "-u".toList token then do
    let value ← token.sliceFrom 2
    return value.contains ':'
  else return false

def maskTokenInline (token : Text) : Checked Text :=
  let lower := token.toAsciiLowercase
  match SECRET_VALUE_FLAGS.find? fun flag =>
      (lower.stripPrefix flag).any fun after => "=".toList.isPrefixOf after with
  | some flag => keepFront token (flag.len + 1)
  | none =>
    if attachedShort "-p".toList token then keepFront token 2
    else do
      if ← attachedUser token then keepFront token 2
      else
        match ← maskUser token lower (["--user=", "--proxy-user="].map String.toList) with
        | some masked => return masked
        | none =>
          if "--header=".toList.isPrefixOf lower then do
            let front ← token.sliceTo (Text.len "--header=".toList)
            let value ← token.sliceFrom (Text.len "--header=".toList)
            return front ++ (← maskHeaderCredential value)
          else
            match ← maskUrlUserinfo token with
            | some masked => return masked
            | none =>
              if "bearer ".toList <:+: lower ∨ "authorization:".toList <:+: lower then
                maskHeaderCredential token
              else
                match token.findCharBytes (· == '=') with
                | some eq => do
                  let key ← token.sliceTo eq
                  if envKeyIsSecret key.toAsciiLowercase then keepFront token (eq + 1)
                  else return token
                | none => return token

/-! ## The argv -/

def maskAhead (len : Nat) (head : List Text) (i : Nat) : Checked (List Text) := do
  let token ← Checked.index head i
  if i + 1 < len ∧ isSecretFlag token = true then Checked.update head (i + 1) ARGV_HEAD_REDACTED
  else if isUserFlag token = true ∧ i + 1 < len then do
    let value ← Checked.index head (i + 1)
    if value.contains ':' then Checked.update head (i + 1) ARGV_HEAD_REDACTED else return head
  else if isHeaderFlag token = true ∧ i + 1 < len then do
    let value ← Checked.index head (i + 1)
    Checked.update head (i + 1) (← maskHeaderCredential value)
  else return head

def layerALoop (len : Nat) : Nat → Nat → List Text → Checked (List Text)
  | 0, _, head => return head
  | n + 1, i, head => do
    let head ← maskAhead len head i
    layerALoop len n (i + 1) head

def truncateItem (token : Text) : Checked Text :=
  if ARGV_HEAD_ITEM_BYTES < token.len then
    token.sliceTo (token.floorBoundary ARGV_HEAD_ITEM_BYTES)
  else return token

def redactArgv (argv : List Text) (maxItems : Option Nat) : Checked (List Text) := do
  let head := maxItems.elim argv argv.take
  let head ← layerALoop head.length head.length 0 head
  let head ← head.mapM maskTokenInline
  head.mapM truncateItem

def redactArgvHead (argv : List Text) : Checked (List Text) :=
  redactArgv argv (some ARGV_HEAD_ITEMS)

/-! ## The shell line -/

def stripSurroundingQuotes (token : Text) : Checked Text :=
  if 2 ≤ token.len then
    match token.head?, token.getLast? with
    | some first, some last =>
      if isQuote first && first == last then do
        let stop ← Checked.sub token.len 1
        token.slice 1 stop
      else return token
    | _, _ => return token
  else return token

def closeFrom (raw : List Text) (quote : Char) : Nat → Nat → Checked Nat
  | 0, stop => if stop < raw.length then .error .fuel else return stop
  | fuel + 1, stop =>
    if stop < raw.length then do
      let token ← Checked.index raw stop
      if token.getLast? == some quote then return stop else closeFrom raw quote fuel (stop + 1)
    else return stop

def headerValueSpanEnd (line : Text) (count start : Nat) : Checked Nat :=
  let raw := line.splitWhitespace
  let lastIdx := count - 1
  match raw[start]? with
  | none => return min start lastIdx
  | some first =>
    match first.head? with
    | none => return min start lastIdx
    | some quote =>
      if !isQuote quote || (decide (2 ≤ first.len) && first.getLast? == some quote) then
        return min start lastIdx
      else do
        let stop ← closeFrom raw quote raw.length (start + 1)
        return min stop lastIdx

def clearBetween (tokens : List Text) (a b : Nat) : List Text :=
  tokens.mapIdx fun k token => if a ≤ k ∧ k < b then [] else token

def shellLoop (line : Text) (len : Nat) : Nat → Nat → List Text → Checked (List Text)
  | 0, i, tokens => if i < len then .error .fuel else return tokens
  | fuel + 1, i, tokens =>
    if i < len then do
      let token ← Checked.index tokens i
      if i + 1 < len ∧ isSecretFlag token = true then do
        let tokens ← Checked.update tokens (i + 1) ARGV_HEAD_REDACTED
        shellLoop line len fuel (i + 1) tokens
      else if isUserFlag token = true ∧ i + 1 < len then do
        let value ← Checked.index tokens (i + 1)
        if value.contains ':' then do
          let tokens ← Checked.update tokens (i + 1) ARGV_HEAD_REDACTED
          shellLoop line len fuel (i + 1) tokens
        else shellLoop line len fuel (i + 1) tokens
      else if isHeaderFlag token = true ∧ i + 1 < len then do
        let spanEnd ← headerValueSpanEnd line tokens.length (i + 1)
        let span ← Checked.slice tokens (i + 1) (spanEnd + 1)
        let masked ← maskHeaderCredential (Text.join [' '] span)
        let tokens ← Checked.update tokens (i + 1) masked
        shellLoop line len fuel (spanEnd + 1) (clearBetween tokens (i + 2) (spanEnd + 1))
      else shellLoop line len fuel (i + 1) tokens
    else return tokens

def redactShellLine (line : Text) : Checked Text := do
  let tokens ← line.splitWhitespace.mapM stripSurroundingQuotes
  let tokens ← shellLoop line tokens.length tokens.length 0 tokens
  let tokens ← tokens.mapM maskTokenInline
  let joined := Text.join [' '] (tokens.filter (· ≠ []))
  joined.sliceTo (joined.floorBoundary (min joined.len SHELL_LINE_PREVIEW_BYTES))

/-! ## The metadata -/

variable (json : List Text → Text)

def formatArgvMetadata (argv : List Text) : Checked Text := do
  let v ← redactArgv argv none
  return json v

def rposition (argv : List Text) (line : Text) : Option Nat :=
  (argv.reverse.findIdx? (· == line)).map (argv.length - 1 - ·)

def formatShellArgvMetadata (argv : List Text) (shellLine : Text) : Checked Text :=
  match rposition argv shellLine with
  | some index => do
    let redacted ← Checked.update argv index (← redactShellLine shellLine)
    formatArgvMetadata json redacted
  | none => formatArgvMetadata json argv

/-! ## The masks return -/

theorem utf8Size_of_beq {d : Char} (hd : d.utf8Size = 1) (c : Char) (h : (c == d)) :
    c.utf8Size = 1 := beq_iff_eq.mp h ▸ hd

theorem maskHeaderCredential_eq (token : Text) :
    maskHeaderCredential token = .ok (TerminalCommander.maskHeaderCredential token) := by
  unfold maskHeaderCredential TerminalCommander.maskHeaderCredential findBytes
    findCharBytes
  dsimp only
  cases hbearer : find "bearer ".toList token.toAsciiLowercase with
  | some pos =>
    simp only [map_some, bytePos_find_lower hbearer, sliceTo_bytePos]
    rfl
  | none =>
    cases hauth : find "authorization:".toList token.toAsciiLowercase with
    | some pos =>
      simp only [map_none, map_some, bytePos_find_lower hauth, sliceTo_bytePos, sliceFrom_bytePos]
      rfl
    | none =>
      cases hcolon : token.findChar (· == ':') with
      | some colon =>
        simp only [map_none, map_some, bytePos_findChar (utf8Size_of_beq rfl) hcolon,
          sliceTo_bytePos, sliceFrom_bytePos]
        rfl
      | none => rfl

theorem keepFront_bytePos (token : Text) (i : Nat) :
    keepFront token (token.bytePos i) = .ok (token.take i ++ ARGV_HEAD_REDACTED) := by
  unfold keepFront
  rw [sliceTo_bytePos]
  rfl

theorem sliceTo_findCharBytes (p : Char → Bool) (t : Text) :
    t.sliceTo ((t.findCharBytes p).getD t.len) = .ok (t.takeWhile fun c => !p c) := by
  unfold findCharBytes findChar
  cases h : t.findIdx? p with
  | none =>
    have hall : t.takeWhile (fun c => !p c) = t := by
      rw [takeWhile_eq_self_iff]
      intro c hc
      rw [findIdx?_eq_none_iff.mp h c hc]
      rfl
    have hwhole := sliceTo_append t []
    rw [append_nil] at hwhole
    rw [hall]
    exact hwhole
  | some i =>
    rw [map_some, getD_some, sliceTo_bytePos]
    obtain ⟨hlt, hp, hbef⟩ := findIdx?_eq_some_iff_getElem.mp h
    rw [takeWhile_eq_take_findIdx_not]
    congr 2
    rw [findIdx?_eq_some_iff_findIdx_eq] at h
    simp only [Bool.not_not]
    exact h.2.symm

theorem maskUrlUserinfo_eq (token : Text) :
    maskUrlUserinfo token = .ok (TerminalCommander.maskUrlUserinfo token) := by
  unfold maskUrlUserinfo TerminalCommander.maskUrlUserinfo findBytes
  cases hscheme : find "://".toList token with
  | none => rfl
  | some pos =>
    have hafter : token.bytePos pos + 3 = token.bytePos (pos + 3) := bytePos_find hscheme
    simp only [map_some, hafter, sliceFrom_bytePos, sliceTo_findCharBytes, bind,
      Except.bind, bind_some]
    -- positions in the authority are positions in the token, behind the scheme
    have hprefix : (token.drop (pos + 3)).takeWhile (fun c => !"/?#".toList.contains c) <+:
        token.drop (pos + 3) := List.takeWhile_prefix _
    generalize (token.drop (pos + 3)).takeWhile (fun c => !"/?#".toList.contains c) = authority
      at hprefix ⊢
    unfold rfindCharBytes
    cases hat : rfindChar (· == '@') authority with
    | none => rfl
    | some atSign =>
      have hle : atSign ≤ authority.length := by
        obtain ⟨k, -, rfl⟩ := map_eq_some_iff.mp hat
        exact le_trans (sub_le _ _) (sub_le _ _)
      simp only [map_some, sliceTo_bytePos, bind_some]
      unfold findCharBytes
      cases hcolon : findChar (· == ':') (authority.take atSign) with
      | none => rfl
      | some colon =>
        obtain ⟨hlt, -⟩ := findIdx?_eq_some_iff_getElem.mp hcolon
        have huser : authority.take atSign <+: token.drop (pos + 3) :=
          (List.take_prefix _ _).trans hprefix
        have hfront : token.bytePos (pos + 3) + bytePos (authority.take atSign) colon + 1 =
            token.bytePos (pos + 3 + colon + 1) := by
          rw [add_assoc, bytePos_findChar (utf8Size_of_beq rfl) hcolon,
            add_assoc (pos + 3), bytePos_add token (pos + 3), Text.bytePos_prefix huser hlt]
        have hback : token.bytePos (pos + 3) + bytePos authority atSign =
            token.bytePos (pos + 3 + atSign) := by
          rw [bytePos_add token (pos + 3), Text.bytePos_prefix hprefix hle]
        simp only [map_some, hfront, hback, sliceTo_bytePos, sliceFrom_bytePos, bind_some]
        rfl

variable {token : Text}

theorem bytePos_of_prefix_lower {p : Text} (h : p <+: token.toAsciiLowercase) :
    token.bytePos p.length = p.len := by
  rw [← bytePos_toAsciiLowercase, Text.bytePos_of_prefix h]

theorem maskUser_eq (token : Text) (flags : List Text) :
    maskUser token token.toAsciiLowercase flags = .ok ((flags.find? fun flag =>
      flag.isPrefixOf token.toAsciiLowercase && (token.drop flag.length).contains ':').map
        fun flag => token.take flag.length ++ ARGV_HEAD_REDACTED) := by
  induction flags with
  | nil => rfl
  | cons flag flags ih =>
    rw [maskUser, find?_cons]
    by_cases hflag : flag.isPrefixOf token.toAsciiLowercase
    · have hlen := bytePos_of_prefix_lower (List.isPrefixOf_iff_prefix.mp hflag)
      rw [if_pos hflag, hflag, Bool.true_and, ← hlen, sliceFrom_bytePos, keepFront_bytePos]
      cases hcolon : (token.drop flag.length).contains ':' <;> simp only [bind, Except.bind, hcolon]
      · exact ih
      · rfl
    · rw [if_neg hflag, eq_false_of_ne_true hflag, Bool.false_and]
      exact ih

theorem bytePos_attachedShort {letter : Text} (hletter : letter.length = 2)
    (hlen : letter.len = 2) (h : attachedShort letter token) : token.bytePos 2 = 2 := by
  unfold attachedShort at h
  simp only [Bool.and_eq_true] at h
  have hbytes := bytePos_of_prefix_lower (List.isPrefixOf_iff_prefix.mp h.1.2)
  rwa [hletter, hlen] at hbytes

theorem attachedUser_eq (token : Text) : attachedUser token =
    .ok (attachedShort "-u".toList token && (token.drop 2).contains ':') := by
  unfold attachedUser
  split_ifs with h
  · have hslice := sliceFrom_bytePos token 2
    rw [bytePos_attachedShort rfl (by decide) h] at hslice
    rw [hslice, h]
    rfl
  · rw [eq_false_of_ne_true h]
    rfl

theorem stripPrefix_any (flag lower : Text) :
    ((lower.stripPrefix flag).any fun after => "=".toList.isPrefixOf after) =
      (flag ++ ['=']).isPrefixOf lower := by
  rw [Bool.eq_iff_iff, List.isPrefixOf_iff_prefix]
  unfold stripPrefix
  split_ifs with h
  · obtain ⟨rest, rfl⟩ := h
    rw [any_some, drop_left, List.isPrefixOf_iff_prefix, prefix_append_right_inj]
    exact Iff.rfl
  · refine ⟨fun hnone => ?_, fun hpre => absurd ((prefix_append _ _).trans hpre) h⟩
    cases hnone

theorem maskTokenInline_eq (token : Text) :
    maskTokenInline token = .ok (TerminalCommander.maskTokenInline token) := by
  unfold maskTokenInline TerminalCommander.maskTokenInline
  dsimp only
  simp only [stripPrefix_any]
  cases hflag : SECRET_VALUE_FLAGS.find? fun flag =>
      (flag ++ ['=']).isPrefixOf token.toAsciiLowercase with
  | some flag =>
    have hfound := find?_some hflag
    have hpre := bytePos_of_prefix_lower (List.isPrefixOf_iff_prefix.mp hfound)
    rw [length_append, len_append] at hpre
    show keepFront token (len flag + len ['=']) = _
    rw [← hpre, keepFront_bytePos]
    rfl
  | none =>
    dsimp only
    by_cases hp : attachedShort "-p".toList token
    · rw [if_pos hp, if_pos hp]
      have hkeep := keepFront_bytePos token 2
      rwa [bytePos_attachedShort rfl (by decide) hp] at hkeep
    rw [if_neg hp, if_neg hp, attachedUser_eq]
    show (if (attachedShort "-u".toList token && (token.drop 2).contains ':') then _
      else _) = _
    by_cases hu : (attachedShort "-u".toList token && (token.drop 2).contains ':')
    · rw [if_pos hu, if_pos hu]
      have hkeep := keepFront_bytePos token 2
      rwa [bytePos_attachedShort rfl (by decide) (Bool.and_eq_true _ _ ▸ hu).1] at hkeep
    rw [if_neg hu, if_neg hu, maskUser_eq]
    cases (["--user=", "--proxy-user="].map String.toList).find? fun flag =>
        flag.isPrefixOf token.toAsciiLowercase && (token.drop flag.length).contains ':' with
    | some flag => rfl
    | none =>
      show (if "--header=".toList.isPrefixOf token.toAsciiLowercase then _ else _) = _
      by_cases hh : "--header=".toList.isPrefixOf token.toAsciiLowercase
      · rw [if_pos hh]
        dsimp only
        rw [if_pos hh, ← bytePos_of_prefix_lower (List.isPrefixOf_iff_prefix.mp hh),
          sliceTo_bytePos, sliceFrom_bytePos]
        simp only [bind, Except.bind, maskHeaderCredential_eq]
        rfl
      rw [if_neg hh]
      dsimp only
      rw [if_neg hh, maskUrlUserinfo_eq]
      cases TerminalCommander.maskUrlUserinfo token with
      | some masked => rfl
      | none =>
        simp only [bind, Except.bind]
        by_cases hc : "bearer ".toList <:+: token.toAsciiLowercase ∨
            "authorization:".toList <:+: token.toAsciiLowercase
        · rw [if_pos hc, if_pos hc, maskHeaderCredential_eq]
        rw [if_neg hc, if_neg hc]
        unfold findCharBytes
        cases heq : token.findChar (· == '=') with
        | none => rfl
        | some eq =>
          simp only [map_some, sliceTo_bytePos,
            bytePos_findChar (utf8Size_of_beq rfl) heq, keepFront_bytePos]
          split_ifs <;> rfl

/-! ## The argv returns -/

theorem maskAhead_last (front : List Text) (token : Text) :
    maskAhead (front.length + 1) (front ++ [token]) front.length = .ok (front ++ [token]) := by
  unfold maskAhead
  rw [Checked.index_append]
  simp only [bind, Except.bind, lt_irrefl, false_and, and_false, if_false]
  rfl

theorem not_header_of_user (h : isUserFlag token) : ¬ isHeaderFlag token := by
  unfold isUserFlag at h
  unfold isHeaderFlag
  have hapart : ∀ key ∈ ["-u", "--user", "--proxy-user"].map String.toList,
      ¬ (["-h", "--header"].map String.toList).contains key := by decide +kernel
  exact hapart _ (contains_iff_mem.mp h)

theorem maskAhead_next (front : List Text) (token value : Text) (rest : List Text) (len : Nat)
    (hlen : front.length + 1 < len) : maskAhead len (front ++ token :: value :: rest) front.length =
      .ok (front ++ token :: maskNext token value :: rest) := by
  have hsplit : ∀ v : Text, front ++ token :: v :: rest = (front ++ [token]) ++ v :: rest := by
    intro v
    rw [append_assoc, singleton_append]
  have hpos : front.length + 1 = (front ++ [token]).length := by
    rw [length_append, length_singleton]
  unfold maskAhead maskNext
  rw [Checked.index_append]
  simp only [bind, Except.bind, hlen, true_and, and_true]
  rw [hsplit, hpos, Checked.update_append, Checked.index_append]
  dsimp only
  rw [maskHeaderCredential_eq]
  dsimp only
  rw [Checked.update_append]
  by_cases hsec : isSecretFlag token
  · rw [if_pos hsec, if_pos hsec, hsplit]
  rw [if_neg hsec, if_neg hsec]
  by_cases huser : isUserFlag token
  · rw [if_pos huser, huser, Bool.true_and]
    by_cases hcolon : value.contains ':'
    · rw [if_pos hcolon, if_pos hcolon, hsplit]
    · rw [if_neg hcolon, if_neg hcolon, if_neg (not_header_of_user huser), hsplit]
      rfl
  rw [if_neg huser, eq_false_of_ne_true huser, Bool.false_and]
  by_cases hhead : isHeaderFlag token
  · rw [if_pos hhead, if_neg Bool.false_ne_true, if_pos hhead, hsplit]
  · rw [if_neg hhead, if_neg Bool.false_ne_true, if_neg hhead, hsplit]
    rfl

theorem layerALoop_eq (rest : List Text) : ∀ (front : List Text) (token : Text),
    layerALoop (front.length + (rest.length + 1)) (rest.length + 1) front.length
      (front ++ token :: rest) = .ok (front ++ lookAhead token rest) := by
  induction rest with
  | nil =>
    intro front token
    have hlast := maskAhead_last front token
    rw [layerALoop, length_nil, zero_add, hlast]
    rfl
  | cons value rest ih =>
    intro front token
    have hnext := maskAhead_next front token value rest
      (front.length + ((value :: rest).length + 1)) (by rw [length_cons]; omega)
    have hrun := ih (front ++ [token]) (maskNext token value)
    rw [length_append, length_singleton, append_assoc, append_assoc,
      singleton_append, singleton_append] at hrun
    rw [layerALoop, hnext, lookAhead]
    show layerALoop _ (value :: rest).length _ _ = _
    rw [length_cons,
      show front.length + (rest.length + 1 + 1) = front.length + 1 + (rest.length + 1) by omega]
    exact hrun

theorem layerALoop_layerA (head : List Text) :
    layerALoop head.length head.length 0 head = .ok (layerA head) := by
  cases head with
  | nil => rfl
  | cons token rest =>
    have h := layerALoop_eq rest [] token
    rw [length_nil, zero_add] at h
    exact h

theorem truncateItem_eq (token : Text) :
    truncateItem token = .ok (token.truncate ARGV_HEAD_ITEM_BYTES) := by
  unfold truncateItem truncate
  split_ifs
  · exact sliceTo_floorBoundary token _
  · rfl

theorem redactArgv_eq (argv : List Text) (maxItems : Option Nat) :
    redactArgv argv maxItems = .ok (TerminalCommander.redactArgv argv maxItems) := by
  unfold redactArgv
  dsimp only
  rw [layerALoop_layerA]
  show ((layerA _).mapM maskTokenInline >>= fun head => head.mapM truncateItem) = _
  rw [Checked.mapM_eq_ok_map fun token _ => maskTokenInline_eq token]
  exact Checked.mapM_eq_ok_map fun token _ => truncateItem_eq token

/-! ## The shell line returns -/

theorem utf8Size_of_isQuote {c : Char} (h : isQuote c) : c.utf8Size = 1 := by
  unfold isQuote at h
  rcases Bool.or_eq_true _ _ ▸ h with h | h
  · exact utf8Size_of_beq rfl c h
  · exact utf8Size_of_beq rfl c h

theorem stripSurroundingQuotes_eq (token : Text) :
    stripSurroundingQuotes token = .ok (TerminalCommander.stripSurroundingQuotes token) := by
  unfold stripSurroundingQuotes
  cases token with
  | nil => rfl
  | cons first rest =>
    rw [TerminalCommander.stripSurroundingQuotes, head?_cons]
    rcases eq_nil_or_concat' rest with rfl | ⟨mid, last, rfl⟩
    · -- a single character is no pair of quotes
      rw [getLast?_singleton, getLast?_nil]
      by_cases hquote : isQuote first
      · rw [if_neg (by rw [len, len_nil, utf8Size_of_isQuote hquote]; decide), hquote]
        rfl
      · simp only [eq_false_of_ne_true hquote, Bool.false_and, Bool.false_eq_true, if_false]
        split_ifs <;> rfl
    · rw [getLast?_concat, dropLast_concat, ← cons_append, getLast?_concat]
      dsimp only
      by_cases hpair : (isQuote first && first == last)
      · rw [Bool.and_eq_true, beq_iff_eq] at hpair
        obtain ⟨hquote, rfl⟩ := hpair
        have hone := utf8Size_of_isQuote hquote
        have hlast : len [first] = 1 := by rw [len, len_nil, hone]
        have hlen : len (first :: mid ++ [first]) = len (first :: mid) + 1 := by
          rw [len_append, hlast]
        have htwo : 2 ≤ len (first :: mid) + 1 := by
          rw [len, hone]
          omega
        have hback := sliceFrom_append [first] mid
        rw [hlast] at hback
        simp only [hlen, htwo, hquote, beq_self_eq_true, Bool.and_self, if_true,
          Checked.sub_of_le (Nat.le_add_left _ _), Nat.add_sub_cancel, bind, Except.bind,
          slice, sliceTo_append (first :: mid) [first]]
        exact hback
      · have hpair' : ¬ (isQuote first && some last == some first) := by
          simpa [@eq_comm _ last] using hpair
        rw [if_neg hpair, if_neg hpair']
        split_ifs <;> rfl

theorem closeFrom_returns (raw : List Text) (quote : Char) : ∀ fuel stop,
    raw.length ≤ stop + fuel → ∃ n, closeFrom raw quote fuel stop = .ok n ∧ stop ≤ n := by
  intro fuel
  induction fuel with
  | zero =>
    intro stop hfuel
    exact ⟨stop, if_neg (by omega), le_refl _⟩
  | succ fuel ih =>
    intro stop hfuel
    rw [closeFrom]
    by_cases hstop : stop < raw.length
    · obtain ⟨token, htoken⟩ := Checked.index_returns hstop
      obtain ⟨n, hn, hle⟩ := ih (stop + 1) (by omega)
      rw [if_pos hstop, htoken]
      simp only [bind, Except.bind]
      split_ifs
      · exact ⟨stop, rfl, le_refl _⟩
      · exact ⟨n, hn, le_of_succ_le hle⟩
    · rw [if_neg hstop]
      exact ⟨stop, rfl, le_refl _⟩

theorem headerValueSpanEnd_returns (line : Text) {count start : Nat} (h : start < count) :
    ∃ stop, headerValueSpanEnd line count start = .ok stop ∧ start ≤ stop ∧ stop < count := by
  have hfirst : min start (count - 1) = start := min_eq_left (by omega)
  unfold headerValueSpanEnd
  dsimp only
  rw [hfirst]
  split
  · exact ⟨start, rfl, le_refl _, h⟩
  split
  · exact ⟨start, rfl, le_refl _, h⟩
  split_ifs
  · exact ⟨start, rfl, le_refl _, h⟩
  · obtain ⟨stop, hstop, hle⟩ :=
      closeFrom_returns line.splitWhitespace _ line.splitWhitespace.length (start + 1) (by omega)
    rw [hstop]
    exact ⟨min stop (count - 1), rfl, by omega, by omega⟩

theorem shellLoop_returns (line : Text) (len : Nat) : ∀ (fuel i : Nat) (tokens : List Text),
    tokens.length = len → len ≤ i + fuel → Checked.Returns (shellLoop line len fuel i tokens) := by
  intro fuel
  induction fuel with
  | zero =>
    intro i tokens _ hfuel
    exact ⟨tokens, if_neg (by omega)⟩
  | succ fuel ih =>
    intro i tokens hlen hfuel
    have hmask : ∀ text : Text, i + 1 < len → Checked.Returns
        (Checked.update tokens (i + 1) text >>= shellLoop line len fuel (i + 1)) := by
      intro text hi
      rw [Checked.update_of_lt (hlen ▸ hi)]
      exact ih (i + 1) _ (by rw [length_set, hlen]) (by omega)
    rw [shellLoop]
    by_cases hi : i < len
    swap
    · rw [if_neg hi]
      exact Checked.returns_ok tokens
    rw [if_pos hi]
    refine (Checked.index_returns (hlen ▸ hi)).bind fun token _ => ?_
    split_ifs with hsec huser hhead
    · exact hmask _ hsec.1
    · refine (Checked.index_returns (hlen ▸ huser.2)).bind fun value _ => ?_
      split_ifs
      · exact hmask _ huser.2
      · exact ih (i + 1) tokens hlen (by omega)
    · obtain ⟨stop, hstop, hle, hlt⟩ := headerValueSpanEnd_returns line hhead.2
      rw [hlen, hstop]
      refine (Checked.slice_returns (by omega) (by omega)).bind fun span _ => ?_
      rw [maskHeaderCredential_eq]
      refine Checked.Returns.bind (Checked.returns_ok _) fun masked _ => ?_
      rw [Checked.update_of_lt (hlen ▸ hhead.2)]
      exact ih (stop + 1) _ (by rw [clearBetween, length_mapIdx, length_set, hlen])
        (by omega)
    · exact ih (i + 1) tokens hlen (by omega)

theorem redactShellLine_returns (line : Text) : Checked.Returns (redactShellLine line) := by
  unfold redactShellLine
  rw [Checked.mapM_eq_ok_map fun token _ => stripSurroundingQuotes_eq token]
  refine Checked.Returns.bind (Checked.returns_ok _) fun tokens _ => ?_
  refine (shellLoop_returns line _ _ 0 tokens rfl (by omega)).bind fun tokens _ => ?_
  rw [Checked.mapM_eq_ok_map fun token _ => maskTokenInline_eq token]
  exact ⟨_, sliceTo_floorBoundary _ _⟩

/-! ## The metadata return -/

theorem rposition_lt {argv : List Text} {line : Text} {index : Nat}
    (h : rposition argv line = some index) : index < argv.length := by
  unfold rposition at h
  obtain ⟨k, hk, rfl⟩ := map_eq_some_iff.1 h
  have hlt := (findIdx?_eq_some_iff_getElem.1 hk).1
  rw [length_reverse] at hlt
  omega

theorem formatArgvMetadata_returns (argv : List Text) :
    Checked.Returns (formatArgvMetadata json argv) := by
  unfold formatArgvMetadata
  rw [redactArgv_eq]
  exact Checked.returns_ok _

theorem formatShellArgvMetadata_returns (argv : List Text) (shellLine : Text) :
    Checked.Returns (formatShellArgvMetadata json argv shellLine) := by
  unfold formatShellArgvMetadata
  split
  · next index hindex =>
    refine (redactShellLine_returns shellLine).bind fun redacted _ => ?_
    rw [Checked.update_of_lt (rposition_lt hindex)]
    exact formatArgvMetadata_returns json _
  · exact formatArgvMetadata_returns json argv

theorem subjectForArgv_returns_iff (argv : List Text) : Checked.Returns (subjectForArgv argv) ↔
      (256 < (argv.head?.getD []).len → (argv.head?.getD []).isCharBoundary 256) := by
  unfold subjectForArgv
  dsimp only
  split_ifs with h
  · rw [sliceTo_returns_iff]
    exact ⟨fun hb _ => hb, fun hb => hb h⟩
  · exact ⟨fun _ h' => absurd h' h, fun _ => Checked.returns_ok _⟩

end Audit

/-- **The audit projections.** Each of them returns on every input, apart from the subject of an
argv: this one returns if byte 256 of a longer program name is a character boundary, and only
then. -/
theorem audit_projections_return (json : List Text → Text) (argv : List Text) (line : Text)
    (maxItems : Option Nat) :
    (Checked.Returns (Audit.subjectForArgv argv) ↔
      (256 < (argv.head?.getD []).len → (argv.head?.getD []).isCharBoundary 256 = true)) ∧
    Checked.Returns (Audit.redactArgv argv maxItems) ∧ Checked.Returns (Audit.redactArgvHead argv) ∧
    Checked.Returns (Audit.redactShellLine line) ∧
    Checked.Returns (Audit.formatArgvMetadata json argv) ∧
    Checked.Returns (Audit.formatShellArgvMetadata json argv line) := by
  refine ⟨Audit.subjectForArgv_returns_iff argv, ?_, ?_, Audit.redactShellLine_returns line,
    Audit.formatArgvMetadata_returns json argv,
    Audit.formatShellArgvMetadata_returns json argv line⟩
  · exact ⟨_, Audit.redactArgv_eq argv maxItems⟩
  · exact ⟨_, Audit.redactArgv_eq argv _⟩

/-- A two-byte character over byte 256 of the program name. -/
theorem subject_stops :
    Audit.subjectForArgv [List.replicate 255 'a' ++ ['é']] = .error .slice := by
  decide +kernel

end TerminalCommander
