import TerminalCommander.Core.OsGuard.Launchers

/-!
# Shell lines

`split_line` of `core/src/os_guard.rs` cuts a line into simple commands with the grammar of the
shell that runs it, and `interpreter_payload` finds the line an interpreter is given.
-/

namespace TerminalCommander

namespace OsGuard

open ShellDeny

inductive Grammar where
  | posix | pwsh | cmd
  deriving DecidableEq, Repr

def Grammar.ofShell (shell : Text) : Grammar :=
  let base := commandBasename shell
  if "pwsh".toList.isPrefixOf base || "powershell".toList.isPrefixOf base then .pwsh
  else if base = "cmd".toList then .cmd
  else .posix

def POSIX_RESERVED : List Text :=
  ["!", "\x7b", "\x7d", "if", "then", "elif", "else", "do", "while", "until"].map String.toList

/-! ## Splitting -/

structure SplitLine where
  commands : List (Nat × List Text)
  nested : List Text

structure Words where
  current : List Text
  word : Text
  hasWord : Bool
  skipTarget : Bool
  level : Nat

namespace Words

def push (w : Words) (ch : Char) : Words := { w with word := w.word ++ [ch], hasWord := true }

def flush (w : Words) : Words :=
  if !w.hasWord then w
  else
    { w with
      word := [], hasWord := false, skipTarget := false
      current := if w.skipTarget then w.current else w.current ++ [w.word] }

def endCommand (w : Words) (commands : List (Nat × List Text)) :
    Words × List (Nat × List Text) :=
  let w := { w.flush with skipTarget := false }
  if w.current.isEmpty then (w, commands)
  else ({ w with current := [] }, commands ++ [(w.level, w.current)])

def redirect (w : Words) : Words :=
  let w :=
    if w.word.all fun ch => ch.isDigit || ch == '*' || ch == '&' then
      { w with word := [], hasWord := false }
    else w.flush
  { w with skipTarget := true }

end Words

structure LineState where
  out : SplitLine
  words : Words
  quote : Option Char

namespace LineState

def push (s : LineState) (ch : Char) : LineState := { s with words := s.words.push ch }

def substitute (s : LineState) (body : Text) : LineState :=
  { s with
    out := { s.out with nested := s.out.nested ++ [body] }
    words := s.words.push '$' }

def endCommand (s : LineState) : LineState :=
  let (words, commands) := s.words.endCommand s.out.commands
  { s with out := { s.out with commands := commands }, words := words }

def opened (s : LineState) (quote : Char) : LineState :=
  { s with quote := some quote, words := { s.words with hasWord := true } }

end LineState

def captureParens (body : Text) (depth : Nat) (quote : Option Char) : Text → Text × Text
  | [] => (body, [])
  | ch :: chars =>
    match quote with
    | some opening =>
      captureParens (body ++ [ch]) depth (if ch = opening then none else quote) chars
    | none =>
      if ch = '\'' ∨ ch = '"' then captureParens (body ++ [ch]) depth (some ch) chars
      else if ch = '(' then captureParens (body ++ [ch]) (depth + 1) none chars
      else if ch = ')' then
        match depth with
        | 0 => (body, chars)
        | depth + 1 => captureParens (body ++ [ch]) depth none chars
      else captureParens (body ++ [ch]) depth none chars

def captureBackticks (body : Text) : Text → Text × Text
  | [] => (body, [])
  | '`' :: chars => (body, chars)
  | '\\' :: next :: chars => captureBackticks (body ++ [next]) chars
  | ['\\'] => (body, [])
  | ch :: chars => captureBackticks (body ++ [ch]) chars

def Grammar.escape : Grammar → Char
  | .posix => '\\'
  | .pwsh => '`'
  | .cmd => '^'

def Grammar.substitutes (grammar : Grammar) : Bool := grammar != .cmd

def splitSingle (grammar : Grammar) (s : LineState) (ch : Char) (chars : Text) :
    LineState × Text :=
  if ch ≠ '\'' then (s.push ch, chars)
  else
    match grammar, chars with
    | .pwsh, '\'' :: chars => (s.push '\'', chars)
    | _, chars => ({ s with quote := none }, chars)

def splitSubstitution (grammar : Grammar) (s : LineState) (ch : Char) (chars : Text) :
    Option (LineState × Text) :=
  match ch, chars with
  | '$', '(' :: chars =>
    if grammar.substitutes then
      let (body, rest) := captureParens [] 0 none chars
      some (s.substitute body, rest)
    else none
  | '`', chars =>
    if grammar = .posix then
      let (body, rest) := captureBackticks [] chars
      some (s.substitute body, rest)
    else none
  | _, _ => none

def splitDouble (grammar : Grammar) (s : LineState) (ch : Char) (chars : Text) :
    LineState × Text :=
  if ch = '"' then ({ s with quote := none }, chars)
  else
    match splitSubstitution grammar s ch chars with
    | some next => next
    | none =>
      if ch = grammar.escape ∧ grammar ≠ .cmd then
        match chars with
        | next :: rest =>
          if grammar = .pwsh ∨ next ∈ ['$', '`', '"', '\\', '\n'] then (s.push next, rest)
          else (s.push ch, chars)
        | [] => (s.push ch, chars)
      else (s.push ch, chars)

def splitBare (grammar : Grammar) (s : LineState) (ch : Char) (chars : Text) :
    LineState × Text :=
  if ch = grammar.escape then
    match chars with
    | next :: rest => (if next ≠ '\n' then s.push next else s, rest)
    | [] => (s, [])
  else if ch = '\'' ∧ grammar ≠ .cmd then (s.opened '\'', chars)
  else if ch = '"' then (s.opened '"', chars)
  else
    match splitSubstitution grammar s ch chars with
    | some next => next
    | none =>
      if ch = '#' ∧ grammar.substitutes = true ∧ s.words.hasWord = false then
        (s, chars.dropWhile (· != '\n'))
      else if ch ∈ [' ', '\t', '\r'] then ({ s with words := s.words.flush }, chars)
      else if ch ∈ ['>', '<'] ∨ (ch = '&' ∧ grammar ≠ .cmd ∧ chars.head? = some '>') then
        ({ s with words := s.words.redirect },
          chars.dropWhile fun c => ['>', '<', '&', '|'].contains c)
      else if ch ∈ [';', '\n', '|', '&'] then
        (s.endCommand,
          if (ch = '&' ∨ ch = '|') ∧ chars.head? = some ch then chars.tail else chars)
      else if ch = '(' then
        let s := s.endCommand
        ({ s with words := { s.words with level := s.words.level + 1 } }, chars)
      else if ch = ')' then
        let s := s.endCommand
        ({ s with words := { s.words with level := s.words.level - 1 } }, chars)
      else if (ch = '\x7b' ∨ ch = '\x7d') ∧ grammar = .pwsh then (s.endCommand, chars)
      else (s.push ch, chars)

def splitChar (grammar : Grammar) (s : LineState) (ch : Char) (chars : Text) : LineState × Text :=
  if s.quote = some '\'' then splitSingle grammar s ch chars
  else if s.quote = some '"' then splitDouble grammar s ch chars
  else splitBare grammar s ch chars

def splitLoop (grammar : Grammar) : Nat → LineState → Text → Checked LineState
  | _, s, [] => .ok s
  | 0, _, _ :: _ => .error .fuel
  | fuel + 1, s, ch :: chars =>
    let (s, rest) := splitChar grammar s ch chars
    splitLoop grammar fuel s rest

def splitLine (line : Text) (grammar : Grammar) : Checked SplitLine := do
  let s ← splitLoop grammar line.length ⟨⟨[], []⟩, ⟨[], [], false, false, 0⟩, none⟩ line
  return s.endCommand.out

/-! ## Payloads -/

def base64Value (c : Char) : Option Nat :=
  if c.isUpper then some (c.toNat - 'A'.toNat)
  else if c.isLower then some (c.toNat - 'a'.toNat + 26)
  else if c.isDigit then some (c.toNat - '0'.toNat + 52)
  else if c = '+' then some 62
  else if c = '/' then some 63
  else none

def base64Bytes (bits pending : Nat) : Text → Option (List Nat)
  | [] => some []
  | c :: text =>
    if c = '=' then some []
    else
      match base64Value c with
      | none => none
      | some value =>
        let bits := (bits * 64 + value) % 65536
        let pending := pending + 6
        if 8 ≤ pending then
          (base64Bytes bits (pending - 8) text).map ((bits >>> (pending - 8)) % 256 :: ·)
        else base64Bytes bits pending text

def utf16Units : List Nat → List Nat
  | low :: high :: bytes => (low + 256 * high) :: utf16Units bytes
  | _ => []

def fromUtf16Lossy : List Nat → Text
  | [] => []
  | [unit] => [if 0xD800 ≤ unit ∧ unit < 0xE000 then '\uFFFD' else Char.ofNat unit]
  | unit :: next :: units =>
    if 0xD800 ≤ unit ∧ unit < 0xDC00 ∧ 0xDC00 ≤ next ∧ next < 0xE000 then
      Char.ofNat (0x10000 + (unit - 0xD800) * 0x400 + (next - 0xDC00)) :: fromUtf16Lossy units
    else if 0xD800 ≤ unit ∧ unit < 0xE000 then '\uFFFD' :: fromUtf16Lossy (next :: units)
    else Char.ofNat unit :: fromUtf16Lossy (next :: units)

def decodeUtf16leBase64 (text : Text) : Option Text :=
  (base64Bytes 0 0 text).map fun bytes => fromUtf16Lossy (utf16Units bytes)

def pwshPayload (flag : Text) (rest : List Text) : Option Text :=
  let name := Text.toAsciiLowercase (flag.dropWhile fun c => c == '-' || c == '/')
  if name.head? = some 'e' then rest.head?.bind decodeUtf16leBase64
  else if name = "cwa".toList ∨
      (Text.len "command".toList < name.len ∧ name <+: "commandwithargs".toList) then rest.head?
  else some (Text.join [' '] rest)

def gluedFrom (flag : Text) : Nat → Text → Checked Text
  | _, [] => .ok []
  | offset, ch :: chars =>
    if ch.toLower ∈ ['c', 'k', 'r'] then do
      let before ← flag.sliceTo offset
      if before.getLast? = some '/' then flag.sliceFrom (offset + 1)
      else gluedFrom flag (offset + ch.utf8Size) chars
    else gluedFrom flag (offset + ch.utf8Size) chars

def cmdPayload (flag : Text) (rest : List Text) : Checked Text := do
  let glued ← gluedFrom flag 0 flag
  return Text.join [' '] ((glued :: rest).filter fun word => !word.isEmpty)

def posixOperand : Nat → List Text → Option Text
  | _, [] => none
  | skip + 1, _ :: words => posixOperand skip words
  | 0, word :: words =>
    if word = "--".toList then words.head?
    else if 1 < word.len && (word.head? == some '-' || word.head? == some '+') then
      posixOperand (posixOptionValueWords word) words
    else some word

def posixPayload (flag : Text) (rest : List Text) : Option Text :=
  match (flag.stripPrefix "--".toList).bind fun long => long.splitOnce '=' with
  | some (_, inline) => some inline
  | none => posixOperand (posixOptionValueWords flag) rest

def interpreterPayload (shell : Text) (args : List Text) : Checked (Option (Grammar × Text)) := do
  match ← interpreterScriptFlag shell args with
  | none => return none
  | some index =>
    let flag ← Checked.index args index
    let rest ← Checked.sliceFrom args (index + 1)
    match Grammar.ofShell shell with
    | .pwsh => return (pwshPayload flag rest).map fun payload => (.pwsh, payload)
    | .cmd => return some (.cmd, ← cmdPayload flag rest)
    | .posix => return (posixPayload flag rest).map fun payload => (.posix, payload)

/-! ## Words of a command -/

def isFlag (token : Text) : Bool :=
  startsDash token ||
    match token with
    | '/' :: c :: rest =>
      let head := (c :: rest).takeWhile (· != ':')
      1 ≤ Text.len head && Text.len head ≤ 2 && head.all Char.isAlpha
    | _ => false

def unquoted (value : Text) : Text :=
  match value with
  | first :: rest =>
    if first = '\'' ∨ first = '"' then
      match rest.getLast? with
      | some last => if last = '\'' ∨ last = '"' then rest.dropLast else value
      | none => value
    else value
  | [] => []

def pwshFlagValue (token : Text) : Option Text :=
  match (token.stripPrefix "-".toList).bind fun body => body.splitOnce ':' with
  | none => none
  | some (name, value) =>
    if name.isEmpty || !name.all Char.isAlpha then none
    else if (unquoted value).isEmpty then none
    else some (unquoted value)

def changesDir (head : Text) : Grammar → Bool
  | .posix => head ∈ ["cd".toList, "pushd".toList]
  | .cmd => head ∈ ["cd".toList, "chdir".toList, "pushd".toList]
  | .pwsh =>
    head ∈ ["cd".toList, "chdir".toList, "sl".toList, "set-location".toList, "pushd".toList,
      "push-location".toList]

def cdWord (grammar : Grammar) : List Text → Option Text
  | [] => none
  | arg :: args =>
    if grammar = .pwsh ∧ startsDash arg = true then
      let name := arg.toAsciiLowercase
      if name ∈ ["-path".toList, "-literalpath".toList, "-lp".toList, "-pspath".toList] then
        args.head?
      else if name = "-stackname".toList then
        match args with
        | [] => none
        | _ :: args => cdWord grammar args
      else cdWord grammar args
    else if isFlag arg then cdWord grammar args
    else some arg

def cdTarget (args : List Text) (grammar : Grammar) : Option Text :=
  (cdWord grammar args).filter fun dir => !isUnresolvable dir && !startsDash dir

end OsGuard

end TerminalCommander
