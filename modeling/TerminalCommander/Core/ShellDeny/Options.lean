import TerminalCommander.Core.ShellDeny.Names

/-!
# Options

How `core/src/shell_deny.rs` reads the options of a launcher (`wrapper_option`, in the manner of
getopt) and of an interpreter (`interpreter_script_flag`).
-/

namespace TerminalCommander

namespace ShellDeny

open List Text

def SHELL_SCRIPT_FLAGS : List Text :=
  ["-c", "-lc", "-ec", "-ic", "-command", "--command", "--commands", "/c", "/k", "/r", "/command",
    "-encodedcommand", "/encodedcommand"].map String.toList

def PWSH_VALUE_FLAGS : List Text :=
  ["-executionpolicy", "-ex", "-ep", "-windowstyle", "-w", "-workingdirectory", "-wd",
    "-configurationname", "-config", "-configurationfile", "-custompipename", "-settingsfile",
    "-settings", "-inputformat", "-inp", "-if", "-outputformat", "-o", "-of", "-version",
    "-psconsolefile"].map String.toList

/-! ## Launcher options -/

abbrev ValueOption := Text × Option Text

def byteFind (c : Char) (t : Text) : Option Nat :=
  if c ∈ t then some (Text.len (t.takeWhile (· != c))) else none

def shortOption (shorts body : Text) : Nat → Text → Checked (Option ValueOption)
  | _, [] => .ok none
  | offset, letter :: chars =>
    match byteFind letter shorts with
    | none => shortOption shorts body (offset + letter.utf8Size) chars
    | some key => do
      let rest ← body.sliceFrom (offset + letter.utf8Size)
      let name ← (← shorts.sliceFrom key).sliceTo 1
      return some (name, if rest.isEmpty then none else some rest)

def longOption (longs : List Text) (long : Text) : Option ValueOption :=
  let (name, inline) :=
    match long.splitOnce '=' with
    | some (name, value) => (name, some value)
    | none => (long, none)
  let unique :=
    match longs.filter fun full => !name.isEmpty && name.isPrefixOf full with
    | [full] => some full
    | _ => none
  ((longs.find? fun full => full == name).or unique).map fun full => (full, inline)

def optionHit (w : Launcher) (token : Text) : Checked (Option ValueOption) :=
  match token.stripPrefix "--".toList with
  | some long => .ok (longOption w.longs long)
  | none =>
    let body := (token.stripPrefix "-".toList).getD token
    shortOption w.shorts body 0 body

def wrapperOption (argv : List Text) (index : Nat) (w : Launcher) :
    Checked (Option ValueOption × Nat) := do
  let token ← Checked.index argv index
  match ← optionHit w token with
  | some (key, none) => return (some (key, argv[index + 1]?), index + 2)
  | some (key, some value) => return (some (key, some value), index + 1)
  | none => return (none, index + 1)

def shortOf (shorts body : Text) : Option ValueOption :=
  match body.dropWhile fun c => !shorts.contains c with
  | [] => none
  | letter :: rest => some ([letter], if rest.isEmpty then none else some rest)

def optionOf (w : Launcher) (token : Text) : Option ValueOption :=
  match token.stripPrefix "--".toList with
  | some long => longOption w.longs long
  | none => shortOf w.shorts ((token.stripPrefix "-".toList).getD token)

def optionWords (w : Launcher) (token : Text) : Nat :=
  match optionOf w token with
  | some (_, none) => 2
  | _ => 1

def optionWith (w : Launcher) (token : Text) (next : Option Text) : Option ValueOption :=
  match optionOf w token with
  | some (key, none) => some (key, next)
  | hit => hit

theorem Launcher.utf8Size_eq_one (w : Launcher) {c : Char} (h : c ∈ w.shorts) : c.utf8Size = 1 :=
  beq_iff_eq.mp (List.all_eq_true.mp w.ascii c h)

theorem eq_takeWhile_append {c : Char} {t : Text} (h : c ∈ t) :
    ∃ rest, t = t.takeWhile (· != c) ++ c :: rest := by
  cases hdrop : t.dropWhile (· != c) with
  | nil =>
    have := dropWhile_eq_nil_iff.mp hdrop c h
    rw [bne_self_eq_false] at this
    cases this
  | cons d rest =>
    have hhead := head?_dropWhile_not (· != c) t
    rw [hdrop] at hhead
    have hd : d = c := by simpa using hhead
    refine ⟨rest, ?_⟩
    rw [← hd, ← hdrop, hd, takeWhile_append_dropWhile]

theorem byteFind_slice {shorts : Text} {letter : Char} (hmem : letter ∈ shorts)
    (hascii : letter.utf8Size = 1) :
    ∃ key behind, byteFind letter shorts = some key ∧ shorts.sliceFrom key = .ok behind ∧
      behind.sliceTo 1 = .ok [letter] := by
  obtain ⟨rest, hshorts⟩ := eq_takeWhile_append hmem
  refine ⟨_, letter :: rest, if_pos hmem, ?_, ?_⟩
  · have hfrom := sliceFrom_append (shorts.takeWhile (· != letter)) (letter :: rest)
    rwa [← hshorts] at hfrom
  · have hto := sliceTo_append [letter] rest
    rwa [len, len_nil, hascii] at hto

theorem shortOption_eq {shorts : Text} (hascii : ∀ c ∈ shorts, c.utf8Size = 1) (body : Text) :
    ∀ (front chars : Text), body = front ++ chars →
      shortOption shorts body front.len chars = .ok (shortOf shorts chars) := by
  intro front chars
  induction chars generalizing front with
  | nil => exact fun _ => rfl
  | cons letter chars ih =>
    intro hbody
    have hfront : front.len + letter.utf8Size = len (front ++ [letter]) := by
      rw [len_append, len, len_nil, Nat.add_zero]
    have hsplit : body = (front ++ [letter]) ++ chars := by
      rw [hbody, append_assoc, singleton_append]
    unfold shortOption shortOf
    rw [hfront]
    by_cases hmem : letter ∈ shorts
    · obtain ⟨key, behind, hkey, hbehind, hname⟩ := byteFind_slice hmem (hascii letter hmem)
      have hcont : (!shorts.contains letter) ≠ true := by
        rw [contains_iff_mem.mpr hmem]
        exact Bool.false_ne_true
      have hrest : body.sliceFrom (len (front ++ [letter])) = .ok chars := by
        rw [hsplit]
        exact sliceFrom_append _ chars
      rw [hkey, dropWhile_cons, if_neg hcont]
      simp only [hrest, hbehind, hname, bind, Except.bind]
      rfl
    · have hcont : (!shorts.contains letter) := by
        rw [eq_false_of_ne_true fun h => hmem (contains_iff_mem.mp h)]
        rfl
      rw [dropWhile_cons, if_pos hcont, byteFind, if_neg hmem]
      exact ih (front ++ [letter]) hsplit

theorem optionHit_eq (w : Launcher) (token : Text) :
    optionHit w token = .ok (optionOf w token) := by
  unfold optionHit optionOf
  cases token.stripPrefix "--".toList with
  | some long => rfl
  | none => exact shortOption_eq (fun _ => w.utf8Size_eq_one) _ [] _ rfl

theorem wrapperOption_eq {argv : List Text} {index : Nat} {token : Text}
    (h : argv[index]? = some token) (w : Launcher) : wrapperOption argv index w =
      .ok (optionWith w token argv[index + 1]?, index + optionWords w token) := by
  unfold wrapperOption optionWith optionWords
  simp only [Checked.index_of_getElem? h, optionHit_eq, bind, Except.bind]
  cases optionOf w token with
  | none => rfl
  | some hit =>
    obtain ⟨key, value⟩ := hit
    cases value <;> rfl

/-! ## Script flags -/

def abbreviates (name full : Text) : Bool := Text.eqIgnoreAsciiCase (full.take name.length) name

def posixOptionValueWords (token : Text) : Nat :=
  match token.stripPrefix "--".toList with
  | some long => if long ∈ ["rcfile".toList, "init-file".toList] then 1 else 0
  | none =>
    match token with
    | '-' :: body | '+' :: body => body.countP fun c => c == 'o' || c == 'O'
    | _ => 0

def pwshName (arg : Text) : Option Text :=
  (arg.stripPrefix "--".toList).or
    (match arg with
    | '-' :: name | '/' :: name => some name
    | _ => none)

def pwshOptionTakesValue (arg : Text) : Bool :=
  match pwshName arg with
  | none | some [] => false
  | some name =>
    let names := PWSH_VALUE_FLAGS.map fun flag => flag.dropWhile (· == '-')
    (names.any fun full => full.eqIgnoreAsciiCase name) ||
      (names.filter fun full => abbreviates name full).length == 1

def isExtraShellCommandFlag (stem arg : Text) : Bool :=
  let long := (arg.stripPrefix "--".toList).map fun rest =>
    ((rest.splitOnce '=').map Prod.fst).getD rest
  if stem = "fish".toList then
    arg.eqIgnoreAsciiCase "-C".toList ||
      long.any fun name => name.eqIgnoreAsciiCase "init-command".toList
  else if stem = "nu".toList then
    arg.eqIgnoreAsciiCase "-e".toList ||
      long.any fun name => name.eqIgnoreAsciiCase "execute".toList
  else false

def isInterpreterOption (arg : Text) : Bool :=
  match arg with
  | '-' :: rest | '+' :: rest => !rest.isEmpty
  | '/' :: rest => 1 ≤ Text.len rest && Text.len rest ≤ 5 && !rest.any isSeparator
  | _ => false

def isPwshCommandFlag (arg : Text) : Bool :=
  match pwshName arg with
  | none => false
  | some name =>
    name.eqIgnoreAsciiCase "cwa".toList || (!name.isEmpty &&
      (["command".toList, "encodedcommand".toList, "commandwithargs".toList].any fun full =>
        abbreviates name full))

def cmdScriptSwitch : List Text → Bool
  | [] | [] :: _ => false
  | (ch :: tail) :: switches =>
    let letter := ch.toLower
    if letter ∈ ['c', 'k', 'r'] then !tail.isEmpty || switches.isEmpty
    else if !"adefqstuv".toList.contains letter || !(tail.isEmpty || tail.head? == some ':') then
      false
    else cmdScriptSwitch switches

def isCmdScriptSwitch (arg : Text) : Bool :=
  match arg with
  | '/' :: body => cmdScriptSwitch (body.splitOn '/')
  | _ => false

def isListedScriptFlag (token : Text) : Bool :=
  let name :=
    if "--".toList <+: token then ((token.splitOnce '=').map Prod.fst).getD token else token
  SHELL_SCRIPT_FLAGS.any fun flag => name.eqIgnoreAsciiCase flag

def isPosixCommandCluster (token : Text) : Bool :=
  match token with
  | '-' :: body => !body.isEmpty && body.all Char.isAlpha && body.any fun c => c.toLower == 'c'
  | _ => false

def isScriptFlag (token : Text) : Bool := isListedScriptFlag token || isPosixCommandCluster token

def isPwshStem (stem : Text) : Bool := stem == "powershell".toList || stem == "pwsh".toList

def scriptFlag (stem arg : Text) : Bool :=
  if isPwshStem stem then isListedScriptFlag arg || isPwshCommandFlag arg
  else if stem = "cmd".toList then isScriptFlag arg || isCmdScriptSwitch arg
  else isScriptFlag arg || isExtraShellCommandFlag stem arg

def scriptFlagFrom (stem : Text) : Nat → Nat → List Text → Option Nat
  | _, _, [] => none
  | skip + 1, index, _ :: args => scriptFlagFrom stem skip (index + 1) args
  | 0, index, arg :: args =>
    if scriptFlag stem arg then some index
    else if !isInterpreterOption arg then none
    else
      let words :=
        if isPwshStem stem then (if pwshOptionTakesValue arg then 1 else 0)
        else posixOptionValueWords arg
      scriptFlagFrom stem words (index + 1) args

def interpreterScriptFlag (shell : Text) (args : List Text) : Checked (Option Nat) := do
  let stem ← stripWinExt shell
  return scriptFlagFrom stem 0 0 args

end ShellDeny

end TerminalCommander
