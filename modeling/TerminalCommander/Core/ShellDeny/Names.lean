import TerminalCommander.Core.Str

/-!
# Command names

The part of `core/src/shell_deny.rs` that reads the name of a program off a word: the basename with
the Windows spellings folded in, the deny list of shell interpreters, and the table of wrappers.
The functions that slice a string are translated with checked slices; beside each stands the plain
function it computes.
-/

namespace TerminalCommander

namespace ShellDeny

open List Text

def SHELL_INTERPRETERS_DENY : List Text :=
  ["sh", "bash", "rbash", "dash", "zsh", "fish", "ksh", "mksh", "lksh", "pdksh", "oksh", "loksh",
    "yash", "posh", "csh", "tcsh", "ash", "busybox", "nu", "elvish", "xonsh", "osh", "ysh",
    "powershell", "powershell.exe", "pwsh", "pwsh.exe", "cmd", "cmd.exe"].map String.toList

structure Launcher where
  name : Text
  shorts : Text
  longs : List Text
  ascii : (shorts.all fun c => c.utf8Size == 1) = true
  deriving DecidableEq

def launcher (name shorts : String) (longs : List String)
    (ascii : (shorts.toList.all fun c => c.utf8Size == 1) = true) : Launcher :=
  ⟨name.toList, shorts.toList, longs.map String.toList, ascii⟩

def SHELL_ARGV_WRAPPERS : List Launcher :=
  [launcher "command" "" [] rfl,
    launcher "exec" "a" [] rfl,
    launcher "env" "uCSPa" ["unset", "chdir", "split-string", "argv0"] rfl,
    launcher "nohup" "" [] rfl,
    launcher "time" "fo" ["format", "output"] rfl,
    launcher "nice" "n" ["adjustment"] rfl,
    launcher "timeout" "sk" ["signal", "kill-after"] rfl,
    launcher "stdbuf" "ioe" ["input", "output", "error"] rfl,
    launcher "ionice" "cn" ["class", "classdata"] rfl,
    launcher "chrt" "" [] rfl,
    launcher "taskset" "" [] rfl,
    launcher "setsid" "" [] rfl,
    launcher "unbuffer" "" [] rfl]

def VALUE_OPERAND_WRAPPERS : List Text := ["timeout", "taskset", "chrt"].map String.toList

def WIN_EXE_EXTS : List Text := ["exe", "com", "bat", "cmd"].map String.toList

def isSeparator (c : Char) : Bool := c == '/' || c == '\\'

def isDotOrSpace (c : Char) : Bool := c == ' ' || c == '.'

def endsIgnoreAsciiCase (mark t : Text) : Bool :=
  Text.eqIgnoreAsciiCase (t.drop (t.length - mark.length)) mark

def argvBasename (token : Text) : Text := token.behindLast isSeparator

def MARK : Text := "::$DATA".toList

def stripUnnamedDataStream (name : Text) : Checked Text :=
  if endsIgnoreAsciiCase MARK name then name.sliceTo (name.len - MARK.len) else .ok name

def normalizedWinBasename (token : Text) : Checked Text := do
  let base := argvBasename token
  let once ← stripUnnamedDataStream (base.trimEndMatches isDotOrSpace)
  let twice ← stripUnnamedDataStream (once.trimEndMatches isDotOrSpace)
  return twice.trimEndMatches isDotOrSpace

def stripWinExtLoop (basename : Text) : List Text → Checked Text
  | [] => .ok basename
  | ext :: exts =>
    if ext.len + 1 < basename.len && basename.byteIs (basename.len - ext.len - 1) '.' then do
      let suffix ← basename.sliceFrom (basename.len - ext.len)
      if suffix.eqIgnoreAsciiCase ext then basename.sliceTo (basename.len - ext.len - 1)
      else stripWinExtLoop basename exts
    else stripWinExtLoop basename exts

def stripWinExt (basename : Text) : Checked Text := stripWinExtLoop basename WIN_EXE_EXTS

def findStem (stem : Text) : List Text → Checked (Option Text)
  | [] => .ok none
  | shell :: shells => do
    if stem.eqIgnoreAsciiCase (← stripWinExt shell) then return some shell
    findStem stem shells

def listedShell (base : Text) : Checked (Option Text) :=
  match SHELL_INTERPRETERS_DENY.find? fun shell => base.eqIgnoreAsciiCase shell with
  | some shell => .ok (some shell)
  | none => do
    let stem ← stripWinExt base
    if stem.len = base.len then return none
    findStem stem SHELL_INTERPRETERS_DENY

def isPowershellShortName (base : Text) : Checked Bool := do
  let stem ← stripWinExt base
  return stem.len == 8 && Text.eqIgnoreAsciiCase (stem.take 7) "powers~".toList &&
    (stem[7]?).any fun c => '1' ≤ c && c ≤ '9'

def shellInterpreterDenied (argv0 : Text) : Checked (Option Text) := do
  let base ← normalizedWinBasename argv0
  if base.isEmpty then return none
  match ← listedShell base with
  | some shell => return some shell
  | none => return if ← isPowershellShortName base then some "powershell".toList else none

def isWslCarrier (argv0 : Text) : Checked Bool := do
  let base ← normalizedWinBasename argv0
  return base.eqIgnoreAsciiCase "wsl".toList || base.eqIgnoreAsciiCase "wsl.exe".toList

def shellWrapper (token : Text) : Checked (Option Launcher) := do
  let stem ← stripWinExt (← normalizedWinBasename token)
  return SHELL_ARGV_WRAPPERS.find? fun wrapper => stem.eqIgnoreAsciiCase wrapper.name

def isEnvAssignment (word : Text) : Bool :=
  match word.splitOnce '=' with
  | none => false
  | some (name, _) =>
    match name with
    | [] => false
    | first :: chars =>
      (first == '_' || first.isAlpha) && chars.all fun ch => ch == '_' || ch.isAlphanum

/-! ## The plain functions -/

def dataStripped (name : Text) : Text :=
  if endsIgnoreAsciiCase MARK name then name.take (name.length - MARK.length) else name

def winBasename (token : Text) : Text :=
  let once := dataStripped ((argvBasename token).trimEndMatches isDotOrSpace)
  (dataStripped (once.trimEndMatches isDotOrSpace)).trimEndMatches isDotOrSpace

def hasWinExt (t ext : Text) : Bool :=
  ext.length + 1 < t.length && endsIgnoreAsciiCase ('.' :: ext) t

def winStem (t : Text) : Text :=
  match WIN_EXE_EXTS.find? (hasWinExt t) with
  | some ext => t.take (t.length - (ext.length + 1))
  | none => t

def listedName (base : Text) : Option Text :=
  (SHELL_INTERPRETERS_DENY.find? fun shell => base.eqIgnoreAsciiCase shell).or
    (if (winStem base).len = base.len then none
    else SHELL_INTERPRETERS_DENY.find? fun shell =>
      (winStem base).eqIgnoreAsciiCase (winStem shell))

def shortPowershell (base : Text) : Bool :=
  (winStem base).len == 8 && Text.eqIgnoreAsciiCase ((winStem base).take 7) "powers~".toList &&
    ((winStem base)[7]?).any fun c => '1' ≤ c && c ≤ '9'

def interpreterOf (argv0 : Text) : Option Text :=
  let base := winBasename argv0
  if base.isEmpty then none
  else (listedName base).or (if shortPowershell base then some "powershell".toList else none)

def namesWsl (argv0 : Text) : Bool :=
  (winBasename argv0).eqIgnoreAsciiCase "wsl".toList ||
    (winBasename argv0).eqIgnoreAsciiCase "wsl.exe".toList

def wrapperOf (token : Text) : Option Launcher :=
  SHELL_ARGV_WRAPPERS.find? fun wrapper =>
    (winStem (winBasename token)).eqIgnoreAsciiCase wrapper.name

/-! ## The specifications -/

theorem toLower_eq_of_not_isLower {c d : Char} (hd : d.isLower = false) (h : c.toLower = d) :
    c = d := by
  rcases toLower_cases c with hc | hc
  · rw [← hc, h]
  · rw [h, hd] at hc
    cases hc

variable {t u : Text}

theorem eqIgnoreAsciiCase_iff :
    t.eqIgnoreAsciiCase u ↔ t.toAsciiLowercase = u.toAsciiLowercase := beq_iff_eq

theorem len_of_eqIgnoreAsciiCase (h : t.eqIgnoreAsciiCase u) : t.len = u.len := by
  rw [← len_toAsciiLowercase t, eqIgnoreAsciiCase_iff.mp h, len_toAsciiLowercase]

theorem length_of_eqIgnoreAsciiCase (h : t.eqIgnoreAsciiCase u) : t.length = u.length := by
  have := congrArg List.length (eqIgnoreAsciiCase_iff.mp h)
  rwa [toAsciiLowercase, toAsciiLowercase, length_map, length_map] at this

theorem endsIgnoreAsciiCase_iff {mark : Text} : endsIgnoreAsciiCase mark t ↔
    ∃ u v, t = u ++ v ∧ v.eqIgnoreAsciiCase mark := by
  constructor
  · exact fun h => ⟨_, _, (take_append_drop _ t).symm, h⟩
  · rintro ⟨u, v, rfl, hv⟩
    unfold endsIgnoreAsciiCase
    rw [length_append, length_of_eqIgnoreAsciiCase hv, Nat.add_sub_cancel, drop_left, hv]

theorem take_front {v mark : Text} (hv : v.length = mark.length) :
    (u ++ v).take ((u ++ v).length - mark.length) = u := by
  rw [length_append, hv, Nat.add_sub_cancel, take_left]

theorem stripUnnamedDataStream_eq (name : Text) :
    stripUnnamedDataStream name = .ok (dataStripped name) := by
  unfold stripUnnamedDataStream dataStripped
  by_cases h : endsIgnoreAsciiCase MARK name
  · rw [if_pos h, if_pos h]
    obtain ⟨u, v, rfl, hv⟩ := endsIgnoreAsciiCase_iff.mp h
    rw [take_front (length_of_eqIgnoreAsciiCase hv), len_append, len_of_eqIgnoreAsciiCase hv,
      Nat.add_sub_cancel, sliceTo_append]
  · rw [if_neg h, if_neg h]

theorem normalizedWinBasename_eq (token : Text) :
    normalizedWinBasename token = .ok (winBasename token) := by
  unfold normalizedWinBasename winBasename
  simp only [stripUnnamedDataStream_eq]
  rfl

theorem hasWinExt_iff {ext : Text} : hasWinExt t ext ↔
    ∃ u w : Text, t = u ++ '.' :: w ∧ u ≠ [] ∧ w.eqIgnoreAsciiCase ext := by
  unfold hasWinExt
  rw [Bool.and_eq_true, decide_eq_true_eq, endsIgnoreAsciiCase_iff]
  constructor
  · rintro ⟨hlen, u, v, rfl, hv⟩
    have hv' := length_of_eqIgnoreAsciiCase hv
    rw [length_append, hv', length_cons] at hlen
    cases v with
    | nil => cases hv'
    | cons d w =>
      have hcons := List.cons.inj (eqIgnoreAsciiCase_iff.mp hv)
      have hd : d = '.' := toLower_eq_of_not_isLower rfl hcons.1
      refine ⟨u, w, by rw [hd], ?_, eqIgnoreAsciiCase_iff.mpr hcons.2⟩
      rintro rfl
      rw [length_nil] at hlen
      omega
  · rintro ⟨u, w, rfl, hu, hw⟩
    have hpos := length_pos_of_ne_nil hu
    refine ⟨?_, u, '.' :: w, rfl, ?_⟩
    · rw [length_append, length_cons, length_of_eqIgnoreAsciiCase hw]
      omega
    · rw [eqIgnoreAsciiCase_iff, toAsciiLowercase, toAsciiLowercase, map_cons, map_cons]
      exact congrArg _ (eqIgnoreAsciiCase_iff.mp hw)

theorem len_pos (h : t ≠ []) : 0 < t.len := by
  cases t with
  | nil => exact absurd rfl h
  | cons c t =>
    have := c.utf8Size_pos
    rw [len]
    omega

theorem len_dot (w : Text) : len ('.' :: w) = w.len + 1 := by
  rw [len, Nat.add_comm]
  rfl

theorem sliceFrom_behind_dot (u w : Text) : sliceFrom (u ++ '.' :: w) (u.len + 1) = .ok w := by
  have hlen : u.len + 1 = len (u ++ ['.']) := by
    rw [len_append, len_dot, len_nil]
  rw [hlen, ← singleton_append, ← append_assoc]
  exact sliceFrom_append _ w

theorem stripWinExtLoop_eq (t : Text) (exts : List Text) : stripWinExtLoop t exts =
    .ok (match exts.find? (hasWinExt t) with
      | some ext => t.take (t.length - (ext.length + 1))
      | none => t) := by
  induction exts with
  | nil => rfl
  | cons ext exts ih =>
    unfold stripWinExtLoop
    by_cases hext : hasWinExt t ext
    · obtain ⟨u, w, rfl, hu, hw⟩ := hasWinExt_iff.mp hext
      have hlen := len_append u ('.' :: w)
      rw [len_dot, len_of_eqIgnoreAsciiCase hw] at hlen
      have hpos := len_pos hu
      have hfront : len (u ++ '.' :: w) - ext.len - 1 = u.len := by omega
      have hguard : (ext.len + 1 < len (u ++ '.' :: w) &&
          byteIs (u ++ '.' :: w) (len (u ++ '.' :: w) - ext.len - 1) '.') := by
        rw [Bool.and_eq_true, decide_eq_true_eq, hfront, byteIs_iff]
        exact ⟨by omega, u, w, rfl, rfl⟩
      rw [if_pos hguard, hfront, show len (u ++ '.' :: w) - ext.len = u.len + 1 by omega,
        sliceFrom_behind_dot, find?_cons_of_pos hext]
      simp only [bind, Except.bind]
      rw [if_pos hw, sliceTo_append]
      exact congrArg _ (@take_front u ('.' :: w) ('.' :: ext)
        (by rw [length_cons, length_cons, length_of_eqIgnoreAsciiCase hw])).symm
    · rw [find?_cons_of_neg hext, ← ih]
      split_ifs with hguard
      · -- the dot stands there, so what follows it is not the extension
        rw [Bool.and_eq_true, decide_eq_true_eq, byteIs_iff] at hguard
        obtain ⟨hlt, u, w, rfl, hfront⟩ := hguard
        have hlen := len_append u ('.' :: w)
        rw [len_dot] at hlen
        rw [show len (u ++ '.' :: w) - ext.len = u.len + 1 by omega, sliceFrom_behind_dot]
        simp only [bind, Except.bind]
        rw [if_neg]
        intro hw
        refine hext (hasWinExt_iff.mpr ⟨u, w, rfl, ?_, hw⟩)
        rintro rfl
        rw [len_nil] at hfront
        omega
      · rfl

theorem stripWinExt_eq (t : Text) : stripWinExt t = .ok (winStem t) :=
  stripWinExtLoop_eq t WIN_EXE_EXTS

theorem findStem_eq (stem : Text) (shells : List Text) : findStem stem shells =
    .ok (shells.find? fun shell => stem.eqIgnoreAsciiCase (winStem shell)) := by
  induction shells with
  | nil => rfl
  | cons shell shells ih =>
    unfold findStem
    simp only [stripWinExt_eq, bind, Except.bind, find?_cons]
    by_cases h : stem.eqIgnoreAsciiCase (winStem shell)
    · rw [if_pos h, h]
      rfl
    · rw [if_neg h, eq_false_of_ne_true h, ih]

theorem listedShell_eq (base : Text) : listedShell base = .ok (listedName base) := by
  unfold listedShell listedName
  cases SHELL_INTERPRETERS_DENY.find? fun shell => base.eqIgnoreAsciiCase shell with
  | some shell => rfl
  | none =>
    simp only [stripWinExt_eq, findStem_eq, bind, Except.bind, Option.none_or]
    split_ifs <;> rfl

theorem isPowershellShortName_eq (base : Text) :
    isPowershellShortName base = .ok (shortPowershell base) := by
  unfold isPowershellShortName shortPowershell
  rw [stripWinExt_eq]
  rfl

theorem shellInterpreterDenied_eq (argv0 : Text) :
    shellInterpreterDenied argv0 = .ok (interpreterOf argv0) := by
  unfold shellInterpreterDenied interpreterOf
  simp only [normalizedWinBasename_eq, listedShell_eq, isPowershellShortName_eq, bind, Except.bind]
  by_cases hempty : (winBasename argv0).isEmpty
  · rw [if_pos hempty, if_pos hempty]
    rfl
  · rw [if_neg hempty, if_neg hempty]
    cases listedName (winBasename argv0) with
    | some shell => rfl
    | none =>
      dsimp only [pure, Except.pure]
      rw [Option.none_or]

theorem isWslCarrier_eq (argv0 : Text) : isWslCarrier argv0 = .ok (namesWsl argv0) := by
  unfold isWslCarrier
  rw [normalizedWinBasename_eq]
  rfl

theorem shellWrapper_eq (token : Text) : shellWrapper token = .ok (wrapperOf token) := by
  unfold shellWrapper
  simp only [normalizedWinBasename_eq, stripWinExt_eq, bind, Except.bind]
  rfl

end ShellDeny

end TerminalCommander
