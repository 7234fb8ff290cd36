import TerminalCommander.Core.OsGuard.Path
import TerminalCommander.Core.ShellDeny.Launched

/-!
# Launchers

`unwrap_launchers` of `core/src/os_guard.rs`: escalators (`sudo`, `su`, ...), the applet word
`busybox` and the wrappers of `ShellDeny` are peeled off a command in any order, and the words that
were peeled are read for a change of directory.
-/

namespace TerminalCommander

namespace OsGuard

open ShellDeny List Checked Nat

def ESCALATORS : List Launcher :=
  [launcher "sudo" "aCcDgpRrTtUu"
      ["chdir", "chroot", "close-from", "command-timeout", "group", "host", "other-user", "prompt",
        "role", "type", "user"] (Eq.refl true),
    launcher "doas" "Cu" [] (Eq.refl true),
    launcher "su" "cgGsw"
      ["command", "group", "session-command", "shell", "supp-group", "whitelist-environment"] (Eq.refl true),
    launcher "pkexec" "" ["user"] (Eq.refl true),
    launcher "run0" "Dgu"
      ["background", "chdir", "description", "group", "machine", "nice", "property", "setenv",
        "slice", "unit", "user"] (Eq.refl true),
    launcher "chroot" "" ["groups", "userspec"] (Eq.refl true)]

def DELETE_COMMANDS : List Text :=
  ["rm", "rmdir", "unlink", "shred", "srm", "del", "erase", "rd", "remove-item", "ri"].map
    String.toList

def WIPE_COMMANDS : List Text := ["wipefs"].map String.toList

inductive DestructiveKind where
  | pathOperands | ddOutfile | format | cipher
  deriving DecidableEq, Repr

def classify (name : Text) : Option DestructiveKind :=
  if DELETE_COMMANDS.contains name || WIPE_COMMANDS.contains name || "mkfs".toList.isPrefixOf name
  then some .pathOperands
  else if name = "dd".toList then some .ddOutfile
  else if name = "format".toList then some .format
  else if name = "cipher".toList then some .cipher
  else none

def commandBasename (token : Text) : Text :=
  let base := (token.behindLast isSeparator).trimEndMatches isDotOrSpace
  let lower := base.toAsciiLowercase
  (([".exe", ".com", ".bat", ".cmd"].map String.toList).findSome? fun ext =>
    lower.stripSuffix ext).getD lower

def startsDash (token : Text) : Bool := token.head? == some '-'

inductive Unwrapped where
  | argv (words : List Text)
  | line (text : Text)
  deriving DecidableEq

/-! ## Directories -/

def resolveDir (dir : Text) (cwd : Option Text) : Option Text :=
  if isUnresolvable dir then none
  else
    let plain := dir.replaceChar '\\' '/'
    if plain.head? = some '/' || hasDrive plain then some dir
    else cwd.map fun cwd => cwd ++ '/' :: dir

def chdirLoop (short : Option Text) : Option Text → List Text → Option Text
  | dir, [] => dir
  | dir, tok :: rest =>
    match tok.stripPrefix "--chdir=".toList with
    | some value => chdirLoop short (some value) rest
    | none =>
      if tok = "--chdir".toList ∨ some tok = short then
        match rest with
        | [] => none
        | value :: rest => chdirLoop short (some value) rest
      else
        match short.bind fun s => tok.stripPrefix s with
        | some (c :: value) => chdirLoop short (some (c :: value)) rest
        | _ => chdirLoop short dir rest

def launcherChdir (front : List Text) (cwd : Option Text) : Option Text :=
  let head := (front.head?.map commandBasename).getD []
  if head = "chroot".toList then
    (front.tail.find? fun t => !startsDash t).bind fun dir => resolveDir dir cwd
  else
    let short :=
      if head = "sudo".toList ∨ head = "run0".toList then some "-D".toList
      else if head = "env".toList then some "-C".toList
      else none
    match chdirLoop short none front.tail with
    | none => cwd
    | some dir => resolveDir dir cwd

/-! ## Escalators -/

def lineValue : Option ValueOption → Option Text
  | some (key, some line) =>
    if key ∈ ["c".toList, "command".toList, "session-command".toList] then some line else none
  | _ => none

def suLoop (argv : List Text) (w : Launcher) : Nat → List Text → Checked (Option Text)
  | _, [] => .ok none
  | index, tok :: rest =>
    if tok = "--".toList then .ok none
    else if !startsDash tok then suLoop argv w (index + 1) rest
    else do
      let (option, next) ← wrapperOption argv index w
      match lineValue option with
      | some line => return some line
      | none =>
        if next = index + 1 then suLoop argv w next rest
        else
          match rest with
          | [] => return none
          | _ :: rest => suLoop argv w next rest

def suCommand (argv : List Text) (w : Launcher) : Checked (Option Text) := suLoop argv w 1 argv.tail

def skipOptions (argv : List Text) (w : Launcher) : Nat → List Text → Checked Nat
  | index, [] => .ok index
  | index, tok :: rest =>
    if tok = "--".toList then .ok (index + 1)
    else if !startsDash tok then .ok index
    else do
      let (_, next) ← wrapperOption argv index w
      if next = index + 1 then skipOptions argv w next rest
      else
        match rest with
        | [] => return next
        | _ :: rest => skipOptions argv w next rest

def skipsOperand (w : Launcher) (operand : Option Text) : Bool :=
  w.name == "chroot".toList ||
    (w.name == "su".toList && operand.any fun tok => (classify (commandBasename tok)).isNone)

def escalatorOf (token : Text) : Option Launcher :=
  ESCALATORS.find? fun w => w.name == commandBasename token

def escalatorLine (argv : List Text) (w : Launcher) : Checked (Option Text) :=
  if w.name = "su".toList then suCommand argv w else .ok none

def behindEscalator (argv : List Text) (w : Launcher) : Checked (List Text) := do
  let i ← skipOptions argv w 1 argv.tail
  let i := if skipsOperand w argv[i]? then i + 1 else i
  Checked.sliceFrom argv (min i argv.length)

def stripEscalator (argv : List Text) : Checked (Option Unwrapped) :=
  match argv.head?.bind escalatorOf with
  | none => .ok none
  | some w => do
    match ← escalatorLine argv w with
    | some line => return some (.line line)
    | none => return some (.argv (← behindEscalator argv w))

/-! ## Unwrapping -/

def isApplet : List Text → Bool
  | first :: second :: _ => commandBasename first == "busybox".toList && !startsDash second
  | _ => false

def unwrapLoop : Nat → List Text → Option Text → Checked (Unwrapped × Option Text)
  | 0, _, _ => .error .fuel
  | fuel + 1, real, cwd => do
    match ← stripEscalator real with
    | some (.argv rest) =>
      let front ← Checked.sliceTo real (← Checked.sub real.length rest.length)
      unwrapLoop fuel rest (launcherChdir front cwd)
    | some (.line line) => return (.line line, cwd)
    | none =>
      if isApplet real then unwrapLoop fuel real.tail cwd
      else do
        let launched ← launchedArgv real
        if launched.isEmpty || launched == real then return (.argv real, cwd)
        else do
          let front ← Checked.sliceTo real (← Checked.sub real.length launched.length)
          unwrapLoop fuel launched (launcherChdir front cwd)

def unwrapLaunchers (argv : List Text) (cwd : Option Text) : Checked (Unwrapped × Option Text) :=
  unwrapLoop (weight argv + 1) argv cwd

/-! ## The plain functions -/

def suLineOf (w : Launcher) : List Text → Option Text
  | [] => none
  | tok :: rest =>
    if tok = "--".toList then none
    else if !startsDash tok then suLineOf w rest
    else
      match lineValue (optionWith w tok rest.head?) with
      | some line => some line
      | none =>
        if optionWords w tok = 1 then suLineOf w rest
        else
          match rest with
          | [] => none
          | _ :: rest => suLineOf w rest

def afterOptions (w : Launcher) : List Text → List Text
  | [] => []
  | tok :: rest =>
    if tok = "--".toList then rest
    else if !startsDash tok then tok :: rest
    else if optionWords w tok = 1 then afterOptions w rest
    else
      match rest with
      | [] => []
      | _ :: rest => afterOptions w rest

def suLineFirst (w : Launcher) (rest : List Text) : Option Text :=
  if w.name = "su".toList then suLineOf w rest else none

def commandBehind (w : Launcher) (rest : List Text) : List Text :=
  if skipsOperand w (afterOptions w rest).head? then (afterOptions w rest).tail
  else afterOptions w rest

def escalated (argv : List Text) : Option Unwrapped :=
  match argv.head?.bind escalatorOf with
  | none => none
  | some w =>
    match suLineFirst w argv.tail with
    | some line => some (.line line)
    | none => some (.argv (commandBehind w argv.tail))

def peel (real : List Text) : Option Unwrapped :=
  match escalated real with
  | some step => some step
  | none =>
    if isApplet real then some (.argv real.tail)
    else if (launchedWords real).isEmpty || launchedWords real == real then none
    else some (.argv (launchedWords real))

/-! ## The specifications -/

theorem suLoop_eq (w : Launcher) (rest front : List Text) :
    suLoop (front ++ rest) w front.length rest = .ok (suLineOf w rest) := by
  refine read_induction
    (P := fun argv index rest => suLoop argv w index rest = .ok (suLineOf w rest)) ?_ ?_ rest front
  · intro argv
    unfold suLoop suLineOf
    rfl
  · intro front tok rest hnext hbehind
    obtain ⟨htok, hvalue⟩ := getElem?_behind front tok rest
    unfold suLoop suLineOf
    by_cases hend : tok = "--".toList
    · rw [if_pos hend, if_pos hend]
    rw [if_neg hend, if_neg hend]
    by_cases hdash : (!startsDash tok)
    · rw [if_pos hdash, if_pos hdash]
      exact hnext
    rw [if_neg hdash, if_neg hdash, wrapperOption_eq htok w, hvalue]
    simp only [bind, Except.bind]
    cases lineValue (optionWith w tok rest.head?) with
    | some line => rfl
    | none =>
      dsimp only
      rcases optionWords_cases w tok with hone | htwo
      · rw [hone, if_pos rfl, if_pos rfl]
        exact hnext
      · rw [htwo, if_neg (by omega), if_neg (by omega)]
        cases rest with
        | nil => rfl
        | cons value rest => exact hbehind value rest rfl

theorem skipOptions_eq (w : Launcher) (rest front : List Text) :
    ∃ i, skipOptions (front ++ rest) w front.length rest = .ok i ∧
      (front ++ rest).drop i = afterOptions w rest := by
  refine read_induction (P := fun argv index rest => ∃ i,
    skipOptions argv w index rest = .ok i ∧ argv.drop i = afterOptions w rest) ?_ ?_ rest front
  · intro argv
    unfold skipOptions afterOptions
    exact ⟨argv.length, rfl, drop_length⟩
  · intro front tok rest hnext hbehind
    obtain ⟨htok, hvalue⟩ := getElem?_behind front tok rest
    unfold skipOptions afterOptions
    by_cases hend : tok = "--".toList
    · rw [if_pos hend, if_pos hend]
      exact ⟨_, rfl, by simp [drop_append]⟩
    rw [if_neg hend, if_neg hend]
    by_cases hdash : (!startsDash tok)
    · rw [if_pos hdash, if_pos hdash]
      exact ⟨_, rfl, by simp⟩
    rw [if_neg hdash, if_neg hdash, wrapperOption_eq htok w]
    simp only [bind, Except.bind]
    rcases optionWords_cases w tok with hone | htwo
    · rw [hone, if_pos rfl, if_pos rfl]
      exact hnext
    · rw [htwo, if_neg (by omega), if_neg (by omega)]
      cases rest with
      | nil => exact ⟨_, rfl, by simp [drop_append]⟩
      | cons value rest => exact hbehind value rest rfl

theorem drop_min (i : Nat) (argv : List Text) : argv.drop (min i argv.length) = argv.drop i := by
  rcases le_total i argv.length with h | h
  · rw [min_eq_left h]
  · rw [min_eq_right h, drop_length, drop_eq_nil_of_le h]

theorem behindEscalator_eq (w : Launcher) (first : Text) (rest : List Text) :
    behindEscalator (first :: rest) w = .ok (commandBehind w rest) := by
  obtain ⟨i, hi, hdrop⟩ := skipOptions_eq w rest [first]
  have hget : (first :: rest)[i]? = (afterOptions w rest).head? := by
    rw [← hdrop, head?_drop]
    rfl
  unfold behindEscalator commandBehind
  rw [show skipOptions (first :: rest) w 1 (first :: rest).tail = .ok i from hi]
  simp only [bind, Except.bind]
  rw [hget, sliceFrom_of_le (min_le_right _ _), drop_min]
  split_ifs
  · rw [← hdrop, ← drop_one, drop_drop]
    rfl
  · rw [← hdrop]
    rfl

theorem stripEscalator_eq (argv : List Text) : stripEscalator argv = .ok (escalated argv) := by
  unfold stripEscalator escalated
  cases argv with
  | nil => rfl
  | cons first rest =>
    cases (first :: rest).head?.bind escalatorOf with
    | none => rfl
    | some w =>
      have hline : escalatorLine (first :: rest) w = .ok (suLineFirst w rest) := by
        unfold escalatorLine suLineFirst
        split_ifs
        · exact suLoop_eq w rest [first]
        · rfl
      simp only [hline, behindEscalator_eq, bind, Except.bind, tail_cons]
      cases suLineFirst w rest <;> rfl

theorem afterOptions_suffix (w : Launcher) (rest : List Text) : afterOptions w rest <:+ rest := by
  induction hlen : rest.length using Nat.strong_induction_on generalizing rest with
  | _ n ih =>
    cases rest with
    | nil => exact suffix_rfl
    | cons tok rest =>
      subst hlen
      have hnext := (ih rest.length (Nat.lt_succ_self _) rest rfl).trans (suffix_cons tok rest)
      unfold afterOptions
      split_ifs
      · exact suffix_cons tok rest
      · exact suffix_rfl
      · exact hnext
      · cases rest with
        | nil => exact nil_suffix
        | cons value rest =>
          have h := ih rest.length (by simp only [length_cons]; omega) rest rfl
          exact h.trans ((suffix_cons value rest).trans (suffix_cons tok _))

variable {rest : List Text}

theorem escalated_suffix {argv : List Text} (h : escalated argv = some (.argv rest)) :
    ∃ first more, argv = first :: more ∧ rest <:+ more := by
  unfold escalated at h
  cases argv with
  | nil => cases h
  | cons first more =>
    refine ⟨first, more, rfl, ?_⟩
    cases hw : (first :: more).head?.bind escalatorOf with
    | none =>
      rw [hw] at h
      cases h
    | some w =>
      simp only [hw, tail_cons] at h
      cases hline : suLineFirst w more with
      | some line =>
        rw [hline] at h
        cases h
      | none =>
        rw [hline] at h
        cases h
        unfold commandBehind
        split_ifs
        · exact (tail_suffix _).trans (afterOptions_suffix w more)
        · exact afterOptions_suffix w more

theorem weight_suffix_le {argv : List Text} (h : rest <:+ argv) : weight rest ≤ weight argv := by
  obtain ⟨front, rfl⟩ := h
  rw [weight_append]
  omega

theorem weight_peel {real : List Text} (h : peel real = some (.argv rest)) :
    weight rest < weight real := by
  unfold peel at h
  cases hesc : escalated real with
  | some step =>
    rw [hesc] at h
    cases h
    obtain ⟨first, more, rfl, hsuffix⟩ := escalated_suffix hesc
    have := weight_suffix_le hsuffix
    rw [weight_cons]
    omega
  | none =>
    rw [hesc] at h
    dsimp only at h
    split_ifs at h with happlet hstable
    · cases h
      cases real with
      | nil => cases happlet
      | cons first more =>
        rw [tail_cons, weight_cons]
        omega
    · cases h
      refine (launchedWords_cases real).resolve_left fun heq => hstable ?_
      rw [heq, beq_self_eq_true, Bool.or_true]

theorem peel_eq_launched {first : Text} (hesc : escalatorOf first = none)
    (hbusybox : commandBasename first ≠ "busybox".toList) (rest : List Text) :
    peel (first :: rest) =
      if (launchedWords (first :: rest)).isEmpty || launchedWords (first :: rest) == first :: rest
      then none
      else some (.argv (launchedWords (first :: rest))) := by
  have happlet : isApplet (first :: rest) = false := by
    unfold isApplet
    cases rest with
    | nil => rfl
    | cons second rest =>
      dsimp only
      rw [beq_eq_false_iff_ne.mpr hbusybox, Bool.false_and]
  unfold peel escalated
  rw [head?_cons, Option.bind_some, hesc]
  dsimp only
  rw [happlet, if_neg Bool.false_ne_true]

/-! ## Rounds -/

theorem launcherChdir_applet {first second : Text}
    (h : isApplet (first :: second :: rest)) (cwd : Option Text) :
    launcherChdir [first] cwd = cwd := by
  unfold isApplet at h
  rw [Bool.and_eq_true, beq_iff_eq] at h
  unfold launcherChdir
  simp only [head?_cons, Option.map_some, Option.getD_some, h.1]
  rfl

def peeledFront (real rest : List Text) : List Text := real.take (real.length - rest.length)

theorem unwrapLoop_succ (fuel : Nat) (real : List Text) (cwd : Option Text) :
    unwrapLoop (fuel + 1) real cwd =
      match peel real with
      | none => .ok (.argv real, cwd)
      | some (.line line) => .ok (.line line, cwd)
      | some (.argv rest) =>
        if rest.length ≤ real.length then
          unwrapLoop fuel rest (launcherChdir (peeledFront real rest) cwd)
        else .error .underflow := by
  -- the words behind a step, wherever they come from
  have hstep : ∀ rest : List Text, (do
        let front ← sliceTo real (← sub real.length rest.length)
        unwrapLoop fuel rest (launcherChdir front cwd)) =
      if rest.length ≤ real.length then
        unwrapLoop fuel rest (launcherChdir (peeledFront real rest) cwd)
      else .error .underflow := by
    intro rest
    by_cases hle : rest.length ≤ real.length
    · rw [if_pos hle, sub_of_le hle]
      simp only [bind, Except.bind, sliceTo_of_le (sub_le _ _)]
      rfl
    · rw [if_neg hle, sub, if_neg hle]
      rfl
  unfold peel
  rw [unwrapLoop, stripEscalator_eq, launchedArgv_eq]
  cases escalated real with
  | some step =>
    cases step with
    | argv rest => exact hstep rest
    | line line => rfl
  | none =>
    dsimp only [bind, Except.bind]
    by_cases happlet : isApplet real
    · rw [if_pos happlet, if_pos happlet]
      dsimp only
      cases real with
      | nil => cases happlet
      | cons first more =>
        cases more with
        | nil => cases happlet
        | cons second rest =>
          have hfront : peeledFront (first :: second :: rest) (second :: rest) = [first] := by
            simp [peeledFront]
          rw [tail_cons, if_pos (by simp), hfront, launcherChdir_applet happlet]
    · rw [if_neg happlet, if_neg happlet]
      by_cases hstable : ((launchedWords real).isEmpty || launchedWords real == real)
      · rw [if_pos hstable, if_pos hstable]
        rfl
      · rw [if_neg hstable, if_neg hstable]
        exact hstep (launchedWords real)

end OsGuard

end TerminalCommander
