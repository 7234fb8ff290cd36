import TerminalCommander.Core.OsGuard.Line

/-!
# The failsafe scan

`argv_deletion_hit` and `shell_line_deletion_hit` of `core/src/os_guard.rs`. A command is unwrapped;
an interpreter's payload, a `su -c` line, an `eval` or a substitution is scanned one level deeper, as
a task of its own, up to `MAX_NESTING` levels.
-/

namespace TerminalCommander

namespace OsGuard

open ShellDeny

def MAX_NESTING : Nat := 16

def WSL_VALUE_OPTS : List Text :=
  ["-d", "--distribution", "--distribution-id", "-u", "--user", "--cd", "--shell-type"].map
    String.toList

structure OsGuardHit where
  op : Text
  path : Text
  deriving DecidableEq

inductive Task where
  | argv (words : List Text) (cwd : Option Text)
  | line (text : Text) (grammar : Grammar) (cwd : Option Text)

abbrev Deeper := Task → Checked (Option OsGuardHit)

/-! ## Operands -/

def pathCandidate (operand : Text) : Option Text :=
  if isFlag operand then pwshFlagValue operand else some operand

def operandHit (host : Host) (cwd : Option Text) (operand : Text) :
    DestructiveKind → Checked (Option Text)
  | .pathOperands =>
    match pathCandidate operand with
    | none => .ok none
    | some candidate => do
      return if ← operandIsProtected host candidate cwd then some candidate else none
  | .ddOutfile =>
    match operand.stripPrefix "of=".toList with
    | none => .ok none
    | some target =>
      if isDiskDevice target then .ok (some target)
      else do return if ← isOsCriticalPath host target then some target else none
  | .format =>
    if isFlag operand then .ok none
    else do return if ← isOsCriticalPath host operand then some operand else none
  | .cipher =>
    match (operand.stripPrefix "/w:".toList).or (operand.stripPrefix "/W:".toList) with
    | none => .ok none
    | some target => do return if ← isOsCriticalPath host target then some target else none

def operandsHit (host : Host) (kind : DestructiveKind) (cwd : Option Text) :
    List Text → Checked (Option Text)
  | [] => .ok none
  | operand :: operands => do
    match ← operandHit host cwd operand kind with
    | some path => return some path
    | none => operandsHit host kind cwd operands

/-! ## Commands -/

def wslWord (word : Text) : Text :=
  if word.isEmpty || word.any fun c => [' ', '\t', '"'].contains c then
    '"' :: word.flatMap (fun c => if c = '"' then ['\\', '"'] else [c]) ++ ['"']
  else word

def wslLine (args : List Text) (index : Nat) (cwd : Option Text) : Checked Task := do
  let words ← Checked.sliceFrom args (min index args.length)
  return .line (Text.join [' '] (words.map wslWord)) .posix cwd

def wslLoop (args : List Text) : Nat → Option Text → List Text → Checked Task
  | index, cwd, [] => wslLine args index cwd
  | index, cwd, arg :: rest =>
    let lower := arg.toAsciiLowercase
    if lower = "-e".toList ∨ lower = "--exec".toList then do
      return .argv (← Checked.sliceFrom args (index + 1)) cwd
    else if lower = "--".toList then wslLine args (index + 1) cwd
    else if !startsDash arg then wslLine args index cwd
    else if WSL_VALUE_OPTS.contains lower then
      match rest with
      | [] => wslLine args (index + 2) (if lower = "--cd".toList then none else cwd)
      | value :: rest =>
        wslLoop args (index + 2)
          (if lower = "--cd".toList then resolveDir value cwd else cwd) rest
    else wslLoop args (index + 1) cwd rest

def wslHit (deeper : Deeper) (args : List Text) (cwd : Option Text) :
    Checked (Option OsGuardHit) := do
  deeper (← wslLoop args 0 cwd args)

def realHit (host : Host) (deeper : Deeper) (cwd : Option Text) :
    List Text → Checked (Option OsGuardHit)
  | [] => .ok none
  | nameTok :: operands => do
    match ← shellInterpreterDenied nameTok with
    | some shell =>
      match ← interpreterPayload shell operands with
      | none => return none
      | some (grammar, payload) => deeper (.line payload grammar cwd)
    | none =>
      if ← isWslCarrier nameTok then wslHit deeper operands cwd
      else
        let name := commandBasename nameTok
        match classify name with
        | none => return none
        | some kind => return (← operandsHit host kind cwd operands).map fun path => ⟨name, path⟩

def argvHit (host : Host) (deeper : Deeper) (argv : List Text) (cwd : Option Text) :
    Checked (Option OsGuardHit) := do
  let (unwrapped, cwd) ← unwrapLaunchers argv cwd
  match unwrapped with
  | .line line => deeper (.line line .posix cwd)
  | .argv real => realHit host deeper cwd real

/-! ## Lines -/

def enterLevel (cwd : Option Text) (saved : List (Option Text)) (level : Nat) :
    Option Text × List (Option Text) :=
  if saved.length < level then (cwd, List.replicate (level - saved.length) cwd ++ saved)
  else if level < saved.length then
    (((saved.drop (saved.length - level - 1)).head?).join, saved.drop (saved.length - level))
  else (cwd, saved)

def commandWords (grammar : Grammar) (command : List Text) : Checked (List Text) :=
  if grammar = .posix then
    Checked.sliceFrom command
      ((command.findIdx? fun word => !POSIX_RESERVED.contains word).getD command.length)
  else .ok command

def commandsHit (deeper : Deeper) (grammar : Grammar) :
    Option Text → List (Option Text) → List (Nat × List Text) → Checked (Option OsGuardHit)
  | _, _, [] => .ok none
  | cwd, saved, (level, command) :: commands => do
    let (cwd, saved) := if grammar = .posix then enterLevel cwd saved level else (cwd, saved)
    match ← commandWords grammar command with
    | [] => commandsHit deeper grammar cwd saved commands
    | first :: args =>
      let head := commandBasename first
      if grammar = .posix ∧ head = "eval".toList then
        match ← deeper (.line (Text.join [' '] args) grammar cwd) with
        | some hit => return some hit
        | none => commandsHit deeper grammar cwd saved commands
      else if changesDir head grammar then
        commandsHit deeper grammar ((cdTarget args grammar).bind fun dir => resolveDir dir cwd) saved
          commands
      else
        match ← deeper (.argv (first :: args) cwd) with
        | some hit => return some hit
        | none => commandsHit deeper grammar cwd saved commands

def nestedHit (deeper : Deeper) (grammar : Grammar) (cwd : Option Text) :
    List Text → Checked (Option OsGuardHit)
  | [] => .ok none
  | nested :: more => do
    match ← deeper (.line nested grammar cwd) with
    | some hit => return some hit
    | none => nestedHit deeper grammar cwd more

def lineHit (deeper : Deeper) (line : Text) (grammar : Grammar) (cwd : Option Text) :
    Checked (Option OsGuardHit) := do
  let split ← splitLine line grammar
  match ← nestedHit deeper grammar cwd split.nested with
  | some hit => return some hit
  | none => commandsHit deeper grammar cwd [] split.commands

/-! ## The scan -/

def scan (host : Host) : Nat → Task → Checked (Option OsGuardHit)
  | 0, _ => .ok none
  | levels + 1, .argv words cwd => argvHit host (scan host levels) words cwd
  | levels + 1, .line text grammar cwd => lineHit (scan host levels) text grammar cwd

def argvDeletionHit (host : Host) (argv : List Text) (cwd : Option Text) :
    Checked (Option OsGuardHit) := scan host (MAX_NESTING + 1) (.argv argv cwd)

def shellLineDeletionHit (host : Host) (line shell : Text) (cwd : Option Text) :
    Checked (Option OsGuardHit) := scan host (MAX_NESTING + 1) (.line line (.ofShell shell) cwd)

/-! ## The plain functions -/

def refuse (refused : Text → Bool) (target : Text) : Option Text :=
  if refused target then some target else none

def targetOf (host : Host) (kind : DestructiveKind) (cwd : Option Text) (operand : Text) :
    Option Text :=
  match kind with
  | .pathOperands => (pathCandidate operand).bind (refuse fun path => protects host path cwd)
  | .ddOutfile =>
    (operand.stripPrefix "of=".toList).bind
      (refuse fun target => isDiskDevice target || critical host target)
  | .format => if isFlag operand then none else refuse (critical host) operand
  | .cipher =>
    ((operand.stripPrefix "/w:".toList).or (operand.stripPrefix "/W:".toList)).bind
      (refuse (critical host))

theorem operandHit_eq (host : Host) (cwd : Option Text) (operand : Text) (kind : DestructiveKind) :
    operandHit host cwd operand kind = .ok (targetOf host kind cwd operand) := by
  cases kind with
  | pathOperands =>
    dsimp only [operandHit, targetOf]
    cases pathCandidate operand with
    | none => rfl
    | some candidate =>
      dsimp only
      rw [operandIsProtected_eq]
      rfl
  | ddOutfile =>
    dsimp only [operandHit, targetOf]
    cases operand.stripPrefix "of=".toList with
    | none => rfl
    | some target =>
      dsimp only [Option.bind_some, refuse]
      rw [isOsCriticalPath_eq]
      by_cases hdisk : isDiskDevice target
      · rw [if_pos hdisk, if_pos (by rw [hdisk, Bool.true_or])]
      · simp only [eq_false_of_ne_true hdisk, Bool.false_or]
        rfl
  | format =>
    dsimp only [operandHit, targetOf]
    rw [isOsCriticalPath_eq]
    split_ifs <;> rfl
  | cipher =>
    dsimp only [operandHit, targetOf]
    cases (operand.stripPrefix "/w:".toList).or (operand.stripPrefix "/W:".toList) with
    | none => rfl
    | some target =>
      dsimp only
      rw [isOsCriticalPath_eq]
      rfl

theorem operandsHit_eq (host : Host) (kind : DestructiveKind) (cwd : Option Text)
    (operands : List Text) :
    operandsHit host kind cwd operands = .ok (operands.findSome? (targetOf host kind cwd)) := by
  induction operands with
  | nil => rfl
  | cons operand operands ih =>
    rw [operandsHit, operandHit_eq, ih, List.findSome?_cons]
    cases targetOf host kind cwd operand <;> rfl

end OsGuard

end TerminalCommander
