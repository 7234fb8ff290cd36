import TerminalCommander.Core.ShellDeny.Names

/-!
# The command deny set

`COMMANDS_DENY` of `daemon/src/policy.rs` and the scan of a shell line for it,
`denied_command_in_shell_line`. The scan is one loop over the characters with the word read so far
and five flags; it stops at the first word in command position that is on the list. An assignment, a
prefix word such as `env` and the options behind it leave the command position open.
-/

namespace TerminalCommander

namespace Policy

open ShellDeny

def COMMANDS_DENY : List Text :=
  ["sudo", "doas", "su", "pkexec", "kexec", "polkit-agent", "polkit-auth-agent-1"].map
    String.toList

def SHELL_COMMAND_PREFIX_WORDS : List Text :=
  ["command", "exec", "env", "nohup", "time"].map String.toList

def deniedCommandBasename (command : Text) : Option Text :=
  let basename := command.behindLast isSeparator
  let basename := if basename.isEmpty then command else basename
  COMMANDS_DENY.find? (· == basename)

structure LineState where
  word : Text := []
  inSingle : Bool := false
  inDouble : Bool := false
  inComment : Bool := false
  expectCommand : Bool := true
  prefixActive : Bool := false
  skipRedirectTarget : Bool := false
  deriving DecidableEq

namespace LineState

def pushChar (s : LineState) (c : Char) : LineState := { s with word := s.word ++ [c] }

def openCommand (s : LineState) : LineState :=
  { s with expectCommand := true, prefixActive := false }

end LineState

def finishShellWord (s : LineState) : Except Text LineState :=
  let current := s.word
  let s := { s with word := [] }
  if current.isEmpty then .ok s
  else if s.skipRedirectTarget then .ok { s with skipRedirectTarget := false }
  else if !s.expectCommand then .ok s
  else if isEnvAssignment current then .ok s
  else
    match deniedCommandBasename current with
    | some denied => .error denied
    | none =>
      if SHELL_COMMAND_PREFIX_WORDS.contains current then .ok { s with prefixActive := true }
      else if s.prefixActive && "-".toList.isPrefixOf current then .ok s
      else .ok { s with expectCommand := false, prefixActive := false }

def isRedirect (c : Char) : Bool := c == '<' || c == '>'

def shellLineLoop (s : LineState) : Text → Except Text LineState
  | [] => finishShellWord s
  | ch :: rest =>
    if s.inComment then
      shellLineLoop (if ch == '\n' then { s.openCommand with inComment := false } else s) rest
    else if s.inSingle then
      shellLineLoop (if ch == '\'' then { s with inSingle := false } else s.pushChar ch) rest
    else if ch == '\\' then
      match rest with
      | [] => finishShellWord s
      | next :: rest => shellLineLoop (s.pushChar next) rest
    else if ch == '$' && rest.head? == some '(' then
      match rest with
      | [] => finishShellWord s
      | _ :: rest => do shellLineLoop (← finishShellWord s).openCommand rest
    else if s.inDouble then
      shellLineLoop (if ch == '"' then { s with inDouble := false } else s.pushChar ch) rest
    else if ch == '\'' then shellLineLoop { s with inSingle := true } rest
    else if ch == '"' then shellLineLoop { s with inDouble := true } rest
    else if ch == '#' && s.word.isEmpty then shellLineLoop { s with inComment := true } rest
    else if "\n;|&()".toList.contains ch then do
      shellLineLoop (← finishShellWord s).openCommand rest
    else if isRedirect ch then do
      let s := { ← finishShellWord s with skipRedirectTarget := true }
      -- a second angle bracket and an ampersand belong to the operator
      match rest with
      | [] => finishShellWord s
      | next :: behind =>
        if isRedirect next then
          match behind with
          | '&' :: behind => shellLineLoop s behind
          | behind => shellLineLoop s behind
        else if next == '&' then shellLineLoop s behind
        else shellLineLoop s (next :: behind)
    else if ch.isDigit && s.word.isEmpty && rest.head?.any isRedirect then
      let s := { s with skipRedirectTarget := true }
      match rest with
      | [] => finishShellWord s
      | _ :: '&' :: behind => shellLineLoop s behind
      | _ :: behind => shellLineLoop s behind
    else if whiteSpace ch then do shellLineLoop (← finishShellWord s) rest
    else shellLineLoop (s.pushChar ch) rest

def deniedCommandInShellLine (shellLine : Text) : Option Text :=
  match shellLineLoop {} shellLine with
  | .ok _ => none
  | .error denied => some denied

example : deniedCommandInShellLine "A=1 env -i /usr/bin/sudo ls".toList = some "sudo".toList := by
  decide +kernel

end Policy

end TerminalCommander
