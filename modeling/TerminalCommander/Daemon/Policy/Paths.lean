import TerminalCommander.Core.OsGuard.Path
import TerminalCommander.Daemon.Policy.Canonical

/-!
# Paths of the policy

The paths that `daemon/src/policy.rs` judges, as texts with the rules of `std::path` on Unix, and
the lists of globs they are matched with. The regular expression of a glob is a list of tokens:
`globToRegex` makes the only four forms that `glob_to_regex_src` emits, and `isMatch` gives them the
meaning they have in an anchored regular expression.
-/

namespace TerminalCommander

namespace Policy

open LexicalPath OsGuard

/-! ## Texts and components -/

def segments (path : Text) : List (Component Text) := (path.splitOn '/').map componentOf

def segmentText : Component Text → Text
  | .here => ".".toList
  | .parent => "..".toList
  | .name a => a

def display (path : AbsPath) : Text := '/' :: Text.join ['/'] (path.map segmentText)

def withoutDots (path : List (Component Text)) : List (Component Text) :=
  path.filter fun c => !AbsPath.isHere c

def pathComponents : Text → List (Component Text)
  | [] => []
  | '/' :: path => .name ['/'] :: withoutDots (segments path)
  | path =>
    match segments path with
    | [] => []
    | c :: cs => c :: withoutDots cs

def fileName (path : Text) : Option Text :=
  match (withoutDots (segments path)).getLast? with
  | some (.name a) => some a
  | _ => none

def startsWith (path base : Text) : Bool := (pathComponents base).isPrefixOf (pathComponents path)

/-! ## The machine -/

structure Machine where
  tree : FileTree
  cwd : List Text
  systemDrive : Option Text

namespace Machine

def host (m : Machine) : Host := ⟨false, m.systemDrive⟩

def climbRelative (m : Machine) : List (Component Text) → List Text → Option (List Text)
  | [], _ => none
  | c :: rest, tail =>
    if AbsPath.isHere c then m.climbRelative rest tail
    else if rest.isEmpty then none
    else
      match m.tree.walk m.cwd (AbsPath.trimEnd rest.reverse) with
      | some base => some (base ++ (AbsPath.fileName c ++ tail))
      | none => m.climbRelative rest (AbsPath.fileName c ++ tail)

def canonicalize (m : Machine) : Text → Option Text
  | [] => none
  | '/' :: path =>
    (TerminalCommander.canonicalize m.tree (segments path)).map fun names =>
      display (names.map .name)
  | path => (m.tree.walk m.cwd (segments path)).map fun names => display (names.map .name)

def canonicalizeLexical (m : Machine) : Text → Text
  | [] => []
  | '/' :: path => display (TerminalCommander.canonicalizeLexical m.tree (segments path))
  | path =>
    (m.canonicalize path).getD
      (((m.climbRelative (segments path).reverse []).map fun names =>
        display (names.map .name)).getD path)

end Machine

def normalizePolicyPath (path : Text) : Text := path

/-! ## Globs -/

inductive GlobToken where
  /-- `.*`, for `**`. -/
  | anyRun
  /-- `[^/]*`, for `*`. -/
  | segmentRun
  /-- `[^/]`, for `?`. -/
  | one
  | literal (c : Char)
  deriving DecidableEq

abbrev Glob := List GlobToken

def globToRegex : Text → Glob
  | [] => []
  | '*' :: '*' :: rest => .anyRun :: globToRegex rest
  | '*' :: rest => .segmentRun :: globToRegex rest
  | '?' :: rest => .one :: globToRegex rest
  | c :: rest => .literal c :: globToRegex rest

def matchRun (member : Char → Bool) (rest : Text → Bool) : Text → Bool
  | [] => rest []
  | c :: t => rest (c :: t) || member c && matchRun member rest t

namespace Glob

def isMatch : Glob → Text → Bool
  | [], t => t.isEmpty
  | .anyRun :: g, t => matchRun (· != '\n') (isMatch g) t
  | .segmentRun :: g, t => matchRun (· != '/') (isMatch g) t
  | .one :: g, c :: t => c != '/' && isMatch g t
  | .literal d :: g, c :: t => c == d && isMatch g t
  | _ :: _, [] => false

end Glob

structure GlobList where
  configured : Nat := 0
  regexes : List Glob := []
  hadCompileError : Bool := false
  deriving DecidableEq

namespace GlobList

def compile (compiles : Glob → Bool) (globs : List Text) : GlobList :=
  let regexes := globs.map fun g => globToRegex (normalizePolicyPath g)
  ⟨globs.length, regexes.filter compiles, !regexes.all compiles⟩

def isConfigured (l : GlobList) : Bool := 0 < l.configured

def isMatch (l : GlobList) (path : Text) : Bool :=
  l.regexes.any fun re => re.isMatch (normalizePolicyPath path)

def allows (l : GlobList) (path : Text) : Bool := !l.isConfigured || l.isMatch path

end GlobList

end Policy

end TerminalCommander
