import TerminalCommander.Core.OsGuard.Scan
import TerminalCommander.Daemon.Policy.Paths
import TerminalCommander.Daemon.Policy.ShellLine

/-!
# The policy engine

`PolicyEngine::evaluate` of `daemon/src/policy.rs`. The failsafe scan runs first and in every
profile; it can stop the daemon, so the evaluation is a checked computation. Behind it stand the
gates in the order of the source, each of which may end the evaluation, and the verdict of the
profile.
-/

namespace TerminalCommander

namespace OsGuard

def FAILSAFE_REASON_TAG : Text := "TC's one failsafe".toList

def OsGuardHit.reason (hit : OsGuardHit) : Text :=
  "refused: ".toList ++ hit.op ++ " would delete OS-critical infrastructure (".toList ++ hit.path ++
    "); this is ".toList ++ FAILSAFE_REASON_TAG ++ " and applies in every profile".toList

end OsGuard

namespace Policy

open OsGuard

inductive PolicyDecision where
  | allow | deny | allowWithAudit | error
  deriving DecidableEq, Repr

inductive PolicyProfile where
  | developerLocal | repoOnly | readOnlyObserver | adminDebug | fullAccess
  deriving DecidableEq, Repr

namespace PolicyProfile

def asStr : PolicyProfile → Text
  | developerLocal => "developer_local".toList
  | repoOnly => "repo_only".toList
  | readOnlyObserver => "read_only_observer".toList
  | adminDebug => "admin_debug".toList
  | fullAccess => "full_access".toList

def debug : PolicyProfile → Text
  | developerLocal => "DeveloperLocal".toList
  | repoOnly => "RepoOnly".toList
  | readOnlyObserver => "ReadOnlyObserver".toList
  | adminDebug => "AdminDebug".toList
  | fullAccess => "FullAccess".toList

def exec : PolicyProfile → Bool
  | developerLocal | adminDebug | fullAccess => true
  | repoOnly | readOnlyObserver => false

end PolicyProfile

def CONFIG : Text :=
  "the daemon config (the `--config` file, else terminal-commander.toml in the data dir)".toList

def profileChangeHint (profile : PolicyProfile) : Text :=
  if profile = .fullAccess then
    ("This daemon runs the `full_access` profile (the default, which allows everything), so a " ++
      "`[policy.caps]` false override in ").toList ++ CONFIG ++ " denies this; remove it.".toList
  else
    "This daemon runs the `".toList ++ profile.asStr ++
      ("` profile (default is full_access, which allows everything); to change it set " ++
        "`[policy] profile = \"full_access\"` (and drop any `[policy.caps]` false override) in "
        ).toList ++ CONFIG ++ ".".toList

inductive PolicyAction where
  | commandStart (argv : List Text) (cwd : Text)
  | commandShellStart (shellLine cwd shell : Text)
  | sessionStart (shell cwd : Text)
  | commandStdin
  | commandSignal
  | fileRead (path : Text)
  | fileWatch (path : Text)
  | fileWrite (path : Text)
  | probeCreate (kind : Text)
  | registryCreate
  | registryActivate
  | bucketWait
  | bucketRead
  | eventContext
  deriving DecidableEq

structure PolicyVerdict where
  decision : PolicyDecision
  reason : Text
  deriving DecidableEq

def SHELL_WITHHELD_BY_ALLOW_ROOTS : Text :=
  ("allow_shell is off because [policy.commands] allow_roots confines commands; " ++
    "set [policy.caps] allow_shell = true explicitly to enable shell_exec").toList

structure PolicyCaps where
  allowShell : Bool := false
  allowSession : Bool := false
  deriving DecidableEq

def PolicyCaps.defaultForProfile : PolicyProfile → PolicyCaps
  | .fullAccess => ⟨true, true⟩
  | .developerLocal => ⟨true, false⟩
  | .repoOnly | .readOnlyObserver | .adminDebug => ⟨false, false⟩

structure PolicyEngine where
  profile : PolicyProfile
  repoRoot : Option Text
  commandAllowRoots : Option (List Text)
  readAllow : GlobList
  watchAllow : GlobList
  writeAllow : GlobList
  denyExtra : GlobList
  caps : PolicyCaps
  probeAllowKinds : List Text
  probeDenyKinds : List Text
  shellWithheldByAllowRoots : Bool

namespace PolicyEngine

def withConfig (m : Machine) (profile : PolicyProfile) (repoRoot : Option Text)
    (commandAllowRoots : Option (List Text)) : PolicyEngine where
  profile := profile
  repoRoot := repoRoot.map fun root => (m.canonicalize root).getD root
  commandAllowRoots := commandAllowRoots.filter fun roots => !roots.isEmpty
  readAllow := {}
  watchAllow := {}
  writeAllow := {}
  denyExtra := {}
  caps := .defaultForProfile profile
  probeAllowKinds := []
  probeDenyKinds := []
  shellWithheldByAllowRoots := false

def withPaths (compiles : Glob → Bool) (readAllow watchAllow writeAllow denyExtra : List Text)
    (e : PolicyEngine) : PolicyEngine :=
  { e with
    readAllow := .compile compiles readAllow
    watchAllow := .compile compiles watchAllow
    writeAllow := .compile compiles writeAllow
    denyExtra := .compile compiles denyExtra }

end PolicyEngine

/-! ## Default denies -/

def DEFAULT_DENY_PATH_SUFFIXES : List Text :=
  [".ssh/id_rsa", ".ssh/id_ed25519", ".ssh/id_ecdsa", "/etc/shadow", "/etc/sudoers", ".pgpass",
    ".netrc", ".aws/credentials", ".aws/config", ".kube/config", ".docker/config.json", ".npmrc",
    ".pypirc", ".vault-token"].map String.toList

def DEFAULT_DENY_PATH_TREES : List Text :=
  ["/.ssh/", "/.gnupg/", "/.config/gcloud/", "/etc/sudoers.d/", "/etc/ssl/private/", "/.mozilla/",
    "/.config/google-chrome/", "/.config/chromium/", "/.config/op/", "/.config/bw/"].map
    String.toList

def DEFAULT_DENY_PATH_PREFIXES : List Text := ["/etc/ssh/ssh_host_"].map String.toList

def pathDefaultDenied (path : Text) : Bool :=
  let normalized := normalizePolicyPath path
  DEFAULT_DENY_PATH_SUFFIXES.any (fun s => s.isSuffixOf normalized) ||
    DEFAULT_DENY_PATH_TREES.any (fun tree => (Text.find tree normalized).isSome ||
      (Text.trimEndMatches (· == '/') tree).isSuffixOf normalized) ||
    DEFAULT_DENY_PATH_PREFIXES.any fun p => (Text.find p normalized).isSome

def programName (arg0 : Text) : Text := (fileName arg0).getD arg0

def osGuardHit (m : Machine) : PolicyAction → Checked (Option OsGuardHit)
  | .commandStart argv cwd => argvDeletionHit m.host argv (some cwd)
  | .commandShellStart shellLine cwd shell => shellLineDeletionHit m.host shellLine shell (some cwd)
  | _ => .ok none

def actionPathSubject : PolicyAction → Option Text
  | .commandStart _ cwd => some cwd
  | .fileRead path | .fileWatch path | .fileWrite path => some path
  | _ => none

namespace PolicyEngine

variable (e : PolicyEngine)

def structural : Bool := e.profile != .fullAccess

/-! ## The gates -/

def commandGate : PolicyAction → Option PolicyVerdict
  | .commandStart (arg0 :: _) _ =>
    let basename := programName arg0
    if e.structural && COMMANDS_DENY.contains basename then
      some ⟨.deny, "command '".toList ++ basename ++
        "' is in the closed deny set (sudo/doas/su/pkexec/kexec). ".toList ++
        profileChangeHint e.profile⟩
    else none
  | _ => none

def fileRule : PolicyAction → Option (Text × GlobList)
  | .fileRead path => some (path, e.readAllow)
  | .fileWatch path => some (path, e.watchAllow)
  | .fileWrite path => some (path, e.writeAllow)
  | _ => none

def pathGate (m : Machine) (action : PolicyAction) : Option PolicyVerdict :=
  match e.fileRule action with
  | none => none
  | some (path, allow) =>
    let canonical := m.canonicalizeLexical path
    if e.structural && pathDefaultDenied canonical then
      some ⟨.deny, "path '".toList ++ path ++
        "' matches a default-deny sensitive suffix (SECURITY.md §5). ".toList ++
        profileChangeHint e.profile⟩
    else if e.denyExtra.isMatch canonical then
      some ⟨.deny, "path '".toList ++ path ++
        "' matches a [policy.paths] deny_extra rule (default_deny_match)".toList⟩
    else if !allow.allows canonical then
      some ⟨.deny, "path '".toList ++ path ++
        "' is not in the [policy.paths] allow-list (no_allow_rule)".toList⟩
    else none

def shellVerdict (shellLine : Text) : PolicyVerdict :=
  match if e.structural then deniedCommandInShellLine shellLine else none with
  | some denied =>
    ⟨.deny, "command '".toList ++ denied ++
      "' is in the closed deny set (sudo/doas/su/pkexec/kexec) inside shell_line. ".toList ++
      profileChangeHint e.profile⟩
  | none =>
    if e.profile.exec && e.caps.allowShell then
      ⟨.allowWithAudit, "shell execution allowed by allow_shell capability (audited)".toList⟩
    else if e.profile.exec && e.shellWithheldByAllowRoots then
      ⟨.deny, "shell execution denied: ".toList ++ SHELL_WITHHELD_BY_ALLOW_ROOTS⟩
    else
      ⟨.deny, ("shell execution denied: allow_shell capability is off or profile forbids " ++
        "shell. ").toList ++ profileChangeHint e.profile⟩

def sessionVerdict : PolicyVerdict :=
  if e.profile.exec && e.caps.allowSession then
    ⟨.allowWithAudit, "shell_session_start allowed by allow_session capability (audited)".toList⟩
  else
    ⟨.deny, ("shell_session_start denied: allow_session capability is off or profile forbids " ++
      "sessions. ").toList ++ profileChangeHint e.profile⟩

def probeVerdict (kind : Text) : PolicyVerdict :=
  if e.probeDenyKinds.any (· == kind) then
    ⟨.deny, "probe kind '".toList ++ kind ++
      "' is denied by [policy.probes] deny_kinds (probe_kind_denied)".toList⟩
  else if !e.probeAllowKinds.isEmpty && !e.probeAllowKinds.any (· == kind) then
    ⟨.deny, "probe kind '".toList ++ kind ++
      "' is not in the [policy.probes] allow_kinds (no_allow_rule)".toList⟩
  else ⟨.allow, "probe kind '".toList ++ kind ++ "' permitted".toList⟩

def laneGate : PolicyAction → Option PolicyVerdict
  | .commandShellStart shellLine _ _ => some (e.shellVerdict shellLine)
  | .sessionStart _ _ => some e.sessionVerdict
  | .probeCreate kind => some (e.probeVerdict kind)
  | _ => none

/-! ## The profiles -/

def commandAllowed (basename : Text) : Bool :=
  e.commandAllowRoots.all fun roots => roots.any (· == basename)

def repoRootContains (m : Machine) (candidate : Text) : Bool :=
  match e.repoRoot with
  | none => false
  | some root => startsWith (m.canonicalizeLexical candidate) root

def devLocalRepoOnlyVerdict (action : PolicyAction) : PolicyVerdict :=
  match action with
  | .commandStart argv _ =>
    let basename := (argv.head?.map programName).getD []
    if e.commandAllowed basename then ⟨.allow, e.profile.debug ++ " allows the action".toList⟩
    else ⟨.deny, "command '".toList ++ basename ++ "' is not in the ".toList ++ e.profile.debug ++
      " allow-list (no_allow_rule)".toList⟩
  | .registryActivate => ⟨.allowWithAudit, "registry activate requires audit emission".toList⟩
  | _ => ⟨.allow, e.profile.debug ++ " allows the action".toList⟩

def readOnlyObserverVerdict : PolicyAction → PolicyVerdict
  | .commandStart _ _ | .commandStdin | .commandSignal | .registryCreate | .registryActivate
  | .fileWrite _ =>
    ⟨.deny, "read_only_observer denies command_*, registry_*, and file_write mutations. ".toList ++
      profileChangeHint e.profile⟩
  | _ => ⟨.allow, "read-only operation allowed".toList⟩

def adminDebugVerdict : PolicyAction → PolicyVerdict
  | .registryCreate | .registryActivate =>
    ⟨.deny, "admin_debug is inspect-only; registry mutations denied. ".toList ++
      profileChangeHint e.profile⟩
  | _ => ⟨.allow, "admin_debug allowed".toList⟩

def outsideReason (subject : Text) : Text :=
  match e.repoRoot with
  | none => "repo_only has no configured $REPO_ROOT; '".toList ++ subject ++
      "' cannot be confirmed inside the repo (fail-safe deny)".toList
  | some root => "repo_only confines to $REPO_ROOT '".toList ++ root ++ "'; '".toList ++ subject ++
      "' is outside it".toList

def repoOnlyVerdict (m : Machine) (action : PolicyAction) : PolicyVerdict :=
  match actionPathSubject action with
  | some subject =>
    if e.repoRootContains m subject then e.devLocalRepoOnlyVerdict action
    else ⟨.deny, e.outsideReason subject ++ ". ".toList ++ profileChangeHint e.profile⟩
  | none => e.devLocalRepoOnlyVerdict action

def profileVerdict (m : Machine) (action : PolicyAction) : PolicyVerdict :=
  match e.profile with
  | .readOnlyObserver => e.readOnlyObserverVerdict action
  | .adminDebug => e.adminDebugVerdict action
  | .repoOnly => e.repoOnlyVerdict m action
  | .developerLocal | .fullAccess => e.devLocalRepoOnlyVerdict action

/-! ## The evaluation -/

def judge (m : Machine) (action : PolicyAction) : PolicyVerdict :=
  (e.commandGate action <|> e.pathGate m action <|> e.laneGate action).getD
    (e.profileVerdict m action)

def evaluate (m : Machine) (action : PolicyAction) : Checked PolicyVerdict := do
  match ← osGuardHit m action with
  | some hit => return ⟨.deny, hit.reason⟩
  | none => return e.judge m action

end PolicyEngine

end Policy

end TerminalCommander
