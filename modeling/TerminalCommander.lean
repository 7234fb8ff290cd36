import TerminalCommander.Core.BucketWait
import TerminalCommander.Daemon.Subscriptions.Lag
import TerminalCommander.Daemon.Subscriptions.Rollback
import TerminalCommander.Daemon.Command.OneProcess
import TerminalCommander.Daemon.Policy.Decisions
import TerminalCommander.Daemon.Registry.FreshRules
import TerminalCommander.Daemon.Registry.ImportPack
import TerminalCommander.Daemon.Registry.ActivateRace
import TerminalCommander.Daemon.Registry.StartRace
import TerminalCommander.Daemon.Command.Published
import TerminalCommander.Daemon.Command.ReceiptStory
import TerminalCommander.Daemon.Pty.StopReaches
import TerminalCommander.Daemon.Command.RedactEnv
import TerminalCommander.Daemon.Command.RedactAlike
import TerminalCommander.Daemon.Command.RedactBytes
import TerminalCommander.Daemon.Pty.CredentialPinned
import TerminalCommander.Daemon.Subscriptions.ScopeExact
import TerminalCommander.Daemon.Subscriptions.NoStarvation
import TerminalCommander.Probes.OverwrittenPrompt
import TerminalCommander.Daemon.Policy.GlobMeaning
import TerminalCommander.Daemon.Command.InlineCredential
import TerminalCommander.Core.ShellDeny.Denied
import TerminalCommander.Daemon.SessionCap
import TerminalCommander.Daemon.FileWrite
import TerminalCommander.Daemon.Starts
import TerminalCommander.Daemon.Pty.LifecycleEvent
import TerminalCommander.Daemon.SessionExec
import TerminalCommander.Probes.ConservedCounts
import TerminalCommander.Probes.FileFollow
import TerminalCommander.Probes.Mounts
import TerminalCommander.Probes.Utf16
import TerminalCommander.Sifters.RedactedCaptures
import TerminalCommander.Core.BucketPages
import TerminalCommander.Daemon.FileSearch
import TerminalCommander.Core.OsGuard.Payload
import TerminalCommander.Core.Template
import TerminalCommander.Daemon.Limits
