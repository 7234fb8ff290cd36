import TerminalCommander.Daemon.Registry.ImportHandler
import TerminalCommander.Daemon.Registry.Plan
import TerminalCommander.Sifters.Keywords

/-!
# Histories of the daemon

The operations that change the tables, the registry or the live jobs, each with how the database
answers while it runs. A history is a list of operations, one after the other, on a daemon that
starts on an empty database; a restart rebuilds the registry from the tables and loses the jobs.
-/

namespace TerminalCommander.Registry

variable {g : Setup}

inductive BasicOperation where
  | call (db : Database) (call : RegistryCall)
  | upsert (db : Database) (definition : RuleDefinition)
  | start (ids : JobTriple) (inlineRules : List RuleDefinition)
  | forget (jobId : JobId)
  | watch (others : List JobTriple)
  | restart

inductive Operation where
  | basic (op : BasicOperation)
  | importPack (db : Database) (params : RegistryImportPackParams)

namespace Daemon

def initial : Daemon g := ⟨.empty, .new, .empty, []⟩

def start (d : Daemon g) (ids : JobTriple) (inlineRules : List RuleDefinition) : Daemon g :=
  match startJob g.universalExtractors d.activation ids inlineRules d.live with
  | .ok live => { d with live := live }
  | .error _ => d

def restart (d : Daemon g) : Daemon g :=
  match d.store.listActiveRuleDefsScoped g.u with
  | .ok entries => ⟨d.store, .fromEntries entries, .empty, []⟩
  | .error _ => d

def applyBasic (d : Daemon g) : BasicOperation → Daemon g
  | .call db call => (handle db d call).2
  | .upsert db definition => (handleRegistryUpsert definition ⟨d, db⟩).2.daemon
  | .start ids inlineRules => d.start ids inlineRules
  | .forget jobId => { d with live := d.live.erase jobId }
  | .watch others => { d with others := others }
  | .restart => d.restart

def apply (d : Daemon g) : Operation → Daemon g
  | .basic op => d.applyBasic op
  | .importPack db params => (handleRegistryImportPack params ⟨d, db⟩).2.daemon

def after (history : List Operation) (d : Daemon g) : Daemon g := history.foldl apply d

end Daemon

/-! ## A concrete daemon -/

def plainSetup (universalExtractors : Bool) : Setup where
  x := scanExternals
  u := strokes
  packs := ⟨[], fun _ => none, fun _ _ h => nomatch h⟩
  exampleFailureMessage := fun _ => none
  universalExtractors := universalExtractors
  profile := "DeveloperLocal".toList

def answers : Database := fun _ => .ok "2026-01-01T00:00:00Z".toList

def failsAt (n : Nat) : Database := fun m =>
  if m = n then .error "disk I/O error".toList else answers m

def activateGlobally (ruleId : Text) (version : Nat) : RegistryCall :=
  .activate ⟨ruleId, some version, some .global⟩

end TerminalCommander.Registry
