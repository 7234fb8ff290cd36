import TerminalCommander.Daemon.Registry.History
import TerminalCommander.Lib.Transition

/-!
# Registry calls and starts that run at once

No lock spans the steps of a request. An activation records its row, adds its version to the
registry, computes which other versions are active in the scope, closes the row and the entry of
each, and rebinds the live jobs in scope; a deactivation closes one version and rebinds. A rebind
collects the jobs and then, job by job, takes a snapshot of the registry and writes the merged rules
to the sifter. A start takes its snapshot long before it inserts its job. The steps of all requests
interleave freely; the checks at the beginning of a call are one step.
-/

namespace TerminalCommander.Registry

variable {g : Setup}

inductive Pc (x : Externals) where
  | accepted (definition : RuleDefinition) (scope : ActivationScope)
  | recorded (definition : RuleDefinition) (scope : ActivationScope)
  | added (definition : RuleDefinition) (scope : ActivationScope)
  | superseding (definition : RuleDefinition) (scope : ActivationScope) (pending : List Nat)
  | closing (definition : RuleDefinition) (scope : ActivationScope) (version : Nat)
      (pending : List Nat)
  | deactivating (ruleId : Text) (version : Nat) (scope : ActivationScope)
  | dropping (ruleId : Text) (version : Nat) (scope : ActivationScope) (wasPersisted : Bool)
  | rebinding (scope : ActivationScope)
  | rebindJobs (work : List (LiveJob x))
  | writing (job : LiveJob x) (rules : RuleSources) (work : List (LiveJob x))
  | starting (ids : JobTriple) (inlineRules : List RuleDefinition)
  | built (job : LiveJob x)
  | done

structure Sys (g : Setup) where
  daemon : Daemon g
  requests : List (Pc g.x)

def LiveJob.Same {x : Externals} (job job' : LiveJob x) : Prop :=
  job.ids = job'.ids ∧ job.inlineRules = job'.inlineRules

instance {x : Externals} (job job' : LiveJob x) : Decidable (LiveJob.Same job job') :=
  inferInstanceAs (Decidable (_ ∧ _))

def writeSifter {x : Externals} (job : LiveJob x) (rules : RuleSources) (live : LiveMap x) :
    LiveMap x :=
  live.mapValues (fun job' => if LiveJob.Same job job' then
      { job' with sifter := job'.sifter.rebuild rules } else job') fun job' => by
    split <;> rfl

def Pc.next (now : Text) (d : Daemon g) : Pc g.x → Option (Daemon g × Pc g.x)
  | accepted definition scope =>
    match d.store.recordActivationScoped g.u now definition.id definition.version scope
        (some g.profile) (some "ipc".toList) with
    | .ok store => some ({ d with store := store }, recorded definition scope)
    | .error _ => none
  | recorded definition scope =>
    some ({ d with activation := d.activation.activate definition scope }, added definition scope)
  | added definition scope =>
    some (d, superseding definition scope
      (supersededVersions g.u d.activation definition.id definition.version scope))
  | superseding _ scope [] => some (d, rebinding scope)
  | superseding definition scope (v :: vs) =>
    some ({ d with
      store := (d.store.deactivateRuleScoped g.u now definition.id v scope).2 },
      closing definition scope v vs)
  | closing definition scope v vs =>
    some ({ d with activation := d.activation.deactivate definition.id v scope },
      superseding definition scope vs)
  | deactivating ruleId version scope =>
    let r := d.store.deactivateRuleScoped g.u now ruleId version scope
    some ({ d with store := r.2 }, dropping ruleId version scope r.1)
  | dropping ruleId version scope wasPersisted =>
    if d.activation.isActive ruleId version scope = false ∧ wasPersisted = false then
      some (d, done)
    else
      some ({ d with activation := d.activation.deactivate ruleId version scope },
        rebinding scope)
  | rebinding scope => some (d, rebindJobs (d.live.entries.filter (LiveJob.inScope (some scope))))
  | rebindJobs [] => some (d, done)
  | rebindJobs (job :: work) => some (d, writing job (job.merged d.activation) work)
  | writing job rules work =>
    some ({ d with live := writeSifter job rules d.live }, rebindJobs work)
  | starting ids inlineRules =>
    match JobSifter.build g.x (startSources g.universalExtractors
        (d.activation.snapshotForJob ids) inlineRules) with
    | .ok sifter => some (d, built ⟨ids, inlineRules, sifter⟩)
    | .error _ => some (d, done)
  | built job => some ({ d with live := d.live.insert job }, done)
  | done => none

def Pc.mayFail {x : Externals} : Pc x → Bool
  | accepted _ _ => true
  | superseding _ _ (_ :: _) => true
  | deactivating _ _ _ => true
  | _ => false

inductive Incoming where
  | activate (params : RegistryActivateParams)
  | deactivate (params : RegistryDeactivateParams)
  | start (ids : JobTriple) (inlineRules : List RuleDefinition)

def Incoming.enter (d : Daemon g) : Incoming → Pc g.x
  | activate params =>
    match params.scope, d.store.lookup params.ruleId params.version with
    | some scope, some definition =>
      if definition.status.isRuntimeEligible = true ∧ d.scopeIsLive scope = true then
        .accepted definition scope
      else .done
    | _, _ => .done
  | deactivate params =>
    match params.scope with
    | some scope =>
      if d.scopeIsLive scope = true then .deactivating params.ruleId params.version scope
      else .done
    | none => .done
  | start ids inlineRules => .starting ids inlineRules

inductive Action where
  | enter (request : Incoming)
  | step (k : Nat) (now : Text)
  | fail (k : Nat)
  | upsert (definition : RuleDefinition)
  | forget (jobId : JobId)
  | watch (others : List JobTriple)

def Sys.stepRequest (s : Sys g) (k : Nat) (now : Text) : Option (Sys g) :=
  match s.requests[k]? with
  | none => none
  | some pc =>
    match pc.next now s.daemon with
    | none => none
    | some (d, pc') => some ⟨d, s.requests.set k pc'⟩

def Sys.step (s : Sys g) : Action → Option (Sys g)
  | .enter request => some { s with requests := s.requests ++ [request.enter s.daemon] }
  | .step k now => s.stepRequest k now
  | .fail k =>
    match s.requests[k]? with
    | none => none
    | some pc =>
      if pc.mayFail then some { s with requests := s.requests.set k .done } else none
  | .upsert definition =>
    match s.daemon.store.createRuleVersion g.x definition with
    | .ok (_, store) => some { s with daemon := { s.daemon with store := store } }
    | .error _ => some s
  | .forget jobId =>
    some { s with daemon := { s.daemon with live := s.daemon.live.erase jobId } }
  | .watch others => some { s with daemon := { s.daemon with others := others } }

instance {x : Externals} : ∀ pc : Pc x, Decidable (pc = .done)
  | .done => isTrue rfl
  | .accepted _ _ | .recorded _ _ | .added _ _ | .superseding _ _ _ | .closing _ _ _ _
  | .deactivating _ _ _ | .dropping _ _ _ _ | .rebinding _ | .rebindJobs _ | .writing _ _ _
  | .starting _ _ | .built _ => isFalse nofun

def Sys.Quiescent (s : Sys g) : Prop := ∀ pc ∈ s.requests, pc = .done

instance (s : Sys g) : Decidable s.Quiescent :=
  inferInstanceAs (Decidable (∀ pc ∈ s.requests, _))

theorem Sys.stepRequest_eq_some {s s' : Sys g} {k : Nat} {now : Text}
    (h : s.stepRequest k now = some s') :
    ∃ pc pc' d, s.requests[k]? = some pc ∧ pc.next now s.daemon = some (d, pc') ∧
      s' = ⟨d, s.requests.set k pc'⟩ := by
  unfold Sys.stepRequest at h
  rcases hpc : s.requests[k]? with _ | pc
  · rw [hpc] at h
    cases h
  · rw [hpc] at h
    dsimp only at h
    rcases hnext : pc.next now s.daemon with _ | ⟨d, pc'⟩
    · rw [hnext] at h
      cases h
    · rw [hnext] at h
      cases h
      exact ⟨pc, pc', d, rfl, hnext, rfl⟩

end TerminalCommander.Registry
