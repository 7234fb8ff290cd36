import TerminalCommander.Daemon.Registry.Activation
import TerminalCommander.Sifters.Runtime
import TerminalCommander.Sifters.Universal

/-!
# The rules of live jobs

How a command job gets its rules (`start_combed_inner`, `merge_active_and_inline`) and how they are
replaced while it runs (`rebind_jobs_in_scope`), after `daemon/src/command.rs`. The list that is
compiled is kept in its three parts, so that one can ask which of the compiled rules come from
the registry; a sifter carries the proof that its list compiles. The spawn and everything else
that a start does is left out here.
-/

namespace TerminalCommander

structure RuleSources where
  registry : List RuleDefinition
  inlined : List RuleDefinition
  universal : List RuleDefinition
  deriving DecidableEq, Repr

def RuleSources.list (rules : RuleSources) : List RuleDefinition :=
  rules.registry ++ rules.inlined ++ rules.universal

def shadowedBy (inlineRules : List RuleDefinition) (ref : RuleVersion) : Bool :=
  inlineRules.any fun r => r.ref == ref

def mergeActiveAndInline (active inlineRules : List RuleDefinition) : List RuleDefinition :=
  (active.filter fun r => r.status.isRuntimeEligible && !shadowedBy inlineRules r.ref) ++
    inlineRules.filter fun r => r.status.isRuntimeEligible

def mergedSources (active inlineRules : List RuleDefinition) : RuleSources where
  registry := active.filter fun r => r.status.isRuntimeEligible && !shadowedBy inlineRules r.ref
  inlined := inlineRules.filter fun r => r.status.isRuntimeEligible
  universal := []

theorem mergedSources_list (active inlineRules : List RuleDefinition) :
    (mergedSources active inlineRules).list = mergeActiveAndInline active inlineRules :=
  List.append_nil _

def startSources (universalExtractors : Bool) (active inlineRules : List RuleDefinition) :
    RuleSources :=
  if universalExtractors = true ∧ mergeActiveAndInline active inlineRules = [] then
    ⟨[], [], universalExtractorRules⟩
  else mergedSources active inlineRules

/-! ## Sifters -/

def builds (x : Externals) (rules : List RuleDefinition) : Bool :=
  match SifterRuntime.build x rules with
  | .ok _ => true
  | .error _ => false

structure JobSifter (x : Externals) where
  rules : RuleSources
  runtime : SifterRuntime x
  built : SifterRuntime.build x rules.list = .ok runtime

namespace JobSifter

variable {x : Externals}

def build (x : Externals) (rules : RuleSources) : Except SifterError (JobSifter x) :=
  match h : SifterRuntime.build x rules.list with
  | .ok runtime => .ok ⟨rules, runtime, h⟩
  | .error e => .error e

def rebuild (sifter : JobSifter x) (rules : RuleSources) : JobSifter x :=
  match h : SifterRuntime.build x rules.list with
  | .ok runtime => ⟨rules, runtime, h⟩
  | .error _ => sifter

variable {rules : RuleSources} {sifter : JobSifter x}

theorem rules_of_build
    (h : build x rules = .ok sifter) : sifter.rules = rules := by
  unfold build at h
  split at h
  · cases h
    rfl
  · cases h

theorem build_of_builds (h : builds x rules.list) :
    ∃ sifter : JobSifter x, build x rules = .ok sifter := by
  unfold build
  split
  · exact ⟨_, rfl⟩
  · rename_i e he
    unfold builds at h
    rw [he] at h
    cases h

theorem rules_rebuild_of_builds
    (h : builds x rules.list) : (sifter.rebuild rules).rules = rules := by
  unfold rebuild
  split
  · rfl
  · rename_i e he
    unfold builds at h
    rw [he] at h
    cases h

theorem rules_rebuild_of_not_builds
    (h : builds x rules.list = false) : sifter.rebuild rules = sifter := by
  unfold rebuild
  split
  · rename_i runtime hok
    unfold builds at h
    rw [hok] at h
    cases h
  · rfl

end JobSifter

/-! ## Jobs -/

structure LiveJob (x : Externals) where
  ids : JobTriple
  inlineRules : List RuleDefinition
  sifter : JobSifter x

def LiveJob.key {x : Externals} (job : LiveJob x) : JobId := job.ids.jobId

abbrev LiveMap (x : Externals) := KeyedMap (LiveJob.key (x := x))

structure RebindAllReport where
  jobsConsidered : Nat
  jobsRebound : Nat
  rebuildFailures : Nat
  deriving DecidableEq, Repr

namespace LiveJob

variable {x : Externals}

def merged (r : ActivationRegistry) (job : LiveJob x) : RuleSources :=
  mergedSources (r.snapshotForJob job.ids) job.inlineRules

def rebind (r : ActivationRegistry) (job : LiveJob x) : LiveJob x :=
  { job with sifter := job.sifter.rebuild (job.merged r) }

def fresh (universalExtractors : Bool) (r : ActivationRegistry) (job : LiveJob x) : RuleSources :=
  startSources universalExtractors (r.snapshotForJob job.ids) job.inlineRules

def inScope (scope : Option ActivationScope) (job : LiveJob x) : Bool :=
  match scope with
  | none => true
  | some .global => true
  | some scope => scope.matchesJob job.ids

@[simp] theorem inScope_some (scope : ActivationScope) (job : LiveJob x) :
    job.inScope (some scope) = scope.matchesJob job.ids := by
  cases scope <;> rfl

end LiveJob

variable {x : Externals}

def rebindJobsInScope (scope : Option ActivationScope) (r : ActivationRegistry)
    (live : LiveMap x) : RebindAllReport × LiveMap x :=
  let work := live.entries.filter (LiveJob.inScope scope)
  let rebound := work.countP fun job => builds x (job.merged r).list
  (⟨min work.length u32Max, min rebound u32Max, min (work.length - rebound) u32Max⟩,
    live.mapValues (fun job => if job.inScope scope then job.rebind r else job) fun job => by
      split <;> rfl)

def startJob (universalExtractors : Bool) (r : ActivationRegistry) (ids : JobTriple)
    (inlineRules : List RuleDefinition) (live : LiveMap x) : Except SifterError (LiveMap x) :=
  (JobSifter.build x (startSources universalExtractors (r.snapshotForJob ids) inlineRules)).map
    fun sifter => live.insert ⟨ids, inlineRules, sifter⟩

theorem mem_rebindJobsInScope {scope : Option ActivationScope} {r : ActivationRegistry}
    {live : LiveMap x} {job : LiveJob x} : job ∈ (rebindJobsInScope scope r live).2 ↔
      ∃ old ∈ live, (if old.inScope scope then old.rebind r else old) = job := List.mem_map

end TerminalCommander
