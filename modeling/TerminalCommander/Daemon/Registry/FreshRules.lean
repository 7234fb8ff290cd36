import TerminalCommander.Daemon.Registry.LiveConsistency

/-!
# Live jobs and fresh starts

Whether a live job runs the rules that a start with its ids and inline rules would compile now. A
start falls back to the universal extractors when the merged list is empty; a rebind compiles the
merged list without that. So a rebound job runs the rules of a fresh start unless it is left
without a rule while universal extractors are enabled.
-/

namespace TerminalCommander.Registry

open List JobSifter TerminalCommander.LiveJob

variable {g : Setup} {x : Externals}

def RunsFresh (universalExtractors : Bool) (r : ActivationRegistry) (job : LiveJob x) : Prop :=
  ∀ started, JobSifter.build x (job.fresh universalExtractors r) = .ok started →
    job.sifter.rules.list = started.rules.list

def HasRule (r : ActivationRegistry) (job : LiveJob x) : Prop :=
  (∃ rule ∈ job.inlineRules, rule.status.isRuntimeEligible = true) ∨ ∃ ref, Held r job ref

variable {r : ActivationRegistry} {job : LiveJob x}

theorem merged_list_ne_nil : (job.merged r).list ≠ [] ↔ HasRule r job := by
  have hlist : (job.merged r).list = (job.merged r).registry ++
      job.inlineRules.filter fun rule => rule.status.isRuntimeEligible := append_nil _
  rw [hlist, Ne, append_eq_nil_iff, not_and_or]
  unfold HasRule
  rw [or_comm]
  refine or_congr ?_ ?_
  · rw [filter_eq_nil_iff]
    push Not
    exact Iff.rfl
  · constructor
    · intro h
      obtain ⟨rule, hrule⟩ := exists_mem_of_ne_nil _ h
      exact ⟨rule.ref, ref_mem_merged.mp (List.mem_map_of_mem hrule)⟩
    · rintro ⟨ref, href⟩
      obtain ⟨rule, hrule, -⟩ := List.mem_map.mp (ref_mem_merged.mpr href)
      exact ne_nil_of_mem hrule

theorem fresh_list (universalExtractors : Bool) (r : ActivationRegistry) (job : LiveJob x) :
    (job.fresh universalExtractors r).list =
      if universalExtractors ∧ (job.merged r).list = [] then universalExtractorRules
      else (job.merged r).list := by
  unfold fresh startSources merged
  rw [mergedSources_list]
  split_ifs
  · rfl
  · exact mergedSources_list _ _

theorem runsFresh_iff {universalExtractors : Bool} : RunsFresh universalExtractors r job ↔
      (builds x (job.fresh universalExtractors r).list →
        job.sifter.rules.list = (job.fresh universalExtractors r).list) := by
  unfold RunsFresh
  constructor
  · intro h hbuild
    obtain ⟨started, hstarted⟩ := build_of_builds hbuild
    rw [h started hstarted, rules_of_build hstarted]
  · intro h started hstarted
    have hrules := rules_of_build hstarted
    rw [hrules]
    refine h (hrules ▸ ?_)
    unfold builds
    rw [started.built]

theorem runsFresh_rebind {universalExtractors : Bool} :
    RunsFresh universalExtractors r (job.rebind r) ↔
      (universalExtractors → builds x universalExtractorRules → HasRule r job) := by
  rw [runsFresh_iff,
    show (job.rebind r).fresh universalExtractors r = job.fresh universalExtractors r from rfl,
    fresh_list, ← merged_list_ne_nil]
  by_cases hempty : universalExtractors ∧ (job.merged r).list = []
  · -- the job is left with no rule, and a start would get the extractors
    have hnone : (job.rebind r).sifter.rules.list = [] := by
      rw [rebind, rules_rebuild_of_builds (by rw [hempty.2]; rfl), hempty.2]
    rw [if_pos hempty, hnone, hempty.2]
    constructor
    · intro h _ hbuild
      cases h hbuild
    · intro h hbuild
      exact absurd rfl (h hempty.1 hbuild)
  · rw [if_neg hempty]
    refine iff_of_true (fun hbuild => ?_) fun huniv _ hnil => hempty ⟨huniv, hnil⟩
    rw [rebind, rules_rebuild_of_builds hbuild]

/-! ## Histories -/

def FreshAfter (d : Daemon g) : BasicOperation → Prop
  | .call db call => (handle db d call).1 = true → ∀ scope, call.scope = some scope →
      ∀ job ∈ (handle db d call).2.live, scope.matchesJob job.ids = true →
        RunsFresh g.universalExtractors (handle db d call).2.activation job
  | .start ids inlineRules => ∀ live,
      startJob g.universalExtractors d.activation ids inlineRules d.live = .ok live →
      ∀ job ∈ live, job.key = ids.jobId → RunsFresh g.universalExtractors d.activation job
  | _ => True

def LeavesRules (d : Daemon g) : BasicOperation → Prop
  | .call db call => ∀ scope as, plan d call = some (scope, as) →
      progress g as db d.store = as.length →
      ∀ job ∈ d.live, scope.matchesJob job.ids = true →
        g.universalExtractors = true → builds g.x universalExtractorRules = true →
          HasRule (changeAll d.activation as) job
  | _ => True

theorem freshAfter_start (d : Daemon g) (ids : JobTriple) (inlineRules : List RuleDefinition) :
    FreshAfter d (.start ids inlineRules) := by
  intro live hlive job hjob hkey
  unfold startJob at hlive
  rcases hbuild : build g.x (startSources g.universalExtractors
    (d.activation.snapshotForJob ids) inlineRules) with e | sifter
  · rw [hbuild] at hlive
    cases hlive
  · rw [hbuild] at hlive
    cases hlive
    rcases KeyedMap.mem_insert.mp hjob with rfl | ⟨-, hne⟩
    · exact runsFresh_iff.mpr fun _ => congrArg RuleSources.list (rules_of_build hbuild)
    · exact absurd hkey hne

theorem freshAfter_call_iff (d : Daemon g) (db : Database) (call : RegistryCall) :
    FreshAfter d (.call db call) ↔ LeavesRules d (.call db call) := by
  dsimp only [FreshAfter, LeavesRules]
  rw [handle_eq_settle]
  rcases hplan : plan d call with _ | ⟨scope, as⟩
  · exact iff_of_true (fun h => absurd h Bool.false_ne_true) nofun
  obtain ⟨hscope, -⟩ := plan_within hplan
  constructor
  · intro h scope' as' hsame hdone job hjob hmatch
    cases hsame
    have hfresh := h ((settle_fst db d scope as).trans (decide_eq_true hdone)) scope hscope
    obtain ⟨-, hreg, hlive⟩ := (settle_cases db d scope as).resolve_right fun h => h.1 hdone
    rw [hreg, hlive] at hfresh
    refine runsFresh_rebind.mp (hfresh _ (mem_rebindJobsInScope.mpr ⟨job, hjob, ?_⟩) hmatch)
    rw [inScope_some, if_pos hmatch]
  · intro h hret scope' hscope' job hjob hmatch
    rw [hscope] at hscope'
    cases hscope'
    have hdone := of_decide_eq_true ((settle_fst db d scope as).symm.trans hret)
    obtain ⟨-, hreg, hlive⟩ := (settle_cases db d scope as).resolve_right fun h => h.1 hdone
    rw [hlive] at hjob
    obtain ⟨old, hold, rfl⟩ := mem_rebindJobsInScope.mp hjob
    rw [inScope_some] at hmatch ⊢
    by_cases hm : scope.matchesJob old.ids
    · rw [if_pos hm, hreg]
      exact runsFresh_rebind.mpr (h scope as rfl hdone old hold hm)
    · rw [if_neg hm] at hmatch
      exact absurd hmatch hm

theorem freshAfter_iff (d : Daemon g) (op : BasicOperation) :
    FreshAfter d op ↔ LeavesRules d op := by
  cases op with
  | call db call => exact freshAfter_call_iff d db call
  | start ids inlineRules => exact iff_of_true (freshAfter_start d ids inlineRules) trivial
  | _ => exact Iff.rfl

/-- **Live jobs and fresh starts.** In every history, after every operation the jobs it affects run
the rules that a start would compile for them now just if, with universal extractors enabled, every
call leaves each job in its scope some rule. -/
theorem live_rules_fresh_iff (history : List BasicOperation) :
    Transition.Meets basicStep FreshAfter (Daemon.initial : Daemon g) history ↔
      Transition.Meets basicStep LeavesRules (Daemon.initial : Daemon g) history :=
  ⟨Transition.Meets.imp fun d op => (freshAfter_iff d op).mp,
    Transition.Meets.imp fun d op => (freshAfter_iff d op).mpr⟩

/-! ## The last rule of a job -/

def beforeLastRule : List BasicOperation :=
  [.upsert answers (keywordRule "r".toList ["a".toList]),
    .start ⟨1, 2, 3⟩ [],
    .call answers (activateGlobally "r".toList 1)]

theorem handle_last_rule :
    let d : Daemon (plainSetup true) := beforeLastRule.foldl Daemon.applyBasic Daemon.initial
    let r := handle answers d (.deactivate ⟨"r".toList, 1, some .global⟩)
    r.1 ∧ (r.2.live.entries.map fun job => job.sifter.rules.list) = [[]] ∧
      (r.2.live.entries.map fun job => (job.fresh true r.2.activation).list) =
        [universalExtractorRules] := by
  decide +kernel

theorem last_rule_not_fresh :
    ¬Transition.Meets basicStep FreshAfter (Daemon.initial : Daemon (plainSetup true))
      (beforeLastRule ++ [.call answers (.deactivate ⟨"r".toList, 1, some .global⟩)]) := by
  intro h
  have hrun : Transition.run basicStep (Daemon.initial : Daemon (plainSetup true))
      beforeLastRule = some (beforeLastRule.foldl Daemon.applyBasic Daemon.initial) := rfl
  obtain ⟨hret, hrules, hfresh⟩ := handle_last_rule
  obtain ⟨job, hent, hjob⟩ := map_eq_singleton_iff.mp hrules
  rw [hent, map_singleton, singleton_inj] at hfresh
  have hruns := (Transition.Meets.of_append h hrun).2 hret .global rfl job
    (KeyedMap.mem_def.mpr (hent ▸ mem_singleton_self job)) rfl
  have hbuild : builds (plainSetup true).x universalExtractorRules = true := by decide +kernel
  have hnil : universalExtractorRules = [] :=
    hfresh.symm.trans ((runsFresh_iff.mp hruns (hfresh.symm ▸ hbuild)).symm.trans hjob)
  exact absurd hnil (cons_ne_nil _ _)

end TerminalCommander.Registry
