import TerminalCommander.Daemon.Registry.Concurrent
import TerminalCommander.Daemon.Registry.LiveConsistency

/-!
# Live jobs while starts and registry calls run at once

A start takes its snapshot of the registry long before its job is in the live map, and a rebind
takes one before it writes it to a job. If no update falls between a snapshot and the insert or
write that uses it, then whenever no request is under way every live job has just the rules that
the registry gives it: a job that is not consistent is still to be rebound by some request.
-/

namespace TerminalCommander.Registry

open List JobSifter

variable {g : Setup} {x : Externals}

namespace Pc

def holds : Pc x → Option (LiveJob x)
  | writing job _ _ => some job
  | built job => some job
  | _ => none

def Fresh (r : ActivationRegistry) : Pc x → Prop
  | writing job rules _ => ∀ ref, ref ∈ rules.registry.map RuleDefinition.ref ↔ Held r job ref
  | built job => Consistent r job
  | _ => True

def Owes (job : LiveJob x) : Pc x → Prop
  | added _ scope => scope.matchesJob job.ids = true
  | superseding _ scope _ => scope.matchesJob job.ids = true
  | closing _ scope _ _ => scope.matchesJob job.ids = true
  | rebinding scope => scope.matchesJob job.ids = true
  | rebindJobs work => ∃ target ∈ work, LiveJob.Same target job
  | writing target _ work => ∃ target' ∈ target :: work, LiveJob.Same target' job
  | _ => False

end Pc

/-! ## Handles of one job -/

variable {r : ActivationRegistry}

theorem Pc.Fresh.congr {pc : Pc x} {r' : ActivationRegistry} (h : pc.Fresh r)
    (hheld : ∀ job ∈ pc.holds, ∀ ref, Held r' job ref ↔ Held r job ref) : pc.Fresh r' := by
  cases pc with
  | writing job rules work | built job => exact fun ref => (h ref).trans (hheld job rfl ref).symm
  | _ => trivial

/-! ## The condition -/

def Sys.Spares (s : Sys g) (r : ActivationRegistry) : Prop :=
  ∀ pc ∈ s.requests, ∀ job ∈ pc.holds, ∀ ref, Held r job ref ↔ Held s.daemon.activation job ref

instance (s : Sys g) (r : ActivationRegistry) : Decidable (s.Spares r) :=
  decidable_of_iff (∀ pc ∈ s.requests, ∀ job ∈ pc.holds,
    ∀ ref ∈ ActivationRegistry.refs r ++ ActivationRegistry.refs s.daemon.activation,
      (Held r job ref ↔ Held s.daemon.activation job ref)) <|
    forall₂_congr fun _ _ => forall₂_congr fun _ _ =>
      agree_iff (fun _ h => List.mem_append_left _ h.mem_refs) fun _ h =>
        List.mem_append_right _ h.mem_refs

def Pc.Undisturbing (s : Sys g) : Pc g.x → Prop
  | recorded definition scope => s.Spares (s.daemon.activation.activate definition scope)
  | closing definition scope v _ =>
    s.Spares (s.daemon.activation.deactivate definition.id v scope)
  | dropping ruleId version scope _ =>
    s.Spares (s.daemon.activation.deactivate ruleId version scope)
  | writing job rules _ => ∀ job' ∈ s.daemon.live, LiveJob.Same job job' →
      builds g.x rules.list = true ∨ Consistent s.daemon.activation job'
  | _ => True

instance (s : Sys g) : ∀ pc : Pc g.x, Decidable (pc.Undisturbing s)
  | .recorded _ _ => inferInstanceAs (Decidable (s.Spares _))
  | .closing _ _ _ _ => inferInstanceAs (Decidable (s.Spares _))
  | .dropping _ _ _ _ => inferInstanceAs (Decidable (s.Spares _))
  | .writing job rules _ => inferInstanceAs (Decidable (∀ job' ∈ s.daemon.live.entries,
      LiveJob.Same job job' → builds g.x rules.list = true ∨ Consistent s.daemon.activation job'))
  | .accepted _ _ | .added _ _ | .superseding _ _ _ | .deactivating _ _ _ | .rebinding _
  | .rebindJobs _ | .starting _ _ | .built _ | .done => inferInstanceAs (Decidable True)

def Pc.isSuperseding : Pc x → Bool
  | superseding _ _ _ => true
  | _ => false

def Undisturbed (s : Sys g) : Action → Prop
  | .step k _ => ∀ pc ∈ s.requests[k]?, pc.Undisturbing s
  | .fail k => ∀ pc ∈ s.requests[k]?, pc.isSuperseding = false
  | _ => True

instance (s : Sys g) : ∀ a : Action, Decidable (Undisturbed s a)
  | .step k _ => inferInstanceAs (Decidable (∀ pc ∈ s.requests[k]?, _))
  | .fail k => inferInstanceAs (Decidable (∀ pc ∈ s.requests[k]?, _))
  | .enter _ | .upsert _ | .forget _ | .watch _ => inferInstanceAs (Decidable True)

/-! ## The invariant -/

structure Settling (s : Sys g) : Prop where
  fresh : ∀ pc ∈ s.requests, pc.Fresh s.daemon.activation
  jobs : ∀ job ∈ s.daemon.live, Consistent s.daemon.activation job ∨
    ∃ pc ∈ s.requests, pc.Owes job

theorem owes_set {l : List (Pc x)} {k : Nat} {pc pc' : Pc x} {job : LiveJob x}
    (hk : l[k]? = some pc) (h : ∃ q ∈ l, q.Owes job) (hpc : pc.Owes job → pc'.Owes job) :
    ∃ q ∈ l.set k pc', q.Owes job := by
  obtain ⟨q, hq, howes⟩ := h
  rcases Table.mem_set_or_eq hk hq with rfl | hq
  · exact ⟨pc', Table.mem_set_self hk pc', hpc howes⟩
  · exact ⟨q, hq, howes⟩

section Step

variable {s : Sys g} {d : Daemon g} {k : Nat} {pc pc' : Pc g.x}

theorem Settling.fresh_set (hfresh : ∀ q ∈ s.requests, q.Fresh r)
    (hpc' : pc'.Fresh r) : ∀ q ∈ s.requests.set k pc', q.Fresh r := by
  intro q hq
  rcases mem_or_eq_of_mem_set hq with hq | rfl
  · exact hfresh q hq
  · exact hpc'

theorem Settling.keep (h : Settling s) (hk : s.requests[k]? = some pc)
    (hact : d.activation = s.daemon.activation) (hlive : d.live = s.daemon.live)
    (hfresh : pc'.Fresh s.daemon.activation)
    (howes : ∀ job ∈ s.daemon.live, pc.Owes job → pc'.Owes job) :
    Settling ⟨d, s.requests.set k pc'⟩ := by
  refine ⟨?_, fun job hjob => ?_⟩
  · show ∀ q ∈ s.requests.set k pc', q.Fresh d.activation
    rw [hact]
    exact Settling.fresh_set h.fresh hfresh
  · have hjob : job ∈ s.daemon.live := hlive ▸ hjob
    show Consistent d.activation job ∨ _
    rw [hact]
    exact (h.jobs job hjob).imp_right fun hq => owes_set hk hq (howes job hjob)

theorem Settling.change (h : Settling s) (hk : s.requests[k]? = some pc) {a : Access}
    {scope : ActivationScope} (hwithin : a.Within scope)
    (hspares : s.Spares (a.change s.daemon.activation))
    (hact : d.activation = a.change s.daemon.activation) (hlive : d.live = s.daemon.live)
    (hfresh : ∀ r, pc'.Fresh r)
    (howes : ∀ job : LiveJob g.x, pc.Owes job → scope.matchesJob job.ids)
    (howes' : ∀ job : LiveJob g.x, scope.matchesJob job.ids → pc'.Owes job) :
    Settling ⟨d, s.requests.set k pc'⟩ := by
  refine ⟨?_, fun job hjob => ?_⟩
  · show ∀ q ∈ s.requests.set k pc', q.Fresh d.activation
    rw [hact]
    exact Settling.fresh_set (fun q hq => (h.fresh q hq).congr (hspares q hq)) (hfresh _)
  · have hjob : job ∈ s.daemon.live := hlive ▸ hjob
    show Consistent d.activation job ∨ _
    rw [hact]
    by_cases hscope : scope.matchesJob job.ids
    · exact Or.inr ⟨pc', Table.mem_set_self hk pc', howes' job hscope⟩
    · refine (h.jobs job hjob).imp (fun hjob ref => (hjob ref).trans ?_) fun hq =>
        owes_set hk hq fun hpc => absurd (howes job hpc) hscope
      have hheld : Held (changeAll s.daemon.activation [a]) job ref ↔
          Held s.daemon.activation job ref :=
        held_changeAll_of_outside hscope fun b hb => mem_singleton.mp hb ▸ hwithin
      exact hheld.symm

theorem Settling.write (h : Settling s) {job : LiveJob g.x} {rules : RuleSources}
    {work : List (LiveJob g.x)} (hk : s.requests[k]? = some (.writing job rules work))
    (hbuilds : ∀ job' ∈ s.daemon.live, LiveJob.Same job job' →
      builds g.x rules.list ∨ Consistent s.daemon.activation job') :
    Settling ⟨{ s.daemon with live := writeSifter job rules s.daemon.live },
      s.requests.set k (.rebindJobs work)⟩ := by
  have hrules : ∀ ref, ref ∈ rules.registry.map RuleDefinition.ref ↔
      Held s.daemon.activation job ref := h.fresh _ (mem_iff_getElem?.mpr ⟨k, hk⟩)
  refine ⟨Settling.fresh_set h.fresh trivial, fun job' hjob' => ?_⟩
  obtain ⟨old, hold, rfl⟩ := List.mem_map.mp hjob'
  by_cases hsame : LiveJob.Same job old
  · rw [if_pos hsame]
    left
    intro ref
    show ref ∈ (old.sifter.rebuild rules).rules.registry.map _ ↔ Held s.daemon.activation old ref
    rcases hbuild : builds g.x rules.list with _ | _
    · rw [rules_rebuild_of_not_builds hbuild]
      exact (hbuilds old hold hsame).resolve_left (by rw [hbuild]; decide) ref
    · rw [rules_rebuild_of_builds hbuild]
      refine (hrules ref).trans ?_
      unfold Held
      rw [hsame.1, hsame.2]
  · rw [if_neg hsame]
    refine (h.jobs old hold).imp_right fun hq => owes_set hk hq fun hpc => ?_
    obtain ⟨target, htarget, hsameTarget⟩ := hpc
    rcases mem_cons.mp htarget with rfl | htarget
    · exact absurd hsameTarget hsame
    · exact ⟨target, htarget, hsameTarget⟩

theorem Settling.insert (h : Settling s) {job : LiveJob g.x}
    (hk : s.requests[k]? = some (.built job)) :
    Settling ⟨{ s.daemon with live := s.daemon.live.insert job }, s.requests.set k .done⟩ := by
  refine ⟨Settling.fresh_set h.fresh trivial, fun job' hjob' => ?_⟩
  rcases KeyedMap.mem_insert.mp hjob' with rfl | ⟨hjob', -⟩
  · exact Or.inl (h.fresh _ (mem_iff_getElem?.mpr ⟨k, hk⟩))
  · exact (h.jobs job' hjob').imp_right fun hq => owes_set hk hq fun hpc => hpc.elim

theorem Settling.next {now : Text} (h : Settling s) (hk : s.requests[k]? = some pc)
    (hund : pc.Undisturbing s) (hnext : pc.next now s.daemon = some (d, pc')) :
    Settling ⟨d, s.requests.set k pc'⟩ := by
  cases pc with
  | accepted definition scope =>
    unfold Pc.next at hnext
    dsimp only at hnext
    split at hnext
    · cases hnext
      exact h.keep hk rfl rfl trivial fun _ _ hpc => hpc.elim
    · cases hnext
  | recorded definition scope =>
    cases hnext
    exact h.change hk (a := .add definition scope) rfl hund rfl rfl (fun _ => trivial)
      (fun _ hpc => hpc.elim) fun _ hscope => hscope
  | added definition scope =>
    cases hnext
    exact h.keep hk rfl rfl trivial fun _ _ hpc => hpc
  | superseding definition scope pending =>
    cases pending with
    | _ =>
      cases hnext
      exact h.keep hk rfl rfl trivial fun _ _ hpc => hpc
  | closing definition scope v vs =>
    cases hnext
    exact h.change hk (a := .drop definition.id scope v) rfl hund rfl rfl
      (fun _ => trivial) (fun _ hpc => hpc) fun _ hscope => hscope
  | deactivating ruleId version scope =>
    cases hnext
    exact h.keep hk rfl rfl trivial fun _ _ hpc => hpc.elim
  | dropping ruleId version scope wasPersisted =>
    unfold Pc.next at hnext
    dsimp only at hnext
    split_ifs at hnext
    · cases hnext
      exact h.keep hk rfl rfl trivial fun _ _ hpc => hpc.elim
    · cases hnext
      exact h.change hk (a := .drop ruleId scope version) rfl hund rfl rfl
        (fun _ => trivial) (fun _ hpc => hpc.elim) fun _ hscope => hscope
  | rebinding scope =>
    cases hnext
    refine h.keep hk rfl rfl trivial fun job hjob hpc => ?_
    refine ⟨job, List.mem_filter.mpr ⟨hjob, ?_⟩, rfl, rfl⟩
    rw [LiveJob.inScope_some]
    exact hpc
  | rebindJobs work =>
    cases work with
    | nil =>
      cases hnext
      refine h.keep hk rfl rfl trivial fun _ _ hpc => ?_
      obtain ⟨_, hmem, -⟩ := hpc
      exact (not_mem_nil hmem).elim
    | cons job work =>
      cases hnext
      exact h.keep hk rfl rfl (fun ref => ref_mem_merged) fun _ _ hpc => hpc
  | writing job rules work =>
    cases hnext
    exact h.write hk hund
  | starting ids inlineRules =>
    unfold Pc.next at hnext
    dsimp only at hnext
    split at hnext
    · rename_i sifter hbuild
      cases hnext
      have hrules : sifter.rules = startSources g.universalExtractors
          (s.daemon.activation.snapshotForJob ids) inlineRules := rules_of_build hbuild
      refine h.keep hk rfl rfl ?_ fun _ _ hpc => hpc.elim
      show Consistent s.daemon.activation ⟨ids, inlineRules, sifter⟩
      exact consistent_start hrules
    · cases hnext
      exact h.keep hk rfl rfl trivial fun _ _ hpc => hpc.elim
  | built job =>
    cases hnext
    exact h.insert hk
  | done => cases hnext

end Step

theorem fresh_enter (request : Incoming) (d : Daemon g) (r : ActivationRegistry) :
    (request.enter d).Fresh r := by
  cases request with
  | start ids inlineRules => trivial
  | _ =>
    unfold Incoming.enter
    dsimp only
    split
    · split_ifs <;> trivial
    · trivial

theorem Settling.step {s s' : Sys g} {a : Action} (h : Settling s) (hund : Undisturbed s a)
    (hstep : s.step a = some s') : Settling s' := by
  cases a with
  | enter request =>
    cases hstep
    refine ⟨fun q hq => ?_, fun job hjob => (h.jobs job hjob).imp_right fun ⟨q, hq, howes⟩ =>
      ⟨q, mem_append_left _ hq, howes⟩⟩
    rcases mem_append.mp hq with hq | hq
    · exact h.fresh q hq
    · rw [mem_singleton.mp hq]
      exact fresh_enter request s.daemon _
  | step k now =>
    obtain ⟨pc, pc', d, hk, hnext, rfl⟩ := Sys.stepRequest_eq_some hstep
    exact h.next hk (hund pc hk) hnext
  | fail k =>
    rcases hk : s.requests[k]? with _ | pc
    · rw [Sys.step, hk] at hstep
      cases hstep
    · rw [Sys.step, hk] at hstep
      dsimp only at hstep
      split_ifs at hstep with hfail
      cases hstep
      have hnot := hund pc hk
      refine h.keep hk rfl rfl trivial fun job _ hpc => ?_
      cases pc <;> first | exact hpc.elim | cases hfail | cases hnot
  | upsert definition =>
    unfold Sys.step at hstep
    dsimp only at hstep
    split at hstep
    · cases hstep
      exact ⟨h.fresh, h.jobs⟩
    · cases hstep
      exact h
  | forget jobId =>
    cases hstep
    exact ⟨h.fresh, fun job hjob => h.jobs job (KeyedMap.mem_erase.mp hjob).1⟩
  | watch others =>
    cases hstep
    exact ⟨h.fresh, h.jobs⟩

/-! ## Runs -/

def Sys.initial : Sys g := ⟨Daemon.initial, []⟩

theorem settling_initial : Settling (Sys.initial : Sys g) where
  fresh := fun _ h => (not_mem_nil h).elim
  jobs := fun _ h => (not_mem_nil h).elim

/-- **Starts and registry calls that run at once.** In every run in which no update of the registry
outdates a snapshot that a start or rebind holds, what is written to the sifters compiles, and no
call fails in its supersede loop: whenever no request is under way, every live job has just the
rule versions that the registry gives it. -/
theorem quiescent_jobs_consistent (schedule : List Action) (s : Sys g)
    (hrun : Transition.run Sys.step Sys.initial schedule = some s)
    (hundisturbed : Transition.Meets Sys.step Undisturbed (Sys.initial : Sys g) schedule)
    (hquiescent : s.Quiescent) :
    ∀ job ∈ s.daemon.live, ∀ ref, ref ∈ job.sifter.rules.registry.map RuleDefinition.ref ↔
      Held s.daemon.activation job ref := by
  have hsettling : Settling s :=
    Transition.run_invariant (fun _ _ _ h hg hs => h.step hg hs) settling_initial hundisturbed hrun
  intro job hjob
  rcases hsettling.jobs job hjob with hconsistent | ⟨pc, hpc, howes⟩
  · exact hconsistent
  · rw [hquiescent pc hpc] at howes
    exact howes.elim

/-! ## A start and an activation -/

def aTime : Text := "2026-01-01T00:00:00Z".toList

def beforeStart : List Action :=
  [.upsert (keywordRule "r".toList ["a".toList]), .enter (.start ⟨1, 2, 3⟩ [])]

def activation (n : Nat) : List Action :=
  .enter (.activate ⟨"r".toList, none, some .global⟩) :: List.replicate n (.step 1 aTime)

/-- The activation runs between the snapshot of the start and its insert: its rebind finds no job,
and the job lacks the rule. -/
theorem start_misses_activation :
    ∃ s ∈ Transition.run Sys.step (Sys.initial : Sys (plainSetup false))
        (beforeStart ++ [.step 0 aTime] ++ activation 6 ++ [.step 0 aTime]),
      s.Quiescent ∧ ∃ job ∈ s.daemon.live.entries, ¬Consistent s.daemon.activation job := by
  decide +kernel

/-- The activation runs when the job is in the live map. -/
theorem start_then_activation :
    ∃ s ∈ Transition.run Sys.step (Sys.initial : Sys (plainSetup false))
        (beforeStart ++ [.step 0 aTime, .step 0 aTime] ++ activation 8),
      s.Quiescent ∧ s.daemon.live.entries ≠ [] ∧ ∀ job ∈ s.daemon.live, ∀ ref,
        ref ∈ job.sifter.rules.registry.map RuleDefinition.ref ↔
          Held s.daemon.activation job ref := by
  have hend : ∃ s ∈ Transition.run Sys.step (Sys.initial : Sys (plainSetup false))
      (beforeStart ++ [.step 0 aTime, .step 0 aTime] ++ activation 8),
      s.Quiescent ∧ 0 < s.daemon.live.entries.length := by
    decide +kernel
  obtain ⟨s, hrun, hdone, hlive⟩ := hend
  exact ⟨s, hrun, hdone, length_pos_iff.mp hlive,
    quiescent_jobs_consistent _ s hrun (by decide +kernel) hdone⟩

end TerminalCommander.Registry
