import TerminalCommander.Daemon.Pty.Stop

/-!
# The lifecycle event of a PTY job

The lifecycle waiter appends the event that its `finish` or `cancel` of the job returns. A stop
drops the event of its own `cancel`, and the waiter makes none when it finds the job terminal. So a
job whose stop comes before the check of the waiter ends without an event.
-/

namespace TerminalCommander.PtyStop

open Transition

def WaiterPc.early : WaiterPc → Bool
  | .waiting => true
  | .queued _ => true
  | .reported _ => true
  | _ => false

def WaiterPc.late : WaiterPc → Bool
  | .appended => true
  | .measuring _ => true
  | .done => true
  | _ => false

def Action.quiet : Action → Bool
  | .waiterGuard => false
  | .waiterFinish _ => false
  | .waiterAppend _ => false
  | .stopRecord _ _ => false
  | _ => true

variable {s s' t : Sys} {a : Action} {acts : List Action}

structure Quiet (s s' : Sys) : Prop where
  job : s'.job = s.job
  appended : s'.appended = s.appended
  waiter : s'.waiter = s.waiter ∨ s.waiter.early = true ∧ s'.waiter.early = true ∨
    s.waiter.late = true ∧ s'.waiter.late = true

theorem quiet_step (hquiet : a.quiet) (h : step s a = some s') : Quiet s s' := by
  have hearly (hw : s.waiter.early) (hw' : s'.waiter.early) (hjob : s'.job = s.job)
      (happ : s'.appended = s.appended) : Quiet s s' :=
    ⟨hjob, happ, .inr (.inl ⟨hw, hw'⟩)⟩
  have hlate (hw : s.waiter.late) (hw' : s'.waiter.late) (hjob : s'.job = s.job)
      (happ : s'.appended = s.appended) : Quiet s s' :=
    ⟨hjob, happ, .inr (.inr ⟨hw, hw'⟩)⟩
  cases a with
  | waiterGuard | waiterFinish | waiterAppend | stopRecord => cases hquiet
  | waiterLock =>
    simp only [step] at h
    split at h
    · next hw _ => cases h; exact hearly (by rw [hw]; rfl) rfl rfl rfl
    · cases h
  | waiterReport =>
    simp only [step] at h
    split at h
    · next hw =>
      split_ifs at h
      cases h
      exact hearly (by rw [hw]; rfl) rfl rfl rfl
    · cases h
  | waiterTry =>
    simp only [step] at h
    split at h
    · next hw => split at h <;> (cases h; exact hlate (by rw [hw]; rfl) rfl rfl rfl)
    · cases h
  | waiterPersist =>
    simp only [step] at h
    split at h
    · next hw => cases h; exact hlate (by rw [hw]; rfl) rfl rfl rfl
    · next hw => cases h; exact hlate (by rw [hw]; rfl) rfl rfl rfl
    · cases h
  | _ =>
    -- the calls, the child and the rest of the stops
    simp only [step] at h
    repeat' split at h
    all_goals
      cases h
      first | done | exact ⟨rfl, rfl, .inl rfl⟩

inductive Moves (s : Sys) : Action → Sys → Prop
  | quiet {a : Action} {s' : Sys} (hquiet : a.quiet = true) (h : Quiet s s') : Moves s a s'
  | guard (outcome : ProbeOutcome) (h : s.waiter = .reported outcome) : Moves s .waiterGuard
      { s with waiter := if s.job.state.terminal then .done else .guarded outcome }
  | finish (outcome : ProbeOutcome) (now : Time) (h : s.waiter = .guarded outcome) :
      Moves s (.waiterFinish now) { s with
        job := (Lifecycle.finishJob s.job outcome now).1
        waiter := .finished (Lifecycle.finishJob s.job outcome now).2 }
  | append (ok : Bool) (draft : EventDraft) (h : s.waiter = .finished draft) :
      Moves s (.waiterAppend ok) { s with
        appended := if ok then s.appended ++ [draft] else s.appended
        waiter := .appended }
  | record (k : Nat) (now : Time) : Moves s (.stopRecord k now) { s with
      job := (s.job.cancel now).1
      stops := s.stops.set k .recorded }

theorem step_moves (h : step s a = some s') : Moves s a s' := by
  by_cases hquiet : a.quiet
  · exact .quiet hquiet (quiet_step hquiet h)
  cases a with
  | waiterGuard =>
    simp only [step] at h
    split at h
    · next hw => cases h; exact .guard _ hw
    · cases h
  | waiterFinish now =>
    simp only [step] at h
    split at h
    · next hw => cases h; exact .finish _ now hw
    · cases h
  | waiterAppend ok =>
    simp only [step] at h
    split at h
    · next hw => cases h; exact .append ok _ hw
    · cases h
  | stopRecord k now =>
    simp only [step] at h
    split at h
    · cases h; exact .record k now
    · cases h
  | _ => exact absurd rfl hquiet

structure IsLifecycle (config : JobConfig) (draft : EventDraft) : Prop where
  bucket : draft.bucketId = config.bucketId
  job : draft.source.jobId = some config.jobId
  kind : draft.kind = "command_exited".toList ∨ draft.kind = "command_failed".toList

theorem finishJob_isLifecycle (rec : JobRecord) (outcome : ProbeOutcome) (now : Time) :
    IsLifecycle rec.config (Lifecycle.finishJob rec outcome now).2 := by
  cases outcome with
  | exited code signal =>
    refine ⟨rfl, rfl, ?_⟩
    show (if _ then "command_failed".toList else "command_exited".toList) = _ ∨
      (if _ then "command_failed".toList else "command_exited".toList) = _
    split_ifs
    · exact .inr rfl
    · exact .inl rfl
  | cancelled => exact ⟨rfl, rfl, .inr rfl⟩

def Ended (config : JobConfig) (s : Sys) : Prop :=
  ∃ draft, s.appended = [draft] ∧ IsLifecycle config draft

/-! ## After the append -/

theorem Moves.late (h : Moves s a s') (hlate : s.waiter.late) :
    s'.waiter.late ∧ s'.appended = s.appended ∧ ∀ ok, a ≠ .waiterAppend ok := by
  cases h with
  | quiet hquiet h =>
    refine ⟨?_, h.appended, fun ok ha => by rw [ha] at hquiet; cases hquiet⟩
    rcases h.waiter with hw | ⟨hearly, -⟩ | ⟨-, hw⟩
    · rwa [hw]
    · cases hpc : s.waiter <;> simp_all [WaiterPc.early, WaiterPc.late]
    · exact hw
  | guard outcome hw | finish outcome now hw | append ok draft hw => rw [hw] at hlate; cases hlate
  | record k now => exact ⟨hlate, rfl, fun _ => Action.noConfusion⟩

theorem late_run (hlate : s.waiter.late) (h : run step s acts = some t) :
    t.appended = s.appended ∧ ∀ ok, .waiterAppend ok ∉ acts := by
  induction acts generalizing s with
  | nil =>
    cases h
    exact ⟨rfl, fun _ => List.not_mem_nil⟩
  | cons a acts ih =>
    obtain ⟨s', hstep, h⟩ := run_cons_eq_some.mp h
    obtain ⟨hlate', happ, hne⟩ := (step_moves hstep).late hlate
    obtain ⟨hrest, hnot⟩ := ih hlate' h
    refine ⟨hrest.trans happ, fun ok hmem => ?_⟩
    rcases List.mem_cons.mp hmem with heq | hmem
    · exact hne ok heq.symm
    · exact hnot ok hmem

/-! ## From the check of the waiter to the append -/

structure Ending (config : JobConfig) (s : Sys) : Prop where
  appended : s.appended = []
  jobConfig : s.job.config = config
  waiter : (∃ outcome, s.waiter = .guarded outcome) ∨
    ∃ draft, s.waiter = .finished draft ∧ IsLifecycle config draft

variable {config : JobConfig}

theorem Ending.middle (h : Ending config s) : s.waiter.early = false ∧ s.waiter.late = false := by
  rcases h.waiter with ⟨outcome, hw⟩ | ⟨draft, hw, -⟩ <;> rw [hw] <;> exact ⟨rfl, rfl⟩

theorem Ending.moves (h : Ending config s) (hmoves : Moves s a s')
    (ha : ∀ ok, a ≠ .waiterAppend ok) : Ending config s' := by
  cases hmoves with
  | quiet hquiet hq =>
    have hw : s'.waiter = s.waiter := by
      rcases hq.waiter with hw | ⟨hearly, -⟩ | ⟨hlate, -⟩
      · exact hw
      · rw [h.middle.1] at hearly; cases hearly
      · rw [h.middle.2] at hlate; cases hlate
    exact ⟨hq.appended.trans h.appended, hq.job ▸ h.jobConfig, hw ▸ h.waiter⟩
  | guard outcome hw =>
    have hearly := h.middle.1
    rw [hw] at hearly
    cases hearly
  | finish outcome now hw =>
    refine ⟨h.appended, Eq.trans (by cases outcome <;> rfl) h.jobConfig, .inr ⟨_, rfl, ?_⟩⟩
    exact h.jobConfig ▸ finishJob_isLifecycle s.job outcome now
  | append ok => exact absurd rfl (ha ok)
  | record k now => exact ⟨h.appended, h.jobConfig, h.waiter⟩

theorem Ending.append {ok : Bool} (h : Ending config s) (hmoves : Moves s (.waiterAppend ok) s') :
    s'.waiter.late ∧ (Ended config s' ↔ ok) := by
  cases hmoves with
  | quiet hquiet => cases hquiet
  | append _ draft hw =>
    have hdraft : IsLifecycle config draft := by
      rcases h.waiter with ⟨outcome, hw'⟩ | ⟨draft', hw', hdraft⟩
      · cases hw.symm.trans hw'
      · cases hw.symm.trans hw'
        exact hdraft
    refine ⟨rfl, ?_⟩
    cases ok with
    | true => exact ⟨fun _ => rfl, fun _ => ⟨draft, by simp [h.appended], hdraft⟩⟩
    | false =>
      refine ⟨fun hended => ?_, fun hok => by cases hok⟩
      obtain ⟨_, hone, -⟩ := hended
      cases h.appended.symm.trans hone

theorem Ending.run (h : Ending config s) (hrun : run step s acts = some t)
    (hdone : t.waiter = .done) : Ended config t ↔ .waiterAppend false ∉ acts := by
  induction acts generalizing s with
  | nil =>
    cases hrun
    have hlate := h.middle.2
    rw [hdone] at hlate
    cases hlate
  | cons a acts ih =>
    obtain ⟨s', hstep, hrest⟩ := run_cons_eq_some.mp hrun
    by_cases ha : ∃ ok, a = .waiterAppend ok
    · obtain ⟨ok, rfl⟩ := ha
      obtain ⟨hlate, hended⟩ := h.append (step_moves hstep)
      obtain ⟨hsame, hnot⟩ := late_run hlate hrest
      have hended' : Ended config t ↔ ok := by
        rw [← hended, Ended, Ended, hsame]
      rw [hended']
      cases ok <;> simp [hnot]
    · have hne : ∀ ok, a ≠ .waiterAppend ok := fun ok heq => ha ⟨ok, heq⟩
      rw [ih (h.moves (step_moves hstep) hne) hrest]
      simp [(hne false).symm]

/-! ## Up to the check -/

structure Before (config : JobConfig) (s : Sys) : Prop where
  appended : s.appended = []
  jobConfig : s.job.config = config
  waiter : s.waiter.early = true

theorem Before.quiet (h : Before config s) (hq : Quiet s s') : Before config s' := by
  refine ⟨hq.appended.trans h.appended, hq.job ▸ h.jobConfig, ?_⟩
  rcases hq.waiter with hw | ⟨-, hw⟩ | ⟨hlate, -⟩
  · rw [hw]; exact h.waiter
  · exact hw
  · have hearly := h.waiter
    cases hpc : s.waiter <;> simp_all [WaiterPc.early, WaiterPc.late]

def Silent (s : Sys) : Prop :=
  s.appended = [] ∧ (s.waiter.late = true ∨ s.waiter.early = true ∧ s.job.state.terminal = true)

theorem Silent.moves (h : Silent s) (hmoves : Moves s a s') : Silent s' := by
  obtain ⟨hnone, hlate | ⟨hearly, hterm⟩⟩ := h
  · obtain ⟨hlate', hsame, -⟩ := hmoves.late hlate
    exact ⟨hsame.trans hnone, .inl hlate'⟩
  · cases hmoves with
    | quiet hquiet hq =>
      have hbef : Before s.job.config s := ⟨hnone, rfl, hearly⟩
      exact ⟨(hbef.quiet hq).appended, .inr ⟨(hbef.quiet hq).waiter, hq.job ▸ hterm⟩⟩
    | guard outcome hw => exact ⟨hnone, .inl (by simp [hterm, WaiterPc.late])⟩
    | finish outcome now hw | append ok draft hw => rw [hw] at hearly; cases hearly
    | record k now => exact ⟨hnone, .inr ⟨hearly, rfl⟩⟩

theorem Silent.run (h : Silent s) (hrun : run step s acts = some t) : Silent t :=
  run_invariant (fun _ _ _ hI _ hs => hI.moves (step_moves hs)) h
    (meets_true s acts) hrun

def checkedFirst : List Action → Bool
  | [] => true
  | .waiterGuard :: _ => true
  | .stopRecord _ _ :: _ => false
  | _ :: acts => checkedFirst acts

theorem checkedFirst_quiet (h : a.quiet) (acts : List Action) :
    checkedFirst (a :: acts) = checkedFirst acts := by
  cases a <;> first | rfl | cases h

theorem Before.run (h : Before config s) (hjob : s.job.state.terminal = false)
    (hrun : run step s acts = some t) (hdone : t.waiter = .done) :
    Ended config t ↔ checkedFirst acts ∧ .waiterAppend false ∉ acts := by
  induction acts generalizing s with
  | nil =>
    cases hrun
    have hearly := h.waiter
    rw [hdone] at hearly
    cases hearly
  | cons a acts ih =>
    obtain ⟨s', hstep, hrest⟩ := run_cons_eq_some.mp hrun
    cases step_moves hstep with
    | quiet hquiet hq =>
      have hne : Action.waiterAppend false ≠ a := by
        rintro rfl
        cases hquiet
      rw [ih (h.quiet hq) (hq.job ▸ hjob) hrest, checkedFirst_quiet hquiet, List.mem_cons]
      simp [hne]
    | guard outcome hw =>
      have hending : Ending config
          { s with waiter := if s.job.state.terminal then .done else .guarded outcome } :=
        ⟨h.appended, h.jobConfig, .inl ⟨outcome, by simp [hjob]⟩⟩
      rw [hending.run hrest hdone]
      simp [checkedFirst]
    | finish outcome now hw | append ok draft hw =>
      have hearly := h.waiter
      rw [hw] at hearly
      cases hearly
    | record k now =>
      -- the waiter will find the job cancelled
      have hstop : Silent { s with
          job := (s.job.cancel now).1
          stops := s.stops.set k .recorded } := ⟨h.appended, .inr ⟨h.waiter, rfl⟩⟩
      have hsilent := hstop.run hrest
      refine ⟨fun hended => ?_, fun hfirst => by cases hfirst.1⟩
      obtain ⟨_, hone, -⟩ := hended
      cases hsilent.1.symm.trans hone

def loginJob : JobConfig := ⟨1, "login".toList, 2, 3, .terminal⟩

end TerminalCommander.PtyStop
