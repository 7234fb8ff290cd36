import TerminalCommander.Daemon.Command.Lifecycle

/-!
# Terminal states are final

The waiter and a stop each look at the ledger and write to it later. As long as no stop cancels
the job between the look of a waiter that will finish it and the `finish`, nor under a status call
that has already read a natural exit, what a status call has reported stays so, the bucket gets one
lifecycle event at most, and a stopped job ends as cancelled.
-/

namespace TerminalCommander

namespace Lifecycle

open List StatusPc StopPc Transition

def WaiterPc.aboutToFinish : WaiterPc → Bool
  | .guarded (.exited _ _) => true
  | _ => false

def WaiterPc.ended : WaiterPc → Bool
  | .finished _ => true
  | .skipped => true
  | .evicted _ => true
  | .settled => true
  | .done => true
  | _ => false

def WaiterPc.past : WaiterPc → Bool
  | .settled => true
  | .done => true
  | _ => false

def StatusPc.sawNatural : StatusPc → Bool
  | .read rec _ => rec.state.natural
  | .returned _ => false

def StopPc.effective : StopPc → Bool
  | .cancelled => true
  | .returned .stopped => true
  | _ => false

structure Final (s : Sys) : Prop where
  sticky : ∀ (i j : Nat) (r r' : Report), s.reports[i]? = some r → s.reports[j]? = some r' →
    i < r'.mark → r.state.terminal = true → r'.state = r.state ∧ r'.exitCode = r.exitCode
  once : s.appended.length ≤ 1
  stopped : ∀ p ∈ s.stops, p.effective = true → s.job.state = .cancelled

def Exclusive (s : Sys) : Action → Prop
  | .stopCancel _ _ => s.waiter.aboutToFinish = false ∧
      (s.job.state.natural = true → ∀ p ∈ s.statuses, p.sawNatural = false)
  | _ => True

instance Exclusive.decidable (s : Sys) : ∀ a, Decidable (Exclusive s a)
  | .stopCancel _ _ => inferInstanceAs (Decidable (_ ∧ _))
  | .exit _ => isTrue trivial
  | .publish => isTrue trivial
  | .guard => isTrue trivial
  | .finish _ => isTrue trivial
  | .evict => isTrue trivial
  | .append _ => isTrue trivial
  | .commit => isTrue trivial
  | .stop _ => isTrue trivial
  | .stopCheck _ => isTrue trivial
  | .stopReturn _ => isTrue trivial
  | .statusRead => isTrue trivial
  | .statusReturn _ => isTrue trivial

/-! ## A waiter past its write -/

def Sys.EndedTerminal (s : Sys) : Prop := s.waiter.ended = true → s.job.state.terminal = true

theorem finishJob_terminal (rec : JobRecord) (outcome : ProbeOutcome) (now : Time) :
    (finishJob rec outcome now).1.state.terminal := by
  cases outcome with
  | exited code signal => exact rec.finish_terminal code signal now
  | cancelled => rfl

variable {s : Sys}

theorem Sys.EndedTerminal.step {s' : Sys} {a : Action} (h : s.EndedTerminal)
    (hstep : step s a = some s') : s'.EndedTerminal := by
  cases Step.of_step hstep with
  | exit | publish | pass => exact nofun
  | skip _ _ ht => exact fun _ => ht
  | finish outcome now => exact fun _ => finishJob_terminal s.job outcome now
  | evict _ hw | evictSkipped hw | append _ hw | appendFails _ hw | commit hw =>
    exact fun _ => h (by rw [hw]; rfl)
  | stopCancel => exact fun _ => rfl
  | stop | stopLate | stopCheck | stopReturn | statusRead | statusReturn => exact h

/-! ## The invariant -/

def Agrees (rec : JobRecord) (state : JobState) (exitCode : Option Int) : Prop :=
  rec.state = state ∧ rec.exitCode = exitCode

structure Inv (s : Sys) : Prop extends Final s where
  code : s.job.state = .cancelled → s.job.exitCode = none
  guarded : ∀ outcome, s.waiter = .guarded outcome → s.job.state.terminal = true →
    s.job.state = .cancelled ∧ outcome = .cancelled
  ended : s.waiter.ended = true → s.job.state.terminal = true
  committed : s.completionCommitted = true → s.waiter = .done ∧ StopPc.holding ∉ s.stops
  pending : s.waiter.past = false → s.appended = []
  reads : ∀ rec mark, .read rec mark ∈ s.statuses → rec.state.terminal = true →
    Agrees s.job rec.state rec.exitCode
  reported : ∀ r ∈ s.reports, r.state.terminal = true → Agrees s.job r.state r.exitCode ∧
    (r.state.natural = true → s.completionCommitted = true)
  marks : ∀ r ∈ s.reports, r.mark ≤ s.reports.length
  later : ∀ rec mark, .read rec mark ∈ s.statuses → mark ≤ s.reports.length ∧
    ∀ (i : Nat) (r : Report), s.reports[i]? = some r → i < mark → r.state.terminal = true →
      rec.state = r.state ∧ rec.exitCode = r.exitCode

theorem start_inv (config : JobConfig) (startedAt : Time) : Inv (start config startedAt) where
  sticky := fun _ _ _ _ h => by cases h
  once := Nat.zero_le 1
  stopped := fun _ h => by cases h
  code := fun h => by cases h
  guarded := fun _ h => by cases h
  ended := fun h => by cases h
  committed := fun h => by cases h
  pending := fun _ => rfl
  reads := fun _ _ h => by cases h
  reported := fun _ h => by cases h
  marks := fun _ h => by cases h
  later := fun _ _ h => by cases h

/-! ## Steps -/

section

variable (h : Inv s)

include h

theorem Inv.update {job : JobRecord} {pc : WaiterPc}
    (hkeep : ∀ state code, state.terminal → Agrees s.job state code →
      (state.natural → s.completionCommitted ∨
        ∃ p ∈ s.statuses, p.sawNatural) → Agrees job state code)
    (hcode : job.state = .cancelled → job.exitCode = none)
    (hguard : ∀ outcome, pc = .guarded outcome → job.state.terminal →
      job.state = .cancelled ∧ outcome = .cancelled) (hended : pc.ended → job.state.terminal)
    (hdone : s.completionCommitted → pc = .done) (hpast : pc.past = false → s.waiter.past = false)
    (hstop : s.job.state = .cancelled → job.state = .cancelled) :
    Inv { s with job := job, waiter := pc } where
  sticky := h.sticky
  once := h.once
  stopped := fun p hp he => hstop (h.stopped p hp he)
  code := hcode
  guarded := hguard
  ended := hended
  committed := fun hcom => ⟨hdone hcom, (h.committed hcom).2⟩
  pending := fun hpc => h.pending (hpast hpc)
  reads := fun rec mark hr ht =>
    hkeep _ _ ht (h.reads rec mark hr ht) fun hn => .inr ⟨_, hr, hn⟩
  reported := fun r hr ht => by
    obtain ⟨hagrees, hcom⟩ := h.reported r hr ht
    exact ⟨hkeep _ _ ht hagrees fun hn => .inl (hcom hn), hcom⟩
  marks := h.marks
  later := h.later

theorem Inv.setWaiter {before pc : WaiterPc} (hw : s.waiter = before)
    (hbef : before ≠ .done)
    (hguard : ∀ outcome, pc = .guarded outcome → s.job.state.terminal = false)
    (hended : pc.ended → before.ended ∨ s.job.state.terminal)
    (hpast : pc.past = false → before.past = false) : Inv { s with waiter := pc } := by
  subst hw
  refine h.update (fun _ _ _ hagrees _ => hagrees) h.code ?_ ?_ ?_ hpast fun hc => hc
  · intro outcome hpc ht
    rw [hguard outcome hpc] at ht
    cases ht
  · exact fun he => (hended he).elim h.ended id
  · exact fun hcom => absurd (h.committed hcom).1 hbef

theorem Inv.setStops {stops : List StopPc}
    (heff : ∀ p ∈ stops, p.effective → p ∈ s.stops ∨ s.job.state = .cancelled)
    (hholding : s.completionCommitted → holding ∈ stops →
      holding ∈ s.stops) : Inv { s with stops := stops } where
  sticky := h.sticky
  once := h.once
  stopped := fun p hp he => (heff p hp he).elim (fun hold => h.stopped p hold he) id
  code := h.code
  guarded := h.guarded
  ended := h.ended
  committed := fun hcom =>
    ⟨(h.committed hcom).1, fun hold => (h.committed hcom).2 (hholding hcom hold)⟩
  pending := h.pending
  reads := h.reads
  reported := h.reported
  marks := h.marks
  later := h.later

theorem Inv.finish {outcome : ProbeOutcome} (now : Time)
    (hw : s.waiter = .guarded outcome) : Inv { s with
      job := (finishJob s.job outcome now).1
      waiter := .finished (finishJob s.job outcome now).2 } := by
  -- a terminal job under a guarded waiter is cancelled, and is cancelled once more
  have hagain : s.job.state.terminal →
      Agrees (finishJob s.job outcome now).1 .cancelled none ∧ Agrees s.job .cancelled none := by
    intro ht
    obtain ⟨hcanc, rfl⟩ := h.guarded outcome hw ht
    exact ⟨⟨rfl, rfl⟩, hcanc, h.code hcanc⟩
  have hkeep : ∀ state code, state.terminal → Agrees s.job state code →
      Agrees (finishJob s.job outcome now).1 state code := by
    intro state code ht hagrees
    obtain ⟨hnew, hold⟩ := hagain (hagrees.1 ▸ ht)
    rw [← hagrees.1, ← hagrees.2, hold.1, hold.2]
    exact hnew
  refine h.update (fun state code ht hagrees _ => hkeep state code ht hagrees) ?_ ?_
    (fun _ => finishJob_terminal s.job outcome now) ?_ ?_ ?_
  · intro hcanc
    cases outcome with
    | exited code signal =>
      have hcanc : (s.job.finish code signal now).1.state = .cancelled := hcanc
      rcases s.job.finish_state code signal now with hst | hst <;> rw [hst] at hcanc <;>
        cases hcanc
    | cancelled => rfl
  · exact fun o ho => by cases ho
  · intro hcom
    rw [(h.committed hcom).1] at hw
    cases hw
  · exact fun _ => by rw [hw]; rfl
  · exact fun hc => (hkeep .cancelled none rfl ⟨hc, h.code hc⟩).1

theorem Inv.cancel {k : Nat} (now : Time)
    (hk : s.stops[k]? = some .holding) (hwaiter : s.waiter.aboutToFinish = false)
    (hstatus : s.job.state.natural → ∀ p ∈ s.statuses, p.sawNatural = false) :
    Inv { s with job := (s.job.cancel now).1, stops := s.stops.set k .cancelled } := by
  have hunc : s.completionCommitted = false := by
    by_contra hcom
    exact (h.committed (Bool.not_eq_false _ ▸ hcom)).2 (mem_of_getElem? hk)
  have hjob : Inv { s with job := (s.job.cancel now).1, waiter := s.waiter } := by
    refine h.update ?_ (fun _ => rfl) ?_ (fun _ => rfl) ?_ (fun hp => hp) (fun _ => rfl)
    · intro state code ht hagrees hseen
      rcases state.terminal_iff.mp ht with hnat | rfl
      · -- a natural exit that somebody has seen would be committed, or read and unanswered
        rcases hseen hnat with hcom | ⟨p, hp, hsaw⟩
        · rw [hunc] at hcom
          cases hcom
        · rw [hstatus (hagrees.1 ▸ hnat) p hp] at hsaw
          cases hsaw
      · exact ⟨rfl, (h.code hagrees.1).symm.trans hagrees.2⟩
    · intro outcome hw _
      refine ⟨rfl, ?_⟩
      cases outcome with
      | exited code signal => rw [hw] at hwaiter; cases hwaiter
      | cancelled => rfl
    · intro hcom
      rw [hunc] at hcom
      cases hcom
  refine hjob.setStops (fun p _ _ => .inr rfl) fun hcom => ?_
  rw [show s.completionCommitted from hcom] at hunc
  cases hunc

theorem Inv.append {draft : EventDraft} (hw : s.waiter = .evicted draft) : Inv { s with
      job := s.job.recordEvent
      appended := s.appended ++ [draft]
      waiter := .settled } := by
  have hnil : s.appended = [] := h.pending (by rw [hw]; rfl)
  have hended : s.job.state.terminal := h.ended (by rw [hw]; rfl)
  have hjob : Inv { s with job := s.job.recordEvent, waiter := .settled } :=
    h.update (fun _ _ _ hagrees _ => hagrees) h.code (fun _ ho => by cases ho)
      (fun _ => hended)
      (fun hcom => by rw [(h.committed hcom).1] at hw; cases hw)
      (fun hp => by cases hp) fun hc => hc
  refine { hjob with once := ?_, pending := fun hp => by cases hp }
  rw [hnil]
  exact Nat.le_refl 1

theorem Inv.commit (hw : s.waiter = .settled) (hfree : holding ∉ s.stops) :
    Inv { s with completionCommitted := true, waiter := .done } where
  sticky := h.sticky
  once := h.once
  stopped := h.stopped
  code := h.code
  guarded := fun _ ho => by cases ho
  ended := fun _ => h.ended (by rw [hw]; rfl)
  committed := fun _ => ⟨rfl, hfree⟩
  pending := fun hp => by cases hp
  reads := h.reads
  reported := fun r hr ht => ⟨(h.reported r hr ht).1, fun _ => rfl⟩
  marks := h.marks
  later := h.later

theorem Inv.statusRead :
    Inv { s with statuses := s.statuses ++ [.read s.job s.reports.length] } := by
  have hmem : ∀ rec mark, read rec mark ∈ s.statuses ++ [.read s.job s.reports.length] →
      .read rec mark ∈ s.statuses ∨ (rec = s.job ∧ mark = s.reports.length) := by
    intro rec mark hr
    rcases mem_append.mp hr with hold | hnew
    · exact .inl hold
    · obtain ⟨h1, h2⟩ := read.inj (mem_singleton.mp hnew)
      exact .inr ⟨h1, h2⟩
  refine { h with reads := ?_, later := ?_ }
  · intro rec mark hr ht
    rcases hmem rec mark hr with hold | ⟨rfl, -⟩
    · exact h.reads rec mark hold ht
    · exact ⟨rfl, rfl⟩
  · intro rec mark hr
    rcases hmem rec mark hr with hold | ⟨rfl, rfl⟩
    · exact h.later rec mark hold
    · exact ⟨Nat.le_refl _, fun i r hi _ ht => (h.reported r (mem_of_getElem? hi) ht).1⟩

end

variable {rec : JobRecord}

theorem visible_terminal {committed : Bool} (h : (visible rec committed).1.terminal) :
    visible rec committed = (rec.state, rec.exitCode) ∧
      (rec.state.natural → committed) := by
  unfold visible at h ⊢
  split_ifs at h ⊢ with hmask
  · cases h
  · refine ⟨rfl, fun hn => ?_⟩
    by_contra hc
    refine hmask ⟨?_, Bool.eq_false_iff.mpr hc⟩
    revert hn
    cases rec.state <;> decide

theorem visible_of_committed {committed : Bool} (h : rec.state.natural → committed) :
    visible rec committed = (rec.state, rec.exitCode) := by
  unfold visible
  refine if_neg ?_
  rintro ⟨hn, hc⟩
  rw [h (by rcases hn with hn | hn <;> rw [hn] <;> rfl)] at hc
  cases hc

theorem Inv.statusReturn (h : Inv s) {k mark : Nat}
    (hk : s.statuses[k]? = some (.read rec mark)) {report : Report}
    (hreport : report = ⟨mark, (visible rec s.completionCommitted).1,
      (visible rec s.completionCommitted).2⟩) : Inv { s with
      statuses := s.statuses.set k (.returned report)
      reports := s.reports ++ [report] } := by
  have hread : read rec mark ∈ s.statuses := mem_of_getElem? hk
  obtain ⟨hmark, hlater⟩ := h.later rec mark hread
  have hmarkeq : report.mark = mark := by rw [hreport]
  -- an answer that an earlier one binds is not masked
  have hbound : ∀ (i : Nat) (r : Report), s.reports[i]? = some r → i < mark →
      r.state.terminal → report.state = r.state ∧ report.exitCode = r.exitCode := by
    intro i r hi hlt ht
    obtain ⟨hstate, hcode⟩ := hlater i r hi hlt ht
    have hseen : visible rec s.completionCommitted = (rec.state, rec.exitCode) :=
      visible_of_committed fun hn =>
        (h.reported r (mem_of_getElem? hi) ht).2 (hstate ▸ hn)
    rw [hreport, hseen]
    exact ⟨hstate, hcode⟩
  have hpend : ∀ rec' mark', read rec' mark' ∈ s.statuses.set k (.returned report) →
      .read rec' mark' ∈ s.statuses := by
    intro rec' mark' hr
    rcases mem_or_eq_of_mem_set hr with hold | hnew
    · exact hold
    · cases hnew
  refine { h with sticky := ?_, reads := ?_, reported := ?_, marks := ?_, later := ?_ }
  · intro i j r r' hi hj hlt ht
    rcases Table.getElem?_concat.mp hj with hj' | ⟨-, rfl⟩ <;>
      rcases Table.getElem?_concat.mp hi with hi' | ⟨rfl, -⟩
    · exact h.sticky i j r r' hi' hj' hlt ht
    · have := h.marks r' (mem_of_getElem? hj')
      omega
    · exact hbound i r hi' (hmarkeq ▸ hlt) ht
    · omega
  · exact fun rec' mark' hr => h.reads rec' mark' (hpend rec' mark' hr)
  · intro r hr ht
    rcases mem_append.mp hr with hold | hnew
    · exact h.reported r hold ht
    · rw [mem_singleton.mp hnew, hreport] at ht ⊢
      obtain ⟨hseen, hcom⟩ := visible_terminal ht
      rw [hseen] at ht ⊢
      exact ⟨h.reads rec mark hread ht, hcom⟩
  · intro r hr
    rw [length_append, length_singleton]
    rcases mem_append.mp hr with hold | hnew
    · exact Nat.le_succ_of_le (h.marks r hold)
    · rw [mem_singleton.mp hnew, hmarkeq]
      omega
  · intro rec' mark' hr
    obtain ⟨hle, hold⟩ := h.later rec' mark' (hpend rec' mark' hr)
    rw [length_append, length_singleton]
    refine ⟨by omega, fun i r hi hlt => ?_⟩
    rcases Table.getElem?_concat.mp hi with hi | ⟨rfl, -⟩
    · exact hold i r hi hlt
    · omega

theorem Inv.step {s' : Sys} {a : Action} (h : Inv s) (hG : Exclusive s a)
    (hstep : step s a = some s') : Inv s' := by
  cases Step.of_step hstep with
  | exit outcome hw => exact h.setWaiter hw nofun nofun nofun fun _ => rfl
  | publish outcome hw =>
    have h' : Inv { s with waiter := .published outcome } :=
      h.setWaiter hw nofun nofun nofun fun _ => rfl
    exact { h' with code := h'.code }
  | skip outcome hw ht => exact h.setWaiter hw nofun nofun (fun _ => .inr ht) fun _ => rfl
  | pass outcome hw ht => exact h.setWaiter hw nofun (fun _ _ => ht) nofun fun _ => rfl
  | finish outcome now hw => exact h.finish now hw
  | evict draft hw => exact h.setWaiter hw nofun nofun (fun _ => .inl rfl) fun _ => rfl
  | evictSkipped hw | appendFails draft hw =>
    exact h.setWaiter hw nofun nofun (fun _ => .inl rfl) nofun
  | append draft hw => exact h.append hw
  | commit hw hfree => exact h.commit hw hfree
  | stop allowed =>
    have hnew : ∀ p ∈ s.stops ++ [if allowed then called else .returned .denied],
        p ∈ s.stops ∨ (p.effective = false ∧ p ≠ .holding) := by
      intro p hp
      rcases mem_append.mp hp with hold | hnew
      · exact .inl hold
      · rw [mem_singleton.mp hnew]
        cases allowed <;> exact .inr (by decide)
    refine h.setStops (fun p hp he => ?_) fun _ hp => ?_
    · exact (hnew p hp).imp_right fun hno => by rw [hno.1] at he; cases he
    · exact (hnew _ hp).resolve_right fun hno => hno.2 rfl
  | stopLate k hk ht =>
    refine h.setStops (fun p hp he => ?_) fun _ hp => ?_
    · refine (mem_or_eq_of_mem_set hp).imp_right fun hnew => ?_
      rw [hnew] at he
      cases he
    · exact (mem_or_eq_of_mem_set hp).resolve_right nofun
  | stopCheck k hk hfree ht =>
    refine h.setStops (fun p hp he => ?_) fun hcom _ => ?_
    · refine (mem_or_eq_of_mem_set hp).imp_right fun hnew => ?_
      rw [hnew] at he
      cases he
    · -- a committed job is terminal, so a stop does not get here
      have hended := h.ended (by rw [(h.committed hcom).1]; rfl)
      rw [ht] at hended
      cases hended
  | stopCancel k now hk =>
    have h' := h.cancel now hk hG.1 hG.2
    exact { h' with code := h'.code }
  | stopReturn k hk =>
    refine h.setStops (fun p hp _ => ?_) fun _ hp => ?_
    · exact (mem_or_eq_of_mem_set hp).imp_right fun _ =>
        h.stopped _ (mem_of_getElem? hk) rfl
    · exact (mem_or_eq_of_mem_set hp).resolve_right nofun
  | statusRead => exact h.statusRead
  | statusReturn k rec mark report hk hfree hreport => exact h.statusReturn hk hreport

/-- **Terminal states are final.** In every schedule of the waiter, of stop calls and of status
calls whose stops are exclusive. -/
theorem terminal_state_final (config : JobConfig) (startedAt : Time) (as : List Action) (s : Sys)
    (hG : Transition.Meets step Exclusive (start config startedAt) as)
    (hrun : Transition.run step (start config startedAt) as = some s) : Final s :=
  (run_invariant (fun _ _ _ hI hG hs => Inv.step hI hG hs)
    (start_inv config startedAt) hG hrun).toFinal

def jobOne : JobConfig := ⟨1, "program=\"true\" argc=1".toList, 1, 1, .process⟩

def exclusiveSchedule : List Action :=
  [.statusRead, .exit .cancelled, .publish, .stop true, .stopCheck 0, .guard, .stopCancel 0 5,
    .statusReturn 0, .statusRead, .finish 6, .stopReturn 0, .statusReturn 1, .evict, .append true,
    .commit, .statusRead, .statusReturn 2]

theorem exclusive_stop_final : ∃ s,
    Transition.run step (start jobOne 0) exclusiveSchedule = some s ∧
      s.reports.map Report.state = [.running, .cancelled, .cancelled] ∧ Final s := by
  have hrun : ∃ s ∈ run step (start jobOne 0) exclusiveSchedule,
      s.reports.map Report.state = [.running, .cancelled, .cancelled] := by
    decide +kernel
  have hG : Transition.Meets step Exclusive (start jobOne 0) exclusiveSchedule := by
    decide +kernel
  obtain ⟨s, hs, hrep⟩ := hrun
  exact ⟨s, hs, hrep, terminal_state_final jobOne 0 exclusiveSchedule s hG hs⟩

def lateStopSchedule : List Action :=
  [.exit (.exited (some 0) none), .publish, .guard, .stop true, .stopCheck 0, .stopCancel 0 5,
    .stopReturn 0, .statusRead, .statusReturn 0, .finish 6, .evict, .append true, .commit,
    .statusRead, .statusReturn 1]

/-- The stop returns, a status call reports the job as cancelled, and the next one as exited. -/
theorem late_stop_not_final : ∃ s, Transition.run step (start jobOne 0) lateStopSchedule = some s ∧
      s.reports.map Report.state = [.cancelled, .exited] ∧ ¬ Final s := by
  have hrun : ∃ s ∈ run step (start jobOne 0) lateStopSchedule,
      s.reports.map Report.state = [.cancelled, .exited] ∧
        returned .stopped ∈ s.stops ∧ s.job.state ≠ .cancelled := by
    decide +kernel
  obtain ⟨s, hs, hrep, hstop, hstate⟩ := hrun
  exact ⟨s, hs, hrep, fun hfinal => hstate (hfinal.stopped _ hstop rfl)⟩

end Lifecycle

end TerminalCommander
