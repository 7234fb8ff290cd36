import TerminalCommander.Daemon.Command.Completion

/-!
# The receipt and the live status

The waiter writes the receipt from values it has captured one after another, and `status` answers
from the ledger and the binding as they are in the end. Once the waiter is done the two agree on all
that is persisted, except that the receipt of a stopped job keeps the exit code that the child still
had. A stop that cancels the job after the waiter has read back a natural exit is not covered.
-/

namespace TerminalCommander.Completion

variable {x : ReceiptCrates} {l : Launch x}

/-! ## What the waiter has captured -/

def Stopped (s : Sys) : Prop :=
  s.job.state = .cancelled ∧ s.job.exitCode = none ∧ s.hasStopped

def Untouched (s : Sys) : Prop := s.job.state.terminal = true → Stopped s

def Ended (s : Sys) (e : Exit) : Prop :=
  e.governor.Regular ∧ s.binding.governor = e.governor ∧ s.job.state.terminal = true ∧
    (s.job.exitCode = e.outcome.exitCode ∨ Stopped s)

def receiptKey (l : Launch x) : Text := TypedId.toWireString x.uuids .job l.config.jobId

def Recorded (l : Launch x) (s : Sys) (e : Exit) : Prop :=
  ∃ now, s.receipts (receiptKey l) = some (receiptCall x l.config e s.job.state
    (s.job.exitInfo.map JobExitInfo.durationMs) now).values

def Told (l : Launch x) (s : Sys) : WaiterPc → Prop
  | .driving => s.receipts (receiptKey l) = none ∧ Untouched s
  | .reaped e => s.receipts (receiptKey l) = none ∧ Untouched s ∧ e.governor.Regular
  | .published e => s.receipts (receiptKey l) = none ∧ Untouched s ∧ e.governor.Regular ∧
      s.binding.governor = e.governor
  | .guarded e => s.receipts (receiptKey l) = none ∧ e.governor.Regular ∧
      s.binding.governor = e.governor
  | .finished e _ => s.receipts (receiptKey l) = none ∧ Ended s e
  | .readBack e _ state => s.receipts (receiptKey l) = none ∧ Ended s e ∧ state = s.job.state
  | .evicted e _ state => s.receipts (receiptKey l) = none ∧ Ended s e ∧ state = s.job.state
  | .ended e state _ => s.receipts (receiptKey l) = none ∧ Ended s e ∧ state = s.job.state
  | .measured e state durationMs _ => s.receipts (receiptKey l) = none ∧ Ended s e ∧
      state = s.job.state ∧ durationMs = s.job.exitInfo.map JobExitInfo.durationMs
  | .persisted e _ => Ended s e ∧ Recorded l s e
  | .stopEvicted e => Ended s e ∧ Recorded l s e
  | .metricsWritten e => Ended s e ∧ Recorded l s e ∧ s.binding.metrics = e.metrics
  | .done e => Ended s e ∧ Recorded l s e ∧ s.binding.metrics = e.metrics ∧
      s.binding.completionCommitted = true

structure LedgerOk (l : Launch x) (rec : JobRecord) : Prop where
  config : rec.config = l.config
  left : rec.state.terminal = true → rec.exitInfo.isSome = true
  bounded : ∀ info ∈ rec.exitInfo, info.durationMs ≤ u64Max

structure Story (l : Launch x) (s : Sys) : Prop where
  ledger : LedgerOk l s.job
  told : Told l s s.waiter

/-! ## The ledger -/

theorem LedgerOk.cancel {rec : JobRecord} (h : LedgerOk l rec) (now : Time) :
    LedgerOk l (rec.cancel now).1 where
  config := h.config
  left := fun _ => rfl
  bounded := by
    rintro info ⟨⟩
    exact Nat.min_le_right _ _

theorem LedgerOk.finish {rec : JobRecord} (h : LedgerOk l rec) (outcome : ProbeOutcome)
    (now : Time) : LedgerOk l (Lifecycle.finishJob rec outcome now).1 := by
  cases outcome with
  | exited code signal =>
    refine ⟨h.config, fun _ => rfl, ?_⟩
    rintro info ⟨⟩
    exact Nat.min_le_right _ _
  | cancelled => exact h.cancel now

theorem finishJob_terminal (rec : JobRecord) (outcome : ProbeOutcome) (now : Time) :
    (Lifecycle.finishJob rec outcome now).1.state.terminal := by
  cases outcome with
  | exited code signal => exact rec.finish_terminal code signal now
  | cancelled => rfl

/-! ## The governor outcome -/

theorem regular_exit (metrics : ProcessProbeMetrics) (outcome : ProbeOutcome)
    (peak : Option UInt64) (limitHit ceilingHit : Bool) (ring : RingView) :
    (l.exit metrics outcome peak limitHit ceilingHit ring).governor.Regular := by
  have hreg : (l.spawnGovernor.finish (l.report.atExit peak limitHit ceilingHit)
      l.ceilingInstalled).Regular :=
    GovernorOutcome.regular_finish l.ceilingInstalled l.limits rfl
  unfold Launch.exit
  dsimp only
  split_ifs
  · exact hreg.clearReason
  · exact hreg

theorem regular_publish {e : Exit} (h : e.governor.Regular) (state : JobState) :
    (e.publish state).governor.Regular := by
  unfold Exit.publish
  split_ifs
  · exact h.clearReason
  · exact h

/-! ## Steps -/

variable {s s' : Sys}

theorem Story.moves (h : Story l s) (hmoves : Moves l s s') : Story l s' := by
  have htold := h.told
  cases hmoves with
  | output metrics hw =>
    rw [hw] at htold
    refine ⟨h.ledger, ?_⟩
    dsimp only
    rw [hw]
    exact htold
  | exit outcome peak limitHit ceilingHit ring hw =>
    rw [hw] at htold
    exact ⟨h.ledger, htold.1, htold.2, regular_exit _ outcome peak limitHit ceilingHit ring⟩
  | publish e hw =>
    rw [hw] at htold
    exact ⟨h.ledger, htold.1, htold.2.1, regular_publish htold.2.2 s.job.state, rfl⟩
  | skip e hw ht =>
    rw [hw] at htold
    obtain ⟨hnone, hunt, hreg, hgov⟩ := htold
    exact ⟨h.ledger, hnone, ⟨hreg, hgov, ht, .inr (hunt ht)⟩, rfl⟩
  | pass e hw ht =>
    rw [hw] at htold
    exact ⟨h.ledger, htold.1, htold.2.2⟩
  | finish e now hw =>
    rw [hw] at htold
    obtain ⟨hnone, hreg, hgov⟩ := htold
    exact ⟨h.ledger.finish e.outcome now, hnone, hreg, hgov,
      finishJob_terminal s.job e.outcome now, .inl (by cases e.outcome <;> rfl)⟩
  | readBack e draft hw | writeMetrics e hw =>
    rw [hw] at htold
    exact ⟨h.ledger, htold.1, htold.2, rfl⟩
  | evict e draft state hw | stopEvict e hw | appendFails e draft state hw =>
    rw [hw] at htold
    exact ⟨h.ledger, htold⟩
  | append e draft state hw =>
    rw [hw] at htold
    exact ⟨⟨h.ledger.config, h.ledger.left, h.ledger.bounded⟩, htold⟩
  | measure e state stopped hw | commit e hw =>
    rw [hw] at htold
    exact ⟨h.ledger, htold.1, htold.2.1, htold.2.2, rfl⟩
  | stopCommit e hw =>
    rw [hw] at htold
    exact ⟨h.ledger, htold.1, htold.2, rfl, rfl⟩

theorem Story.persist (h : Story l s) {e : Exit} {state : JobState}
    {durationMs : Option Nat} {stopped : Bool} (hw : s.waiter = .measured e state durationMs stopped)
    (now : Text) : Recorded l { s with
      receipts := JobReceipt.recordJobReceipt s.receipts
        (receiptCall x s.job.config e state durationMs now) } e := by
  have htold := h.told
  rw [hw] at htold
  obtain ⟨hnone, -, rfl, rfl⟩ := htold
  refine ⟨now, ?_⟩
  have hkey : receiptKey l = (receiptCall x l.config e s.job.state
      (s.job.exitInfo.map JobExitInfo.durationMs) now).jobId := rfl
  dsimp only
  rw [h.ledger.config, hkey, JobReceipt.recordJobReceipt_self, ← hkey, hnone]
  rfl

theorem Told.keep {w : WaiterPc} (h : Told l s w) (hjob : s'.job = s.job)
    (hbinding : s'.binding = s.binding) (hreceipts : s'.receipts = s.receipts)
    (hstops : s.hasStopped → s'.hasStopped) : Told l s' w := by
  have hstop : Stopped s → Stopped s' := by
    unfold Stopped
    rw [hjob]
    exact fun hst => ⟨hst.1, hst.2.1, hstops hst.2.2⟩
  have hunt : Untouched s → Untouched s' := by
    unfold Untouched
    rw [hjob]
    exact fun hun ht => hstop (hun ht)
  have hended : ∀ e, Ended s e → Ended s' e := by
    unfold Ended
    rw [hjob, hbinding]
    exact fun e he => ⟨he.1, he.2.1, he.2.2.1, he.2.2.2.imp_right hstop⟩
  have hrec : ∀ e, Recorded l s e → Recorded l s' e := by
    unfold Recorded
    rw [hjob, hreceipts]
    exact fun e he => he
  have hnone : s.receipts (receiptKey l) = none → s'.receipts (receiptKey l) = none :=
    fun hn => hreceipts ▸ hn
  have hstate : ∀ state, state = s.job.state → state = s'.job.state := fun _ hst => hjob ▸ hst
  cases w with
  | driving => exact ⟨hnone h.1, hunt h.2⟩
  | reaped e => exact ⟨hnone h.1, hunt h.2.1, h.2.2⟩
  | published e => exact ⟨hnone h.1, hunt h.2.1, h.2.2.1, hbinding ▸ h.2.2.2⟩
  | guarded e => exact ⟨hnone h.1, h.2.1, hbinding ▸ h.2.2⟩
  | finished e draft => exact ⟨hnone h.1, hended e h.2⟩
  | readBack e draft state | evicted e draft state | ended e state stopped =>
    exact ⟨hnone h.1, hended e h.2.1, hstate state h.2.2⟩
  | measured e state durationMs stopped =>
    exact ⟨hnone h.1, hended e h.2.1, hstate state h.2.2.1, hjob ▸ h.2.2.2⟩
  | persisted e stopped | stopEvicted e => exact ⟨hended e h.1, hrec e h.2⟩
  | metricsWritten e | done e => exact ⟨hended e h.1, hrec e h.2.1, hbinding ▸ h.2.2⟩

/-! ## Stops -/

def WaiterPc.takesStop : WaiterPc → Bool
  | .driving => true
  | .reaped _ => true
  | .published _ => true
  | .guarded _ => true
  | .finished _ _ => true
  | .readBack _ _ state => state == .cancelled
  | .evicted _ _ state => state == .cancelled
  | .ended _ state _ => state == .cancelled
  | _ => false

def InTime (s : Sys) : Action → Prop
  | .persist _ ok => ok = true
  | .stopCancel _ _ => s.waiter.takesStop = true
  | _ => True

instance InTime.decidable (s : Sys) : ∀ a, Decidable (InTime s a)
  | .persist _ ok => inferInstanceAs (Decidable (ok = true))
  | .stopCancel _ _ => inferInstanceAs (Decidable (s.waiter.takesStop = true))
  | .output _ => isTrue trivial
  | .exit _ _ _ _ _ => isTrue trivial
  | .publish => isTrue trivial
  | .guard => isTrue trivial
  | .finish _ => isTrue trivial
  | .readBack => isTrue trivial
  | .evict => isTrue trivial
  | .append _ => isTrue trivial
  | .measure => isTrue trivial
  | .writeMetrics => isTrue trivial
  | .commit => isTrue trivial
  | .stop _ => isTrue trivial
  | .stopCheck _ => isTrue trivial
  | .stopReturn _ => isTrue trivial
  | .statusRead => isTrue trivial
  | .statusMask _ => isTrue trivial
  | .statusReturn _ => isTrue trivial

theorem Story.cancel (h : Story l s) (hin : s.waiter.takesStop) {k : Nat}
    {now : Time} {metrics : ProcessProbeMetrics} (hk : s.stops[k]? = some (.holding metrics)) :
    Story l { s with
      job := (s.job.cancel now).1
      binding := { s.binding with metrics := metrics }
      cancelHandle := false
      stops := s.stops.set k .cancelled } := by
  refine ⟨h.ledger.cancel now, ?_⟩
  have hstop : Stopped { s with
      job := (s.job.cancel now).1
      binding := { s.binding with metrics := metrics }
      cancelHandle := false
      stops := s.stops.set k .cancelled } :=
    ⟨rfl, rfl, .cancelled, Table.mem_set_self hk _, rfl⟩
  have htold := h.told
  dsimp only
  cases hw : s.waiter with
  | driving =>
    rw [hw] at htold
    exact ⟨htold.1, fun _ => hstop⟩
  | reaped e | published e =>
    rw [hw] at htold
    exact ⟨htold.1, fun _ => hstop, htold.2.2⟩
  | guarded e =>
    rw [hw] at htold
    exact htold
  | finished e draft =>
    rw [hw] at htold
    exact ⟨htold.1, htold.2.1, htold.2.2.1, rfl, .inr hstop⟩
  | readBack e draft state | evicted e draft state | ended e state stopped =>
    rw [hw] at htold hin
    exact ⟨htold.1, ⟨htold.2.1.1, htold.2.1.2.1, rfl, .inr hstop⟩, beq_iff_eq.mp hin⟩
  | _ =>
    rw [hw] at hin
    cases hin

theorem Story.step {a : Action} (h : Story l s) (hin : InTime s a)
    (hstep : Completion.step l s a = some s') : Story l s' := by
  cases Step.of_step l hstep with
  | moves hmoves => exact h.moves hmoves
  | persist now ok e state durationMs stopped hw =>
    have htold := h.told
    rw [hw] at htold
    have hrecorded := h.persist hw now
    rw [show ok from hin]
    exact ⟨h.ledger, htold.2.1, hrecorded⟩
  | stops ha stops hkeep => exact ⟨h.ledger, h.told.keep rfl rfl rfl hkeep⟩
  | cancel k now metrics hk => exact h.cancel hin hk
  | _ => exact ⟨h.ledger, h.told.keep rfl rfl rfl id⟩

theorem story_start : Story l (start l) where
  ledger := ⟨rfl, fun h => absurd h Bool.false_ne_true, nofun⟩
  told := ⟨l.isFresh, fun h => absurd h Bool.false_ne_true⟩

/-! ## The two answers -/

/-- **The receipt tells what the live status tells.** In every run in which the receipt is written
and stops are in time, once the waiter is done the answer from the receipt is the live one but for
the exit code; the receipt has the exit code of the child, and so has the live status unless a stop
has cancelled the job, where it has none. -/
theorem receipt_tells_status (acts : List Action) (s : Sys) (e : Exit)
    (hin : Transition.Meets (step l) InTime (start l) acts)
    (hrun : Transition.run (step l) (start l) acts = some s) (hdone : s.waiter = .done e)
    (freshBucket : BucketId) (freshProbe : ProbeId) :
    ∃ live told, status l.config.jobId (some s.job) (some s.binding) = .ok live ∧
      reconstructedStatus x s.receipts (some s.job) freshBucket freshProbe l.config.jobId =
        some told ∧
      told.story = { live.story with exitCode := told.exitCode } ∧
      told.exitCode = e.outcome.exitCode ∧
      (told.exitCode = live.exitCode ∨
        live.state = .cancelled ∧ live.exitCode = none ∧ s.hasStopped) := by
  have hstory : Story l s :=
    Transition.run_invariant (fun _ _ _ h hg hs => h.step hg hs) story_start hin hrun
  have htold := hstory.told
  rw [hdone] at htold
  obtain ⟨⟨hreg, hgov, hterm, hcode⟩, ⟨now, hrow⟩, hmetrics, hcom⟩ := htold
  have hconfig := hstory.ledger.config
  have hproc : s.job.config.sourceType = .process := by rw [hconfig]; exact l.isProcess
  have hbounded : ∀ d ∈ s.job.exitInfo.map JobExitInfo.durationMs, d ≤ u64Max := by
    intro d hd
    obtain ⟨info, hinfo, rfl⟩ := Option.map_eq_some_iff.mp hd
    exact hstory.ledger.bounded info hinfo
  have hlive := status_of_committed hproc hcom
  have hlived := story_statusResponse (b := s.binding) (hstory.ledger.left hterm)
  rw [hconfig] at hlive hlived
  refine ⟨_, _, hlive, reconstructedStatus_of_row hreg hterm hbounded hrow freshBucket
    freshProbe, ?_, rfl, ?_⟩
  · rw [hlived, hmetrics, hgov]
    rfl
  · rcases hcode with hcode | ⟨hcanc, hnone, hstops⟩
    · exact .inl hcode.symm
    · exact .inr ⟨hcanc, hnone, hstops⟩

/-- The child has exited with 0 when a stop cancels the job, before the waiter has published the
exit: the receipt has the code, the live status has none. -/
theorem stopped_receipt_keeps_code :
    ∃ s ∈ Transition.run (step trueLaunch) (start trueLaunch)
        [.exit (.exited (some 0) none) none false false ⟨[], [], false⟩, .stop true, .stopCheck 0,
          .stopCancel 0 5000000, .stopReturn 0, .publish, .guard, .measure,
          .persist "t".toList true, .evict, .commit],
      s.isDone ∧ ∃ live ∈ (status 1 (some s.job) (some s.binding)).toOption,
        ∃ told ∈ reconstructedStatus strokeCrates s.receipts (some s.job) 0 0 1,
          live.state = .cancelled ∧ told.state = .cancelled ∧
            live.exitCode = none ∧ told.exitCode = some 0 := by
  decide +kernel

/-- A natural exit. -/
theorem exit_receipt_tells_status :
    ∃ s ∈ Transition.run (step trueLaunch) (start trueLaunch) (exitZero []),
      ∃ e live told, s.waiter = .done e ∧
        status 1 (some s.job) (some s.binding) = .ok live ∧
        reconstructedStatus strokeCrates s.receipts (some s.job) 0 0 1 = some told ∧
        told.story = { live.story with exitCode := told.exitCode } ∧
        told.exitCode = e.outcome.exitCode ∧
        (told.exitCode = live.exitCode ∨
          live.state = .cancelled ∧ live.exitCode = none ∧ s.hasStopped) := by
  have hend : ∃ s ∈ Transition.run (step trueLaunch) (start trueLaunch) (exitZero []), s.isDone := by
    decide +kernel
  obtain ⟨s, hrun, e, hdone⟩ := hend
  obtain ⟨live, told, htold⟩ := receipt_tells_status (exitZero []) s e (by decide +kernel) hrun
    hdone 0 0
  exact ⟨s, hrun, e, live, told, hdone, htold⟩

end TerminalCommander.Completion
