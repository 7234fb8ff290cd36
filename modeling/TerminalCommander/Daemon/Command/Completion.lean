import TerminalCommander.Daemon.Command.Lifecycle
import TerminalCommander.Daemon.Command.Status

/-!
# The completion of a combed job, with its data

The tasks of `Lifecycle` again, with the data they carry: the waiter (`start_combed_inner`) and any
number of `stop` and `status` calls (`daemon/src/command.rs`), one step for each access to shared
data. The waiter persists the receipt and writes the terminal counters into the live binding;
`completion_committed` comes last. `lifecycle`, `appendFailed`, `receiptWrites` and `reports` are
logs and not part of the source.
-/

namespace TerminalCommander

def ProbeOutcome.exitCode : ProbeOutcome → Option Int
  | .exited code _ => code
  | .cancelled => none

namespace Completion

structure Launch (x : ReceiptCrates) where
  config : JobConfig
  startedAt : Time
  report : GovernorReport
  ceilingInstalled : Bool
  limits : Option LimitsApplied
  pipelineExitMasked : Bool
  receipts : JobReceipt.Receipts
  isProcess : config.sourceType = .process
  isFresh : receipts (TypedId.toWireString x.uuids .job config.jobId) = none

structure Exit where
  outcome : ProbeOutcome
  metrics : ProcessProbeMetrics
  governor : GovernorOutcome
  receipt : Option CommandReceipt
  deriving DecidableEq

inductive WaiterPc where
  | driving
  | reaped (e : Exit)
  | published (e : Exit)
  | guarded (e : Exit)
  | finished (e : Exit) (draft : EventDraft)
  | readBack (e : Exit) (draft : EventDraft) (state : JobState)
  | evicted (e : Exit) (draft : EventDraft) (state : JobState)
  | ended (e : Exit) (state : JobState) (stopped : Bool)
  | measured (e : Exit) (state : JobState) (durationMs : Option Nat) (stopped : Bool)
  | persisted (e : Exit) (stopped : Bool)
  | stopEvicted (e : Exit)
  | metricsWritten (e : Exit)
  | done (e : Exit)
  deriving DecidableEq

inductive StopPc where
  | called
  | holding (metrics : ProcessProbeMetrics)
  | cancelled
  | returned (outcome : Lifecycle.StopOutcome)
  deriving DecidableEq

def StopPc.holds : StopPc → Bool
  | .holding _ => true
  | _ => false

def StopPc.effective : StopPc → Bool
  | .cancelled => true
  | .returned .stopped => true
  | _ => false

structure Report where
  mark : Nat
  response : CommandStatusResponse
  deriving DecidableEq

inductive StatusPc where
  | read (rec : JobRecord) (mark : Nat)
  | masked (rec : JobRecord) (mark : Nat)
  | returned
  deriving DecidableEq

structure Sys where
  job : JobRecord
  binding : JobBinding
  cancelHandle : Bool
  waiter : WaiterPc
  stops : List StopPc
  statuses : List StatusPc
  dedupEntry : Bool
  receipts : JobReceipt.Receipts
  lifecycle : List EventDraft
  appendFailed : Bool
  receiptWrites : List JobReceipt.ReceiptCall
  reports : List Report

def Sys.liveFree (s : Sys) : Bool := !s.stops.any StopPc.holds

inductive Action where
  | output (metrics : ProcessProbeMetrics)
  | exit (outcome : ProbeOutcome) (peakMemoryBytes : Option UInt64)
      (memoryLimitHit hostCeilingHit : Bool) (ring : RingView)
  | publish
  | guard
  | finish (now : Time)
  | readBack
  | evict
  | append (ok : Bool)
  | measure
  | persist (now : Text) (ok : Bool)
  | writeMetrics
  | commit
  | stop (allowed : Bool)
  | stopCheck (k : Nat)
  | stopCancel (k : Nat) (now : Time)
  | stopReturn (k : Nat)
  | statusRead
  | statusMask (k : Nat)
  | statusReturn (k : Nat)

variable {x : ReceiptCrates} (l : Launch x)

def Launch.spawnGovernor : GovernorOutcome :=
  GovernorOutcome.atSpawn l.report l.ceilingInstalled l.limits

def Launch.exit (metrics : ProcessProbeMetrics) (outcome : ProbeOutcome)
    (peakMemoryBytes : Option UInt64) (memoryLimitHit hostCeilingHit : Bool) (ring : RingView) :
    Exit :=
  let report := l.report.atExit peakMemoryBytes memoryLimitHit hostCeilingHit
  let governor := l.spawnGovernor.finish report l.ceilingInstalled
  { outcome := outcome
    metrics := metrics
    governor := if outcome = .cancelled then { governor with exitReason := none } else governor
    receipt :=
      if metrics.eventsEmitted = 0 then
        some (buildReceipt ring metrics.framesTotal outcome.exitCode)
      else none }

def receiptCall (x : ReceiptCrates) (config : JobConfig) (e : Exit) (state : JobState)
    (durationMs : Option Nat) (now : Text) : JobReceipt.ReceiptCall :=
  persistJobReceipt x config.jobId config.bucketId state e.outcome.exitCode e.metrics.eventsEmitted
    (some (evidenceJson x e.metrics durationMs config.probeId e.governor)) none now

def Exit.publish (e : Exit) (state : JobState) : Exit :=
  if state.terminal then { e with governor := { e.governor with exitReason := none } } else e

def step (s : Sys) : Action → Option Sys
  | .output metrics =>
    match s.waiter with
    | .driving => some { s with binding := { s.binding with metricsLive := metrics } }
    | _ => none
  | .exit outcome peak limitHit ceilingHit ring =>
    match s.waiter with
    | .driving => some { s with
        waiter := .reaped (l.exit s.binding.metricsLive outcome peak limitHit ceilingHit ring) }
    | _ => none
  | .publish =>
    match s.waiter with
    | .reaped e =>
      if s.liveFree then
        let e := e.publish s.job.state
        some { s with
          binding := { s.binding with receipt := e.receipt, governor := e.governor }
          waiter := .published e }
      else none
    | _ => none
  | .guard =>
    match s.waiter with
    | .published e => some { s with
        waiter := if s.job.state.terminal then .ended e s.job.state true else .guarded e }
    | _ => none
  | .finish now =>
    match s.waiter with
    | .guarded e =>
      let written := Lifecycle.finishJob s.job e.outcome now
      some { s with job := written.1, waiter := .finished e written.2 }
    | _ => none
  | .readBack =>
    match s.waiter with
    | .finished e draft => some { s with waiter := .readBack e draft s.job.state }
    | _ => none
  | .evict =>
    match s.waiter with
    | .readBack e draft state => some { s with
        dedupEntry := false
        waiter := .evicted e draft state }
    | .persisted e true => some { s with dedupEntry := false, waiter := .stopEvicted e }
    | _ => none
  | .append ok =>
    match s.waiter with
    | .evicted e draft state =>
      if ok then some { s with
        job := s.job.recordEvent
        lifecycle := s.lifecycle ++ [draft]
        waiter := .ended { e with metrics := e.metrics.addEvent } state false }
      else some { s with appendFailed := true, waiter := .ended e state false }
    | _ => none
  | .measure =>
    match s.waiter with
    | .ended e state stopped => some { s with
        waiter := .measured e state (s.job.exitInfo.map JobExitInfo.durationMs) stopped }
    | _ => none
  | .persist now ok =>
    match s.waiter with
    | .measured e state durationMs stopped =>
      let call := receiptCall x s.job.config e state durationMs now
      some { s with
        receipts := if ok then JobReceipt.recordJobReceipt s.receipts call else s.receipts
        receiptWrites := s.receiptWrites ++ [call]
        waiter := .persisted e stopped }
    | _ => none
  | .writeMetrics =>
    match s.waiter with
    | .persisted e false =>
      if s.liveFree then some { s with
        binding := { s.binding with metrics := e.metrics }
        waiter := .metricsWritten e }
      else none
    | _ => none
  | .commit =>
    match s.waiter with
    | .metricsWritten e =>
      if s.liveFree then some { s with
        binding := { s.binding with completionCommitted := true }
        waiter := .done e }
      else none
    | .stopEvicted e =>
      if s.liveFree then some { s with
        binding := { s.binding with metrics := e.metrics, completionCommitted := true }
        waiter := .done e }
      else none
    | _ => none
  | .stop allowed =>
    some { s with stops := s.stops ++ [if allowed then .called else .returned .denied] }
  | .stopCheck k =>
    match s.stops[k]? with
    | some .called =>
      if s.liveFree then
        let pc := if s.job.state.terminal then .returned .alreadyTerminal
          else .holding s.binding.metricsLive
        some { s with stops := s.stops.set k pc }
      else none
    | _ => none
  | .stopCancel k now =>
    match s.stops[k]? with
    | some (.holding metrics) => some { s with
        job := (s.job.cancel now).1
        binding := { s.binding with metrics := metrics }
        cancelHandle := false
        stops := s.stops.set k .cancelled }
    | _ => none
  | .stopReturn k =>
    match s.stops[k]? with
    | some .cancelled => some { s with stops := s.stops.set k (.returned .stopped) }
    | _ => none
  | .statusRead => some { s with statuses := s.statuses ++ [.read s.job s.reports.length] }
  | .statusMask k =>
    match s.statuses[k]? with
    | some (.read rec mark) =>
      -- the commit bit is read, under the live lock, for a natural exit only
      if rec.state.natural && !s.liveFree then none
      else some { s with
        statuses := s.statuses.set k (.masked (maskRecord rec (some s.binding)) mark) }
    | _ => none
  | .statusReturn k =>
    match s.statuses[k]? with
    | some (.masked rec mark) =>
      if s.liveFree then
        match statusOf s.job.config.jobId (some rec) (some s.binding) with
        | .ok response => some { s with
            statuses := s.statuses.set k .returned
            reports := s.reports ++ [⟨mark, response⟩] }
        | .error _ => some { s with statuses := s.statuses.set k .returned }
      else none
    | _ => none

def start : Sys where
  job := (JobRecord.new l.config l.startedAt).markRunning
  binding :=
    { metrics := .zero
      metricsLive := .zero
      receipt := none
      pipelineExitMasked := l.pipelineExitMasked
      governor := l.spawnGovernor
      completionCommitted := false }
  cancelHandle := true
  waiter := .driving
  stops := []
  statuses := []
  dedupEntry := true
  receipts := l.receipts
  lifecycle := []
  appendFailed := false
  receiptWrites := []
  reports := []

/-! ## Inversion -/

inductive Moves (s : Sys) : Sys → Prop
  | output (metrics : ProcessProbeMetrics) (h : s.waiter = .driving) :
      Moves s { s with binding := { s.binding with metricsLive := metrics } }
  | exit (outcome : ProbeOutcome) (peak : Option UInt64) (limitHit ceilingHit : Bool)
      (ring : RingView) (h : s.waiter = .driving) :
      Moves s { s with
        waiter := .reaped (l.exit s.binding.metricsLive outcome peak limitHit ceilingHit ring) }
  | publish (e : Exit) (h : s.waiter = .reaped e) :
      Moves s { s with
        binding := { s.binding with
          receipt := (e.publish s.job.state).receipt
          governor := (e.publish s.job.state).governor }
        waiter := .published (e.publish s.job.state) }
  | skip (e : Exit) (h : s.waiter = .published e) (ht : s.job.state.terminal = true) :
      Moves s { s with waiter := .ended e s.job.state true }
  | pass (e : Exit) (h : s.waiter = .published e) (ht : s.job.state.terminal = false) :
      Moves s { s with waiter := .guarded e }
  | finish (e : Exit) (now : Time) (h : s.waiter = .guarded e) :
      Moves s { s with
        job := (Lifecycle.finishJob s.job e.outcome now).1
        waiter := .finished e (Lifecycle.finishJob s.job e.outcome now).2 }
  | readBack (e : Exit) (draft : EventDraft) (h : s.waiter = .finished e draft) :
      Moves s { s with waiter := .readBack e draft s.job.state }
  | evict (e : Exit) (draft : EventDraft) (state : JobState)
      (h : s.waiter = .readBack e draft state) :
      Moves s { s with dedupEntry := false, waiter := .evicted e draft state }
  | stopEvict (e : Exit) (h : s.waiter = .persisted e true) :
      Moves s { s with dedupEntry := false, waiter := .stopEvicted e }
  | append (e : Exit) (draft : EventDraft) (state : JobState)
      (h : s.waiter = .evicted e draft state) :
      Moves s { s with
        job := s.job.recordEvent
        lifecycle := s.lifecycle ++ [draft]
        waiter := .ended { e with metrics := e.metrics.addEvent } state false }
  | appendFails (e : Exit) (draft : EventDraft) (state : JobState)
      (h : s.waiter = .evicted e draft state) :
      Moves s { s with appendFailed := true, waiter := .ended e state false }
  | measure (e : Exit) (state : JobState) (stopped : Bool) (h : s.waiter = .ended e state stopped) :
      Moves s { s with
        waiter := .measured e state (s.job.exitInfo.map JobExitInfo.durationMs) stopped }
  | writeMetrics (e : Exit) (h : s.waiter = .persisted e false) :
      Moves s { s with
        binding := { s.binding with metrics := e.metrics }
        waiter := .metricsWritten e }
  | commit (e : Exit) (h : s.waiter = .metricsWritten e) :
      Moves s { s with
        binding := { s.binding with completionCommitted := true }
        waiter := .done e }
  | stopCommit (e : Exit) (h : s.waiter = .stopEvicted e) :
      Moves s { s with
        binding := { s.binding with metrics := e.metrics, completionCommitted := true }
        waiter := .done e }

def Action.isStop : Action → Bool
  | .stop _ => true
  | .stopCheck _ => true
  | .stopCancel _ _ => true
  | .stopReturn _ => true
  | _ => false

def Sys.hasStopped (s : Sys) : Prop := ∃ p ∈ s.stops, p.effective = true

inductive Step (s : Sys) : Action → Sys → Prop
  | moves {a : Action} {s' : Sys} (h : Moves l s s') : Step s a s'
  | persist (now : Text) (ok : Bool) (e : Exit) (state : JobState) (durationMs : Option Nat)
      (stopped : Bool) (h : s.waiter = .measured e state durationMs stopped) :
      Step s (.persist now ok) { s with
        receipts := if ok then
            JobReceipt.recordJobReceipt s.receipts
              (receiptCall x s.job.config e state durationMs now)
          else s.receipts
        receiptWrites := s.receiptWrites ++ [receiptCall x s.job.config e state durationMs now]
        waiter := .persisted e stopped }
  | stops {a : Action} (ha : a.isStop = true) (stops : List StopPc)
      (hkeep : s.hasStopped → ∃ p ∈ stops, p.effective = true) : Step s a { s with stops := stops }
  | cancel (k : Nat) (now : Time) (metrics : ProcessProbeMetrics)
      (h : s.stops[k]? = some (.holding metrics)) :
      Step s (.stopCancel k now) { s with
        job := (s.job.cancel now).1
        binding := { s.binding with metrics := metrics }
        cancelHandle := false
        stops := s.stops.set k .cancelled }
  | read : Step s .statusRead { s with statuses := s.statuses ++ [.read s.job s.reports.length] }
  | mask (k : Nat) (rec : JobRecord) (mark : Nat) (h : s.statuses[k]? = some (.read rec mark)) :
      Step s (.statusMask k) { s with
        statuses := s.statuses.set k (.masked (maskRecord rec (some s.binding)) mark) }
  | respond (k : Nat) (rec : JobRecord) (mark : Nat) (response : CommandStatusResponse)
      (h : s.statuses[k]? = some (.masked rec mark))
      (hresponse : statusOf s.job.config.jobId (some rec) (some s.binding) = .ok response) :
      Step s (.statusReturn k) { s with
        statuses := s.statuses.set k .returned
        reports := s.reports ++ [⟨mark, response⟩] }
  | refuse (k : Nat) (rec : JobRecord) (mark : Nat) (h : s.statuses[k]? = some (.masked rec mark)) :
      Step s (.statusReturn k) { s with statuses := s.statuses.set k .returned }

variable {s : Sys}

theorem hasStopped_set {k : Nat} {pc : StopPc} (hk : s.stops[k]? = some pc)
    {pc' : StopPc} (hpc : pc.effective = true → pc'.effective = true) (h : s.hasStopped) :
    ∃ p ∈ s.stops.set k pc', p.effective = true := by
  obtain ⟨p, hp, heff⟩ := h
  rcases Table.mem_set_or_eq (b := pc') hk hp with rfl | hp
  · exact ⟨pc', Table.mem_set_self hk pc', hpc heff⟩
  · exact ⟨p, hp, heff⟩

variable {s' : Sys} {a : Action}

theorem Step.of_waiter (h : step l s a = some s') :
    Moves l s s' ∨ a.isStop = true ∨ (∃ now ok, a = .persist now ok) ∨ a = .statusRead ∨
      (∃ k, a = .statusMask k) ∨ ∃ k, a = .statusReturn k := by
  cases a
  case persist now ok => exact .inr (.inr (.inl ⟨now, ok, rfl⟩))
  case stop | stopCheck | stopCancel | stopReturn => exact .inr (.inl rfl)
  case statusRead => exact .inr (.inr (.inr (.inl rfl)))
  case statusMask k => exact .inr (.inr (.inr (.inr (.inl ⟨k, rfl⟩))))
  case statusReturn k => exact .inr (.inr (.inr (.inr (.inr ⟨k, rfl⟩))))
  -- every branch of a step of the waiter is a constructor, with the conditions of the branch
  all_goals
    left
    simp only [step] at h
    repeat' split at h
    all_goals
      cases h <;> constructor <;> first | assumption | simp_all

theorem Step.of_stop (ha : a.isStop = true) (h : step l s a = some s') : Step l s a s' := by
  cases a with
  | stop allowed =>
    cases h
    refine .stops rfl _ fun hstop => ?_
    obtain ⟨p, hp, heff⟩ := hstop
    exact ⟨p, List.mem_append_left _ hp, heff⟩
  | stopCheck k =>
    simp only [step] at h
    split at h
    · next hk =>
      split_ifs at h
      · cases h; exact .stops rfl _ (hasStopped_set hk nofun)
      · cases h; exact .stops rfl _ (hasStopped_set hk nofun)
    · cases h
  | stopCancel k now =>
    simp only [step] at h
    split at h
    · next metrics hk => cases h; exact .cancel k now metrics hk
    · cases h
  | stopReturn k =>
    simp only [step] at h
    split at h
    · next hk => cases h; exact .stops rfl _ (hasStopped_set hk fun _ => rfl)
    · cases h
  | _ => cases ha

theorem Step.of_step (h : step l s a = some s') : Step l s a s' := by
  rcases Step.of_waiter l h with hmoves | ha | ⟨now, ok, rfl⟩ | rfl | ⟨k, rfl⟩ | ⟨k, rfl⟩
  · exact .moves hmoves
  · exact Step.of_stop l ha h
  · simp only [step] at h
    split at h
    · next e state durationMs stopped hw =>
      cases h
      exact .persist now ok e state durationMs stopped hw
    · cases h
  · cases h
    exact .read
  · simp only [step] at h
    split at h
    · next rec mark hk =>
      split_ifs at h
      cases h
      exact .mask k rec mark hk
    · cases h
  · simp only [step] at h
    split at h
    · next rec mark hk =>
      split_ifs at h
      split at h
      · next response hresp => cases h; exact .respond k rec mark response hk hresp
      · cases h; exact .refuse k rec mark hk
    · cases h

def Sys.isDone (s : Sys) : Prop := ∃ e, s.waiter = .done e

instance (s : Sys) : Decidable s.isDone :=
  match h : s.waiter with
  | .done e => isTrue ⟨e, h⟩
  | .driving => isFalse fun ⟨_, h'⟩ => nomatch h.symm.trans h'
  | .reaped _ => isFalse fun ⟨_, h'⟩ => nomatch h.symm.trans h'
  | .published _ => isFalse fun ⟨_, h'⟩ => nomatch h.symm.trans h'
  | .guarded _ => isFalse fun ⟨_, h'⟩ => nomatch h.symm.trans h'
  | .finished _ _ => isFalse fun ⟨_, h'⟩ => nomatch h.symm.trans h'
  | .readBack _ _ _ => isFalse fun ⟨_, h'⟩ => nomatch h.symm.trans h'
  | .evicted _ _ _ => isFalse fun ⟨_, h'⟩ => nomatch h.symm.trans h'
  | .ended _ _ _ => isFalse fun ⟨_, h'⟩ => nomatch h.symm.trans h'
  | .measured _ _ _ _ => isFalse fun ⟨_, h'⟩ => nomatch h.symm.trans h'
  | .persisted _ _ => isFalse fun ⟨_, h'⟩ => nomatch h.symm.trans h'
  | .stopEvicted _ => isFalse fun ⟨_, h'⟩ => nomatch h.symm.trans h'
  | .metricsWritten _ => isFalse fun ⟨_, h'⟩ => nomatch h.symm.trans h'

/-! ## A quiet command -/

def trueLaunch : Launch strokeCrates where
  config := ⟨1, "true".toList, 2, 3, .process⟩
  startedAt := 0
  report := ⟨none, none, none, false, false, false⟩
  ceilingInstalled := false
  limits := none
  pipelineExitMasked := false
  receipts := fun _ => none
  isProcess := rfl
  isFresh := rfl

def exitZero (between : List Action) : List Action :=
  [.exit (.exited (some 0) none) none false false ⟨[], [], false⟩, .publish, .guard, .finish 5000000] ++
    between ++ [.readBack, .evict, .append true, .measure, .persist "t".toList true, .writeMetrics,
      .commit]

end Completion

end TerminalCommander
