import TerminalCommander.Daemon.Command.Completion

/-!
# A published exit is complete

Without stops, a status call answers with a natural exit only behind the last step of the waiter.
By then the lifecycle event has been appended, or the append has failed, the receipt write has been
tried, the in-flight entry is gone and the binding has the final counters; nothing changes from
there on, so the calls that begin later answer the same.
-/

namespace TerminalCommander

open List Transition

structure Counters where
  framesTotal : UInt64
  framesStdout : UInt64
  framesStderr : UInt64
  bytesTotal : UInt64
  eventsEmitted : UInt64
  framesSuppressed : UInt64
  framesSuppressedProgress : UInt64
  framesSuppressedDedupe : UInt64
  deriving DecidableEq

def ProcessProbeMetrics.counters (m : ProcessProbeMetrics) : Counters :=
  ⟨m.framesTotal, m.framesStdout, m.framesStderr, m.bytesTotal, m.eventsEmitted,
    m.framesSuppressed, m.framesSuppressedProgress, m.framesSuppressedDedupe⟩

def CommandStatusResponse.counters (r : CommandStatusResponse) : Counters :=
  ⟨r.framesTotal, r.framesStdout, r.framesStderr, r.bytesTotal, r.eventsEmitted,
    r.framesSuppressed, r.framesSuppressedProgress, r.framesSuppressedDedupe⟩

namespace Completion

variable {x : ReceiptCrates} {l : Launch x}

def Sys.finalMetrics (s : Sys) : ProcessProbeMetrics :=
  if s.lifecycle.isEmpty then s.binding.metricsLive else s.binding.metricsLive.addEvent

structure Complete (s : Sys) (r : CommandStatusResponse) : Prop where
  event : s.lifecycle ≠ [] ∨ s.appendFailed = true
  receiptTried : s.receiptWrites ≠ []
  counters : r.counters = s.finalMetrics.counters
  released : s.dedupEntry = false
  receipt : r.receipt.isSome = true ↔ s.binding.metricsLive.eventsEmitted = 0

/-! ## The waiter -/

structure Carried (s : Sys) (e : Exit) : Prop where
  metrics : e.metrics = s.binding.metricsLive
  receipt : e.receipt.isSome = true ↔ s.binding.metricsLive.eventsEmitted = 0
  quiet : s.lifecycle = []

structure Settled (s : Sys) (e : Exit) : Prop where
  left : s.job.exitInfo.isSome = true
  metrics : e.metrics = s.finalMetrics
  event : s.lifecycle ≠ [] ∨ s.appendFailed = true
  released : s.dedupEntry = false
  receipt : s.binding.receipt.isSome = true ↔ s.binding.metricsLive.eventsEmitted = 0

def Phase (s : Sys) : WaiterPc → Prop
  | .driving => s.job.state = .running ∧ s.lifecycle = []
  | .reaped e => s.job.state = .running ∧ Carried s e
  | .published e => s.job.state = .running ∧ Carried s e ∧ s.binding.receipt = e.receipt
  | .guarded e => s.job.state = .running ∧ Carried s e ∧ s.binding.receipt = e.receipt
  | .finished e _ => s.job.exitInfo.isSome = true ∧ Carried s e ∧ s.binding.receipt = e.receipt
  | .readBack e _ _ => s.job.exitInfo.isSome = true ∧ Carried s e ∧ s.binding.receipt = e.receipt
  | .evicted e _ _ => s.job.exitInfo.isSome = true ∧ Carried s e ∧ s.binding.receipt = e.receipt ∧
      s.dedupEntry = false
  | .ended e _ stopped => stopped = false ∧ Settled s e
  | .measured e _ _ stopped => stopped = false ∧ Settled s e
  | .persisted e stopped => stopped = false ∧ Settled s e ∧ s.receiptWrites ≠ []
  | .stopEvicted _ => False
  | .metricsWritten e => Settled s e ∧ s.receiptWrites ≠ [] ∧ s.binding.metrics = e.metrics
  | .done e => Settled s e ∧ s.receiptWrites ≠ [] ∧ s.binding.metrics = e.metrics ∧
      s.binding.completionCommitted = true

variable {e : Exit} {s s' : Sys}

theorem Carried.keep (h : Carried s e)
    (hlive : s'.binding.metricsLive = s.binding.metricsLive) (hquiet : s'.lifecycle = s.lifecycle) :
    Carried s' e where
  metrics := h.metrics.trans hlive.symm
  receipt := by rw [hlive]; exact h.receipt
  quiet := hquiet.trans h.quiet

theorem carried_exit (s : Sys) (outcome : ProbeOutcome) (peak : Option UInt64)
    (limitHit ceilingHit : Bool) (ring : RingView) (h : s.lifecycle = []) :
    Carried s (l.exit s.binding.metricsLive outcome peak limitHit ceilingHit ring) := by
  refine ⟨rfl, ?_, h⟩
  unfold Launch.exit
  dsimp only
  split_ifs with hzero
  · exact iff_of_true rfl hzero
  · exact iff_of_false Bool.false_ne_true hzero

theorem phase_moves (h : Phase s s.waiter) (hmoves : Moves l s s') : Phase s' s'.waiter := by
  cases hmoves with
  | output metrics hw =>
    rw [hw] at h ⊢
    exact h
  | exit outcome peak limitHit ceilingHit ring hw =>
    rw [hw] at h
    exact ⟨h.1, (carried_exit s outcome peak limitHit ceilingHit ring h.2).keep rfl rfl⟩
  | publish e hw =>
    rw [hw] at h
    dsimp only
    rw [h.1]
    exact ⟨h.1, h.2.keep rfl rfl, rfl⟩
  | skip e hw ht =>
    rw [hw] at h
    rw [h.1] at ht
    cases ht
  | pass e hw ht | readBack e draft hw =>
    rw [hw] at h
    exact ⟨h.1, h.2.1.keep rfl rfl, h.2.2⟩
  | finish e now hw =>
    rw [hw] at h
    exact ⟨by cases e.outcome <;> rfl, h.2.1.keep rfl rfl, h.2.2⟩
  | evict e draft state hw =>
    rw [hw] at h
    exact ⟨h.1, h.2.1.keep rfl rfl, h.2.2, rfl⟩
  | stopEvict e hw =>
    rw [hw] at h
    cases h.1
  | append e draft state hw =>
    rw [hw] at h
    obtain ⟨hleft, hcarried, hreceipt, hrel⟩ := h
    refine ⟨rfl, hleft, ?_, .inl (append_ne_nil_of_right_ne_nil _ (cons_ne_nil _ _)), hrel, ?_⟩
    · unfold Sys.finalMetrics
      dsimp only
      rw [hcarried.quiet, hcarried.metrics]
      rfl
    · dsimp only
      rw [hreceipt]
      exact hcarried.receipt
  | appendFails e draft state hw =>
    rw [hw] at h
    obtain ⟨hleft, hcarried, hreceipt, hrel⟩ := h
    refine ⟨rfl, hleft, ?_, .inr rfl, hrel, ?_⟩
    · unfold Sys.finalMetrics
      dsimp only
      rw [hcarried.quiet, hcarried.metrics]
      rfl
    · dsimp only
      rw [hreceipt]
      exact hcarried.receipt
  | measure e state stopped hw =>
    rw [hw] at h
    exact ⟨h.1, ⟨h.2.left, h.2.metrics, h.2.event, h.2.released, h.2.receipt⟩⟩
  | writeMetrics e hw =>
    rw [hw] at h
    exact ⟨⟨h.2.1.left, h.2.1.metrics, h.2.1.event, h.2.1.released, h.2.1.receipt⟩, h.2.2, rfl⟩
  | commit e hw =>
    rw [hw] at h
    exact ⟨⟨h.1.left, h.1.metrics, h.1.event, h.1.released, h.1.receipt⟩, h.2.1, h.2.2, rfl⟩
  | stopCommit e hw =>
    rw [hw] at h
    cases h

theorem Settled.keep (h : Settled s e) (statuses : List StatusPc)
    (reports : List Report) : Settled { s with statuses := statuses, reports := reports } e :=
  ⟨h.left, h.metrics, h.event, h.released, h.receipt⟩

theorem Phase.keep {w : WaiterPc} (h : Phase s w) (statuses : List StatusPc)
    (reports : List Report) : Phase { s with statuses := statuses, reports := reports } w := by
  cases w with
  | driving => exact h
  | reaped e => exact ⟨h.1, h.2.keep rfl rfl⟩
  | ended e state stopped | measured e state durationMs stopped =>
    exact ⟨h.1, h.2.keep statuses reports⟩
  | persisted e stopped => exact ⟨h.1, h.2.1.keep statuses reports, h.2.2⟩
  | stopEvicted e => exact h
  | metricsWritten e | done e => exact ⟨h.1.keep statuses reports, h.2⟩
  | _ => exact ⟨h.1, h.2.1.keep rfl rfl, h.2.2⟩

theorem phase_persist {state : JobState} {durationMs : Option Nat}
    {stopped : Bool} (h : Phase s (.measured e state durationMs stopped))
    (receipts : JobReceipt.Receipts) (call : JobReceipt.ReceiptCall) : Phase { s with
      receipts := receipts
      receiptWrites := s.receiptWrites ++ [call]
      waiter := .persisted e stopped } (.persisted e stopped) :=
  ⟨h.1, ⟨h.2.left, h.2.metrics, h.2.event, h.2.released, h.2.receipt⟩,
    append_ne_nil_of_right_ne_nil _ (cons_ne_nil _ _)⟩

theorem Moves.not_done (h : Moves l s s') : ¬s.isDone := by
  rintro ⟨e, he⟩
  cases h <;> cases he.symm.trans ‹s.waiter = _›

theorem ledger_moves (hphase : Phase s s.waiter) (hmoves : Moves l s s') :
    s'.job.config = s.job.config ∧ (s.job.state = .running ∨
      s'.job.state = s.job.state ∧ s'.job.exitInfo = s.job.exitInfo) := by
  cases hmoves with
  | finish e now hw =>
    rw [hw] at hphase
    refine ⟨?_, .inl hphase.1⟩
    cases e.outcome <;> rfl
  | _ => exact ⟨rfl, .inr ⟨rfl, rfl⟩⟩

/-! ## Status calls -/

def Seen (s : Sys) (rec : JobRecord) : Prop :=
  rec.state = s.job.state ∧ rec.exitInfo = s.job.exitInfo

def Late (s : Sys) (mark : Nat) : Prop :=
  ∃ i r, i < mark ∧ s.reports[i]? = some r ∧ r.response.state.natural = true

structure Final (s : Sys) (r : CommandStatusResponse) : Prop where
  done : s.isDone
  natural : s.job.state.natural = true
  state : r.state = s.job.state
  exitCode : r.exitCode = s.job.exitCode
  counters : r.counters = s.finalMetrics.counters
  receipt : r.receipt = s.binding.receipt

def StatusOk (s : Sys) : StatusPc → Prop
  | .read rec mark => rec.config = s.job.config ∧ mark ≤ s.reports.length ∧
      (rec.state.natural = true ∨ Late s mark → Seen s rec)
  | .masked rec mark => rec.config = s.job.config ∧ mark ≤ s.reports.length ∧
      (rec.state.natural = true ∨ Late s mark → Seen s rec ∧ s.isDone)
  | .returned => True

structure Inv (l : Launch x) (s : Sys) : Prop where
  config : s.job.config = l.config
  phase : Phase s s.waiter
  committed : s.binding.completionCommitted = true → s.isDone
  statuses : ∀ pc ∈ s.statuses, StatusOk s pc
  reports : ∀ r ∈ s.reports, r.mark ≤ s.reports.length ∧
    (r.response.state.natural = true ∨ Late s r.mark → Final s r.response)

variable {mark : Nat}

section

variable (h : Inv l s)

include h

theorem Inv.done_of_late (hlate : Late s mark) : s.isDone := by
  obtain ⟨i, r, -, hr, hnat⟩ := hlate
  exact ((h.reports r (mem_of_getElem? hr)).2 (.inl hnat)).done

theorem Inv.phase_of_done (hdone : s.isDone) :
    ∃ e, Settled s e ∧ s.receiptWrites ≠ [] ∧ s.binding.metrics = e.metrics ∧
      s.binding.completionCommitted := by
  obtain ⟨e, he⟩ := hdone
  have hphase := h.phase
  rw [he] at hphase
  exact ⟨e, hphase⟩

theorem Inv.advance (hnotDone : ¬s.isDone)
    (hphase : Phase s' s'.waiter) (hconfig : s'.job.config = s.job.config)
    (hledger : s.job.state = .running ∨
      s'.job.state = s.job.state ∧ s'.job.exitInfo = s.job.exitInfo)
    (hcom : s'.binding.completionCommitted → s'.isDone)
    (hstats : s'.statuses = s.statuses) (hrep : s'.reports = s.reports) : Inv l s' := by
  have hnotLate : ∀ mark, ¬Late s' mark := by
    intro mark hlate
    unfold Late at hlate
    rw [hrep] at hlate
    exact hnotDone (h.done_of_late hlate)
  refine ⟨hconfig.trans h.config, hphase, hcom, ?_, ?_⟩
  · rw [hstats]
    intro pc hpc
    have hok := h.statuses pc hpc
    cases pc with
    | read rec mark =>
      refine ⟨hok.1.trans hconfig.symm, hrep ▸ hok.2.1, fun hcase => ?_⟩
      have hnatural := hcase.resolve_right (hnotLate mark)
      have hseen := hok.2.2 (.inl hnatural)
      rcases hledger with hrunning | ⟨hstate, hexit⟩
      · rw [hseen.1, hrunning] at hnatural
        cases hnatural
      · exact ⟨hseen.1.trans hstate.symm, hseen.2.trans hexit.symm⟩
    | masked rec mark =>
      refine ⟨hok.1.trans hconfig.symm, hrep ▸ hok.2.1, fun hcase => ?_⟩
      exact absurd (hok.2.2 (.inl (hcase.resolve_right (hnotLate mark)))).2 hnotDone
    | returned => trivial
  · rw [hrep]
    intro r hr
    refine ⟨(h.reports r hr).1, fun hcase => ?_⟩
    exact absurd ((h.reports r hr).2 (.inl (hcase.resolve_right (hnotLate r.mark)))).done hnotDone

theorem Inv.moves (hmoves : Moves l s s') : Inv l s' := by
  have hnotDone := hmoves.not_done
  obtain ⟨hconfig, hledger⟩ := ledger_moves h.phase hmoves
  have hbef : ¬s.binding.completionCommitted := fun hcom => hnotDone (h.committed hcom)
  refine h.advance hnotDone (phase_moves h.phase hmoves) hconfig hledger ?_ ?_ ?_
  · intro hcommitted
    cases hmoves with
    | commit e hw => exact ⟨e, rfl⟩
    | stopCommit e hw => exact ⟨e, rfl⟩
    | _ => exact absurd hcommitted hbef
  · cases hmoves <;> rfl
  · cases hmoves <;> rfl

theorem Inv.answer {statuses : List StatusPc} {reports : List Report}
    (hstats : ∀ pc ∈ statuses, StatusOk s pc) (hrep : ∀ r ∈ reports, r.mark ≤ s.reports.length ∧
      (r.response.state.natural ∨ Late s r.mark → Final s r.response)) :
    Inv l { s with statuses := statuses, reports := s.reports ++ reports } := by
  have hlate : ∀ mark, mark ≤ s.reports.length →
      Late { s with statuses := statuses, reports := s.reports ++ reports } mark → Late s mark := by
    rintro mark hmark ⟨i, r, hi, hr, hnat⟩
    refine ⟨i, r, hi, ?_, hnat⟩
    rwa [getElem?_append_left (Nat.lt_of_lt_of_le hi hmark)] at hr
  have hlen : s.reports.length ≤ (s.reports ++ reports).length := by
    rw [length_append]
    exact Nat.le_add_right _ _
  refine ⟨h.config, h.phase.keep statuses _, h.committed, fun pc hpc => ?_, fun r hr => ?_⟩
  · have hok := hstats pc hpc
    cases pc with
    | read rec mark | masked rec mark =>
      exact ⟨hok.1, Nat.le_trans hok.2.1 hlen,
        fun hcase => hok.2.2 (hcase.imp_right (hlate mark hok.2.1))⟩
    | returned => trivial
  · have hans : r.mark ≤ s.reports.length ∧
        (r.response.state.natural ∨ Late s r.mark → Final s r.response) :=
      (mem_append.mp hr).elim (h.reports r) (hrep r)
    refine ⟨Nat.le_trans hans.1 hlen, fun hcase => ?_⟩
    have hfinal := hans.2 (hcase.imp_right (hlate r.mark hans.1))
    exact ⟨hfinal.done, hfinal.natural, hfinal.state, hfinal.exitCode, hfinal.counters,
      hfinal.receipt⟩

theorem Inv.call {statuses : List StatusPc}
    (hstats : ∀ pc ∈ statuses, StatusOk s pc) : Inv l { s with statuses := statuses } := by
  have hinv : Inv l { s with statuses := statuses, reports := s.reports ++ [] } :=
    h.answer hstats fun _ hr => (not_mem_nil hr).elim
  rwa [append_nil] at hinv

theorem Inv.setStatus {k : Nat} {pc : StatusPc} (hpc : StatusOk s pc) :
    ∀ p ∈ s.statuses.set k pc, StatusOk s p := by
  intro p hp
  rcases mem_or_eq_of_mem_set hp with hp | rfl
  · exact h.statuses p hp
  · exact hpc

end

theorem maskRecord_cases (rec : JobRecord) (b : JobBinding) :
    maskRecord rec (some b) = rec ∧ (rec.state.natural → b.completionCommitted) ∨
      (maskRecord rec (some b)).state = .running ∧ (maskRecord rec (some b)).config = rec.config ∧
        b.completionCommitted = false := by
  unfold maskRecord
  rw [Option.any_some]
  cases b.completionCommitted with
  | true =>
    rw [Bool.not_true, Bool.and_false]
    exact .inl ⟨rfl, fun _ => rfl⟩
  | false =>
    rw [Bool.not_false, Bool.and_true]
    split_ifs with h
    · exact .inr ⟨rfl, rfl, rfl⟩
    · exact .inl ⟨rfl, fun hnat => absurd hnat h⟩

theorem Inv.masked (h : Inv l s) {rec : JobRecord} (hok : StatusOk s (.read rec mark)) :
    StatusOk s (.masked (maskRecord rec (some s.binding)) mark) := by
  rcases maskRecord_cases rec s.binding with ⟨heq, hcom⟩ | ⟨hrunning, hconfig, hnot⟩
  · rw [heq]
    refine ⟨hok.1, hok.2.1, fun hcase => ⟨hok.2.2 hcase, ?_⟩⟩
    exact hcase.elim (fun hnat => h.committed (hcom hnat)) h.done_of_late
  · refine ⟨hconfig.trans hok.1, hok.2.1, fun hcase => ?_⟩
    rcases hcase with hnat | hlate
    · rw [hrunning] at hnat
      cases hnat
    · -- behind a reported exit the commit bit is set
      obtain ⟨e, -, -, -, hcom⟩ := h.phase_of_done (h.done_of_late hlate)
      exact absurd (hnot.symm.trans hcom) Bool.false_ne_true

theorem Inv.respond (h : Inv l s) {rec : JobRecord}
    {response : CommandStatusResponse} (hok : StatusOk s (.masked rec mark))
    (hresp : statusOf s.job.config.jobId (some rec) (some s.binding) = .ok response)
    (hcase : response.state.natural ∨ Late s mark) : Final s response := by
  have hproc : rec.config.sourceType = .process := by
    rw [hok.1, h.config]
    exact l.isProcess
  rw [statusOf_of_process hproc] at hresp
  cases hresp
  obtain ⟨hseen, hdone⟩ := hok.2.2 hcase
  obtain ⟨e, hset, -, hmetrics, -⟩ := h.phase_of_done hdone
  have hexit : rec.exitInfo.isSome := by rw [hseen.2]; exact hset.left
  have hnat : s.job.state.natural := by
    rcases hcase with hnat | ⟨i, r, -, hr, hr'⟩
    · rw [← hseen.1]
      exact hnat
    · exact ((h.reports r (mem_of_getElem? hr)).2 (.inl hr')).natural
  refine ⟨hdone, hnat, hseen.1, ?_, ?_, rfl⟩
  · show rec.exitInfo.bind JobExitInfo.exitCode = _
    rw [hseen.2]
    rfl
  · rw [hexit, ← hset.metrics, ← hmetrics]
    rfl

theorem Inv.step {a : Action} (h : Inv l s) (hstop : a.isStop = false)
    (hstep : Completion.step l s a = some s') : Inv l s' := by
  cases Step.of_step l hstep with
  | moves hmoves => exact h.moves hmoves
  | persist now ok e state durationMs stopped hw =>
    have hphase := h.phase
    rw [hw] at hphase
    have hnotDone : ¬s.isDone := by
      rintro ⟨e', he'⟩
      cases hw.symm.trans he'
    exact h.advance hnotDone (phase_persist hphase _ _) rfl (.inr ⟨rfl, rfl⟩)
      (fun hcom => absurd (h.committed hcom) hnotDone) rfl rfl
  | stops ha stops hkeep => exact absurd (hstop.symm.trans ha) Bool.false_ne_true
  | cancel k now metrics hk => cases hstop
  | read =>
    have hall : ∀ pc ∈ s.statuses ++ [.read s.job s.reports.length], StatusOk s pc := by
      intro pc hpc
      rcases mem_append.mp hpc with hpc | hpc
      · exact h.statuses pc hpc
      · rw [mem_singleton.mp hpc]
        exact ⟨rfl, Nat.le_refl _, fun _ => ⟨rfl, rfl⟩⟩
    exact h.call hall
  | mask k rec mark hk =>
    exact h.call (h.setStatus (h.masked (h.statuses _ (mem_of_getElem? hk))))
  | respond k rec mark response hk hresp =>
    have hok := h.statuses _ (mem_of_getElem? hk)
    have hret : StatusOk s .returned := trivial
    exact h.answer (h.setStatus hret)
      (forall_mem_singleton.mpr ⟨hok.2.1, h.respond hok hresp⟩)
  | refuse k rec mark hk =>
    have hret : StatusOk s .returned := trivial
    exact h.call (h.setStatus hret)

theorem inv_start : Inv l (start l) where
  config := rfl
  phase := ⟨rfl, rfl⟩
  committed := fun h => absurd h Bool.false_ne_true
  statuses := fun _ h => (not_mem_nil h).elim
  reports := fun _ h => (not_mem_nil h).elim

/-! ## Runs without stops -/

/-- **Published exits are complete.** In every run of the waiter and status calls, an answer with a
natural exit finds everything done that the exit promises, and the calls that begin behind it
answer with the same state, exit code and counters. -/
theorem published_exit_complete (acts : List Action) (s : Sys)
    (hnoStop : ∀ a ∈ acts, a.isStop = false)
    (hrun : Transition.run (step l) (start l) acts = some s) :
    (∀ r ∈ s.reports, r.response.state.natural = true → Complete s r.response) ∧
      ∀ (i j : Nat) (r r' : Report), s.reports[i]? = some r → s.reports[j]? = some r' →
        i < r'.mark → r.response.state.natural = true →
        r'.response.state = r.response.state ∧ r'.response.exitCode = r.response.exitCode ∧
          r'.response.counters = r.response.counters := by
  have hinv : Inv l s := run_invariant (fun _ _ _ h hg hs => h.step hg hs) inv_start
    (meets_of_mem hnoStop) hrun
  constructor
  · intro r hr hnat
    have hfinal := (hinv.reports r hr).2 (.inl hnat)
    obtain ⟨e, hset, hwrite, -, -⟩ := hinv.phase_of_done hfinal.done
    refine ⟨hset.event, hwrite, hfinal.counters, hset.released, ?_⟩
    rw [hfinal.receipt]
    exact hset.receipt
  · intro i j r r' hi hj hlater hnat
    have hfirst := (hinv.reports r (mem_of_getElem? hi)).2 (.inl hnat)
    have hthen := (hinv.reports r' (mem_of_getElem? hj)).2
      (.inr ⟨i, r, hlater, hi, hnat⟩)
    exact ⟨hthen.state.trans hfirst.state.symm, hthen.exitCode.trans hfirst.exitCode.symm,
      hthen.counters.trans hfirst.counters.symm⟩

/-! ## A quiet command -/

/-- One call reads the exit before it is committed, and answers with it afterwards; the next call
answers the same. -/
theorem quiet_exit_complete :
    ∃ s ∈ Transition.run (step trueLaunch) (start trueLaunch) (exitZero [.statusRead] ++
        [.statusMask 0, .statusReturn 0, .statusRead, .statusMask 1, .statusReturn 1]),
      s.reports.map (fun r => (r.mark, r.response.state)) = [(0, .exited), (1, .exited)] ∧
      (∀ r ∈ s.reports, r.response.state.natural = true → Complete s r.response) ∧
        ∀ (i j : Nat) (r r' : Report), s.reports[i]? = some r → s.reports[j]? = some r' →
          i < r'.mark → r.response.state.natural = true →
          r'.response.state = r.response.state ∧ r'.response.exitCode = r.response.exitCode ∧
            r'.response.counters = r.response.counters := by
  have hend : ∃ s ∈ run (step trueLaunch) (start trueLaunch) (exitZero [.statusRead] ++
        [.statusMask 0, .statusReturn 0, .statusRead, .statusMask 1, .statusReturn 1]),
      s.reports.map (fun r => (r.mark, r.response.state)) = [(0, .exited), (1, .exited)] := by
    decide +kernel
  obtain ⟨s, hrun, hrep⟩ := hend
  exact ⟨s, hrun, hrep, published_exit_complete _ s (by decide +kernel) hrun⟩

end Completion

end TerminalCommander
