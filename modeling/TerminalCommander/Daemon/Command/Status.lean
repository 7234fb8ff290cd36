import TerminalCommander.Core.Activation
import TerminalCommander.Core.Job
import TerminalCommander.Daemon.Governor
import TerminalCommander.Store.JobReceipt

/-!
# The status of a combed job, live and from its receipt

`status` answers from the ledger and the live binding of a job, `reconstructed_status` from the row
that `persist_job_receipt` has written (`daemon/src/command.rs`), through JSON texts that the source
formats by hand. `reconstructedStatus_of_call` is the round trip. The ring lines of a no-silence
receipt are taken as the probe shows them; fields that read the clock or the operating system when
a status is asked for are left out.
-/

namespace TerminalCommander

open List Option Json TypedId GovernorOutcome

open Json (ofUInt64)

/-! ## Live jobs -/

structure ProcessProbeMetrics where
  framesTotal : UInt64
  framesStdout : UInt64
  framesStderr : UInt64
  bytesTotal : UInt64
  observation : ProcessObservation
  cleanup : ProcessCleanup
  eventsEmitted : UInt64
  framesSuppressed : UInt64
  framesSuppressedProgress : UInt64
  framesSuppressedDedupe : UInt64
  deriving DecidableEq

def ProcessProbeMetrics.zero : ProcessProbeMetrics where
  framesTotal := 0
  framesStdout := 0
  framesStderr := 0
  bytesTotal := 0
  observation := ⟨⟨0, .reading⟩, ⟨0, .reading⟩⟩
  cleanup := .running
  eventsEmitted := 0
  framesSuppressed := 0
  framesSuppressedProgress := 0
  framesSuppressedDedupe := 0

def ProcessProbeMetrics.addEvent (metrics : ProcessProbeMetrics) : ProcessProbeMetrics :=
  { metrics with eventsEmitted := UInt64.ofNat (satAdd metrics.eventsEmitted.toNat 1) }

structure CommandReceipt where
  exitCode : Option Int
  linesSuppressed : UInt64
  linesOmitted : Nat
  head : List Text
  tail : List Text
  tailIncomplete : Bool
  deriving DecidableEq

structure RingView where
  head : List Text
  tail : List Text
  incomplete : Bool
  deriving DecidableEq

def buildReceipt (ring : RingView) (framesTotal : UInt64) (exitCode : Option Int) :
    CommandReceipt where
  exitCode := exitCode
  linesSuppressed := framesTotal
  linesOmitted := framesTotal.toNat - (ring.head.length + ring.tail.length)
  head := ring.head
  tail := ring.tail
  tailIncomplete := ring.incomplete

structure JobBinding where
  metrics : ProcessProbeMetrics
  metricsLive : ProcessProbeMetrics
  receipt : Option CommandReceipt
  pipelineExitMasked : Bool
  governor : GovernorOutcome
  completionCommitted : Bool
  deriving DecidableEq

/-! ## Status -/

inductive OutcomeTrust where
  | observed | reconstructed | abandoned
  deriving DecidableEq, Repr

structure CommandStatusResponse where
  processObservation : Option ProcessObservation
  processCleanup : Option ProcessCleanup
  jobId : JobId
  bucketId : BucketId
  probeId : ProbeId
  state : JobState
  framesTotal : UInt64
  framesStdout : UInt64
  framesStderr : UInt64
  bytesTotal : UInt64
  eventsEmitted : UInt64
  framesSuppressed : UInt64
  framesSuppressedProgress : UInt64
  framesSuppressedDedupe : UInt64
  exitCode : Option Int
  signal : Option Text
  durationMs : Option Nat
  receipt : Option CommandReceipt
  restarted : Bool
  outcomeTrust : OutcomeTrust
  pipelineExitMasked : Bool
  governor : Option GovernorModeWire
  limitsApplied : Option LimitsApplied
  peakMemoryBytes : Option UInt64
  exitReason : Option Text
  hostCeilingJoined : Option Bool
  deriving DecidableEq

structure UnknownJob where
  jobId : JobId
  deriving DecidableEq

def maskRecord (rec : JobRecord) (binding : Option JobBinding) : JobRecord :=
  if rec.state.natural && binding.any fun b => !b.completionCommitted then
    { rec with state := .running, endedAt := none, exitInfo := none }
  else rec

def jobRecord (rec : Option JobRecord) (binding : Option JobBinding) : Option JobRecord :=
  rec.map fun rec => maskRecord rec binding

structure BindingView where
  metrics : ProcessProbeMetrics
  receipt : Option CommandReceipt
  pipelineExitMasked : Bool
  governor : GovernorOutcome
  deriving DecidableEq

def JobBinding.view (b : JobBinding) (exited : Bool) : BindingView where
  metrics := if exited then b.metrics else b.metricsLive
  receipt := b.receipt
  pipelineExitMasked := b.pipelineExitMasked
  governor := b.governor

def statusResponse (jobId : JobId) (rec : JobRecord) (view : BindingView) :
    CommandStatusResponse where
  processObservation := some view.metrics.observation
  processCleanup := some view.metrics.cleanup
  jobId := jobId
  bucketId := rec.config.bucketId
  probeId := rec.config.probeId
  state := rec.state
  framesTotal := view.metrics.framesTotal
  framesStdout := view.metrics.framesStdout
  framesStderr := view.metrics.framesStderr
  bytesTotal := view.metrics.bytesTotal
  eventsEmitted := view.metrics.eventsEmitted
  framesSuppressed := view.metrics.framesSuppressed
  framesSuppressedProgress := view.metrics.framesSuppressedProgress
  framesSuppressedDedupe := view.metrics.framesSuppressedDedupe
  exitCode := rec.exitInfo.bind JobExitInfo.exitCode
  signal := rec.exitInfo.bind JobExitInfo.signal
  durationMs := rec.exitInfo.map JobExitInfo.durationMs
  receipt := view.receipt
  restarted := false
  outcomeTrust := .observed
  pipelineExitMasked := view.pipelineExitMasked
  governor := view.governor.governor
  limitsApplied := view.governor.limitsApplied
  peakMemoryBytes := view.governor.peakMemoryBytes
  exitReason := view.governor.exitReason
  hostCeilingJoined := view.governor.hostCeilingJoined

def statusOf (jobId : JobId) (rec : Option JobRecord) (binding : Option JobBinding) :
    Except UnknownJob CommandStatusResponse :=
  match rec with
  | none => .error ⟨jobId⟩
  | some rec =>
    if rec.config.sourceType ≠ .process then .error ⟨jobId⟩
    else
      match binding with
      | some b => .ok (statusResponse jobId rec (b.view rec.exitInfo.isSome))
      | none =>
        -- between its registration and its live binding a starting job has no counters yet
        if rec.state = .starting then
          .ok (statusResponse jobId rec ⟨.zero, none, false, .ungoverned⟩)
        else .error ⟨jobId⟩

def status (jobId : JobId) (rec : Option JobRecord) (binding : Option JobBinding) :
    Except UnknownJob CommandStatusResponse :=
  statusOf jobId (jobRecord rec binding) binding

/-! ## Receipts -/

structure ReceiptCrates where
  uuids : Uuids
  json : Json.Reader
  escape_simple : ∀ raw, Json.escape (uuids.simple raw) = uuids.simple raw

theorem escape_replicate (n : Nat) : escape (List.replicate n '1') = List.replicate n '1' := by
  induction n with
  | zero => rfl
  | succ n ih => exact congrArg (List.cons '1') ih

def strokeCrates : ReceiptCrates := ⟨strokes, .plain, escape_replicate⟩

def evidenceJson (x : ReceiptCrates) (metrics : ProcessProbeMetrics) (durationMs : Option Nat)
    (probeId : ProbeId) (governor : GovernorOutcome) : Text :=
  let duration := durationMs.elim "null".toList fun d => Nat.toDigits 10 d
  "\x7b\"frames_total\":".toList ++ displayU64 metrics.framesTotal ++
    ",\"frames_stdout\":".toList ++ displayU64 metrics.framesStdout ++
    ",\"frames_stderr\":".toList ++ displayU64 metrics.framesStderr ++
    ",\"bytes_total\":".toList ++ displayU64 metrics.bytesTotal ++
    ",\"frames_suppressed\":".toList ++ displayU64 metrics.framesSuppressed ++
    ",\"frames_suppressed_progress\":".toList ++ displayU64 metrics.framesSuppressedProgress ++
    ",\"frames_suppressed_dedupe\":".toList ++ displayU64 metrics.framesSuppressedDedupe ++
    ",\"duration_ms\":".toList ++ duration ++
    ",\"probe_id\":\"".toList ++ TypedId.toWireString x.uuids .probe probeId ++
    "\",\"process_observation\":".toList ++ metrics.observation.toJson.render ++
    ",\"process_cleanup\":".toList ++ metrics.cleanup.toJson.render ++
    governor.evidenceFields ++ "\x7d".toList

def JobState.receiptLabel : JobState → Text
  | .exited => "exited".toList
  | .cancelled => "cancelled".toList
  | .failed => "failed".toList
  | .starting => "starting".toList
  | .running => "running".toList

def countsJson (eventsEmitted : UInt64) : Text :=
  "\x7b\"events_emitted\":".toList ++ displayU64 eventsEmitted ++ "\x7d".toList

def persistJobReceipt (x : ReceiptCrates) (jobId : JobId) (bucketId : BucketId) (state : JobState)
    (exitCode : Option Int) (eventsEmitted : UInt64) (metricsJson endCause : Option Text)
    (now : Text) : JobReceipt.ReceiptCall where
  jobId := TypedId.toWireString x.uuids .job jobId
  bucketId := TypedId.toWireString x.uuids .bucket bucketId
  terminalState := state.receiptLabel
  exitCode := exitCode
  finalSignalCounts := countsJson eventsEmitted
  metricsJson := metricsJson
  endCause := endCause
  now := now

def JobState.ofReceiptLabel (label : Text) : JobState :=
  if label = "exited".toList then .exited
  else if label = "cancelled".toList then .cancelled
  else .failed

def reconstructedStatus (x : ReceiptCrates) (receipts : JobReceipt.Receipts)
    (rec : Option JobRecord) (freshBucket : BucketId) (freshProbe : ProbeId) (jobId : JobId) :
    Option CommandStatusResponse :=
  (receipts (TypedId.toWireString x.uuids .job jobId)).map fun row =>
    let state := JobState.ofReceiptLabel row.terminalState
    let bucketId := (TypedId.parseWire x.uuids .bucket row.bucketId).toOption.getD freshBucket
    let eventsEmitted := ((x.json.fromStr row.finalSignalCounts).bind fun v =>
      (v.get? "events_emitted".toList).bind Json.asUInt64?).getD 0
    let evidence := row.metricsJson.bind x.json.fromStr
    let member := fun key : Text => evidence.bind fun v => v.get? key
    let num := fun key : Text => ((member key).bind Json.asUInt64?).getD 0
    let probeId := ((member "probe_id".toList).bind Json.asStr?).bind
      (fun t => (TypedId.parseWire x.uuids .probe t).toOption) |>.getD freshProbe
    let governor := GovernorOutcome.fromEvidence evidence
    let isAbandoned := decide (row.endCause = some JobReceipt.ABANDONED_END_CAUSE)
    let outcome : JobState × Option Int × OutcomeTrust :=
      if isAbandoned then (.cancelled, none, .abandoned)
      else if rec.isSome then (state, row.exitCode, .observed)
      else (state, row.exitCode, .reconstructed)
    { processObservation := (member "process_observation".toList).bind ProcessObservation.ofJson?
      processCleanup := (member "process_cleanup".toList).bind ProcessCleanup.ofJson?
      jobId := jobId
      bucketId := bucketId
      probeId := probeId
      state := outcome.1
      framesTotal := num "frames_total".toList
      framesStdout := num "frames_stdout".toList
      framesStderr := num "frames_stderr".toList
      bytesTotal := num "bytes_total".toList
      eventsEmitted := eventsEmitted
      framesSuppressed := num "frames_suppressed".toList
      framesSuppressedProgress := num "frames_suppressed_progress".toList
      framesSuppressedDedupe := num "frames_suppressed_dedupe".toList
      exitCode := outcome.2.1
      signal := none
      durationMs := ((member "duration_ms".toList).bind Json.asUInt64?).map UInt64.toNat
      receipt := none
      restarted := decide (outcome.2.2 ≠ .observed)
      outcomeTrust := outcome.2.2
      pipelineExitMasked := false
      governor := governor.governor
      limitsApplied := governor.limitsApplied
      peakMemoryBytes := governor.peakMemoryBytes
      exitReason := governor.exitReason
      hostCeilingJoined := governor.hostCeilingJoined }

/-! ## The round trip -/

section

variable (x : ReceiptCrates) (metrics : ProcessProbeMetrics) (durationMs : Option Nat)
  (probeId : ProbeId) (governor : GovernorOutcome)

def durationJson (durationMs : Option Nat) : Json := durationMs.elim .null fun d => .num d

def evidenceMembers : List (Text × Option Json) :=
  [("frames_total".toList, some (ofUInt64 metrics.framesTotal)),
    ("frames_stdout".toList, some (ofUInt64 metrics.framesStdout)),
    ("frames_stderr".toList, some (ofUInt64 metrics.framesStderr)),
    ("bytes_total".toList, some (ofUInt64 metrics.bytesTotal)),
    ("frames_suppressed".toList, some (ofUInt64 metrics.framesSuppressed)),
    ("frames_suppressed_progress".toList, some (ofUInt64 metrics.framesSuppressedProgress)),
    ("frames_suppressed_dedupe".toList, some (ofUInt64 metrics.framesSuppressedDedupe)),
    ("duration_ms".toList, some (durationJson durationMs)),
    ("probe_id".toList, some (.str (TypedId.toWireString x.uuids .probe probeId))),
    ("process_observation".toList, some metrics.observation.toJson),
    ("process_cleanup".toList, some metrics.cleanup.toJson)] ++ governor.members

theorem escape_toWireString (kind : TypedIdKind) (raw : Nat) :
    escape (toWireString x.uuids kind raw) =
      toWireString x.uuids kind raw := by
  have htag : ∀ tail : Text, escape (kind.wireTag ++ '_' :: tail) =
      kind.wireTag ++ '_' :: escape tail := by
    intro tail
    cases kind <;> rfl
  unfold toWireString
  rw [htag, x.escape_simple]

set_option maxRecDepth 8192 in
theorem evidenceJson_eq (h : governor.Regular) :
    evidenceJson x metrics durationMs probeId governor =
      (ofOptions (evidenceMembers x metrics durationMs probeId governor)).render := by
  have hdur : (durationMs.elim "null".toList fun d => Nat.toDigits 10 d) =
      (durationJson durationMs).render := by
    cases durationMs <;> rfl
  have hprobe : ∀ tail : Text, quote (toWireString x.uuids .probe probeId) ++ tail =
      "\"".toList ++ (toWireString x.uuids .probe probeId ++ ("\"".toList ++ tail)) := by
    intro tail
    rw [quote_append, escape_toWireString]
    rfl
  unfold evidenceJson evidenceMembers
  rw [cons_append, render_ofOptions, moreFields_append, ← evidenceFields_eq h]
  dsimp only
  rw [hdur]
  simp only [moreFields, renderField, render, flatMap_cons, flatMap_nil,
    elim_some, append_nil, append_assoc, cons_append, hprobe]
  rfl

theorem nodup_evidenceMembers :
    ((evidenceMembers x metrics durationMs probeId governor).map Prod.fst).Nodup := by
  show (["frames_total".toList, "frames_stdout".toList, "frames_stderr".toList,
    "bytes_total".toList, "frames_suppressed".toList, "frames_suppressed_progress".toList,
    "frames_suppressed_dedupe".toList, "duration_ms".toList, "probe_id".toList,
    "process_observation".toList, "process_cleanup".toList, "governor".toList,
    "peak_memory_bytes".toList, "exit_reason".toList, "host_ceiling_joined".toList,
    "limits_applied".toList] : List Text).Nodup
  decide +kernel

theorem fits_evidence (h : ∀ d ∈ durationMs, d ≤ u64Max) :
    Json.Fits 127 (ofOptions (evidenceMembers x metrics durationMs probeId governor)) := by
  refine fits_ofOptions fun key value hmem => ?_
  unfold evidenceMembers at hmem
  rcases mem_append.mp hmem with hmem | hmem
  · simp only [mem_cons, Prod.mk.injEq, Option.some.injEq, not_mem_nil, or_false] at hmem
    rcases hmem with ⟨-, rfl⟩ | ⟨-, rfl⟩ | ⟨-, rfl⟩ | ⟨-, rfl⟩ | ⟨-, rfl⟩ | ⟨-, rfl⟩ | ⟨-, rfl⟩ |
      ⟨-, rfl⟩ | ⟨-, rfl⟩ | ⟨-, rfl⟩ | ⟨-, rfl⟩
    case inr.inr.inr.inr.inr.inr.inr.inl =>
      cases durationMs with
      | none => exact .null _
      | some d =>
        have hd := h d rfl
        unfold u64Max at hd
        refine .num _ _ ?_ ?_
        · exact Int.le_trans (by decide) (Int.natCast_nonneg d)
        · unfold UInt64.size
          omega
    case inr.inr.inr.inr.inr.inr.inr.inr.inl => exact .str _ _
    case inr.inr.inr.inr.inr.inr.inr.inr.inr.inl => exact metrics.observation.fits_toJson 122
    case inr.inr.inr.inr.inr.inr.inr.inr.inr.inr => exact metrics.cleanup.fits_toJson 124
    all_goals exact fits_ofUInt64 _ _
  · exact governor.fits_members 125 key value hmem

theorem fromStr_evidenceJson (h : governor.Regular) (hdur : ∀ d ∈ durationMs, d ≤ u64Max) :
    x.json.fromStr (evidenceJson x metrics durationMs probeId governor) =
      some (ofOptions (evidenceMembers x metrics durationMs probeId governor)) := by
  rw [evidenceJson_eq x metrics durationMs probeId governor h]
  exact x.json.fromStr_render _ (fits_evidence x metrics durationMs probeId governor hdur)

theorem fromStr_countsJson (n : UInt64) :
    ((x.json.fromStr (countsJson n)).bind fun v =>
      (v.get? "events_emitted".toList).bind asUInt64?) = some n := by
  have htext : countsJson n = (obj [("events_emitted".toList, ofUInt64 n)]).render := rfl
  have hfits : Json.Fits 127 (.obj [("events_emitted".toList, ofUInt64 n)]) :=
    .obj 126 _ (forall_mem_singleton.mpr (fits_ofUInt64 126 n))
  rw [htext, x.json.fromStr_render _ hfits]
  exact asUInt64?_ofUInt64 n

theorem asUInt64?_durationJson (h : ∀ d ∈ durationMs, d ≤ u64Max) :
    (asUInt64? (durationJson durationMs)).map UInt64.toNat = durationMs := by
  cases durationMs with
  | none => rfl
  | some d =>
    have hd : d < UInt64.size := Nat.lt_succ_of_le (h d rfl)
    show ((if d < UInt64.size then some (UInt64.ofNat d) else none).map UInt64.toNat) = _
    rw [if_pos hd, map_some, UInt64.toNat_ofNat_of_lt' hd]

end

def CommandStatusResponse.story (r : CommandStatusResponse) : CommandStatusResponse :=
  { r with signal := none, receipt := none, pipelineExitMasked := false }

def toldStatus (config : JobConfig) (state : JobState) (exitCode : Option Int)
    (durationMs : Option Nat) (metrics : ProcessProbeMetrics) (governor : GovernorOutcome) :
    CommandStatusResponse where
  processObservation := some metrics.observation
  processCleanup := some metrics.cleanup
  jobId := config.jobId
  bucketId := config.bucketId
  probeId := config.probeId
  state := state
  framesTotal := metrics.framesTotal
  framesStdout := metrics.framesStdout
  framesStderr := metrics.framesStderr
  bytesTotal := metrics.bytesTotal
  eventsEmitted := metrics.eventsEmitted
  framesSuppressed := metrics.framesSuppressed
  framesSuppressedProgress := metrics.framesSuppressedProgress
  framesSuppressedDedupe := metrics.framesSuppressedDedupe
  exitCode := exitCode
  signal := none
  durationMs := durationMs
  receipt := none
  restarted := false
  outcomeTrust := .observed
  pipelineExitMasked := false
  governor := governor.governor
  limitsApplied := governor.limitsApplied
  peakMemoryBytes := governor.peakMemoryBytes
  exitReason := governor.exitReason
  hostCeilingJoined := governor.hostCeilingJoined

theorem ofReceiptLabel_receiptLabel {state : JobState} (h : state.terminal) :
    JobState.ofReceiptLabel state.receiptLabel = state := by
  cases state <;> first | rfl | cases h

variable {rec : JobRecord}

theorem reconstructedStatus_of_row {x : ReceiptCrates} {receipts : JobReceipt.Receipts}
    {config : JobConfig} {state : JobState} {exitCode : Option Int}
    {metrics : ProcessProbeMetrics} {durationMs : Option Nat} {governor : GovernorOutcome}
    {now : Text} (hreg : governor.Regular) (hstate : state.terminal)
    (hdur : ∀ d ∈ durationMs, d ≤ u64Max)
    (hrow : receipts (toWireString x.uuids .job config.jobId) =
      some (persistJobReceipt x config.jobId config.bucketId state exitCode metrics.eventsEmitted
        (some (evidenceJson x metrics durationMs config.probeId governor)) none now).values)
    (freshBucket : BucketId) (freshProbe : ProbeId) :
    reconstructedStatus x receipts (some rec) freshBucket freshProbe config.jobId =
      some (toldStatus config state exitCode durationMs metrics governor) := by
  have hevidence := fromStr_evidenceJson x metrics durationMs config.probeId governor hreg
    hdur
  have hmember : ∀ key value,
      (key, value) ∈ evidenceMembers x metrics durationMs config.probeId governor →
      (ofOptions (evidenceMembers x metrics durationMs config.probeId governor)).get? key =
        value := fun key value hmem =>
    get?_ofOptions (nodup_evidenceMembers x metrics durationMs config.probeId governor) hmem
  have hgovernor := fromEvidence_of_members fun key value hmem =>
    hmember key value (mem_append_right _ hmem)
  generalize ofOptions (evidenceMembers x metrics durationMs config.probeId governor) = v
    at hevidence hmember hgovernor
  have htotal := hmember _ _ (mem_of_getElem? (i := 0) rfl)
  have hstdout := hmember _ _ (mem_of_getElem? (i := 1) rfl)
  have hstderr := hmember _ _ (mem_of_getElem? (i := 2) rfl)
  have hbytes := hmember _ _ (mem_of_getElem? (i := 3) rfl)
  have hsuppressed := hmember _ _ (mem_of_getElem? (i := 4) rfl)
  have hprogress := hmember _ _ (mem_of_getElem? (i := 5) rfl)
  have hdedupe := hmember _ _ (mem_of_getElem? (i := 6) rfl)
  have htime := hmember _ _ (mem_of_getElem? (i := 7) rfl)
  have hprobe := hmember _ _ (mem_of_getElem? (i := 8) rfl)
  have hobservation := hmember _ _ (mem_of_getElem? (i := 9) rfl)
  have hcleanup := hmember _ _ (mem_of_getElem? (i := 10) rfl)
  have hstr : ∀ t, asStr? (.str t) = some t := fun _ => rfl
  unfold reconstructedStatus
  rw [hrow, map_some]
  simp only [persistJobReceipt, JobReceipt.ReceiptCall.values, bind_some, hevidence,
    hgovernor, htotal, hstdout, hstderr, hbytes, hsuppressed, hprogress, hdedupe, htime, hprobe,
    hobservation, hcleanup, asUInt64?_ofUInt64, hstr, asUInt64?_durationJson _ hdur,
    fromStr_countsJson, parseWire_toWireString, ProcessObservation.ofJson?_toJson,
    ProcessCleanup.ofJson?_toJson, ofReceiptLabel_receiptLabel hstate, getD_some]
  rfl

variable {b : JobBinding}

theorem statusOf_of_process {jobId : JobId} (h : rec.config.sourceType = .process) :
    statusOf jobId (some rec) (some b) =
      .ok (statusResponse jobId rec (b.view rec.exitInfo.isSome)) := by
  unfold statusOf
  dsimp only
  rw [if_neg (not_not_intro h)]

theorem maskRecord_of_committed
    (h : b.completionCommitted) : maskRecord rec (some b) = rec := by
  unfold maskRecord
  rw [any_some, h, Bool.not_true, Bool.and_false]
  rfl

theorem status_of_committed
    (hproc : rec.config.sourceType = .process) (hcom : b.completionCommitted) :
    status rec.config.jobId (some rec) (some b) =
      .ok (statusResponse rec.config.jobId rec (b.view rec.exitInfo.isSome)) := by
  unfold status jobRecord
  rw [map_some, maskRecord_of_committed hcom, statusOf_of_process hproc]

theorem story_statusResponse
    (hexit : rec.exitInfo.isSome) :
    (statusResponse rec.config.jobId rec (b.view rec.exitInfo.isSome)).story =
      toldStatus rec.config rec.state rec.exitCode (rec.exitInfo.map JobExitInfo.durationMs)
        b.metrics b.governor := by
  rw [hexit]
  rfl

end TerminalCommander
