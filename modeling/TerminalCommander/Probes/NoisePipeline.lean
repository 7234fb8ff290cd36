import TerminalCommander.Core.BucketRun
import TerminalCommander.Lib.Transition
import TerminalCommander.Sifters.Noise
import TerminalCommander.Sifters.Runtime

/-!
# The noise pipeline of a probe

`process_frame` of `probes/src/noise_pipeline.rs`, with the event sink of the daemon: the sifter's
drafts are stamped, prompts bypass the dedupe, the patches go to the bucket, then the drafts. Each
call of the sink is a step, and other appends to the bucket come in between. The fields `collapsed`
and `written` are not part of the source.
-/

namespace TerminalCommander

structure SuppressionMetrics where
  framesSuppressed : Nat
  framesSuppressedProgress : Nat
  framesSuppressedDedupe : Nat
  deriving DecidableEq, Repr

namespace SuppressionMetrics

def recordProgressSuppressed (m : SuppressionMetrics) : SuppressionMetrics :=
  { m with
    framesSuppressedProgress := satAdd m.framesSuppressedProgress 1
    framesSuppressed := satAdd m.framesSuppressed 1 }

def recordDedupeSuppressed (m : SuppressionMetrics) (count : Nat) : SuppressionMetrics :=
  { m with
    framesSuppressedDedupe := satAdd m.framesSuppressedDedupe count
    framesSuppressed := satAdd m.framesSuppressed count }

end SuppressionMetrics

def passwordPromptDraft (frame : SourceFrame) (bucketId : BucketId) (now : Time) : EventDraft where
  bucketId := bucketId
  timestamp := now
  severity := .critical
  kind := "password_prompt".toList
  summary := "secret password prompt detected".toList
  rule := none
  source := ⟨frame.probeId, .terminal, frame.stream, none⟩
  captures := none
  pointer := frame.line.map fun n => ⟨frame.frameId, some n, none, none, none, true⟩
  pointerUnavailableReason := none
  tags := none
  frameTruncatedBytes := 0
  count := 1
  firstSeen := none
  lastSeen := none
  suppressed := false

namespace NoisePipeline

variable (u : Uuids) {x : Externals}

structure Sys where
  policy : NoisePolicy
  dedupe : Dedupe
  metrics : SuppressionMetrics
  eventsEmitted : Nat
  patches : List DedupeAggregatePatch
  emits : List EventDraft
  buckets : BucketManager
  collapsed : List Collapse
  written : List (Text × Nat)

structure FrameInput (x : Externals) where
  runtime : SifterRuntime x
  frame : SourceFrame
  sourceType : SourceType
  secret : Bool
  now : Time

inductive Action (x : Externals) where
  | frame (input : FrameInput x)
  | sink (eventId : EventId)
  | append (ev : SignalEvent)

def init (policy : NoisePolicy) (id : BucketId) (config : BucketConfig) (created : Time) : Sys :=
  ⟨policy, .new, ⟨0, 0, 0⟩, 0, [], [], (BucketManager.new.createBucket id config created).2, [], []⟩

def FrameInput.drafts (input : FrameInput x) (id : BucketId) : List EventDraft :=
  (input.runtime.evaluate input.frame id input.now ++
    if input.secret then [passwordPromptDraft input.frame id input.now] else []).map fun d =>
      { d with source := { d.source with sourceType := input.sourceType } }

def Sys.processFrame (s : Sys) (id : BucketId) (input : FrameInput x) : Sys :=
  let drafts := input.drafts id
  if drafts.isEmpty && s.policy.dropProgressFrames && isProgressLine input.frame.text then
    { s with metrics := s.metrics.recordProgressSuppressed, collapsed := [], written := [] }
  else
    let (bypass, rest) := drafts.partition fun d => dedupeBypassKind d.kind
    let (batch, dedupe) := s.dedupe.applyAt u rest s.policy input.now
    let dropped := rest.length - batch.emit.length
    { s with
      dedupe := dedupe
      metrics := if 0 < dropped then s.metrics.recordDedupeSuppressed dropped else s.metrics
      patches := batch.patches
      emits := bypass ++ batch.emit
      collapsed := batch.collapsed
      written := [] }

def Sys.patch (s : Sys) (id : BucketId) (p : DedupeAggregatePatch)
    (patches : List DedupeAggregatePatch) : Sys :=
  { s with
    patches := patches
    buckets := (s.buckets.patchEventAggregation id p.seq p.count p.firstSeen p.lastSeen).2
    written := s.written ++ [(p.key, p.seq)] }

def Sys.emit (s : Sys) (eventId : EventId) (d : EventDraft) (emits : List EventDraft) : Sys :=
  let (res, buckets) := s.buckets.append d.bucketId (d.intoSignalEvent eventId 0 (Nat.zero_le _))
  let s := { s with emits := emits, eventsEmitted := satAdd s.eventsEmitted 1, buckets := buckets }
  match res with
  | .ok seq =>
    { s with
      dedupe := s.dedupe.registerEmitted u d seq
      written := s.written ++ [(d.dedupeKey u, seq)] }
  | .error _ => s

def step (id : BucketId) (s : Sys) : Action x → Option Sys
  | .frame input =>
    if s.patches = [] ∧ s.emits = [] then some (s.processFrame u id input) else none
  | .sink eventId =>
    match s.patches, s.emits with
    | p :: patches, _ => some (s.patch id p patches)
    | [], d :: emits => some (s.emit u eventId d emits)
    | [], [] => none
  | .append ev => some { s with buckets := (s.buckets.append id ev).2 }

end NoisePipeline

end TerminalCommander
