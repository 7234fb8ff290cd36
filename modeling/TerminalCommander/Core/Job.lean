import TerminalCommander.Core.Event

/-!
# The job ledger

One record of the ledger and the operations on it, after `core/src/job.rs`. `finish` and `cancel`
overwrite whatever state the record has, and hand back the lifecycle event of the exit. The clock
reading of an operation is an argument; `label` is what `lifecycle_command_label` prints for the
argv of the job.
-/

namespace TerminalCommander

inductive JobState where
  | starting | running | exited | cancelled | failed
  deriving DecidableEq, Repr

def JobState.terminal : JobState → Bool
  | .exited => true
  | .failed => true
  | .cancelled => true
  | _ => false

def JobState.natural : JobState → Bool
  | .exited => true
  | .failed => true
  | _ => false

theorem JobState.terminal_iff (st : JobState) : st.terminal ↔ st.natural ∨ st = .cancelled := by
  cases st <;> decide

structure JobExitInfo where
  exitCode : Option Int
  signal : Option Text
  durationMs : Nat
  deriving DecidableEq, Repr

structure JobConfig where
  jobId : JobId
  label : Text
  bucketId : BucketId
  probeId : ProbeId
  sourceType : SourceType
  deriving DecidableEq, Repr

structure JobRecord where
  config : JobConfig
  state : JobState
  startedAt : Time
  endedAt : Option Time
  eventsEmitted : Nat
  exitInfo : Option JobExitInfo
  deriving DecidableEq, Repr

namespace JobRecord

def new (config : JobConfig) (now : Time) : JobRecord :=
  ⟨config, .starting, now, none, 0, none⟩

def exitCode (rec : JobRecord) : Option Int := rec.exitInfo.bind JobExitInfo.exitCode

def markRunning (rec : JobRecord) : JobRecord :=
  if rec.state = .starting then { rec with state := .running } else rec

def recordEvent (rec : JobRecord) : JobRecord :=
  { rec with eventsEmitted := satAdd rec.eventsEmitted 1 }

def durationMs (rec : JobRecord) (now : Time) : Nat :=
  min ((now - rec.startedAt).tdiv 1000000).toNat u64Max

/-! ## The lifecycle event -/

def debugInt : Option Int → Text
  | none => "None".toList
  | some n => "Some(".toList ++ (toString n).toList ++ ")".toList

def debugText : Option Text → Text
  | none => "None".toList
  | some t => "Some(\"".toList ++ t ++ "\")".toList

def exitCaptures (exit : JobExitInfo) : Captures :=
  (exit.exitCode.toList.map fun c => ("exit_code".toList, (toString c).toList)) ++
    (exit.signal.toList.map fun sig => ("signal".toList, sig)) ++
    [("duration_ms".toList, (toString exit.durationMs).toList)]

def exitSummary (label : Text) (exit : JobExitInfo) (nonzero : Bool) : Text :=
  if nonzero then
    "command failed: ".toList ++ label ++ " (exit=".toList ++ debugInt exit.exitCode ++
      ", signal=".toList ++ debugText exit.signal ++ ", dur_ms=".toList ++
      (toString exit.durationMs).toList ++ ")".toList
  else
    "command exited cleanly: ".toList ++ label ++ " (dur_ms=".toList ++
      (toString exit.durationMs).toList ++ ")".toList

def buildExitEvent (config : JobConfig) (exit : JobExitInfo) (nonzero : Bool)
    (startedAt now : Time) : EventDraft where
  bucketId := config.bucketId
  timestamp := now
  severity := if nonzero then .critical else .low
  kind := if nonzero then "command_failed".toList else "command_exited".toList
  summary := exitSummary config.label exit nonzero
  rule := none
  source := ⟨config.probeId, config.sourceType, .metaStream, some config.jobId⟩
  captures := some (exitCaptures exit)
  pointer := none
  pointerUnavailableReason :=
    if nonzero then some "synthetic command-exit lifecycle event".toList else none
  tags := none
  frameTruncatedBytes := 0
  count := 1
  firstSeen := some startedAt
  lastSeen := some (startedAt + (min exit.durationMs i64Max : Nat) * 1000000)
  suppressed := false

/-! ## Exits -/

def finish (rec : JobRecord) (exitCode : Option Int) (signal : Option Text) (now : Time) :
    JobRecord × EventDraft :=
  let exit : JobExitInfo := ⟨exitCode, signal, rec.durationMs now⟩
  let nonzero := decide (exitCode ≠ some 0) || signal.isSome
  ({ rec with
      state := if nonzero then .failed else .exited
      endedAt := some now
      exitInfo := some exit },
    buildExitEvent rec.config exit nonzero rec.startedAt now)

def cancel (rec : JobRecord) (now : Time) : JobRecord × EventDraft :=
  let exit : JobExitInfo := ⟨none, some "CANCELLED".toList, rec.durationMs now⟩
  ({ rec with state := .cancelled, endedAt := some now, exitInfo := some exit },
    buildExitEvent rec.config exit true rec.startedAt now)

theorem finish_state (rec : JobRecord) (exitCode : Option Int) (signal : Option Text)
    (now : Time) : (rec.finish exitCode signal now).1.state = .exited ∨
      (rec.finish exitCode signal now).1.state = .failed := by
  unfold finish
  dsimp only
  split_ifs
  · exact .inr rfl
  · exact .inl rfl

theorem finish_terminal (rec : JobRecord) (exitCode : Option Int) (signal : Option Text)
    (now : Time) : (rec.finish exitCode signal now).1.state.terminal := by
  rcases rec.finish_state exitCode signal now with h | h <;> rw [h] <;> rfl

end JobRecord

end TerminalCommander
