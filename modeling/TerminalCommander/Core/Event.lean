import TerminalCommander.Core.Text

/-!
# Signal events

The wire record of one signal event, the draft a sifter emits before the bucket manager mints the
sequence number, and the pointer rule both are checked against: an event of severity `medium` or
above carries a pointer or says why it has none. Times are nanoseconds since the epoch.
-/

namespace TerminalCommander

abbrev EventId := Nat
abbrev BucketId := Nat
abbrev JobId := Nat
abbrev ProbeId := Nat
abbrev RuleId := Nat
abbrev FrameId := Nat
abbrev Time := Int

def MIN_DATE_TIME : Time := -377705116800 * 1000000000
def MAX_DATE_TIME : Time := 253402300800 * 1000000000 - 1

inductive Severity where
  | trace | debug | info | low | medium | high | critical
  deriving DecidableEq, Repr

def Severity.rank : Severity → Nat
  | .trace => 0
  | .debug => 1
  | .info => 2
  | .low => 3
  | .medium => 4
  | .high => 5
  | .critical => 6

inductive SourceType where
  | process | terminal | file | directory | journal | artifact | other
  deriving DecidableEq, Repr

inductive SourceStream where
  | stdout | stderr | metaStream | file | other
  deriving DecidableEq, Repr

structure EventSource where
  probeId : ProbeId
  sourceType : SourceType
  stream : SourceStream
  jobId : Option JobId
  deriving DecidableEq, Repr

structure SourcePointer where
  frameId : FrameId
  line : Option Nat
  byteStart : Option Nat
  byteEnd : Option Nat
  stream : Option SourceStream
  contextAvailable : Bool
  deriving DecidableEq, Repr

structure RuleRef where
  id : RuleId
  version : Nat
  registryId : Option Text
  deriving DecidableEq, Repr

abbrev Captures := List (Text × Text)

structure SignalEvent where
  eventId : EventId
  bucketId : BucketId
  seq : Nat
  timestamp : Time
  severity : Severity
  kind : Text
  summary : Text
  rule : Option RuleRef
  source : EventSource
  captures : Option Captures
  pointer : Option SourcePointer
  pointerUnavailableReason : Option Text
  tags : Option (List Text)
  count : Nat
  firstSeen : Option Time
  lastSeen : Option Time
  suppressed : Bool
  seq_le : seq ≤ u64Max
  deriving DecidableEq, Repr

structure EventDraft where
  bucketId : BucketId
  timestamp : Time
  severity : Severity
  kind : Text
  summary : Text
  rule : Option RuleRef
  source : EventSource
  captures : Option Captures
  pointer : Option SourcePointer
  pointerUnavailableReason : Option Text
  tags : Option (List Text)
  frameTruncatedBytes : Nat
  count : Nat
  firstSeen : Option Time
  lastSeen : Option Time
  suppressed : Bool
  deriving DecidableEq, Repr

inductive CoreError where
  | pointerInvariantViolation (eventId : Option EventId) (severity : Severity)
  deriving DecidableEq, Repr

def SignalEvent.validate (e : SignalEvent) : Except CoreError Unit :=
  if Severity.medium.rank ≤ e.severity.rank ∧ e.pointer = none ∧
      e.pointerUnavailableReason = none then
    .error (.pointerInvariantViolation (some e.eventId) e.severity)
  else .ok ()

def EventDraft.validate (d : EventDraft) : Except CoreError Unit :=
  if Severity.medium.rank ≤ d.severity.rank ∧ d.pointer = none ∧
      d.pointerUnavailableReason = none then
    .error (.pointerInvariantViolation none d.severity)
  else .ok ()

def EventDraft.intoSignalEvent (d : EventDraft) (eventId : EventId) (seq : Nat)
    (hseq : seq ≤ u64Max) : SignalEvent where
  eventId := eventId
  bucketId := d.bucketId
  seq := seq
  timestamp := d.timestamp
  severity := d.severity
  kind := d.kind
  summary := d.summary
  rule := d.rule
  source := d.source
  captures := d.captures
  pointer := d.pointer
  pointerUnavailableReason := d.pointerUnavailableReason
  tags := d.tags
  count := d.count
  firstSeen := d.firstSeen
  lastSeen := d.lastSeen
  suppressed := d.suppressed
  seq_le := hseq

def SignalEvent.bare (bucketId : BucketId) (timestamp : Time) (kind : Text) : SignalEvent where
  eventId := 0
  bucketId := bucketId
  seq := 0
  timestamp := timestamp
  severity := .info
  kind := kind
  summary := []
  rule := none
  source := ⟨0, .process, .stdout, none⟩
  captures := none
  pointer := none
  pointerUnavailableReason := none
  tags := none
  count := 1
  firstSeen := none
  lastSeen := none
  suppressed := false
  seq_le := Nat.zero_le _

theorem EventDraft.validate_of_pointer {d : EventDraft} {p : SourcePointer}
    (h : d.pointer = some p) : d.validate = .ok () := by
  unfold EventDraft.validate
  rw [if_neg]
  rintro ⟨-, hp, -⟩
  rw [h] at hp
  exact Option.some_ne_none p hp

end TerminalCommander
