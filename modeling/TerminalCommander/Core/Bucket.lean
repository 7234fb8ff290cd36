import TerminalCommander.Core.Event

/-!
# The bucket manager

A bucket is a bounded, ordered ring of signal events with its running summaries, after
`core/src/bucket.rs`: appends assign or check the sequence number and evict the oldest events over
`max_events`, reads first evict what the time-to-live has expired. Every call takes its bucket's
write lock for its whole body, so a call is one step; a clock reading is an argument.
-/

namespace TerminalCommander

def DEFAULT_READ_LIMIT : Nat := 200
def MAX_READ_LIMIT : Nat := 10000

structure BucketConfig where
  maxEvents : Nat
  ttlSecs : Nat
  deriving DecidableEq, Repr

structure BucketState where
  bucketId : BucketId
  createdAt : Time
  lastEventAt : Option Time
  headSeq : Nat
  tailSeq : Nat
  eventCount : Nat
  droppedCount : Nat
  deriving DecidableEq, Repr

structure BySeverity where
  trace : Nat
  debug : Nat
  info : Nat
  low : Nat
  medium : Nat
  high : Nat
  critical : Nat
  deriving DecidableEq, Repr

def BySeverity.zero : BySeverity := ⟨0, 0, 0, 0, 0, 0, 0⟩

def BySeverity.slot (c : BySeverity) : Severity → Nat
  | .trace => c.trace
  | .debug => c.debug
  | .info => c.info
  | .low => c.low
  | .medium => c.medium
  | .high => c.high
  | .critical => c.critical

def BySeverity.modify (c : BySeverity) (f : Nat → Nat) : Severity → BySeverity
  | .trace => { c with trace := f c.trace }
  | .debug => { c with debug := f c.debug }
  | .info => { c with info := f c.info }
  | .low => { c with low := f c.low }
  | .medium => { c with medium := f c.medium }
  | .high => { c with high := f c.high }
  | .critical => { c with critical := f c.critical }

def BySeverity.bump (c : BySeverity) (s : Severity) : BySeverity := c.modify (satAdd · 1) s

def BySeverity.unbump (c : BySeverity) (s : Severity) : BySeverity := c.modify (· - 1) s

abbrev KindMap := Text → Option Nat

structure BucketInner where
  config : BucketConfig
  state : BucketState
  bySeverity : BySeverity
  byKind : KindMap
  events : List SignalEvent
  noiseSuppressedCount : Nat
  dedupeCollapsedCount : Nat

structure BucketSummary where
  bucketId : BucketId
  createdAt : Time
  headSeq : Nat
  tailSeq : Nat
  eventCount : Nat
  lastEventAt : Option Time
  bySeverity : BySeverity
  byKind : KindMap
  droppedCount : Nat
  noiseSuppressedCount : Nat
  dedupeCollapsedCount : Nat

structure BucketReadRequest where
  cursor : Nat
  severityMin : Option Severity
  kindFilter : Option Text
  limit : Option Nat
  deriving DecidableEq, Repr

structure BucketReadResponse where
  bucketId : BucketId
  cursorIn : Nat
  nextCursor : Nat
  hasMore : Bool
  droppedCount : Nat
  events : List SignalEvent
  deriving DecidableEq, Repr

inductive BucketError where
  | alreadyExists (bucket : BucketId)
  | notFound (bucket : BucketId)
  | eventBucketMismatch (event bucket : BucketId)
  | nonMonotonicSeq (seq tail : Nat)
  | eventSeqNotFound (bucket : BucketId) (seq : Nat)
  | presetSeqIntoEmptyBucket (bucket : BucketId) (seq : Nat)
  | seqExhausted (bucket : BucketId) (tail : Nat)
  | core (e : CoreError)
  deriving DecidableEq, Repr

namespace BucketInner

/-! ## One bucket -/

def new (bucketId : BucketId) (config : BucketConfig) (now : Time) : BucketInner where
  config := config
  state := ⟨bucketId, now, none, 0, 0, 0, 0⟩
  bySeverity := .zero
  byKind := fun _ => none
  events := []
  noiseSuppressedCount := 0
  dedupeCollapsedCount := 0

def count (b : BucketInner) (ev : SignalEvent) : BucketInner :=
  { b with
    bySeverity := b.bySeverity.bump ev.severity
    byKind := Function.update b.byKind ev.kind (some (wrapAdd ((b.byKind ev.kind).getD 0) 1)) }

def uncount (b : BucketInner) (ev : SignalEvent) : BucketInner :=
  { b with
    bySeverity := b.bySeverity.unbump ev.severity
    byKind := match b.byKind ev.kind with
      | none => b.byKind
      | some n => Function.update b.byKind ev.kind (if n - 1 = 0 then none else some (n - 1)) }

def refreshState (b : BucketInner) : BucketInner :=
  match b.events.head?, b.events.getLast? with
  | some front, some back =>
    { b with state := { b.state with
        headSeq := front.seq
        tailSeq := back.seq
        eventCount := b.events.length
        lastEventAt := some back.timestamp } }
  | _, _ =>
    { b with state := { b.state with
        headSeq := b.state.tailSeq
        eventCount := 0
        lastEventAt := none } }

def dropped (b : BucketInner) (ev : SignalEvent) : BucketInner :=
  let b := b.uncount ev
  { b with state := { b.state with droppedCount := satAdd b.state.droppedCount 1 } }

def evictFront (stale : SignalEvent → List SignalEvent → Bool) :
    List SignalEvent → BucketInner → BucketInner
  | [], b => { b with events := [] }
  | ev :: rest, b =>
    if stale ev rest then evictFront stale rest (b.dropped ev) else { b with events := ev :: rest }

def cutoff (config : BucketConfig) (now : Time) : Time :=
  now - (min config.ttlSecs i64Max : Nat) * 1000000000

def evictExpired (b : BucketInner) (now : Time) : BucketInner :=
  (evictFront (fun ev _ => ev.timestamp < cutoff b.config now) b.events b).refreshState

def evictForCapacity (b : BucketInner) : BucketInner :=
  (evictFront (fun _ rest => b.config.maxEvents < rest.length + 1) b.events b).refreshState

def summary (b : BucketInner) : BucketSummary where
  bucketId := b.state.bucketId
  createdAt := b.state.createdAt
  headSeq := b.state.headSeq
  tailSeq := b.state.tailSeq
  eventCount := b.state.eventCount
  lastEventAt := b.state.lastEventAt
  bySeverity := b.bySeverity
  byKind := b.byKind
  droppedCount := b.state.droppedCount
  noiseSuppressedCount := b.noiseSuppressedCount
  dedupeCollapsedCount := b.dedupeCollapsedCount

def assignSeq (b : BucketInner) (bucketId : BucketId) (ev : SignalEvent) :
    Except BucketError { n : Nat // n ≤ u64Max } :=
  if ev.seq = 0 then
    if h : b.state.tailSeq + 1 ≤ u64Max then .ok ⟨b.state.tailSeq + 1, h⟩
    else .error (.seqExhausted bucketId b.state.tailSeq)
  else if b.state.eventCount = 0 then .error (.presetSeqIntoEmptyBucket bucketId ev.seq)
  else if ev.seq ≤ b.state.tailSeq then .error (.nonMonotonicSeq ev.seq b.state.tailSeq)
  else .ok ⟨ev.seq, ev.seq_le⟩

def push (b : BucketInner) (ev : SignalEvent) : BucketInner :=
  let b := b.count ev
  ({ b with events := b.events ++ [ev] }.refreshState).evictForCapacity

def setAggregation (count : Nat) (firstSeen lastSeen : Time) (ev : SignalEvent) : SignalEvent :=
  { ev with count := count, firstSeen := some firstSeen, lastSeen := some lastSeen }

def patchFirst (seq count : Nat) (firstSeen lastSeen : Time) :
    List SignalEvent → Option (List SignalEvent)
  | [] => none
  | ev :: rest =>
    if ev.seq = seq then some (setAggregation count firstSeen lastSeen ev :: rest)
    else (patchFirst seq count firstSeen lastSeen rest).map (ev :: ·)

/-! ## Reading past a cursor -/

def passes (req : BucketReadRequest) (ev : SignalEvent) : Bool :=
  decide (req.cursor < ev.seq) &&
    (req.severityMin.all fun min => decide (min.rank ≤ ev.severity.rank)) &&
    (req.kindFilter.all fun kind => decide (ev.kind = kind))

def readLimit (req : BucketReadRequest) : Nat :=
  max 1 (min (req.limit.getD DEFAULT_READ_LIMIT) MAX_READ_LIMIT)

structure ReadAcc where
  out : List SignalEvent
  lastSeq : Nat
  hasMore : Bool

def readLoop (req : BucketReadRequest) (limit : Nat) : List SignalEvent → ReadAcc → ReadAcc
  | [], acc => acc
  | ev :: rest, acc =>
    if passes req ev then
      if limit ≤ acc.out.length then { acc with hasMore := true }
      else readLoop req limit rest { acc with out := acc.out ++ [ev], lastSeq := ev.seq }
    else readLoop req limit rest acc

def readSince (b : BucketInner) (bucketId : BucketId) (req : BucketReadRequest) :
    BucketReadResponse :=
  let acc := readLoop req (readLimit req) b.events ⟨[], req.cursor, false⟩
  { bucketId := bucketId
    cursorIn := req.cursor
    nextCursor := acc.lastSeq
    hasMore := acc.hasMore
    droppedCount := b.state.droppedCount
    events := acc.out }

end BucketInner

/-! ## The manager -/

structure BucketManager where
  keys : List BucketId
  inner : BucketId → Option BucketInner

namespace BucketManager

def new : BucketManager := ⟨[], fun _ => none⟩

def set (m : BucketManager) (id : BucketId) (b : BucketInner) : BucketManager :=
  { m with inner := Function.update m.inner id (some b) }

def createBucket (m : BucketManager) (id : BucketId) (config : BucketConfig) (now : Time) :
    Except BucketError Unit × BucketManager :=
  match m.inner id with
  | some _ => (.error (.alreadyExists id), m)
  | none => (.ok (), { m.set id (.new id config now) with keys := m.keys ++ [id] })

def append (m : BucketManager) (id : BucketId) (ev : SignalEvent) :
    Except BucketError Nat × BucketManager :=
  if ev.bucketId ≠ id then (.error (.eventBucketMismatch ev.bucketId id), m)
  else match ev.validate with
    | .error e => (.error (.core e), m)
    | .ok () =>
      match m.inner id with
      | none => (.error (.notFound id), m)
      | some b =>
        match b.assignSeq id ev with
        | .error e => (.error e, m)
        | .ok ⟨seq, hseq⟩ => (.ok seq, m.set id (b.push { ev with seq := seq, seq_le := hseq }))

def patchEventAggregation (m : BucketManager) (id : BucketId) (seq count : Nat)
    (firstSeen lastSeen : Time) : Except BucketError Unit × BucketManager :=
  match m.inner id with
  | none => (.error (.notFound id), m)
  | some b =>
    match BucketInner.patchFirst seq count firstSeen lastSeen b.events with
    | none => (.error (.eventSeqNotFound id seq), m)
    | some events =>
      (.ok (), m.set id { b with
        events := events
        dedupeCollapsedCount := satAdd b.dedupeCollapsedCount 1 })

def eventsSince (m : BucketManager) (id : BucketId) (req : BucketReadRequest) (now : Time) :
    Except BucketError BucketReadResponse × BucketManager :=
  match m.inner id with
  | none => (.error (.notFound id), m)
  | some b =>
    let b := b.evictExpired now
    (.ok (b.readSince id req), m.set id b)

def summary (m : BucketManager) (id : BucketId) (now : Time) :
    Except BucketError BucketSummary × BucketManager :=
  match m.inner id with
  | none => (.error (.notFound id), m)
  | some b =>
    let b := b.evictExpired now
    (.ok b.summary, m.set id b)

def state (m : BucketManager) (id : BucketId) : Except BucketError BucketState :=
  match m.inner id with
  | none => .error (.notFound id)
  | some b => .ok b.state

def listBucketIds (m : BucketManager) : List BucketId := m.keys

end BucketManager

end TerminalCommander
