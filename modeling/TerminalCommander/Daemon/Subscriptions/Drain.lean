import TerminalCommander.Core.BucketRead
import TerminalCommander.Daemon.Subscriptions.Model

/-!
# The fair drain

`drain_fair` after `daemon/src/subscriptions/pull.rs`: rounds over the in-scope buckets, each visit
clamping the offset to what is retained, reading at most the bucket's share and passing what it
read through the kind allowlist, until the cap is reached or a round delivers nothing. `reads` logs
the reads and is not part of the source. The rounds are at most one more than the cap
(`drainLoop_fuel`).
-/

namespace TerminalCommander

structure EventOrigin where
  bucketId : BucketId
  jobId : Option JobId
  seq : Nat
  deriving DecidableEq, Repr

structure SubEvent where
  origin : EventOrigin
  event : SignalEvent
  deriving DecidableEq, Repr

def kindFilterFor (predicate : Predicate) : Option Text × Option (List Text) :=
  match predicate.kind with
  | none => (none, none)
  | some [kind] => (some kind, none)
  | some kinds => (none, some kinds)

/-! ## Shares -/

def backlogOf (st : BucketState) (off : Nat) : Nat := st.tailSeq - max off (st.headSeq - 1)

def backlogs (m : BucketManager) (offsets : Offsets) : List ScopedBucket →
    Except IpcError (List Nat)
  | [] => .ok []
  | b :: rest =>
    match m.state b.bucketId with
    | .error e => .error (mapBucket e)
    | .ok st => do
      let tail ← backlogs m offsets rest
      .ok (backlogOf st (offsets.pos b.bucketId) :: tail)

def weightedShare (cap total b : Nat) : Nat := max 1 (cap * b / total % 2 ^ 64)

def lagWeightedShares (m : BucketManager) (scope : Scope) (offsets : Offsets) (cap : Nat) :
    Except IpcError (List Nat) := do
  let backlog ← backlogs m offsets scope.buckets
  let total := backlog.foldl wrapAdd 0
  if total = 0 then .ok (backlog.map fun _ => max 1 (cap / scope.buckets.length))
  else .ok (backlog.map (weightedShare cap total))

/-! ## Visits -/

structure DrainRead where
  bucketId : BucketId
  bucket : BucketInner
  off : Nat
  req : BucketReadRequest
  now : Time

structure DrainCtx where
  buckets : List ScopedBucket
  shares : List Nat
  predicate : Predicate
  cap : Nat
  clock : Nat → Time

structure DrainState where
  buckets : BucketManager
  offsets : Offsets
  events : List SubEvent
  lagged : Bool
  progressed : Bool
  stopped : Bool
  reads : List DrainRead

def DrainCtx.allows (ctx : DrainCtx) (ev : SignalEvent) : Bool :=
  (kindFilterFor ctx.predicate).2.all fun allow => decide (ev.kind ∈ allow)

def ScopedBucket.subEvent (b : ScopedBucket) (ev : SignalEvent) : SubEvent :=
  ⟨⟨b.bucketId, b.source.jobId, ev.seq⟩, ev⟩

def DrainCtx.pushEvents (ctx : DrainCtx) (b : ScopedBucket) :
    List SignalEvent → DrainState → DrainState
  | [], s => s
  | ev :: rest, s =>
    if ctx.allows ev then
      if ctx.cap ≤ s.events.length then { s with stopped := true }
      else ctx.pushEvents b rest
        { s with events := s.events ++ [b.subEvent ev], progressed := true }
    else ctx.pushEvents b rest s

def DrainCtx.readReq (ctx : DrainCtx) (cursor want : Nat) : BucketReadRequest :=
  ⟨cursor, ctx.predicate.severityMin, (kindFilterFor ctx.predicate).1, some want⟩

def DrainCtx.readBucket (ctx : DrainCtx) (b : ScopedBucket) (inner : BucketInner)
    (off cursor want : Nat) (s : DrainState) : Except IpcError DrainState :=
  let now := ctx.clock s.reads.length
  let req := ctx.readReq cursor want
  match s.buckets.eventsSince b.bucketId req now with
  | (.error e, _) => .error (mapBucket e)
  | (.ok resp, m) =>
    .ok (ctx.pushEvents b resp.events { s with
      buckets := m
      offsets := Function.update s.offsets b.bucketId
        (some (if cursor < resp.nextCursor then resp.nextCursor else cursor))
      reads := s.reads ++ [⟨b.bucketId, inner, off, req, now⟩] })

def DrainCtx.visit (ctx : DrainCtx) (i : Nat) (s : DrainState) : Except IpcError DrainState :=
  match ctx.buckets[i]? with
  | none => .ok s
  | some b =>
    match s.buckets.inner b.bucketId with
    | none => .error (mapBucket (.notFound b.bucketId))
    | some inner =>
      let st := inner.state
      let off := s.offsets.pos b.bucketId
      let floor := st.headSeq - 1
      let cursor := if off < floor then floor else off
      let s := { s with
        offsets := Function.update s.offsets b.bucketId (some cursor)
        lagged := s.lagged || decide (off < floor) || decide (0 < st.droppedCount) }
      let want := min (ctx.shares.getD i 0) (ctx.cap - s.events.length)
      if want = 0 then .ok s else ctx.readBucket b inner off cursor want s

/-! ## Rounds -/

def DrainCtx.round (ctx : DrainCtx) : List Nat → DrainState → Except IpcError DrainState
  | [], s => .ok s
  | i :: rest, s =>
    if s.stopped then .ok s
    else if ctx.cap ≤ s.events.length then .ok { s with stopped := true }
    else ctx.visit i s >>= ctx.round rest

def visitOrder (rrStart n : Nat) : List Nat := (List.range n).map fun i => (rrStart + i) % n

def DrainCtx.loop (ctx : DrainCtx) (order : List Nat) :
    Nat → DrainState → Except IpcError DrainState
  | 0, s => .ok s
  | fuel + 1, s => do
    let s' ← ctx.round order { s with progressed := false }
    if s'.stopped || !s'.progressed then .ok s' else ctx.loop order fuel s'

structure Drained where
  events : List SubEvent
  lagged : Bool
  nextRr : Nat

structure DrainResult where
  drained : Drained
  offsets : Offsets
  buckets : BucketManager
  reads : List DrainRead

def drainCtx (scope : Scope) (predicate : Predicate) (cap : Nat) (clock : Nat → Time)
    (shares : List Nat) : DrainCtx :=
  ⟨scope.buckets, shares, predicate, cap, clock⟩

def drainStart (m : BucketManager) (offsets : Offsets) : DrainState :=
  ⟨m, offsets, [], false, false, false, []⟩

def drainFair (m : BucketManager) (scope : Scope) (offsets : Offsets) (predicate : Predicate)
    (cap : Nat) (clock : Nat → Time) : Except IpcError DrainResult :=
  let n := scope.buckets.length
  if n = 0 ∨ cap = 0 then .ok ⟨⟨[], false, 0⟩, offsets, m, []⟩
  else do
    let shares ← lagWeightedShares m scope offsets cap
    let s ← (drainCtx scope predicate cap clock shares).loop (visitOrder scope.rrStart n) (cap + 1)
      (drainStart m offsets)
    .ok ⟨⟨s.events, s.lagged, (scope.rrStart + 1) % n⟩, s.offsets, s.buckets, s.reads⟩

end TerminalCommander
