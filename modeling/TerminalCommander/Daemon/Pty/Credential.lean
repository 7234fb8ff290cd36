import TerminalCommander.Probes.StdinGate

/-!
# Delivering the owner's secret

One PTY job after `daemon/src/pty_command.rs`: any number of `deliver_credential` and `write_stdin`
calls over the probe of `PtyStream`. Each call waits for the probe's mutex and keeps it to its end.
A delivery compares the generation of the gate with the one that the owner saw, and only then calls
`write_owner_secret`, whose disarm does not look at the generation.

The fields `disarmedAt`, `queued` and `typed` of a request are notes and not part of the source.
-/

namespace TerminalCommander

inductive PtyRuntimeError where
  | unknownJob | secretInputDenied | notAwaitingCredential | oversizedStdin | io
  deriving DecidableEq, Repr

namespace Credential

inductive RequestKind where
  | deliverCredential (secret : List UInt8) (generation : Option Nat)
  | writeStdin (bytes : List UInt8)
  deriving DecidableEq

namespace RequestKind

def owner : RequestKind → Bool
  | deliverCredential _ _ => true
  | writeStdin _ => false

def bytes : RequestKind → List UInt8
  | deliverCredential secret _ => secret ++ [13]
  | writeStdin bytes => bytes

def generation : RequestKind → Option Nat
  | deliverCredential _ generation => generation
  | writeStdin _ => none

end RequestKind

inductive RequestPc where
  | called
  | waiting
  | locked
  | read (current : Nat)
  | awaited (current : Nat)
  | writing (current : Option Nat)
  | returned (result : Except PtyRuntimeError Nat)

structure Request where
  kind : RequestKind
  pc : RequestPc
  call : Option Nat
  disarmedAt : Option (Bool × Nat)
  queued : Bool
  typed : List UInt8

structure Sys (P : Type) where
  pty : Pty.Sys P
  live : Bool
  /-- The request that has the probe locked. -/
  holder : Option Nat
  requests : List Request

inductive Action where
  | request (kind : RequestKind)
  | proceed (i : Nat)
  | remove
  | stream (a : Pty.Action)

variable {P : Type}

def init (vte : VteParser P) : Sys P := ⟨Pty.init vte, true, none, []⟩

/-! ## The requests -/

def Request.new (kind : RequestKind) : Request := ⟨kind, .called, none, none, false, []⟩

def Sys.set (s : Sys P) (i : Nat) (r : Request) : Sys P := { s with requests := s.requests.set i r }

def Sys.finish (s : Sys P) (i : Nat) (r : Request) (result : Except PtyRuntimeError Nat) : Sys P :=
  { s.set i { r with pc := .returned result } with holder := none }

def Sys.write (s : Sys P) (i : Nat) (r : Request) (current : Option Nat) : Sys P :=
  { s.set i { r with pc := .writing current, call := some s.pty.calls.length } with
    pty := { s.pty with calls := s.pty.calls ++ [⟨r.kind.owner, r.kind.bytes, .called⟩] } }

def mapWriteError : WriteStdinError → PtyRuntimeError
  | .noSecretPrompt => .notAwaitingCredential
  | .oversized => .oversizedStdin
  | .closed => .unknownJob
  | .secretInputActive => .secretInputDenied
  | .io => .io

def result (current : Option Nat) : Except WriteStdinError Nat → Except PtyRuntimeError Nat
  | .ok written => .ok (current.getD written)
  | .error e => .error (mapWriteError e)

def Request.note (r : Request) (pty : Pty.Sys P) : Pty.CallPc → Request
  | .marked => { r with disarmedAt := some (pty.gate.active, pty.gate.generation) }
  | .scrubArmed => { r with queued := decide (pty.stream ≠ .ended) }
  | .ready => { r with queued := decide (pty.stream ≠ .ended) }
  | _ => r

def Sys.proceed (s : Sys P) (i : Nat) (r : Request) : Option (Sys P) :=
  match r.pc with
  | .called =>
    some (s.set i { r with pc := if s.live then .waiting else .returned (.error .unknownJob) })
  | .waiting =>
    if s.holder = none then some { s.set i { r with pc := .locked } with holder := some i } else none
  | .locked =>
    if r.kind.owner then some (s.set i { r with pc := .read s.pty.gate.generation })
    else some (s.write i r none)
  | .read current =>
    if s.pty.gate.active then some (s.set i { r with pc := .awaited current })
    else some (s.finish i r (.error .notAwaitingCredential))
  | .awaited current =>
    if r.kind.generation.any (· ≠ current) then
      some (s.finish i r (.error .notAwaitingCredential))
    else some (s.write i r (some current))
  | .writing current =>
    match r.call with
    | none => none
    | some k =>
      match s.pty.calls[k]? with
      | none => none
      | some call =>
        match call.pc with
        | .returned res => some (s.finish i r (result current res))
        | pc => (s.pty.callNext k call).map fun pty => { s.set i (r.note s.pty pc) with pty := pty }
  | .returned _ => none

/-! ## The system -/

variable (lower : Text → Text) (vte : VteParser P)

def streamStep (pty : Pty.Sys P) : Pty.Action → Option (Pty.Sys P)
  | .advance nowMs => pty.advance lower nowMs
  | a => pty.turn vte a

def Request.hear (pty : Pty.Sys P) (a : Pty.Action) (r : Request) : Request :=
  match a, pty.stream with
  | .write n, .writing msg rest =>
    if r.call = some msg.caller then { r with typed := r.typed ++ rest.take n } else r
  | _, _ => r

def step (s : Sys P) : Action → Option (Sys P)
  | .request kind => some { s with requests := s.requests ++ [.new kind] }
  | .proceed i =>
    match s.requests[i]? with
    | some r => s.proceed i r
    | none => none
  | .remove => some { s with live := false }
  | .stream a => (streamStep lower vte s.pty a).map fun pty =>
      { s with pty := pty, requests := s.requests.map (Request.hear s.pty a) }

end Credential

end TerminalCommander
