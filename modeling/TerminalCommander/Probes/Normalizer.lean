import TerminalCommander.Core.Text

/-!
# The terminal normalizer

`AnsiNormalizer` of `probes/src/pty.rs`: what a terminal program prints, as lines. The bytes go
through the escape sequence parser of the `vte` crate, a parameter here, whose events the sink
turns into lines. A carriage return is deferred: before a newline it is half of a line end, before
anything else it overwrites the line, and the text that is lost is kept for the prompt detector.
-/

namespace TerminalCommander

inductive VteEvent where
  | print (c : Char)
  | execute (byte : UInt8)
  | sequence
  deriving DecidableEq, Repr

structure VteParser (P : Type) where
  init : P
  advance : P → List UInt8 → P × List VteEvent

structure Sink where
  line : Text
  pending : List Text
  lastOverwritten : Text
  pendingCr : Bool
  deriving DecidableEq, Repr

namespace Sink

def applyDeferredCrOverwrite (s : Sink) : Sink :=
  if s.pendingCr then { s with
    pendingCr := false
    lastOverwritten := if s.line.isEmpty then s.lastOverwritten else s.line
    line := [] }
  else s

@[simp] theorem applyDeferredCrOverwrite_pendingCr (s : Sink) :
    s.applyDeferredCrOverwrite.pendingCr = false := by
  unfold applyDeferredCrOverwrite
  by_cases h : s.pendingCr
  · rw [if_pos h]
  · rw [if_neg h]
    exact eq_false_of_ne_true h

def print (s : Sink) (c : Char) : Sink :=
  let s := s.applyDeferredCrOverwrite
  { s with line := s.line ++ [c] }

def execute (s : Sink) (byte : UInt8) : Sink :=
  if byte = 10 then
    { s with pendingCr := false, pending := s.pending ++ [s.line], line := [] }
  else if byte = 13 then
    { s.applyDeferredCrOverwrite with pendingCr := true }
  else if byte = 9 then
    let s := s.applyDeferredCrOverwrite
    { s with line := s.line ++ ['\t'] }
  else s.applyDeferredCrOverwrite

def perform (s : Sink) : VteEvent → Sink
  | .print c => s.print c
  | .execute byte => s.execute byte
  | .sequence => s

end Sink

structure AnsiNormalizer (P : Type) extends Sink where
  parser : P

namespace AnsiNormalizer

variable {P : Type}

def new (vte : VteParser P) : AnsiNormalizer P := ⟨⟨[], [], [], false⟩, vte.init⟩

def feed (vte : VteParser P) (n : AnsiNormalizer P) (bytes : List UInt8) : AnsiNormalizer P :=
  let (parser, events) := vte.advance n.parser bytes
  ⟨events.foldl Sink.perform n.toSink, parser⟩

def resolveDanglingCr (n : AnsiNormalizer P) : AnsiNormalizer P :=
  { n with toSink := n.toSink.applyDeferredCrOverwrite }

def takeLines (n : AnsiNormalizer P) : List Text × AnsiNormalizer P :=
  let n := n.resolveDanglingCr
  (n.pending, { n with pending := [] })

def peekPending (n : AnsiNormalizer P) : Text := n.line

def takeOverwritten (n : AnsiNormalizer P) : Text × AnsiNormalizer P :=
  let n := n.resolveDanglingCr
  (n.lastOverwritten, { n with lastOverwritten := [] })

def flush (n : AnsiNormalizer P) : Option Text × AnsiNormalizer P :=
  let n := n.resolveDanglingCr
  if n.line.isEmpty then (none, n) else (some n.line, { n with line := [] })

end AnsiNormalizer

end TerminalCommander
