import Mathlib.Logic.Relation
import TerminalCommander.Lib.Table
import TerminalCommander.Lib.Transition
import TerminalCommander.Probes.Normalizer
import TerminalCommander.Probes.SecretGate

/-!
# The streaming task of a Unix PTY job

One PTY probe, after the Unix `runtime` of `probes/src/pty.rs`: the streaming task, which owns the
terminal, and any number of `write_stdin` and `write_owner_secret` calls, which check the gate and
queue their bytes. Every access to an atomic of the gate is a step of its own, and so is every write
to the terminal. `StdinMsg.owner` and the log `terminal` are not part of the source.
-/

namespace TerminalCommander

def MAX_PTY_STDIN_BYTES : Nat := 4096

def STDIN_QUEUE : Nat := 8

inductive WriteStdinError where
  | secretInputActive | oversized | noSecretPrompt | closed | io
  deriving DecidableEq, Repr

inductive WriterReply where
  | written (n : Nat)
  | secretDenied
  | io
  deriving DecidableEq, Repr

def mapWriterReply : WriterReply → Except WriteStdinError Nat
  | .written n => .ok n
  | .secretDenied => .error .secretInputActive
  | .io => .error .io

namespace Pty

structure StdinMsg where
  owner : Bool
  caller : Nat
  bytes : List UInt8
  deriving DecidableEq, Repr

inductive StreamPc where
  | top
  | draining
  | writing (msg : StdinMsg) (rest : List UInt8)
  | reading
  | lines (todo : List Text) (last : Bool)
  | scrubbed (text : Text) (todo : List Text) (last : Bool)
  | swapped (text : Text) (answered : Bool) (todo : List Text) (last : Bool)
  | settling (text : Text) (kind : PromptKind) (todo : List Text) (last : Bool)
  | flipped (text : Text) (kind : PromptKind) (todo : List Text) (last : Bool)
  | bumped (text : Text) (kind : PromptKind) (todo : List Text) (last : Bool)
  | peeking (candidates : List Text)
  | peekFlipped (kind : PromptKind)
  | peekBumped (kind : PromptKind)
  | peekMarked (kind : PromptKind)
  | ended
  deriving DecidableEq

inductive CallPc where
  | called
  | loaded
  | pendingRead (pending : Bool)
  | marked
  | disarmed
  | scrubArmed
  | ready
  | queued
  | replied (reply : WriterReply)
  | hungUp
  | failed (e : WriteStdinError)
  | unanswered (e : WriteStdinError)
  | reactivated (e : WriteStdinError)
  | returned (result : Except WriteStdinError Nat)

structure Call where
  owner : Bool
  bytes : List UInt8
  pc : CallPc

structure Sys (P : Type) extends Reader where
  norm : AnsiNormalizer P
  stream : StreamPc
  queue : List StdinMsg
  calls : List Call
  terminal : List (Bool × List UInt8)

inductive Action where
  | writeStdin (bytes : List UInt8)
  | writeOwnerSecret (bytes : List UInt8)
  | call (k : Nat)
  | cancel
  | resume
  | recv
  | write (n : Nat)
  | flushed
  | writeFails
  | timeout
  | chunk (bytes : List UInt8)
  | eof
  | advance (nowMs : Nat)

variable {P : Type}

def init (vte : VteParser P) : Sys P :=
  ⟨⟨.new, .zero, []⟩, .new vte, .top, [], [], []⟩

/-! ## The calls -/

def Sys.setPc (s : Sys P) (k : Nat) (call : Call) (pc : CallPc) : Sys P :=
  { s with calls := s.calls.set k { call with pc := pc } }

def Sys.reply (s : Sys P) (k : Nat) (reply : WriterReply) : Sys P :=
  match s.calls[k]? with
  | some call => s.setPc k call (.replied reply)
  | none => s

def Call.hangUp (call : Call) : Call :=
  match call.pc with
  | .queued => { call with pc := .hungUp }
  | _ => call

def CallPc.settle (owner : Bool) : Except WriteStdinError Nat → CallPc
  | .ok n => .returned (.ok n)
  | .error e => if owner then .failed e else .returned (.error e)

def Call.count (call : Call) (m : PtyProbeMetrics) : Except WriteStdinError Nat → PtyProbeMetrics
  | .ok n =>
    if call.owner then m else { m with stdinBytesWritten := satAdd m.stdinBytesWritten n }
  | .error .secretInputActive =>
    if call.owner then m
    else { m with stdinWritesDeniedSecret := satAdd m.stdinWritesDeniedSecret 1 }
  | .error _ => m

def Sys.send (s : Sys P) (k : Nat) (call : Call) (owner : Bool) : Option (Sys P) :=
  if s.stream = .ended then some (s.setPc k call .hungUp)
  else if s.queue.length < STDIN_QUEUE then
    some { s.setPc k call .queued with queue := s.queue ++ [⟨owner, k, call.bytes⟩] }
  else none

def Sys.callNext (s : Sys P) (k : Nat) (call : Call) : Option (Sys P) :=
  match call.pc with
  | .called =>
    if MAX_PTY_STDIN_BYTES < call.bytes.length then
      some (s.setPc k call (.returned (.error .oversized)))
    else if call.owner then
      some (s.setPc k call (if s.gate.active then .loaded else .returned (.error .noSecretPrompt)))
    else if s.gate.active then
      some { s.setPc k call (.returned (.error .secretInputActive)) with
        metrics := call.count s.metrics (.error .secretInputActive) }
    else some (s.setPc k call .ready)
  | .loaded => some (s.setPc k call (.pendingRead s.gate.pending))
  | .pendingRead pending =>
    some { s.setPc k call .marked with gate := s.gate.setAnswered pending }
  | .marked => some { s.setPc k call .disarmed with gate := s.gate.setActive false }
  | .disarmed => some { s.setPc k call .scrubArmed with gate := s.gate.armScrub call.bytes }
  | .scrubArmed => s.send k call true
  | .ready => s.send k call false
  | .queued => none
  | .replied reply =>
    some { s.setPc k call (.settle call.owner (mapWriterReply reply)) with
      metrics := call.count s.metrics (mapWriterReply reply) }
  | .hungUp => some (s.setPc k call (.settle call.owner (.error .closed)))
  | .failed e => some { s.setPc k call (.unanswered e) with gate := s.gate.setAnswered false }
  | .unanswered e => some { s.setPc k call (.reactivated e) with gate := s.gate.setActive true }
  | .reactivated e =>
    some { s.setPc k call (.returned (.error e)) with gate := s.gate.dropScrub }
  | .returned _ => none

/-! ## The streaming task -/

variable (lower : Text → Text)

def Sys.emit (s : Sys P) (text : Text) (kind : PromptKind) (flippedHere : Bool) (todo : List Text)
    (last : Bool) : Sys P :=
  { s with
    metrics := s.metrics.countLine kind flippedHere
    frames := s.frames ++ [⟨text, kind.isSecret⟩]
    stream := .lines todo last }

def Sys.advance (s : Sys P) (nowMs : Nat) : Option (Sys P) :=
  match s.stream with
  | .lines (line :: todo) last =>
    let scrub := s.gate.scrubLine line
    some { s with gate := scrub.2, stream := .scrubbed (scrub.1.getD line) todo last }
  | .scrubbed text todo last =>
    let (answered, gate) := s.gate.swapAnswered
    some { s with gate := gate, stream := .swapped text answered todo last }
  | .swapped text answered todo last => some { s with
      gate := s.gate.setPending false
      stream := .settling text (effectiveKind lower text answered) todo last }
  | .settling text kind todo last =>
    if kind.isSecret then
      if s.gate.active then some (s.emit text kind false todo last)
      else some { s with
        gate := s.gate.setActive true
        stream := .flipped text kind todo last }
    else if kind.resolves then
      some { s.emit text kind false todo last with gate := s.gate.setActive false }
    else some (s.emit text kind false todo last)
  | .flipped text kind todo last => some { s with
      gate := s.gate.bumpGeneration
      stream := .bumped text kind todo last }
  | .bumped text kind todo last =>
    some { s.emit text kind true todo last with gate := s.gate.recordArm kind nowMs }
  | .lines [] false =>
    let pending := s.norm.peekPending
    let (overwritten, norm) := s.norm.takeOverwritten
    some { s with
      norm := norm
      stream := if s.gate.answered then .top else .peeking [pending, overwritten] }
  | .peeking (candidate :: rest) =>
    let kind := classify lower candidate
    if candidate.isEmpty = false ∧ kind.isSecret = true then
      if s.gate.active then some { s with stream := .peeking rest }
      else some { s with gate := s.gate.setActive true, stream := .peekFlipped kind }
    else some { s with stream := .peeking rest }
  | .peeking [] => some { s with stream := .top }
  | .peekFlipped kind =>
    some { s with gate := s.gate.bumpGeneration, stream := .peekBumped kind }
  | .peekBumped kind =>
    some { s with gate := s.gate.setPending true, stream := .peekMarked kind }
  | .peekMarked kind => some { s with
      gate := s.gate.recordArm kind nowMs
      metrics := s.metrics.countSecret
      stream := .top }
  | .lines [] true => some { s with
      stream := .ended
      queue := []
      calls := s.calls.map Call.hangUp }
  | _ => none

def Sys.flushTail (s : Sys P) : Sys P :=
  let (tail, norm) := s.norm.flush
  { s with norm := norm, stream := .lines tail.toList true }

variable (vte : VteParser P)

def Sys.turn (s : Sys P) : Action → Option (Sys P)
  | .cancel => if s.stream = .top then some s.flushTail else none
  | .resume => if s.stream = .top then some { s with stream := .draining } else none
  | .recv =>
    match s.stream, s.queue with
    | .draining, msg :: queue => some { s with queue := queue, stream := .writing msg msg.bytes }
    | .draining, [] => some { s with stream := .reading }
    | _, _ => none
  | .write n =>
    match s.stream with
    | .writing msg rest =>
      if 0 < n ∧ n ≤ rest.length then some { s with
        terminal := s.terminal ++ [(msg.owner, rest.take n)]
        stream := .writing msg (rest.drop n) }
      else none
    | _ => none
  | .flushed =>
    match s.stream with
    | .writing msg [] =>
      some { s.reply msg.caller (.written msg.bytes.length) with stream := .draining }
    | _ => none
  | .writeFails =>
    match s.stream with
    | .writing msg _ => some { s.reply msg.caller .io with stream := .draining }
    | _ => none
  | .timeout => if s.stream = .reading then some { s with stream := .top } else none
  | .chunk bytes =>
    if s.stream = .reading then
      let (todo, norm) := (s.norm.feed vte bytes).takeLines
      some { s with norm := norm, stream := .lines todo false }
    else none
  | .eof => if s.stream = .reading then some s.flushTail else none
  | _ => none

def step (s : Sys P) : Action → Option (Sys P)
  | .writeStdin bytes => some { s with calls := s.calls ++ [⟨false, bytes, .called⟩] }
  | .writeOwnerSecret bytes => some { s with calls := s.calls ++ [⟨true, bytes, .called⟩] }
  | .call k =>
    match s.calls[k]? with
    | some call => s.callNext k call
    | none => none
  | .advance nowMs => s.advance lower nowMs
  | a => s.turn vte a

/-! ## Undisturbed turns

With nothing in between, the small steps of the streaming task from a read to the end of the turn
compute `process_line` on the completed lines and `classify_pending_secret` on the rest. -/

def readChunk (nowMs : Nat) (r : Reader) (norm : AnsiNormalizer P) (bytes : List UInt8) :
    Reader × AnsiNormalizer P :=
  let (todo, norm) := (norm.feed vte bytes).takeLines
  let pending := norm.peekPending
  let (overwritten, norm) := norm.takeOverwritten
  (classifyPendingSecret lower nowMs [pending, overwritten]
    (todo.foldl (processLine lower nowMs) r), norm)

def Reads (nowMs : Nat) : Sys P → Sys P → Prop :=
  Relation.ReflTransGen fun s s' => s.advance lower nowMs = some s'

variable {lower} {vte} {nowMs : Nat}

variable {s : Sys P} {last : Bool}

theorem reads_settle {text : Text} {kind : PromptKind} {todo : List Text}
    (h : s.stream = .settling text kind todo last) :
    Reads lower nowMs s { s.emit text kind (s.gate.settle kind nowMs).1 todo last with
      gate := (s.gate.settle kind nowMs).2 } := by
  have hnext : s.advance lower nowMs = (if kind.isSecret then
      if s.gate.active then some (s.emit text kind false todo last)
      else some { s with gate := s.gate.setActive true, stream := .flipped text kind todo last }
    else if kind.resolves then
      some { s.emit text kind false todo last with gate := s.gate.setActive false }
    else some (s.emit text kind false todo last)) := by
    rw [Sys.advance, h]
  unfold SecretGate.settle
  split_ifs at hnext ⊢
  · exact .single hnext
  · -- the gate flips: two more steps record the prompt
    exact .head hnext (.head rfl (.single rfl))
  · exact .single hnext
  · exact .single hnext

theorem reads_line {line : Text} {todo : List Text} (h : s.stream = .lines (line :: todo) last) :
    Reads lower nowMs s { s with
      toReader := processLine lower nowMs s.toReader line
      stream := .lines todo last } := by
  have hscrub : s.advance lower nowMs = some { s with
      gate := (s.gate.scrubLine line).2
      stream := .scrubbed ((s.gate.scrubLine line).1.getD line) todo last } := by
    rw [Sys.advance, h]
  refine .head hscrub (.head rfl (.head rfl ?_))
  exact reads_settle rfl

theorem reads_lines (todo : List Text) : ∀ {s : Sys P},
    s.stream = .lines todo last → Reads lower nowMs s { s with
      toReader := todo.foldl (processLine lower nowMs) s.toReader
      stream := .lines [] last } := by
  induction todo with
  | nil =>
    intro s h
    rw [← h]
    exact .refl
  | cons line todo ih =>
    intro s h
    exact (reads_line h).trans (ih rfl)

theorem reads_peek (candidates : List Text) : ∀ {s : Sys P}, s.stream = .peeking candidates →
    Reads lower nowMs s { s with
      toReader := peekCandidates lower nowMs s.toReader candidates
      stream := .top } := by
  induction candidates with
  | nil =>
    intro s h
    refine .single ?_
    rw [Sys.advance, h]
    rfl
  | cons candidate rest ih =>
    intro s h
    have hnext : s.advance lower nowMs =
        (if candidate.isEmpty = false ∧ (classify lower candidate).isSecret then
          if s.gate.active then some { s with stream := .peeking rest }
          else some { s with
            gate := s.gate.setActive true
            stream := .peekFlipped (classify lower candidate) }
        else some { s with stream := .peeking rest }) := by
      rw [Sys.advance, h]
    rw [peekCandidates]
    by_cases hsec : candidate.isEmpty = false ∧ (classify lower candidate).isSecret
    · rw [if_pos hsec] at hnext
      cases hact : s.gate.active with
      | true =>
        rw [if_pos hact] at hnext
        rw [if_neg (by simp)]
        exact .head hnext (ih rfl)
      | false =>
        rw [if_neg (by rw [hact]; nofun)] at hnext
        rw [if_pos ⟨hsec.1, hsec.2, rfl⟩]
        exact .head hnext (.head rfl (.head rfl (.single rfl)))
    · rw [if_neg hsec] at hnext
      rw [if_neg fun hall => hsec ⟨hall.1, hall.2.1⟩]
      exact .head hnext (ih rfl)

theorem reads_pending (h : s.stream = .lines [] false) : Reads lower nowMs s { s with
      toReader := classifyPendingSecret lower nowMs
        [s.norm.peekPending, s.norm.takeOverwritten.1] s.toReader
      norm := s.norm.takeOverwritten.2
      stream := .top } := by
  have hnext : s.advance lower nowMs = some { s with
      norm := s.norm.takeOverwritten.2
      stream := if s.gate.answered then .top
        else .peeking [s.norm.peekPending, s.norm.takeOverwritten.1] } := by
    rw [Sys.advance, h]
  unfold classifyPendingSecret
  split_ifs at hnext ⊢
  · -- the owner has answered the open prompt: the peek waits for its line to complete
    exact .single hnext
  · exact .head hnext (reads_peek _ rfl)

theorem reads_chunk (h : s.stream = .reading) (bytes : List UInt8) :
    ∃ s', step lower vte s (.chunk bytes) = some s' ∧ Reads lower nowMs s' { s with
      toReader := (readChunk lower vte nowMs s.toReader s.norm bytes).1
      norm := (readChunk lower vte nowMs s.toReader s.norm bytes).2
      stream := .top } :=
  ⟨_, if_pos h, (reads_lines _ rfl).trans (reads_pending rfl)⟩

end Pty

end TerminalCommander
