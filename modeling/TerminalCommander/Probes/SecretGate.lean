import Mathlib.Data.List.DropRight
import Mathlib.Data.List.Infix
import TerminalCommander.Core.Text

/-!
# The secret gate

The prompt detector and the secret gate of `probes/src/pty.rs`. A secret prompt arms the gate, as a
completed line (`processLine`) or while its line is still open (`classifyPendingSecret`); only a
completed line that is a shell or a yes/no prompt, or an answer by the owner, disarms it. The gate
is a group of atomics, with one small operation for each access. `str::to_lowercase` is a parameter.
-/

namespace TerminalCommander

inductive PromptKind where
  | sudoPassword | sshPassword | genericPassword | shell | yesNo | none
  deriving DecidableEq, Repr

def PromptKind.isSecret : PromptKind → Bool
  | .sudoPassword => true
  | .sshPassword => true
  | .genericPassword => true
  | _ => false

def PromptKind.resolves : PromptKind → Bool
  | .shell => true
  | .yesNo => true
  | _ => false

def classify (lower : Text → Text) (line : Text) : PromptKind :=
  let t := (lower line).rdropWhile whiteSpace
  if "[sudo] password".toList <:+: t then .sudoPassword
  else if "password:".toList <:+: t ∧ '@' ∈ t then .sshPassword
  else if "password:".toList <:+ t then .genericPassword
  else if "(y/n)".toList <:+ t ∨ "(yes/no)".toList <:+ t ∨ "[y/n]".toList <:+ t then .yesNo
  else if "$".toList <:+ t ∨ "#".toList <:+ t then .shell
  else .none

def Text.replace (p r : Text) : Nat → Text → Text
  | _, [] => []
  | skip + 1, _ :: t => Text.replace p r skip t
  | 0, c :: t =>
    if p <+: c :: t then r ++ Text.replace p r (p.length - 1) t else c :: Text.replace p r 0 t

structure SecretGate where
  active : Bool
  generation : Nat
  countedGeneration : Nat
  /-- Kind and Unix milliseconds of the last armed prompt. -/
  armed : PromptKind × Nat
  pending : Bool
  answered : Bool
  /-- The owner's secret, and the number of completed lines left to check. -/
  scrub : Option (List UInt8 × Nat)

namespace SecretGate

def new : SecretGate := ⟨false, 0, 0, (.none, 0), false, false, none⟩

/-! ## The atomic operations -/

def swapAnswered (g : SecretGate) : Bool × SecretGate := (g.answered, { g with answered := false })

def setPending (g : SecretGate) (pending : Bool) : SecretGate := { g with pending := pending }

def setAnswered (g : SecretGate) (answered : Bool) : SecretGate := { g with answered := answered }

def setActive (g : SecretGate) (active : Bool) : SecretGate := { g with active := active }

def bumpGeneration (g : SecretGate) : SecretGate :=
  { g with generation := wrapAdd g.generation 1, countedGeneration := wrapAdd g.generation 1 }

def recordArm (g : SecretGate) (kind : PromptKind) (nowMs : Nat) : SecretGate :=
  { g with armed := (kind, nowMs) }

def stripLast (byte : UInt8) (line : List UInt8) : List UInt8 :=
  if line.getLast? = some byte then line.dropLast else line

def armScrub (g : SecretGate) (line : List UInt8) : SecretGate :=
  if (stripLast 13 (stripLast 10 line)).isEmpty then g
  else { g with scrub := some (stripLast 13 (stripLast 10 line), 4) }

@[simp] theorem armScrub_active (g : SecretGate) (line : List UInt8) :
    (g.armScrub line).active = g.active := by
  unfold armScrub
  split_ifs <;> rfl

def dropScrub (g : SecretGate) : SecretGate := { g with scrub := none }

def scrubLine (g : SecretGate) (line : Text) : Option Text × SecretGate :=
  match g.scrub with
  | none => (none, g)
  | some (secret, left) =>
    let masked := ((ByteArray.mk secret.toArray).utf8Decode?.map Array.toList).bind fun s =>
      if s <:+: line then some (Text.replace s "********".toList 0 line) else none
    let left := left - 1
    (masked, if masked.isSome || left == 0 then g.dropScrub
      else { g with scrub := some (secret, left) })

@[simp] theorem scrubLine_active (g : SecretGate) (line : Text) :
    (g.scrubLine line).2.active = g.active := by
  unfold scrubLine
  split
  · rfl
  · simp only
    split_ifs <;> rfl

/-! ## The owner's operations -/

def disarmForOwner (g : SecretGate) : Bool × SecretGate :=
  if g.active then (true, (g.setAnswered g.pending).setActive false) else (false, g)

def rearm (g : SecretGate) : SecretGate := ((g.setAnswered false).setActive true).dropScrub

end SecretGate

/-! ## The reader -/

structure PtyProbeMetrics where
  framesTotal : Nat
  promptsTotal : Nat
  secretPromptsTotal : Nat
  stdinBytesWritten : Nat
  stdinWritesDeniedSecret : Nat
  deriving DecidableEq, Repr

namespace PtyProbeMetrics

def zero : PtyProbeMetrics := ⟨0, 0, 0, 0, 0⟩

def countSecret (m : PtyProbeMetrics) : PtyProbeMetrics :=
  { m with
    promptsTotal := satAdd m.promptsTotal 1
    secretPromptsTotal := satAdd m.secretPromptsTotal 1 }

def countLine (m : PtyProbeMetrics) (kind : PromptKind) (flippedHere : Bool) : PtyProbeMetrics :=
  let m := { m with framesTotal := satAdd m.framesTotal 1 }
  if kind = .none then m
  else if kind.isSecret then if flippedHere then m.countSecret else m
  else { m with promptsTotal := satAdd m.promptsTotal 1 }

end PtyProbeMetrics

def effectiveKind (lower : Text → Text) (line : Text) (answered : Bool) : PromptKind :=
  let kind := classify lower line
  if answered && kind.isSecret then .none else kind

def SecretGate.settle (g : SecretGate) (kind : PromptKind) (nowMs : Nat) : Bool × SecretGate :=
  if kind.isSecret then
    if g.active then (false, g)
    else (true, ((g.setActive true).bumpGeneration).recordArm kind nowMs)
  else if kind.resolves then (false, g.setActive false)
  else (false, g)

structure PtyFrame where
  text : Text
  secret : Bool
  deriving DecidableEq, Repr

structure Reader where
  gate : SecretGate
  metrics : PtyProbeMetrics
  frames : List PtyFrame

def processLine (lower : Text → Text) (nowMs : Nat) (r : Reader) (line : Text) : Reader :=
  let (masked, gate) := r.gate.scrubLine line
  let text := masked.getD line
  let (answered, gate) := gate.swapAnswered
  let kind := effectiveKind lower text answered
  let (flippedHere, gate) := (gate.setPending false).settle kind nowMs
  ⟨gate, r.metrics.countLine kind flippedHere, r.frames ++ [⟨text, kind.isSecret⟩]⟩

def peekCandidates (lower : Text → Text) (nowMs : Nat) (r : Reader) : List Text → Reader
  | [] => r
  | candidate :: rest =>
    let kind := classify lower candidate
    if candidate.isEmpty = false ∧ kind.isSecret = true ∧ r.gate.active = false then
      { r with
        gate := (((r.gate.setActive true).bumpGeneration).setPending true).recordArm kind nowMs
        metrics := r.metrics.countSecret }
    else peekCandidates lower nowMs r rest

def classifyPendingSecret (lower : Text → Text) (nowMs : Nat) (candidates : List Text)
    (r : Reader) : Reader :=
  if r.gate.answered then r else peekCandidates lower nowMs r candidates

end TerminalCommander
