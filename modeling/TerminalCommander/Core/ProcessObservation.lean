import TerminalCommander.Core.Text
import TerminalCommander.Lib.Json

/-!
# What was observed of a process

How far the pipes of a child were read and how its process group was cleaned up, after
`core/src/process_observation.rs`, with the JSON form that the derived `Serialize` and
`Deserialize` give them. Every value is read back from its form.
-/

namespace TerminalCommander

open List Option Json

open Json (ofUInt64 ofInt32)

def optionMember {α : Type} (key : Text) (readValue : Json → Option α) (v : Json) :
    Option (Option α) :=
  match v.get? key with
  | none => some none
  | some value => value.asOption? readValue

def ofLabel {α : Type} (label : α → Text) (all : List α) (v : Json) : Option α :=
  v.asStr?.bind fun t => all.find? fun a => label a == t

/-! ## Pipes -/

inductive PipeReadErrorKind where
  | interrupted | permissionDenied | brokenPipe | connectionReset | unexpectedEof | timedOut | other
  deriving DecidableEq, Repr

structure PipeReadFailure where
  kind : PipeReadErrorKind
  rawOsError : Option Int32
  deriving DecidableEq, Repr

inductive ObservationIncompleteReason where
  | cancelled | drainTimeout | runtimeLost
  deriving DecidableEq, Repr

inductive StreamObservationState where
  | reading
  | complete
  | failed (failure : PipeReadFailure)
  | incomplete (reason : ObservationIncompleteReason)
  deriving DecidableEq, Repr

structure StreamObservation where
  bytesTotal : UInt64
  state : StreamObservationState
  deriving DecidableEq, Repr

structure ProcessObservation where
  stdout : StreamObservation
  stderr : StreamObservation
  deriving DecidableEq, Repr

inductive ProcessCleanup where
  | running
  | complete
  | reaping
  | uncertain (rawOsError : Option Int32)
  deriving DecidableEq, Repr

namespace PipeReadErrorKind

def label : PipeReadErrorKind → Text
  | interrupted => "interrupted".toList
  | permissionDenied => "permission_denied".toList
  | brokenPipe => "broken_pipe".toList
  | connectionReset => "connection_reset".toList
  | unexpectedEof => "unexpected_eof".toList
  | timedOut => "timed_out".toList
  | other => "other".toList

def all : List PipeReadErrorKind :=
  [interrupted, permissionDenied, brokenPipe, connectionReset, unexpectedEof, timedOut, other]

theorem ofLabel_label (kind : PipeReadErrorKind) :
    ofLabel label all (.str kind.label) = some kind := by
  cases kind <;> rfl

end PipeReadErrorKind

namespace ObservationIncompleteReason

def label : ObservationIncompleteReason → Text
  | cancelled => "cancelled".toList
  | drainTimeout => "drain_timeout".toList
  | runtimeLost => "runtime_lost".toList

def all : List ObservationIncompleteReason := [cancelled, drainTimeout, runtimeLost]

theorem ofLabel_label (reason : ObservationIncompleteReason) :
    ofLabel label all (.str reason.label) = some reason := by
  cases reason <;> rfl

end ObservationIncompleteReason

def rawOsErrorJson (code : Option Int32) : Json := code.elim .null ofInt32

theorem asOption?_rawOsErrorJson (code : Option Int32) :
    (rawOsErrorJson code).asOption? asInt32? = some code := by
  cases code with
  | none => rfl
  | some n =>
    show (asInt32? (ofInt32 n)).map some = _
    rw [asInt32?_ofInt32]
    rfl

theorem fits_rawOsErrorJson (d : Nat) (code : Option Int32) : Json.Fits d
    (rawOsErrorJson code) := by
  cases code with
  | none => exact .null d
  | some n => exact fits_ofInt32 d n

namespace PipeReadFailure

def toJson (failure : PipeReadFailure) : Json :=
  .obj [("kind".toList, .str failure.kind.label),
    ("raw_os_error".toList, rawOsErrorJson failure.rawOsError)]

def ofJson? (v : Json) : Option PipeReadFailure := do
  let kind ← (v.get? "kind".toList).bind (ofLabel PipeReadErrorKind.label PipeReadErrorKind.all)
  let rawOsError ← optionMember "raw_os_error".toList Json.asInt32? v
  some ⟨kind, rawOsError⟩

theorem ofJson?_toJson (failure : PipeReadFailure) : ofJson? failure.toJson = some failure := by
  have hkind : (failure.toJson).get? "kind".toList = some (.str failure.kind.label) := rfl
  have hraw : (failure.toJson).get? "raw_os_error".toList =
    some (rawOsErrorJson failure.rawOsError) := rfl
  unfold ofJson? optionMember
  rw [hkind, hraw, bind_some, PipeReadErrorKind.ofLabel_label]
  dsimp only
  rw [asOption?_rawOsErrorJson]
  rfl

end PipeReadFailure

namespace StreamObservationState

def toJson : StreamObservationState → Json
  | reading => .obj [("state".toList, .str "reading".toList)]
  | complete => .obj [("state".toList, .str "complete".toList)]
  | failed failure =>
    .obj [("state".toList, .str "failed".toList), ("detail".toList, failure.toJson)]
  | incomplete reason =>
    .obj [("state".toList, .str "incomplete".toList), ("detail".toList, .str reason.label)]

def ofJson? (v : Json) : Option StreamObservationState :=
  let detail := v.get? "detail".toList
  (v.get? "state".toList).bind Json.asStr? |>.bind fun tag =>
    if tag = "reading".toList then some reading
    else if tag = "complete".toList then some complete
    else if tag = "failed".toList then (detail.bind PipeReadFailure.ofJson?).map failed
    else if tag = "incomplete".toList then
      (detail.bind (ofLabel ObservationIncompleteReason.label ObservationIncompleteReason.all)).map
        incomplete
    else none

theorem ofJson?_toJson (state : StreamObservationState) : ofJson? state.toJson = some state := by
  cases state with
  | reading => rfl
  | complete => rfl
  | failed failure =>
    show (PipeReadFailure.ofJson? failure.toJson).map failed = _
    rw [failure.ofJson?_toJson]
    rfl
  | incomplete reason =>
    show (ofLabel ObservationIncompleteReason.label ObservationIncompleteReason.all
      (.str reason.label)).map incomplete = _
    rw [reason.ofLabel_label]
    rfl

theorem fits_toJson (d : Nat) (state : StreamObservationState) :
    Json.Fits (d + 2) state.toJson := by
  have htag : ∀ tag : Text, Json.Fits (d + 1) (.str tag) := fun tag => .str (d + 1) tag
  cases state with
  | failed failure =>
    refine .obj _ _ (forall_mem_cons.mpr ⟨htag _, forall_mem_singleton.mpr ?_⟩)
    refine .obj _ _ (forall_mem_cons.mpr ⟨.str d _, forall_mem_singleton.mpr ?_⟩)
    exact fits_rawOsErrorJson d failure.rawOsError
  | incomplete reason =>
    exact .obj _ _ (forall_mem_cons.mpr ⟨htag _, forall_mem_singleton.mpr (htag _)⟩)
  | _ => exact .obj _ _ (forall_mem_singleton.mpr (htag _))

end StreamObservationState

namespace StreamObservation

def toJson (stream : StreamObservation) : Json :=
  .obj [("bytes_total".toList, ofUInt64 stream.bytesTotal), ("state".toList, stream.state.toJson)]

def ofJson? (v : Json) : Option StreamObservation := do
  let bytesTotal ← (v.get? "bytes_total".toList).bind Json.asUInt64?
  let state ← (v.get? "state".toList).bind StreamObservationState.ofJson?
  some ⟨bytesTotal, state⟩

theorem ofJson?_toJson (stream : StreamObservation) : ofJson? stream.toJson = some stream := by
  have hbytes : (stream.toJson).get? "bytes_total".toList = some (ofUInt64 stream.bytesTotal) := rfl
  have hstate : (stream.toJson).get? "state".toList = some stream.state.toJson := rfl
  unfold ofJson?
  rw [hbytes, hstate, bind_some, bind_some, asUInt64?_ofUInt64,
    StreamObservationState.ofJson?_toJson]
  rfl

theorem fits_toJson (d : Nat) (stream : StreamObservation) : Json.Fits (d + 3) stream.toJson :=
  .obj _ _ (forall_mem_cons.mpr ⟨fits_ofUInt64 _ _,
    forall_mem_singleton.mpr (stream.state.fits_toJson d)⟩)

end StreamObservation

namespace ProcessObservation

def toJson (observation : ProcessObservation) : Json :=
  .obj [("stdout".toList, observation.stdout.toJson), ("stderr".toList, observation.stderr.toJson)]

def ofJson? (v : Json) : Option ProcessObservation := do
  let stdout ← (v.get? "stdout".toList).bind StreamObservation.ofJson?
  let stderr ← (v.get? "stderr".toList).bind StreamObservation.ofJson?
  some ⟨stdout, stderr⟩

theorem ofJson?_toJson (observation : ProcessObservation) :
    ofJson? observation.toJson = some observation := by
  have hout : (observation.toJson).get? "stdout".toList = some observation.stdout.toJson := rfl
  have herr : (observation.toJson).get? "stderr".toList = some observation.stderr.toJson := rfl
  unfold ofJson?
  rw [hout, herr, bind_some, bind_some, StreamObservation.ofJson?_toJson,
    StreamObservation.ofJson?_toJson]
  rfl

theorem fits_toJson (d : Nat) (observation : ProcessObservation) :
    Json.Fits (d + 4) observation.toJson :=
  .obj _ _ (forall_mem_cons.mpr ⟨observation.stdout.fits_toJson d,
    forall_mem_singleton.mpr (observation.stderr.fits_toJson d)⟩)

end ProcessObservation

/-! ## The process group -/

namespace ProcessCleanup

def toJson : ProcessCleanup → Json
  | running => .obj [("state".toList, .str "running".toList)]
  | complete => .obj [("state".toList, .str "complete".toList)]
  | reaping => .obj [("state".toList, .str "reaping".toList)]
  | uncertain rawOsError =>
    .obj [("state".toList, .str "uncertain".toList),
      ("detail".toList, .obj [("raw_os_error".toList, rawOsErrorJson rawOsError)])]

def ofJson? (v : Json) : Option ProcessCleanup :=
  (v.get? "state".toList).bind Json.asStr? |>.bind fun tag =>
    if tag = "running".toList then some running
    else if tag = "complete".toList then some complete
    else if tag = "reaping".toList then some reaping
    else if tag = "uncertain".toList then
      match v.get? "detail".toList with
      | some (.obj fields) =>
        (optionMember "raw_os_error".toList Json.asInt32? (.obj fields)).map uncertain
      | _ => none
    else none

theorem ofJson?_toJson (cleanup : ProcessCleanup) : ofJson? cleanup.toJson = some cleanup := by
  cases cleanup with
  | uncertain rawOsError =>
    show ((rawOsErrorJson rawOsError).asOption? asInt32?).map uncertain = _
    rw [asOption?_rawOsErrorJson]
    rfl
  | _ => rfl

theorem fits_toJson (d : Nat) (cleanup : ProcessCleanup) : Json.Fits (d + 2) cleanup.toJson := by
  have htag : ∀ tag : Text, Json.Fits (d + 1) (.str tag) := fun tag => .str (d + 1) tag
  cases cleanup with
  | uncertain rawOsError =>
    refine .obj _ _ (forall_mem_cons.mpr ⟨htag _, forall_mem_singleton.mpr ?_⟩)
    exact .obj _ _ (forall_mem_singleton.mpr (fits_rawOsErrorJson d rawOsError))
  | _ => exact .obj _ _ (forall_mem_singleton.mpr (htag _))

end ProcessCleanup

end TerminalCommander
