import TerminalCommander.Core.ProcessObservation

/-!
# The resource governor of a job

What a job ran under and what stopped it, after `daemon/src/governor.rs`: the outcome is mapped
from the report of the probe, shown by every status, appended to the evidence of the job receipt as
JSON fields and read back from there. `GovernorOutcome.Regular` is what the daemon keeps of every
outcome; a regular outcome is read back as it was, apart from the memory limit, which is not
written.
-/

namespace TerminalCommander

open List Json

open Json (ofUInt64)

def displayU64 (n : UInt64) : Text := Nat.toDigits 10 n.toNat

inductive GovernorMode where
  | jobObject | cgroup | rlimit
  | unavailable (why : Text)
  deriving DecidableEq, Repr

inductive GovernorModeWire where
  | jobObject | cgroup | rlimit
  | unavailable (why : Text)
  deriving DecidableEq, Repr

inductive JobPriority where
  | idle | belowNormal | normal
  deriving DecidableEq, Repr

structure LimitsApplied where
  memoryBytes : Option UInt64
  priority : Option JobPriority
  deriving DecidableEq, Repr

structure GovernorReport where
  mode : Option GovernorMode
  memoryLimitBytes : Option UInt64
  peakMemoryBytes : Option UInt64
  memoryLimitHit : Bool
  hostCeilingJoined : Bool
  hostCeilingHit : Bool
  deriving DecidableEq, Repr

structure GovernorOutcome where
  governor : Option GovernorModeWire
  peakMemoryBytes : Option UInt64
  exitReason : Option Text
  memoryLimitBytes : Option UInt64
  limitsApplied : Option LimitsApplied
  hostCeilingJoined : Option Bool
  deriving DecidableEq, Repr

def EXIT_REASON_MEMORY_CEILING : Text := "memory_ceiling".toList

def EXIT_REASON_HOST_CEILING : Text := "host_ceiling".toList

def modeWire : GovernorMode → GovernorModeWire
  | .jobObject => .jobObject
  | .cgroup => .cgroup
  | .rlimit => .rlimit
  | .unavailable why => .unavailable why

def GovernorReport.atExit (report : GovernorReport) (peakMemoryBytes : Option UInt64)
    (memoryLimitHit hostCeilingHit : Bool) : GovernorReport :=
  { report with
    peakMemoryBytes := peakMemoryBytes
    memoryLimitHit := memoryLimitHit
    hostCeilingHit := hostCeilingHit }

/-! ## JSON forms -/

theorem fits_of_member {α : Type} {toJson : α → Json} {d : Nat}
    (h : ∀ a, Json.Fits d (toJson a)) {key k : Text} {value : Json} {o : Option α}
    (heq : (key, some value) = (k, o.map toJson)) : Json.Fits d value := by
  obtain ⟨a, -, rfl⟩ := Option.map_eq_some_iff.mp (congrArg Prod.snd heq).symm
  exact h a

theorem bind_map_of_readBack {α : Type} {toJson : α → Json} {ofJson? : Json → Option α}
    (h : ∀ a, ofJson? (toJson a) = some a) (o : Option α) : (o.map toJson).bind ofJson? = o := by
  cases o with
  | none => rfl
  | some a => exact h a

namespace GovernorModeWire

def toJson : GovernorModeWire → Json
  | jobObject => .str "job_object".toList
  | cgroup => .str "cgroup".toList
  | rlimit => .str "rlimit".toList
  | unavailable why => .obj [("unavailable".toList, .str why)]

def ofJson? : Json → Option GovernorModeWire
  | .str label =>
    if label = "job_object".toList then some jobObject
    else if label = "cgroup".toList then some cgroup
    else if label = "rlimit".toList then some rlimit
    else none
  | .obj [(key, .str why)] => if key = "unavailable".toList then some (unavailable why) else none
  | _ => none

theorem ofJson?_toJson (mode : GovernorModeWire) : ofJson? mode.toJson = some mode := by
  cases mode <;> rfl

theorem fits_toJson (d : Nat) (mode : GovernorModeWire) : Json.Fits (d + 1) mode.toJson := by
  cases mode with
  | unavailable why => exact .obj _ _ (forall_mem_singleton.mpr (.str d why))
  | _ => exact .str _ _

end GovernorModeWire

namespace JobPriority

def label : JobPriority → Text
  | idle => "idle".toList
  | belowNormal => "below_normal".toList
  | normal => "normal".toList

def all : List JobPriority := [idle, belowNormal, normal]

theorem ofLabel_label (priority : JobPriority) :
    ofLabel label all (.str priority.label) = some priority := by
  cases priority <;> rfl

end JobPriority

namespace LimitsApplied

def members (limits : LimitsApplied) : List (Text × Option Json) :=
  [("memory_bytes".toList, limits.memoryBytes.map ofUInt64),
    ("priority".toList, limits.priority.map fun priority => .str priority.label)]

def toJson (limits : LimitsApplied) : Json := .ofOptions limits.members

def ofJson? : Json → Option LimitsApplied
  | .obj fields => do
    let memoryBytes ← optionMember "memory_bytes".toList Json.asUInt64? (.obj fields)
    let priority ← optionMember "priority".toList (ofLabel JobPriority.label JobPriority.all)
      (.obj fields)
    some ⟨memoryBytes, priority⟩
  | _ => none

theorem nodup_members (limits : LimitsApplied) : (limits.members.map Prod.fst).Nodup := by
  show (["memory_bytes".toList, "priority".toList] : List Text).Nodup
  decide

theorem ofJson?_toJson (limits : LimitsApplied) : ofJson? limits.toJson = some limits := by
  have hmemory : optionMember "memory_bytes".toList asUInt64? limits.toJson =
      some limits.memoryBytes := by
    unfold optionMember toJson
    rw [get?_ofOptions limits.nodup_members (mem_of_getElem? (i := 0) rfl)]
    cases limits.memoryBytes with
    | none => rfl
    | some n =>
      show (asUInt64? (ofUInt64 n)).map some = _
      rw [asUInt64?_ofUInt64]
      rfl
  have hpriority : optionMember "priority".toList (ofLabel JobPriority.label JobPriority.all)
      limits.toJson = some limits.priority := by
    unfold optionMember toJson
    rw [get?_ofOptions limits.nodup_members (mem_of_getElem? (i := 1) rfl)]
    cases limits.priority with
    | none => rfl
    | some priority =>
      show (ofLabel JobPriority.label JobPriority.all (.str priority.label)).map some = _
      rw [JobPriority.ofLabel_label]
      rfl
  have hobj : ∃ fields, limits.toJson = .obj fields := ⟨_, rfl⟩
  obtain ⟨fields, hobj⟩ := hobj
  rw [hobj] at hmemory hpriority ⊢
  unfold ofJson?
  dsimp only
  rw [hmemory, hpriority]
  rfl

theorem fits_toJson (d : Nat) (limits : LimitsApplied) : Json.Fits (d + 1) limits.toJson := by
  refine fits_ofOptions fun key value hmem => ?_
  rcases mem_cons.mp hmem with heq | hmem
  · exact fits_of_member (fits_ofUInt64 d) heq
  · exact fits_of_member (fun priority : JobPriority => .str d priority.label)
      (mem_singleton.mp hmem)

end LimitsApplied

/-! ## Outcomes -/

namespace GovernorOutcome

def ungoverned : GovernorOutcome := ⟨none, none, none, none, none, none⟩

def mapReport (report : GovernorReport) (ceilingInstalled : Bool) : GovernorOutcome :=
  match report.mode with
  | none => ungoverned
  | some mode =>
    { governor := some (modeWire mode)
      peakMemoryBytes := report.peakMemoryBytes
      exitReason :=
        if report.memoryLimitHit then some EXIT_REASON_MEMORY_CEILING
        else if report.hostCeilingHit then some EXIT_REASON_HOST_CEILING
        else none
      memoryLimitBytes := report.memoryLimitBytes
      limitsApplied := none
      hostCeilingJoined := if ceilingInstalled && !report.hostCeilingJoined then some false else none }

def atSpawn (report : GovernorReport) (ceilingInstalled : Bool)
    (limitsApplied : Option LimitsApplied) : GovernorOutcome :=
  let base := mapReport report ceilingInstalled
  { base with
    peakMemoryBytes := none
    exitReason := none
    limitsApplied := base.governor.bind fun _ => limitsApplied }

def finish (outcome : GovernorOutcome) (report : GovernorReport) (ceilingInstalled : Bool) :
    GovernorOutcome :=
  { mapReport report ceilingInstalled with limitsApplied := outcome.limitsApplied }

def evidenceFields (outcome : GovernorOutcome) : Text :=
  match outcome.governor with
  | none => []
  | some mode =>
    ",\"governor\":".toList ++ mode.toJson.render ++
      (outcome.peakMemoryBytes.elim [] fun peak =>
        ",\"peak_memory_bytes\":".toList ++ displayU64 peak) ++
      (outcome.exitReason.elim [] fun reason =>
        ",\"exit_reason\":\"".toList ++ reason ++ "\"".toList) ++
      (if outcome.hostCeilingJoined = some false then ",\"host_ceiling_joined\":false".toList
        else []) ++
      outcome.limitsApplied.elim [] fun limits =>
        ",\"limits_applied\":".toList ++ limits.toJson.render

def fromEvidence : Option Json → GovernorOutcome
  | none => ungoverned
  | some v =>
    { governor := (v.get? "governor".toList).bind GovernorModeWire.ofJson?
      peakMemoryBytes := (v.get? "peak_memory_bytes".toList).bind Json.asUInt64?
      exitReason := (v.get? "exit_reason".toList).bind Json.asStr?
      memoryLimitBytes := none
      limitsApplied := (v.get? "limits_applied".toList).bind LimitsApplied.ofJson?
      hostCeilingJoined := (v.get? "host_ceiling_joined".toList).bind Json.asBool? }

/-! ## Regular outcomes -/

structure Regular (outcome : GovernorOutcome) : Prop where
  ungoverned : outcome.governor = none → outcome.peakMemoryBytes = none ∧
    outcome.exitReason = none ∧ outcome.limitsApplied = none ∧ outcome.hostCeilingJoined = none
  plain : ∀ reason ∈ outcome.exitReason, Json.escape reason = reason
  joined : outcome.hostCeilingJoined ≠ some true

theorem regular_mapReport (report : GovernorReport) (ceilingInstalled : Bool) :
    Regular (mapReport report ceilingInstalled) := by
  unfold mapReport
  split
  · exact ⟨fun _ => ⟨rfl, rfl, rfl, rfl⟩, nofun, nofun⟩
  · refine ⟨nofun, fun reason hreason => ?_, fun hjoined => ?_⟩
    · dsimp only at hreason
      split_ifs at hreason
      · cases hreason
        rfl
      · cases hreason
        rfl
      · cases hreason
    · dsimp only at hjoined
      split_ifs at hjoined
      cases hjoined

theorem mapReport_governor (report : GovernorReport) (ceilingInstalled : Bool) :
    (mapReport report ceilingInstalled).governor = report.mode.map modeWire := by
  unfold mapReport
  cases report.mode <;> rfl

variable {outcome : GovernorOutcome}

theorem Regular.clearReason (h : Regular outcome) : Regular { outcome with exitReason := none } :=
  ⟨fun hnone => ⟨(h.ungoverned hnone).1, rfl, (h.ungoverned hnone).2.2⟩, nofun, h.joined⟩

theorem regular_finish {report final : GovernorReport} (ceilingInstalled : Bool)
    (limitsApplied : Option LimitsApplied) (hmode : final.mode = report.mode) :
    Regular ((atSpawn report ceilingInstalled limitsApplied).finish final ceilingInstalled) := by
  have hmap := regular_mapReport final ceilingInstalled
  refine ⟨fun hnone => ?_, hmap.plain, hmap.joined⟩
  obtain ⟨hpeak, hreason, -, hjoined⟩ := hmap.ungoverned hnone
  refine ⟨hpeak, hreason, ?_, hjoined⟩
  -- without a mode at exit there was none at spawn, so no limits were kept
  have hspawn : (mapReport report ceilingInstalled).governor = none := by
    rw [mapReport_governor, ← hmode, ← mapReport_governor final ceilingInstalled]
    exact hnone
  unfold finish atSpawn
  dsimp only
  rw [hspawn]
  rfl

/-! ## What is read back -/

def members (outcome : GovernorOutcome) : List (Text × Option Json) :=
  [("governor".toList, outcome.governor.map GovernorModeWire.toJson),
    ("peak_memory_bytes".toList, outcome.peakMemoryBytes.map ofUInt64),
    ("exit_reason".toList, outcome.exitReason.map Json.str),
    ("host_ceiling_joined".toList, outcome.hostCeilingJoined.map Json.bool),
    ("limits_applied".toList, outcome.limitsApplied.map LimitsApplied.toJson)]

theorem evidenceFields_eq (h : Regular outcome) :
    outcome.evidenceFields = moreFields outcome.members := by
  obtain ⟨governor, peak, reason, limit, limits, joined⟩ := outcome
  obtain ⟨hungoverned, hplain, hjoined⟩ := h
  cases governor with
  | none =>
    obtain ⟨hpeak, hreason, hlimits, hjoin⟩ := hungoverned rfl
    dsimp only at hpeak hreason hlimits hjoin
    rw [hpeak, hreason, hlimits, hjoin]
    rfl
  | some mode =>
    have hpeak : (peak.elim [] fun n => ",\"peak_memory_bytes\":".toList ++ displayU64 n) =
        (peak.map ofUInt64).elim [] fun value =>
          ',' :: renderField ("peak_memory_bytes".toList, value) := by
      cases peak <;> rfl
    have hreason : (reason.elim [] fun text =>
          ",\"exit_reason\":\"".toList ++ text ++ "\"".toList) =
        (reason.map str).elim [] fun value =>
          ',' :: renderField ("exit_reason".toList, value) := by
      cases reason with
      | none => rfl
      | some text =>
        show _ = ",\"exit_reason\":\"".toList ++ (escape text ++ "\"".toList)
        rw [hplain text rfl, ← append_assoc]
        rfl
    have hjoin : (if joined = some false then ",\"host_ceiling_joined\":false".toList else []) =
        (joined.map bool).elim [] fun value =>
          ',' :: renderField ("host_ceiling_joined".toList, value) := by
      match joined, hjoined with
      | none, _ => rfl
      | some false, _ => rfl
    have hlimits : (limits.elim [] fun l => ",\"limits_applied\":".toList ++ l.toJson.render) =
        (limits.map LimitsApplied.toJson).elim [] fun value =>
          ',' :: renderField ("limits_applied".toList, value) := by
      cases limits <;> rfl
    unfold evidenceFields moreFields members
    simp only [flatMap_cons, flatMap_nil, append_nil]
    rw [hpeak, hreason, hjoin, hlimits]
    simp only [append_assoc]
    rfl

theorem fits_members (d : Nat) (outcome : GovernorOutcome) :
    ∀ key value, (key, some value) ∈ outcome.members → Json.Fits (d + 1) value := by
  intro key value hmem
  unfold members at hmem
  simp only [mem_cons, not_mem_nil, or_false] at hmem
  rcases hmem with heq | heq | heq | heq | heq
  · exact fits_of_member (GovernorModeWire.fits_toJson d) heq
  · exact fits_of_member (fits_ofUInt64 (d + 1)) heq
  · exact fits_of_member (fun reason => .str (d + 1) reason) heq
  · exact fits_of_member (fun joined => .bool (d + 1) joined) heq
  · exact fits_of_member (LimitsApplied.fits_toJson d) heq

theorem fromEvidence_of_members {v : Json}
    (hv : ∀ key value, (key, value) ∈ outcome.members → v.get? key = value) :
    fromEvidence (some v) = { outcome with memoryLimitBytes := none } := by
  have hgovernor := hv _ _ (mem_of_getElem? (i := 0) rfl)
  have hpeak := hv _ _ (mem_of_getElem? (i := 1) rfl)
  have hreason := hv _ _ (mem_of_getElem? (i := 2) rfl)
  have hjoined := hv _ _ (mem_of_getElem? (i := 3) rfl)
  have hlimits := hv _ _ (mem_of_getElem? (i := 4) rfl)
  have hstr : ∀ reason, asStr? (.str reason) = some reason := fun _ => rfl
  have hbool : ∀ b, asBool? (.bool b) = some b := fun _ => rfl
  unfold fromEvidence
  dsimp only
  rw [hgovernor, hpeak, hreason, hjoined, hlimits,
    bind_map_of_readBack GovernorModeWire.ofJson?_toJson,
    bind_map_of_readBack asUInt64?_ofUInt64, bind_map_of_readBack hstr,
    bind_map_of_readBack hbool, bind_map_of_readBack LimitsApplied.ofJson?_toJson]

end GovernorOutcome

end TerminalCommander
