import TerminalCommander.Daemon.Command.Dedup
import TerminalCommander.Daemon.Policy.Engine

/-!
# The limits of a start

The `[governor]` section and what one start runs with, after `daemon/src/governor.rs`. A governor
keeps that its default is at most the host ceiling; a clamp to the default then also keeps the
ceiling.
-/

namespace TerminalCommander

open Policy (PolicyProfile)

inductive MemorySpec where
  | bytes (b : UInt64)
  | percent (p : Nat)
  | unlimited
  deriving DecidableEq, Repr

structure HostMemory where
  totalBytes : UInt64
  commitLimitBytes : Option UInt64
  deriving DecidableEq, Repr

/-- `str::parse` at an unsigned type with the largest value `max`. -/
def parseUnsigned (max : Nat) (s : Text) : Option Nat :=
  let digits := (s.stripPrefix ['+']).getD s
  if digits ≠ [] ∧ digits.all Char.isDigit then
    (some (Nat.ofDigitChars 10 digits 0)).filter (· ≤ max)
  else none

def parseMemory (raw : Text) : Except Text MemorySpec :=
  let s := raw.trim
  if s.eqIgnoreAsciiCase "none".toList then .ok .unlimited
  else match s.stripSuffix ['%'] with
    | some pct =>
      match (parseUnsigned 255 pct.trim).filter fun p => 1 ≤ p ∧ p ≤ 100 with
      | some p => .ok (.percent p)
      | none => .error ("memory `".toList ++ s ++
          "`: a percent must be a whole number from 1% to 100%".toList)
    | none =>
      let lower := s.toAsciiLowercase
      let (digits, shift) :=
        ([("tib", 40), ("gib", 30), ("mib", 20), ("kib", 10)].findSome? fun (unit, shift) =>
          (lower.stripSuffix unit.toList).map fun d => (d.trim, shift)).getD (lower, 0)
      match ((parseUnsigned u64Max digits).map (· * 2 ^ shift)).filter (· ≤ u64Max) with
      | none => .error ("memory `".toList ++ s ++
          ("` is not understood: use a size like 512MiB or 24GiB, a byte " ++
            "count, a percent like 40%, or none").toList)
      | some 0 => .error ("memory `".toList ++ s ++ "` must be greater than zero".toList)
      | some n => .ok (.bytes (.ofNat n))

def parsePriority (raw : Text) : Except Text JobPriority :=
  match JobPriority.all.find? fun p => p.label = raw.trim with
  | some p => .ok p
  | none => .error ("priority `".toList ++ raw.trim ++
      "` is not one of idle, below_normal, normal".toList)

def resolveMemory : MemorySpec → Option HostMemory → Except Text (Option UInt64)
  | .unlimited, _ => .ok none
  | .bytes b, _ => .ok (some b)
  | .percent _, none => .error
      "a percent memory limit needs host memory, which this platform does not report".toList
  | .percent p, some host =>
    let base := host.commitLimitBytes.getD host.totalBytes
    .ok (some (.ofNat (min (base.toNat * p / 100) u64Max)))

structure GovernorSection where
  enabled : Bool
  defaultJobMemory : Text
  defaultPriority : Text
  llmCanRaiseLimits : Option Bool
  hostCeiling : Text
  deriving DecidableEq, Repr

structure Governor where
  enabled : Bool
  defaultMemoryBytes : Option UInt64
  defaultPriority : JobPriority
  llmCanRaiseLimits : Bool
  modeAvailable : GovernorModeWire
  hostCeilingBytes : Option UInt64
  host : Option HostMemory
  note : Option Text
  default_le : ∀ d ∈ defaultMemoryBytes, ∀ c ∈ hostCeilingBytes, d ≤ c

structure JobLimits where
  memoryBytes : Option UInt64 := none
  priority : Option JobPriority := none
  joinHostCeiling : Bool := false
  deriving DecidableEq, Repr

structure ResolvedLimits where
  limits : JobLimits := {}
  applied : Option LimitsApplied := none
  clamped : List Text := []
  clampReasons : List Text := []
  deriving DecidableEq, Repr

/-- What is returned for the two axes, each with the reason it was clamped for. -/
def ResolvedLimits.ofAxes (memory : Option UInt64 × Option Text)
    (priority : JobPriority × Option Text) : ResolvedLimits where
  limits := ⟨memory.1, some priority.1, true⟩
  applied := some ⟨memory.1, some priority.1⟩
  clamped := (memory.2.map fun _ => "memory".toList).toList ++
    (priority.2.map fun _ => "priority".toList).toList
  clampReasons := memory.2.toList ++ priority.2.toList

theorem ResolvedLimits.mem_clamped (memory : Option UInt64 × Option Text)
    (priority : JobPriority × Option Text) :
    ("memory".toList ∈ (ofAxes memory priority).clamped ↔ memory.2.isSome) ∧
      ("priority".toList ∈ (ofAxes memory priority).clamped ↔ priority.2.isSome) := by
  unfold ofAxes
  cases memory.2 <;> cases priority.2 <;> simp

/-- Declared lowest first, as the derived order reads it. -/
def JobPriority.rank : JobPriority → Nat
  | idle => 0
  | belowNormal => 1
  | normal => 2

namespace Governor

def DEFAULT_JOB_MEMORY : Text := "60%".toList

def DEFAULT_HOST_CEILING : Text := "97%".toList

def RLIMIT_DEFAULT_NOTE : Text :=
  "default memory limit not applied under rlimit; pass limits.memory to opt in".toList

def resolveOrNote (host : Option HostMemory) (raw builtin what : Text) :
    Option UInt64 × List Text :=
  let spec := ((parseMemory raw).toOption.orElse fun _ => (parseMemory builtin).toOption).getD
    .unlimited
  match resolveMemory spec host with
  | .ok memory => (memory, [])
  | .error why => (none, [why ++ "; ".toList ++ what])

def underCeiling : Option UInt64 → Option UInt64 → Option UInt64
  | some d, some c => some (min d c)
  | d, _ => d

theorem underCeiling_le (default ceiling : Option UInt64) :
    ∀ d ∈ underCeiling default ceiling, ∀ c ∈ ceiling, d ≤ c := by
  rintro d hd c rfl
  cases default with
  | none => cases hd
  | some d' =>
    cases hd
    exact Std.min_le_right

def resolveSection (config : GovernorSection) (profile : PolicyProfile) (host : Option HostMemory)
    (modeAvailable : GovernorModeWire) : Governor :=
  let defaultMemory := resolveOrNote host config.defaultJobMemory DEFAULT_JOB_MEMORY
    "jobs get no default memory limit".toList
  let hostCeiling := resolveOrNote host config.hostCeiling DEFAULT_HOST_CEILING
    "no host ceiling is installed".toList
  let notes := defaultMemory.2 ++ hostCeiling.2 ++
    if config.enabled ∧ modeAvailable = .rlimit then [RLIMIT_DEFAULT_NOTE] else []
  { enabled := config.enabled
    defaultMemoryBytes := underCeiling defaultMemory.1 hostCeiling.1
    defaultPriority := (parsePriority config.defaultPriority).toOption.getD .belowNormal
    llmCanRaiseLimits :=
      config.llmCanRaiseLimits.getD (profile = .fullAccess ∨ profile = .adminDebug)
    modeAvailable := modeAvailable
    hostCeilingBytes := hostCeiling.1
    host := host
    note := if notes = [] then none else some (Text.join "; ".toList notes)
    default_le := underCeiling_le _ _ }

def defaultMemoryApplies (g : Governor) : Bool := g.modeAvailable ≠ .rlimit

def above (g : Governor) (asked : Option UInt64) : Bool :=
  match asked, g.defaultMemoryBytes with
  | _, none => false
  | none, some _ => true
  | some a, some d => d < a

/-- What a request for `asked` gets, and why if that is another limit. -/
def memoryAxis (g : Governor) (raw : Text) (asked : Option UInt64) :
    Option UInt64 × Option Text :=
  if g.above asked && !g.llmCanRaiseLimits then
    (g.defaultMemoryBytes, some ("memory `".toList ++ raw ++
      "` is above the [governor] default and llm_can_raise_limits is false".toList))
  else match asked, g.hostCeilingBytes with
    | some a, some c =>
      if c < a then
        (some c, some ("memory `".toList ++ raw ++ "` is above the host ceiling of ".toList ++
          displayU64 c ++ " bytes".toList))
      else (some a, none)
    | asked, _ => (asked, none)

def memoryFor (g : Governor) : Option Text → Except Text (Option UInt64 × Option Text)
  | none => .ok (g.defaultMemoryBytes.filter fun _ => g.defaultMemoryApplies, none)
  | some raw => do return g.memoryAxis raw (← resolveMemory (← parseMemory raw) g.host)

def priorityFor (g : Governor) : Option JobPriority → JobPriority × Option Text
  | none => (g.defaultPriority, none)
  | some asked =>
    if g.defaultPriority.rank < asked.rank ∧ g.llmCanRaiseLimits = false then
      (g.defaultPriority, some
        "priority is above the [governor] default and llm_can_raise_limits is false".toList)
    else (asked, none)

def resolve (g : Governor) (request : Option JobLimitsSpec) : Except Text ResolvedLimits := do
  if !g.enabled then return {}
  return .ofAxes (← g.memoryFor (request.bind JobLimitsSpec.memory))
    (g.priorityFor (request.bind JobLimitsSpec.priority))

variable {g : Governor} {raw : Text} {asked : Option UInt64}

theorem above_iff : g.above asked ↔ ∃ d ∈ g.defaultMemoryBytes, ∀ a ∈ asked, d < a := by
  unfold above
  cases g.defaultMemoryBytes <;> cases asked <;> simp

theorem memoryAxis_clamps :
    (g.memoryAxis raw asked).2.isSome ↔ (g.memoryAxis raw asked).1 ≠ asked := by
  unfold memoryAxis
  split_ifs with hclamp
  · obtain ⟨d, hd, hlt⟩ := above_iff.mp (Bool.and_eq_true_iff.mp hclamp).1
    refine iff_of_true rfl fun heq => UInt64.lt_irrefl d (hlt d (heq ▸ hd))
  · split
    · split_ifs with hlt
      · refine iff_of_true rfl fun heq => ?_
        cases heq
        exact UInt64.lt_irrefl _ hlt
      · exact iff_of_false Bool.false_ne_true fun h => h rfl
    · exact iff_of_false Bool.false_ne_true fun h => h rfl

theorem memoryAxis_le_ceiling :
    ∀ m ∈ (g.memoryAxis raw asked).1, ∀ c ∈ g.hostCeilingBytes, m ≤ c := by
  unfold memoryAxis
  split_ifs with hclamp
  · exact g.default_le
  · rintro m hm c hc
    rw [hc] at hm
    cases asked with
    | none => cases hm
    | some a =>
      dsimp only at hm
      split_ifs at hm with hlt
      · cases hm
        exact UInt64.le_refl _
      · cases hm
        exact UInt64.not_lt.mp hlt

theorem memoryAxis_le_default (h : g.llmCanRaiseLimits = false) :
    ∀ d ∈ g.defaultMemoryBytes, ∃ m ∈ (g.memoryAxis raw asked).1, m ≤ d := by
  intro d hd
  unfold memoryAxis
  split_ifs with hclamp
  · exact ⟨d, hd, UInt64.le_refl d⟩
  · rw [h, Bool.not_false, Bool.and_true, above_iff] at hclamp
    -- a request that is not above the default asks for a limit, and is not above the ceiling
    have hasked : ∃ a ∈ asked, a ≤ d := by
      by_contra hnone
      exact hclamp ⟨d, hd, fun a ha => UInt64.not_le.mp fun hle => hnone ⟨a, ha, hle⟩⟩
    obtain ⟨a, rfl, hle⟩ := hasked
    refine ⟨a, ?_, hle⟩
    cases hceiling : g.hostCeilingBytes with
    | none => rfl
    | some c =>
      have hac : a ≤ c := UInt64.le_trans hle (g.default_le d hd c hceiling)
      dsimp only
      rw [if_neg (UInt64.not_lt.mpr hac)]
      rfl

theorem memoryFor_spec {request : Option Text} {got : Option UInt64 × Option Text}
    (h : g.memoryFor request = .ok got) :
    (got.2.isSome ↔ ∃ raw ∈ request, ∃ spec asked, parseMemory raw = .ok spec ∧
      resolveMemory spec g.host = .ok asked ∧ got.1 ≠ asked) ∧
    (∀ m ∈ got.1, ∀ c ∈ g.hostCeilingBytes, m ≤ c) ∧
    (g.llmCanRaiseLimits = false → g.defaultMemoryApplies →
      ∀ d ∈ g.defaultMemoryBytes, ∃ m ∈ got.1, m ≤ d) := by
  cases request with
  | none =>
    cases h
    refine ⟨by simp, fun m hm => g.default_le m (Option.mem_filter_iff.mp hm).1, ?_⟩
    exact fun _ happlies d hd => ⟨d, Option.mem_filter_iff.mpr ⟨hd, happlies⟩, UInt64.le_refl d⟩
  | some raw =>
    obtain ⟨spec, hspec, h⟩ := bind_eq_ok.mp h
    obtain ⟨asked, hasked, h⟩ := bind_eq_ok.mp h
    cases h
    refine ⟨?_, memoryAxis_le_ceiling, fun hraise _ => memoryAxis_le_default hraise⟩
    simp [memoryAxis_clamps, hspec, hasked]

theorem priorityFor_clamps (request : Option JobPriority) :
    (g.priorityFor request).2.isSome ↔ ∃ asked ∈ request, (g.priorityFor request).1 ≠ asked := by
  cases request with
  | none => simp [priorityFor]
  | some asked =>
    rw [priorityFor]
    split_ifs with h
    · exact iff_of_true rfl ⟨asked, rfl, fun heq => Nat.lt_irrefl _ (heq ▸ h.1)⟩
    · simp

theorem priorityFor_le_default (h : g.llmCanRaiseLimits = false) (request : Option JobPriority) :
    (g.priorityFor request).1.rank ≤ g.defaultPriority.rank := by
  unfold priorityFor
  split
  · exact Nat.le_refl _
  · split_ifs with hclamp
    · exact Nat.le_refl _
    · exact Nat.not_lt.mp fun hlt => hclamp ⟨hlt, h⟩

/-- No request of an enabled governor raises its limits, and what it says about a request is what
the request got. -/
theorem request_within_limits (config : GovernorSection) (profile : PolicyProfile)
    (host : Option HostMemory) (mode : GovernorModeWire) (henabled : config.enabled)
    (request : Option JobLimitsSpec) (r : ResolvedLimits)
    (h : (resolveSection config profile host mode).resolve request = .ok r) :
    let g := resolveSection config profile host mode
    ∃ unasked, g.resolve none = .ok unasked ∧
      (g.llmCanRaiseLimits = false →
        (∀ limit ∈ unasked.limits.memoryBytes, ∃ m ∈ r.limits.memoryBytes, m ≤ limit) ∧
        ∃ p ∈ r.limits.priority, ∃ q ∈ unasked.limits.priority, p.rank ≤ q.rank) ∧
      (∀ m ∈ r.limits.memoryBytes, ∀ c ∈ g.hostCeilingBytes, m ≤ c) ∧
      ("memory".toList ∈ r.clamped ↔ ∃ raw ∈ request.bind JobLimitsSpec.memory, ∃ spec asked,
        parseMemory raw = .ok spec ∧ resolveMemory spec host = .ok asked ∧
          r.limits.memoryBytes ≠ asked) ∧
      ("priority".toList ∈ r.clamped ↔ ∃ asked ∈ request.bind JobLimitsSpec.priority,
        r.limits.priority ≠ some asked) ∧
      r.applied = some ⟨r.limits.memoryBytes, r.limits.priority⟩ := by
  intro g
  have hon : g.enabled := henabled
  unfold resolve at h ⊢
  rw [hon] at h ⊢
  obtain ⟨memory, hmemory, h⟩ := bind_eq_ok.mp h
  obtain rfl := Except.ok.inj h
  obtain ⟨hclamps, hceiling, hdefault⟩ := memoryFor_spec hmemory
  refine ⟨_, rfl, fun hraise => ⟨?_, _, rfl, _, rfl, priorityFor_le_default hraise _⟩, hceiling,
    (ResolvedLimits.mem_clamped _ _).1.trans hclamps, ?_, rfl⟩
  · intro limit hlimit
    obtain ⟨hd, happlies⟩ := Option.mem_filter_iff.mp hlimit
    exact hdefault hraise happlies limit hd
  · rw [(ResolvedLimits.mem_clamped _ _).2, priorityFor_clamps]
    simp [ResolvedLimits.ofAxes]

def gibDefault : GovernorSection := ⟨true, "1GiB".toList, "idle".toList, none, "50%".toList⟩

/-- Half of the 4 GiB the host has is more than the default. -/
theorem above_default_clamped :
    ∃ r, (resolveSection gibDefault .repoOnly (some ⟨0x100000000, none⟩) .cgroup).resolve
        (some ⟨some "50%".toList, some .idle⟩) = .ok r ∧ r.clamped = ["memory".toList] ∧
      ∀ m ∈ r.limits.memoryBytes, m ≤ 0x80000000 := by
  refine ⟨_, rfl, by decide +kernel, fun m hm => ?_⟩
  obtain ⟨-, -, -, hceiling, -⟩ := request_within_limits gibDefault .repoOnly
    (some ⟨0x100000000, none⟩) .cgroup rfl (some ⟨some "50%".toList, some .idle⟩) _ rfl
  exact hceiling m hm _ (by decide +kernel)

end Governor

end TerminalCommander
