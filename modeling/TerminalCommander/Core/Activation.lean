import TerminalCommander.Core.Event
import TerminalCommander.Core.Str

/-!
# Activation scopes

Which live jobs an activation of a rule is for (`core/src/activation.rs`), and the columns in which
a scope is stored (`core/src/ids.rs` and `parse_scope` of `store/src/registry.rs`). The crate that
prints and parses a UUID is the structure `Uuids`, with the one law that is used: a printed UUID
is read back.
-/

namespace TerminalCommander

structure Uuids where
  /-- `Uuid::simple`, displayed. -/
  simple : Nat → Text
  /-- `Uuid::parse_str`, with the text of its error. -/
  parseStr : Text → Except Text Nat
  parseStr_simple : ∀ raw, parseStr (simple raw) = .ok raw

def strokes : Uuids where
  simple := fun raw => List.replicate raw '1'
  parseStr := fun t => .ok t.length
  parseStr_simple := fun raw => by rw [List.length_replicate]

/-! ## Typed identifiers -/

inductive TypedIdKind where
  | bucket | job | probe
  deriving DecidableEq, Repr

def TypedIdKind.wireTag : TypedIdKind → Text
  | .bucket => "bkt".toList
  | .job => "job".toList
  | .probe => "prb".toList

structure IdParse where
  value : Text
  reason : Text
  deriving DecidableEq, Repr

def IdParse.display (e : IdParse) : Text :=
  "could not parse identifier '".toList ++ e.value ++ "': ".toList ++ e.reason

namespace TypedId

def toWireString (u : Uuids) (kind : TypedIdKind) (raw : Nat) : Text :=
  kind.wireTag ++ '_' :: u.simple raw

def parseWire (u : Uuids) (kind : TypedIdKind) (s : Text) : Except IdParse Nat :=
  match s.splitOnce '_' with
  | none => .error ⟨s, "missing '_' separator".toList⟩
  | some (tag, rest) =>
    if tag ≠ kind.wireTag then
      .error ⟨s, "expected prefix '".toList ++ kind.wireTag ++ "' got '".toList ++ tag ++ "'".toList⟩
    else
      match u.parseStr rest with
      | .error reason => .error ⟨s, reason⟩
      | .ok raw => .ok raw

theorem splitOnce_toWireString (u : Uuids) (kind : TypedIdKind) (raw : Nat) :
    Text.splitOnce '_' (toWireString u kind raw) = some (kind.wireTag, u.simple raw) := by
  cases kind <;> rfl

theorem parseWire_toWireString (u : Uuids) (kind : TypedIdKind) (raw : Nat) :
    parseWire u kind (toWireString u kind raw) = .ok raw := by
  unfold parseWire
  rw [splitOnce_toWireString]
  dsimp only
  rw [if_neg (not_not_intro rfl), u.parseStr_simple]

end TypedId

/-! ## Scopes -/

inductive ActivationScope where
  | global
  | bucket (bucketId : BucketId)
  | job (jobId : JobId)
  | probe (probeId : ProbeId)
  deriving DecidableEq, Repr

structure JobTriple where
  bucketId : BucketId
  jobId : JobId
  probeId : ProbeId
  deriving DecidableEq, Repr

namespace ActivationScope

def kindLabel : ActivationScope → Text
  | global => "global".toList
  | bucket _ => "bucket".toList
  | job _ => "job".toList
  | probe _ => "probe".toList

def valueWire (u : Uuids) : ActivationScope → Option Text
  | global => none
  | bucket bucketId => some (TypedId.toWireString u .bucket bucketId)
  | job jobId => some (TypedId.toWireString u .job jobId)
  | probe probeId => some (TypedId.toWireString u .probe probeId)

def matchesJob (ids : JobTriple) : ActivationScope → Bool
  | global => true
  | bucket want => want == ids.bucketId
  | job want => want == ids.jobId
  | probe want => want == ids.probeId

def parseValue (u : Uuids) (kind : TypedIdKind) (label : Text) (make : Nat → ActivationScope) :
    Option Text → Except Text ActivationScope
  | none => .error ("scope_kind=".toList ++ label ++ " but scope_value is NULL".toList)
  | some s =>
    match TypedId.parseWire u kind s with
    | .error e => .error (label ++ " scope: ".toList ++ e.display)
    | .ok raw => .ok (make raw)

def parseScope (u : Uuids) (kind : Option Text) (value : Option Text) :
    Except Text ActivationScope :=
  let kind := kind.getD "global".toList
  if kind = "global".toList then .ok global
  else if kind = "bucket".toList then parseValue u .bucket kind bucket value
  else if kind = "job".toList then parseValue u .job kind job value
  else if kind = "probe".toList then parseValue u .probe kind probe value
  else .error ("unknown scope_kind '".toList ++ kind ++ "'".toList)

theorem parseValue_wire (u : Uuids) (kind : TypedIdKind) (label : Text)
    (make : Nat → ActivationScope) (raw : Nat) :
    parseValue u kind label make (some (TypedId.toWireString u kind raw)) = .ok (make raw) := by
  unfold parseValue
  dsimp only
  rw [TypedId.parseWire_toWireString]

theorem parseScope_columns (u : Uuids) (scope : ActivationScope) :
    parseScope u (some scope.kindLabel) (scope.valueWire u) = .ok scope := by
  cases scope with
  | global => rfl
  | bucket bucketId => exact parseValue_wire u .bucket _ bucket bucketId
  | job jobId => exact parseValue_wire u .job _ job jobId
  | probe probeId => exact parseValue_wire u .probe _ probe probeId

theorem columns_inj (u : Uuids) {a b : ActivationScope} (hkind : a.kindLabel = b.kindLabel)
    (hvalue : a.valueWire u = b.valueWire u) : a = b := by
  have hb := parseScope_columns u b
  rw [← hkind, ← hvalue, parseScope_columns] at hb
  exact Except.ok.inj hb

end ActivationScope

end TerminalCommander
