import TerminalCommander.Daemon.Registry.Handlers

/-!
# `registry_import_pack`

The import of a built-in rule pack, after `import_parsed_pack` of `store/src/import.rs` and
`handle_registry_import_pack`. A rule whose content equals that of the latest stored version is
skipped. With `activate`, the imported rules are activated one by one; what goes wrong with one of
them is reported and does not stop the others.
-/

namespace TerminalCommander.Registry

variable {g : Setup}

def content (definition : RuleDefinition) : RuleDefinition :=
  { definition with version := 0, status := .draft }

def patternRefused (x : Externals) (rule : RuleDefinition) : Bool :=
  rule.kind == .regex &&
    match rule.pattern with
    | none => true
    | some pattern =>
      match x.compileBoundedRegex pattern with
      | .ok _ => false
      | .error _ => true

def importable (x : Externals) (rule : RuleDefinition) : Bool :=
  (match rule.validate x with
    | .ok () => true
    | .error _ => false) && !patternRefused x rule

def importRule (rule : RuleDefinition) : RegistryM g Bool :=
  if importable g.x rule = false then pure false
  else do
    let stored ← storeRead fun store => store.getLatestRule rule.id
    if stored.map content = some (content rule) then pure false
    else do
      let _ ← storeCall fun _ store => store.createRuleVersion g.x rule
      pure true

def promote (rule : RuleDefinition) : RuleDefinition := { rule with status := .active }

def promoted (promoteActive : Bool) (rules : List RuleDefinition) : List RuleDefinition :=
  if promoteActive then rules.map promote else rules

structure ImportResult where
  pack : Text
  imported : List Text
  skipped : List Text
  deriving DecidableEq, Repr

def idsWith (flag : Bool) (rules : List RuleDefinition) (flags : List Bool) : List Text :=
  ((rules.zip flags).filter fun p => p.2 == flag).map fun p => p.1.id

def importRulePackByName (name : Text) (promoteActive : Bool) : RegistryM g ImportResult := do
  let file ← Handler.ofExcept (match g.packs.resolve name with
    | some file => .ok file
    | none => .error ⟨.ruleInvalid, unknownPackMessage g.packs name⟩)
  let rules := promoted promoteActive file.rules
  let flags ← Handler.mapEach importRule rules
  pure ⟨file.pack, idsWith true rules flags, idsWith false rules flags⟩

structure RegistryImportPackParams where
  pack : Text
  activate : Bool
  scope : Option ActivationScope
  deriving DecidableEq, Repr

structure RegistryImportFailure where
  ruleId : Text
  reason : Text
  deriving DecidableEq, Repr

structure RegistryImportPackResponse where
  pack : Text
  imported : List Text
  skipped : List Text
  activated : List Text
  failed : List RegistryImportFailure
  deriving DecidableEq, Repr

def packExampleFailureMessage (g : Setup) (pack : Text) : Option Text :=
  (g.packs.resolve pack).bind fun file =>
    file.rules.findSome? fun rule => (g.exampleFailureMessage rule).map fun message =>
      "built-in pack '".toList ++ pack ++ "': ".toList ++ message

abbrev ActivateOutcome := Text × Except IpcError RegistryActivateResponse

def ActivateOutcome.activated? : ActivateOutcome → Option Text
  | (ruleId, .ok _) => some ruleId
  | (_, .error _) => none

def ActivateOutcome.failure? : ActivateOutcome → Option RegistryImportFailure
  | (_, .ok _) => none
  | (ruleId, .error e) => some ⟨ruleId, e.message⟩

def attemptActivate (scope : ActivationScope) (ruleId : Text) : RegistryM g ActivateOutcome := do
  let r ← Handler.attempt (handleRegistryActivate ⟨ruleId, none, some scope⟩)
  pure (ruleId, r)

def activateImportedRules (ruleIds : List Text) (scope : ActivationScope) :
    RegistryM g (List Text × List RegistryImportFailure) := do
  let outcomes ← Handler.mapEach (attemptActivate scope) ruleIds
  pure (outcomes.filterMap ActivateOutcome.activated?,
    outcomes.filterMap ActivateOutcome.failure?)

def activateIfAsked (activate : Bool) (scope : Option ActivationScope) (imported : List Text) :
    RegistryM g (List Text × List RegistryImportFailure) :=
  match activate, scope with
  | true, some scope => activateImportedRules imported scope
  | _, _ => pure ([], [])

def handleRegistryImportPack (params : RegistryImportPackParams) :
    RegistryM g RegistryImportPackResponse := do
  Handler.ofExcept (if params.activate = true ∧ params.scope = none then
    .error ⟨.scopeInvalid, "scope is required when activate=true; pass \x7bkind:'global'\x7d ".toList ++
      "for explicit global activation".toList⟩
  else .ok ())
  Handler.ofExcept (match packExampleFailureMessage g params.pack with
    | some message => .error ⟨.ruleInvalid, message⟩
    | none => .ok ())
  let result ← importRulePackByName params.pack params.activate
  let outcomes ← activateIfAsked params.activate params.scope result.imported
  pure ⟨result.pack, result.imported, result.skipped, outcomes.1, outcomes.2⟩

end TerminalCommander.Registry
