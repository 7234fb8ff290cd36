import TerminalCommander.Daemon.Registry.LiveRules
import TerminalCommander.Lib.Handler

/-!
# The registry handlers

`registry_activate`, `registry_deactivate` and `registry_deactivate_bulk` after
`daemon/src/ipc/handlers/registry.rs`. A handler runs on the daemon's state and on a stream that
says how each access to the database goes. An access that fails leaves the tables as they are, and
the handler returns with what it has changed so far. Audit rows and the counts of rebound jobs are
left out.
-/

namespace TerminalCommander.Registry

inductive IpcErrorCode where
  | internal | ruleInvalid | ruleNotFound | ruleNotActive | scopeInvalid
  deriving DecidableEq, Repr

structure IpcError where
  code : IpcErrorCode
  message : Text
  deriving DecidableEq, Repr

def mapStoreError : EventStoreError → IpcError
  | .invalidPayload message => ⟨.ruleInvalid, message⟩
  | .sqlite reason => ⟨.internal, "sqlite error: ".toList ++ reason⟩

structure RulePackFile where
  pack : Text
  rules : List RuleDefinition
  deriving DecidableEq, Repr

structure SeedPacks where
  names : List Text
  resolve : Text → Option RulePackFile
  /-- The rules of a shipped pack have different ids. -/
  distinct : ∀ name file, resolve name = some file → (file.rules.map RuleDefinition.id).Nodup

structure Setup where
  x : Externals
  u : Uuids
  packs : SeedPacks
  /-- `example_failure_message`: why a rule contradicts its own examples, if it does. -/
  exampleFailureMessage : RuleDefinition → Option Text
  universalExtractors : Bool
  /-- The policy profile, as its `Debug` text. -/
  profile : Text

structure Daemon (g : Setup) where
  store : RuleStore
  activation : ActivationRegistry
  live : LiveMap g.x
  /-- The ids of the live file watches and PTY jobs. -/
  others : List JobTriple

abbrev Database := Nat → Except Text Text

structure Request (g : Setup) where
  daemon : Daemon g
  db : Database

variable {g : Setup}

abbrev RegistryM (g : Setup) := Handler IpcError (Request g)

def Database.rest (db : Database) : Database := fun n => db (n + 1)

def storeCall {α : Type} (call : Text → RuleStore → Except EventStoreError (α × RuleStore)) :
    RegistryM g α := fun c =>
  match c.db 0 with
  | .error reason => (.error (mapStoreError (.sqlite reason)), { c with db := c.db.rest })
  | .ok now =>
    match call now c.daemon.store with
    | .error e => (.error (mapStoreError e), { c with db := c.db.rest })
    | .ok (a, store) =>
      (.ok a, { daemon := { c.daemon with store := store }, db := c.db.rest })

variable {now : Text}

section StoreCall

variable {α : Type} {call : Text → RuleStore → Except EventStoreError (α × RuleStore)}
  {c : Request g}

theorem storeCall_fault {reason : Text} (hdb : c.db 0 = .error reason) :
    storeCall call c = (.error (mapStoreError (.sqlite reason)), ⟨c.daemon, c.db.rest⟩) := by
  unfold storeCall
  rw [hdb]

theorem storeCall_error {e : EventStoreError} (hdb : c.db 0 = .ok now)
    (hcall : call now c.daemon.store = .error e) :
    storeCall call c = (.error (mapStoreError e), ⟨c.daemon, c.db.rest⟩) := by
  unfold storeCall
  rw [hdb]
  dsimp only
  rw [hcall]

theorem storeCall_ok {a : α} {store : RuleStore} (hdb : c.db 0 = .ok now)
    (hcall : call now c.daemon.store = .ok (a, store)) :
    storeCall call c = (.ok a, ⟨{ c.daemon with store := store }, c.db.rest⟩) := by
  unfold storeCall
  rw [hdb]
  dsimp only
  rw [hcall]

theorem storeCall_eq_ok {a : α} {c' : Request g} (h : storeCall call c = (.ok a, c')) :
    ∃ now store, call now c.daemon.store = .ok (a, store) ∧
      c' = ⟨{ c.daemon with store := store }, c.db.rest⟩ := by
  rcases hdb : c.db 0 with reason | now
  · rw [storeCall_fault hdb] at h
    cases h
  · rcases hcall : call now c.daemon.store with e | ⟨a', store⟩
    · rw [storeCall_error hdb hcall] at h
      cases h
    · rw [storeCall_ok hdb hcall] at h
      cases h
      exact ⟨now, store, hcall, rfl⟩

end StoreCall

def storeRead {α : Type} (read : RuleStore → α) : RegistryM g α :=
  storeCall fun _ store => .ok (read store, store)

theorem storeRead_fault {α : Type} {read : RuleStore → α} {c : Request g} {reason : Text}
    (hdb : c.db 0 = .error reason) :
    storeRead read c = (.error (mapStoreError (.sqlite reason)), ⟨c.daemon, c.db.rest⟩) :=
  storeCall_fault hdb

theorem storeRead_ok {α : Type} {read : RuleStore → α} {c : Request g} (hdb : c.db 0 = .ok now) :
    storeRead read c = (.ok (read c.daemon.store), ⟨c.daemon, c.db.rest⟩) := storeCall_ok hdb rfl

def setActivation (change : ActivationRegistry → ActivationRegistry) : RegistryM g Unit :=
  Handler.modify fun c =>
    { c with daemon := { c.daemon with activation := change c.daemon.activation } }

/-! ## Checks -/

def requireScope (message : Text) : Option ActivationScope → RegistryM g ActivationScope
  | none => Handler.fail ⟨.scopeInvalid, message⟩
  | some scope => pure scope

def ruleNotFound (ruleId : Text) (version : Option Nat) : IpcError :=
  ⟨.ruleNotFound, aboutRule ruleId (match version with
    | none => "not found".toList
    | some v => "version ".toList ++ Text.ofNat v ++ " not found".toList)⟩

def lookupRuleDef (ruleId : Text) (version : Option Nat) : RegistryM g RuleDefinition := do
  let found ← storeRead fun store => store.lookup ruleId version
  match found with
  | some definition => pure definition
  | none => Handler.fail (ruleNotFound ruleId version)

def ruleNotEligible (definition : RuleDefinition) : IpcError :=
  ⟨.ruleNotActive,
    aboutRule definition.id ("v".toList ++ Text.ofNat definition.version ++
      " has status ".toList ++ definition.status.debug ++
      ", which is not runtime-eligible; only Active rules can be activated. ".toList ++
      "Remedy: re-upsert the rule with \"status\":\"active\" (then activate), ".toList ++
      "or pass it inline via the command's rules_json with \"status\":\"active\".".toList)⟩

def requireEligible (definition : RuleDefinition) : RegistryM g Unit :=
  if definition.status.isRuntimeEligible then pure ()
  else Handler.fail (ruleNotEligible definition)

def Daemon.liveIds (d : Daemon g) : List JobTriple := d.live.entries.map LiveJob.ids ++ d.others

def scopeField (u : Uuids) : ActivationScope → Text
  | .global => "global".toList
  | .bucket id => "bucket_id=".toList ++ TypedId.toWireString u .bucket id
  | .job id => "job_id=".toList ++ TypedId.toWireString u .job id
  | .probe id => "probe_id=".toList ++ TypedId.toWireString u .probe id

def Daemon.scopeIsLive (d : Daemon g) (scope : ActivationScope) : Bool :=
  match scope with
  | .global => true
  | _ => d.liveIds.any fun ids => scope.matchesJob ids

def scopeNotLive (u : Uuids) (scope : ActivationScope) : IpcError :=
  ⟨.scopeInvalid, "scope ".toList ++ scopeField u scope ++
    " does not resolve to a live job, watch, or pty".toList⟩

def validateScopeAgainstLiveJobs (scope : ActivationScope) : RegistryM g Unit := do
  let c ← Handler.get
  if c.daemon.scopeIsLive scope then pure () else Handler.fail (scopeNotLive g.u scope)

/-! ## `registry_upsert` -/

def handleRegistryUpsert (definition : RuleDefinition) : RegistryM g Nat := do
  Handler.ofExcept (match definition.validate g.x with
    | .error e => .error ⟨.ruleInvalid, e.display⟩
    | .ok () => .ok ())
  Handler.ofExcept (match g.exampleFailureMessage definition with
    | some message => .error ⟨.ruleInvalid, message⟩
    | none => .ok ())
  storeCall fun _ store => store.createRuleVersion g.x definition

/-! ## Changes of the active set -/

def openActivation (definition : RuleDefinition) (scope : ActivationScope) : RegistryM g Unit := do
  storeCall fun now store =>
    (store.recordActivationScoped g.u now definition.id definition.version scope (some g.profile)
      (some "ipc".toList)).map fun store => ((), store)
  setActivation fun r => r.activate definition scope

def closeActivation (ruleId : Text) (scope : ActivationScope) (version : Nat) :
    RegistryM g Unit := do
  let _ ← storeCall fun now store =>
    .ok (store.deactivateRuleScoped g.u now ruleId version scope)
  setActivation fun r => r.deactivate ruleId version scope

def rebindScope (scope : ActivationScope) : RegistryM g Unit :=
  Handler.modify fun c =>
    { c with daemon := { c.daemon with
        live := (rebindJobsInScope (some scope) c.daemon.activation c.daemon.live).2 } }

def supersededVersions (u : Uuids) (r : ActivationRegistry) (ruleId : Text) (version : Nat)
    (scope : ActivationScope) : List Nat :=
  ((r.activeVersionsForScope u ruleId scope).filter (· ≠ version)).insertionSort (· ≤ ·)

/-! ## `registry_activate` -/

structure RegistryActivateParams where
  ruleId : Text
  version : Option Nat
  scope : Option ActivationScope
  deriving DecidableEq, Repr

structure RegistryActivateResponse where
  ruleId : Text
  version : Nat
  wasAlreadyActive : Bool
  scope : ActivationScope
  supersededVersions : List Nat
  deriving DecidableEq, Repr

def activateInScope (definition : RuleDefinition) (scope : ActivationScope) :
    RegistryM g (List Nat) := do
  openActivation definition scope
  let c ← Handler.get
  let superseded :=
    supersededVersions g.u c.daemon.activation definition.id definition.version scope
  Handler.forEach (closeActivation definition.id scope) superseded
  rebindScope scope
  pure superseded

def handleRegistryActivate (params : RegistryActivateParams) :
    RegistryM g RegistryActivateResponse := do
  let scope ← requireScope
    "scope is required; pass \x7bkind:'global'\x7d for explicit global activation".toList
    params.scope
  let definition ← lookupRuleDef params.ruleId params.version
  requireEligible definition
  validateScopeAgainstLiveJobs scope
  let before ← Handler.get
  let superseded ← activateInScope definition scope
  pure {
    ruleId := definition.id
    version := definition.version
    wasAlreadyActive := before.daemon.activation.isActive definition.id definition.version scope
    scope := scope
    supersededVersions := superseded }

/-! ## `registry_deactivate` -/

structure RegistryDeactivateParams where
  ruleId : Text
  version : Nat
  scope : Option ActivationScope
  deriving DecidableEq, Repr

structure RegistryDeactivateResponse where
  ruleId : Text
  version : Nat
  wasDeactivated : Bool
  scope : ActivationScope
  deriving DecidableEq, Repr

def activeHint : List Nat → Text
  | [] => "no active version under this scope (it may be active under a different ".toList ++
      "scope; check registry_list_active)".toList
  | [v] => "active version is ".toList ++ Text.ofNat v
  | vs => "active versions are [".toList ++ Text.join ", ".toList (vs.map Text.ofNat) ++
      "]".toList

def notActiveError (u : Uuids) (r : ActivationRegistry) (ruleId : Text) (version : Nat)
    (scope : ActivationScope) : IpcError :=
  let scopeDesc := match scope.valueWire u with
    | none => scope.kindLabel
    | some value => scope.kindLabel ++ "=".toList ++ value
  ⟨.ruleNotActive,
    "no active row for rule '".toList ++ ruleId ++ "' v".toList ++ Text.ofNat version ++
      " scope ".toList ++ scopeDesc ++ "; ".toList ++
      activeHint (r.activeVersionsForScope u ruleId scope)⟩

def deactivateInScope (ruleId : Text) (version : Nat) (scope : ActivationScope)
    (wasPersisted : Bool) : RegistryM g RegistryDeactivateResponse := do
  let c ← Handler.get
  let wasInMemory := c.daemon.activation.isActive ruleId version scope
  if wasInMemory = false ∧ wasPersisted = false then
    Handler.fail (notActiveError g.u c.daemon.activation ruleId version scope)
  else do
    setActivation fun r => r.deactivate ruleId version scope
    rebindScope scope
    pure ⟨ruleId, version, wasInMemory || wasPersisted, scope⟩

def handleRegistryDeactivate (params : RegistryDeactivateParams) :
    RegistryM g RegistryDeactivateResponse := do
  let scope ← requireScope
    "scope is required; pass \x7bkind:'global'\x7d for explicit global deactivation".toList
    params.scope
  validateScopeAgainstLiveJobs scope
  let wasPersisted ← storeCall fun now store =>
    .ok (store.deactivateRuleScoped g.u now params.ruleId params.version scope)
  deactivateInScope params.ruleId params.version scope wasPersisted

/-! ## `registry_deactivate_bulk` -/

structure RegistryDeactivateBulkParams where
  pack : Option Text
  ruleIds : Option (List Text)
  scope : ActivationScope
  deriving DecidableEq, Repr

inductive BulkOutcomeKind where
  | deactivated | notActive | unknownRule
  deriving DecidableEq, Repr

structure BulkDeactivateOutcome where
  ruleId : Text
  version : Option Nat
  outcome : BulkOutcomeKind
  deriving DecidableEq, Repr

def unknownPackMessage (packs : SeedPacks) (pack : Text) : Text :=
  "unknown rule pack '".toList ++ pack ++ "'; known packs: ".toList ++
    Text.join ", ".toList packs.names

def bulkRuleIds (packs : SeedPacks) (params : RegistryDeactivateBulkParams) :
    Except IpcError (List Text) :=
  match params.pack, params.ruleIds with
  | some pack, none =>
    match packs.resolve pack with
    | some file => .ok (file.rules.map RuleDefinition.id)
    | none => .error ⟨.ruleInvalid, unknownPackMessage packs pack⟩
  | none, some ids => .ok ids
  | _, _ => .error ⟨.ruleInvalid,
      ("exactly one of 'pack' or 'rule_ids' must be provided ".toList ++
        "(not both, not neither)".toList)⟩

def closeBulk (scope : ActivationScope) (ruleId : Text) (known : Bool) :
    RegistryM g BulkDeactivateOutcome := do
  let c ← Handler.get
  let activeVersions := c.daemon.activation.activeVersionsForScope g.u ruleId scope
  if known = false then pure ⟨ruleId, none, .unknownRule⟩
  else if activeVersions = [] then pure ⟨ruleId, none, .notActive⟩
  else do
    Handler.forEach (closeActivation ruleId scope) activeVersions
    pure ⟨ruleId, activeVersions.max?, .deactivated⟩

def bulkRule (scope : ActivationScope) (ruleId : Text) : RegistryM g BulkDeactivateOutcome := do
  let known ← storeRead fun store => store.knows ruleId
  closeBulk scope ruleId known

def handleRegistryDeactivateBulk (params : RegistryDeactivateBulkParams) :
    RegistryM g (List BulkDeactivateOutcome) := do
  let ruleIds ← Handler.ofExcept (bulkRuleIds g.packs params)
  validateScopeAgainstLiveJobs params.scope
  let outcomes ← Handler.mapEach (bulkRule params.scope) ruleIds
  rebindScope params.scope
  pure outcomes

end TerminalCommander.Registry
