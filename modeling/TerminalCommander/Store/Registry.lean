import Mathlib.Data.List.Sort
import TerminalCommander.Core.Activation
import TerminalCommander.Core.Rule
import TerminalCommander.Lib.Upsert

/-!
# The registry tables

The tables `rules`, `rule_versions` and `rule_activations` and the functions on them, after
`store/src/registry.rs` and the migrations `V0002` and `V0004`. A function returns the new tables
only when it succeeds. The stored definition is the `RuleDefinition` itself; rows are ordered by the
time of an insert or update as texts.
-/

namespace TerminalCommander

structure RuleRow where
  ruleId : Text
  latestVersion : Nat
  tombstoned : Bool
  deriving DecidableEq, Repr

structure RuleVersionRow where
  ruleId : Text
  version : Nat
  definition : RuleDefinition
  deriving DecidableEq, Repr

structure ActivationRow where
  ruleId : Text
  version : Nat
  activatedAt : Text
  deactivatedAt : Option Text
  profile : Option Text
  actor : Option Text
  scopeKind : Text
  scopeValue : Option Text
  deriving DecidableEq, Repr

structure RuleStore where
  rules : List RuleRow
  versions : List RuleVersionRow
  activations : List ActivationRow
  deriving DecidableEq, Repr

inductive EventStoreError where
  | sqlite (reason : Text)
  | invalidPayload (message : Text)
  deriving DecidableEq, Repr

structure ActivationEntry where
  definition : RuleDefinition
  scope : ActivationScope
  deriving DecidableEq, Repr

namespace RuleStore

def empty : RuleStore := ⟨[], [], []⟩

/-! ## Versions -/

def ruleRow? (store : RuleStore) (ruleId : Text) : Option RuleRow :=
  store.rules.find? fun row => row.ruleId == ruleId

def versionRow? (store : RuleStore) (ruleId : Text) (version : Nat) : Option RuleVersionRow :=
  store.versions.find? fun row => row.ruleId == ruleId && row.version == version

def getRuleVersion (store : RuleStore) (ruleId : Text) (version : Nat) : Option RuleDefinition :=
  (store.versionRow? ruleId version).map RuleVersionRow.definition

def getLatestRule (store : RuleStore) (ruleId : Text) : Option RuleDefinition :=
  match store.ruleRow? ruleId with
  | none => none
  | some row =>
    if row.latestVersion = 0 then none else store.getRuleVersion ruleId row.latestVersion

def lookup (store : RuleStore) (ruleId : Text) : Option Nat → Option RuleDefinition
  | some v => store.getRuleVersion ruleId v
  | none => store.getLatestRule ruleId

def knows (store : RuleStore) (ruleId : Text) : Bool :=
  (store.getLatestRule ruleId).isSome

def setLatest (store : RuleStore) (ruleId : Text) (latest next : Nat) : List RuleRow :=
  if latest = 0 then store.rules ++ [⟨ruleId, next, false⟩]
  else store.rules.map fun row =>
    if row.ruleId = ruleId then { row with latestVersion := next } else row

def createRuleVersion (x : Externals) (definition : RuleDefinition) (store : RuleStore) :
    Except EventStoreError (Nat × RuleStore) :=
  match definition.validate x with
  | .error e => .error (.invalidPayload e.display)
  | .ok () =>
    let row := store.ruleRow? definition.id
    if (row.map RuleRow.tombstoned).getD false then
      .error (.invalidPayload
        (aboutRule definition.id "is tombstoned; cannot add a new version".toList))
    else
      let latest := (row.map RuleRow.latestVersion).getD 0
      let next := min (latest + 1) u32Max
      -- the primary keys of `rules`, `rule_versions` and `rule_tags`
      if latest = 0 ∧ row.isSome then
        .error (.sqlite "UNIQUE constraint failed: rules.rule_id".toList)
      else if (store.versionRow? definition.id next).isSome then
        .error (.sqlite
          "UNIQUE constraint failed: rule_versions.rule_id, rule_versions.version".toList)
      else if ¬definition.tags.Nodup then
        .error (.sqlite ("UNIQUE constraint failed: rule_tags.rule_id, ".toList ++
          "rule_tags.version, rule_tags.tag".toList))
      else
        .ok (next,
          { store with
            rules := store.setLatest definition.id latest next
            versions := store.versions ++
              [⟨definition.id, next, { definition with version := next }⟩] })

/-! ## Activations -/

variable (u : Uuids)

def openFor (ruleId : Text) (version : Nat) (scope : ActivationScope) (row : ActivationRow) :
    Bool :=
  Sql.Truth.holds <|
    (Sql.eq (some row.ruleId) (some ruleId)).and <|
    (Sql.eq (some row.version) (some version)).and <|
    (Sql.eq (some row.scopeKind) (some scope.kindLabel)).and <|
    (((Sql.is (scope.valueWire u) none).and (Sql.is row.scopeValue none)).or
      (Sql.eq row.scopeValue (scope.valueWire u))).and <|
    Sql.is row.deactivatedAt none

def openRows (store : RuleStore) (ruleId : Text) (version : Nat) (scope : ActivationScope) :
    List ActivationRow :=
  store.activations.filter (openFor u ruleId version scope)

def recordActivationScoped (now : Text) (ruleId : Text) (version : Nat) (scope : ActivationScope)
    (profile actor : Option Text) (store : RuleStore) : Except EventStoreError RuleStore :=
  if 0 < (store.openRows u ruleId version scope).length then .ok store
  else if store.activations.any fun row =>
      row.ruleId == ruleId && row.version == version && row.activatedAt == now then
    .error (.sqlite ("UNIQUE constraint failed: rule_activations.rule_id, ".toList ++
      "rule_activations.version, rule_activations.activated_at".toList))
  else if (store.versionRow? ruleId version).isNone then
    .error (.sqlite "FOREIGN KEY constraint failed".toList)
  else
    .ok { store with
      activations := store.activations ++
        [⟨ruleId, version, now, none, profile, actor, scope.kindLabel, scope.valueWire u⟩] }

def close (now : Text) (row : ActivationRow) : ActivationRow :=
  { row with deactivatedAt := some now }

def deactivateRuleScoped (now : Text) (ruleId : Text) (version : Nat) (scope : ActivationScope)
    (store : RuleStore) : Bool × RuleStore :=
  (decide (0 < (store.openRows u ruleId version scope).length),
    { store with
      activations := store.activations.map fun row =>
        if openFor u ruleId version scope row then close now row else row })

def activeJoin (store : RuleStore) : List (ActivationRow × RuleVersionRow) :=
  ((store.activations.insertionSort fun a b => Text.le a.activatedAt b.activatedAt = true).filter
      fun row => row.deactivatedAt.isNone).flatMap fun row =>
    (store.versions.filter fun version =>
      version.ruleId == row.ruleId && version.version == row.version).map fun version =>
        (row, version)

def listActiveRuleDefsScoped (store : RuleStore) :
    Except EventStoreError (List ActivationEntry) :=
  store.activeJoin.mapM fun (row, version) =>
    match ActivationScope.parseScope u (some row.scopeKind) row.scopeValue with
    | .error message => .error (.invalidPayload message)
    | .ok scope => .ok ⟨version.definition, scope⟩

theorem getLatestRule_congr {store store' : RuleStore} (hrules : store'.rules = store.rules)
    (hvers : store'.versions = store.versions) : store'.getLatestRule = store.getLatestRule := by
  funext ruleId
  unfold getLatestRule ruleRow? getRuleVersion versionRow?
  rw [hrules, hvers]

theorem openFor_iff {ruleId : Text} {version : Nat} {scope : ActivationScope}
    {row : ActivationRow} : openFor u ruleId version scope row ↔
      row.ruleId = ruleId ∧ row.version = version ∧ row.scopeKind = scope.kindLabel ∧
        row.scopeValue = scope.valueWire u ∧ row.deactivatedAt = none := by
  unfold openFor
  cases hv : scope.valueWire u with
  | none => simp
  | some value => simp

theorem deactivateRuleScoped_of_nil {now ruleId : Text} {version : Nat} {scope : ActivationScope}
    {store : RuleStore} (h : store.openRows u ruleId version scope = []) :
    (store.deactivateRuleScoped u now ruleId version scope).2 = store := by
  have hrows : (store.activations.map fun row =>
      if openFor u ruleId version scope row then close now row else row) = store.activations := by
    refine (List.map_congr_left fun row hrow => ?_).trans (List.map_id _)
    exact if_neg (List.filter_eq_nil_iff.mp h row hrow)
  unfold deactivateRuleScoped
  rw [hrows]

end RuleStore

/-! ## Search queries

Whatever the agent's text, the query made of it is a row of string literals. -/

open List

def doubled (word : Text) : Text := word.flatMap fun c => if c = '"' then ['"', '"'] else [c]

def fts5QuoteTerms (query : Text) : Text :=
  Text.join [' '] (query.splitWhitespace.map fun word => '"' :: doubled word ++ ['"'])

/-- How a query is read, with the open literal: a doubled `"` in it stands for one. -/
def literals : Option Text → Text → Option (List Text)
  | none, [] => some []
  | none, c :: rest =>
    if c = ' ' then literals none rest else if c = '"' then literals (some []) rest else none
  | some _, [] => none
  | some word, '"' :: '"' :: rest => literals (some (word ++ ['"'])) rest
  | some word, c :: rest =>
    if c = '"' then (literals none rest).map (word :: ·) else literals (some (word ++ [c])) rest

theorem literals_doubled (word rest : Text) (h : rest.head? ≠ some '"') : ∀ front,
    literals (some front) (doubled word ++ '"' :: rest) =
      (literals none rest).map ((front ++ word) :: ·) := by
  unfold doubled
  induction word with
  | nil =>
    intro front
    rw [flatMap_nil, nil_append, literals, if_pos rfl, append_nil]
    rintro t - rfl
    exact h rfl
  | cons c word ih =>
    intro front
    rw [flatMap_cons, append_assoc]
    split_ifs with hc
    · subst hc
      exact (ih (front ++ ['"'])).trans (by simp)
    · rw [singleton_append, literals, if_neg hc, ih]
      · simp
      · exact fun _ hquote _ => hc hquote

theorem fts5QuoteTerms_literals (query : Text) :
    literals none (fts5QuoteTerms query) = some query.splitWhitespace := by
  unfold fts5QuoteTerms Text.join
  induction query.splitWhitespace with
  | nil => rfl
  | cons word words ih =>
    cases words with
    | nil => simpa [literals] using literals_doubled word [] nofun []
    | cons next words =>
      rw [map_cons] at ih
      rw [map_cons, map_cons, intercalate_cons_cons]
      generalize [' '].intercalate _ = rest at ih ⊢
      simpa [literals, ih] using literals_doubled word (' ' :: rest) (by simp) []

end TerminalCommander
