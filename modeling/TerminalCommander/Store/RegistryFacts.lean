import TerminalCommander.Store.Registry

/-!
# The open rows of the registry tables

What each write does to the open rows of a rule, version and scope and to the stored versions, and
what the list of active rules contains when the tables are well formed.
-/

namespace TerminalCommander.RuleStore

open List Option ActivationScope RuleRow Bool

variable {u : Uuids} {store : RuleStore}

structure WellFormed (u : Uuids) (store : RuleStore) : Prop where
  /-- A stored definition carries the id and version of its row. -/
  stamped : ∀ row ∈ store.versions,
    row.definition.id = row.ruleId ∧ row.definition.version = row.version
  /-- The primary key of `rule_versions`. -/
  versionKeys : ∀ row ∈ store.versions, ∀ row' ∈ store.versions,
    row.ruleId = row'.ruleId → row.version = row'.version → row = row'
  /-- The foreign key of `rule_activations`. -/
  foreign : ∀ row ∈ store.activations, (store.versionRow? row.ruleId row.version).isSome
  scopes : ∀ row ∈ store.activations, ∃ scope : ActivationScope,
    row.scopeKind = scope.kindLabel ∧ row.scopeValue = scope.valueWire u
  onePerKey : ∀ ruleId version scope, (store.openRows u ruleId version scope).length ≤ 1

theorem wellFormed_empty (u : Uuids) : WellFormed u empty where
  stamped := fun _ h => (not_mem_nil h).elim
  versionKeys := fun _ h => (not_mem_nil h).elim
  foreign := fun _ h => (not_mem_nil h).elim
  scopes := fun _ h => (not_mem_nil h).elim
  onePerKey := fun _ _ _ => Nat.zero_le 1

/-! ## Versions -/

variable {row : RuleVersionRow} {version : Nat} {ruleId : Text}

theorem versionRow?_eq_some (h : store.versionRow? ruleId version = some row) :
    row ∈ store.versions ∧ row.ruleId = ruleId ∧ row.version = version := by
  have hkey := find?_some h
  rw [and_eq_true, beq_iff_eq, beq_iff_eq] at hkey
  exact ⟨mem_of_find?_eq_some h, hkey⟩

variable {definition : RuleDefinition}

section

variable (hw : WellFormed u store)

include hw

theorem WellFormed.getRuleVersion_ref (h : store.getRuleVersion ruleId version = some definition) :
    definition.id = ruleId ∧ definition.version = version := by
  obtain ⟨row, hrow, rfl⟩ := map_eq_some_iff.mp h
  obtain ⟨hmem, hid, hver⟩ := versionRow?_eq_some hrow
  obtain ⟨hsid, hsversion⟩ := hw.stamped row hmem
  exact ⟨hsid.trans hid, hsversion.trans hver⟩

theorem WellFormed.lookup_stored {version : Option Nat}
    (h : store.lookup ruleId version = some definition) :
    store.getRuleVersion definition.id definition.version = some definition := by
  have hstored : ∀ {v : Nat}, store.getRuleVersion ruleId v = some definition →
      store.getRuleVersion definition.id definition.version = some definition := by
    intro v hv
    obtain ⟨hid, hver⟩ := hw.getRuleVersion_ref hv
    rw [hid, hver]
    exact hv
  cases version with
  | some v => exact hstored h
  | none =>
    have h : store.getLatestRule ruleId = some definition := h
    unfold getLatestRule at h
    split at h
    · cases h
    · split_ifs at h
      exact hstored h

theorem WellFormed.getLatestRule_id (h : store.getLatestRule ruleId = some definition) :
    definition.id = ruleId := by
  unfold getLatestRule at h
  split at h
  · cases h
  · split_ifs at h
    exact (hw.getRuleVersion_ref h).1

theorem WellFormed.getRuleVersion_of_mem (h : row ∈ store.versions) :
    store.getRuleVersion row.ruleId row.version = some row.definition := by
  unfold getRuleVersion
  rcases hfind : store.versionRow? row.ruleId row.version with _ | row'
  · have hnone := find?_eq_none.mp hfind row h
    rw [and_eq_true, beq_iff_eq, beq_iff_eq] at hnone
    exact absurd ⟨rfl, rfl⟩ hnone
  · obtain ⟨hmem, hid, hver⟩ := versionRow?_eq_some hfind
    rw [hw.versionKeys row' hmem row h hid hver]
    rfl

end

/-! ## Closing -/

variable {scope : ActivationScope} {now : Text}

theorem openFor_close
    {row : ActivationRow} : openFor u ruleId version scope (close now row) = false := by
  rw [eq_false_iff]
  intro h
  obtain ⟨-, -, -, -, hopen⟩ := (openFor_iff u).mp h
  cases hopen

variable {ruleId' : Text}

theorem openFor_unique {version' : Nat} {scope' : ActivationScope} {row : ActivationRow}
    (h : openFor u ruleId version scope row) (h' : openFor u ruleId' version' scope' row) :
    (ruleId', version', scope') = (ruleId, version, scope) := by
  obtain ⟨hid, hver, hkind, hvalue, -⟩ := (openFor_iff u).mp h
  obtain ⟨hid', hver', hkind', hvalue', -⟩ := (openFor_iff u).mp h'
  have hscope : scope' = scope :=
    columns_inj u (hkind'.symm.trans hkind) (hvalue'.symm.trans hvalue)
  rw [hscope, ← hid, ← hid', ← hver, ← hver']

theorem openRows_deactivate (now ruleId : Text) (version : Nat) (scope : ActivationScope)
    (ruleId' : Text) (version' : Nat) (scope' : ActivationScope) :
    (store.deactivateRuleScoped u now ruleId version scope).2.openRows u ruleId' version' scope' =
      if (ruleId', version', scope') = (ruleId, version, scope) then []
      else store.openRows u ruleId' version' scope' := by
  unfold openRows deactivateRuleScoped
  dsimp only
  induction store.activations with
  | nil =>
    rw [map_nil, filter_nil, ite_self]
  | cons row rows ih =>
    rw [map_cons, filter_cons, filter_cons, ih]
    by_cases hrow : openFor u ruleId version scope row
    · rw [if_pos hrow, openFor_close, if_neg Bool.false_ne_true]
      by_cases hkey : (ruleId', version', scope') = (ruleId, version, scope)
      · rw [if_pos hkey, if_pos hkey]
      · rw [if_neg hkey, if_neg hkey, if_neg fun h => hkey (openFor_unique hrow h)]
    · rw [if_neg hrow]
      by_cases hkey : (ruleId', version', scope') = (ruleId, version, scope)
      · rw [if_pos hkey, if_pos hkey]
        cases hkey
        rw [if_neg hrow]
      · rw [if_neg hkey, if_neg hkey]

theorem WellFormed.deactivate (hw : WellFormed u store) (now ruleId : Text) (version : Nat)
    (scope : ActivationScope) :
    WellFormed u (store.deactivateRuleScoped u now ruleId version scope).2 where
  stamped := hw.stamped
  versionKeys := hw.versionKeys
  foreign := by
    intro row hrow
    obtain ⟨old, hold, rfl⟩ := List.mem_map.mp hrow
    have hforeign := hw.foreign old hold
    split_ifs
    · exact hforeign
    · exact hforeign
  scopes := by
    intro row hrow
    obtain ⟨old, hold, rfl⟩ := List.mem_map.mp hrow
    obtain ⟨s, hs⟩ := hw.scopes old hold
    refine ⟨s, ?_⟩
    split_ifs
    · exact hs
    · exact hs
  onePerKey := by
    intro ruleId' version' scope'
    rw [openRows_deactivate]
    split_ifs
    · exact Nat.zero_le 1
    · exact hw.onePerKey ruleId' version' scope'

/-! ## Recording -/

def newRow (u : Uuids) (now ruleId : Text) (version : Nat) (scope : ActivationScope)
    (profile actor : Option Text) : ActivationRow :=
  ⟨ruleId, version, now, none, profile, actor, scope.kindLabel, scope.valueWire u⟩

variable {profile actor : Option Text}

theorem openFor_newRow {version' : Nat} {scope' : ActivationScope} :
    openFor u ruleId' version' scope' (newRow u now ruleId version scope profile actor) ↔
      (ruleId', version', scope') = (ruleId, version, scope) := by
  have hself : openFor u ruleId version scope
      (newRow u now ruleId version scope profile actor) :=
    (openFor_iff u).mpr ⟨rfl, rfl, rfl, rfl, rfl⟩
  constructor
  · exact openFor_unique hself
  · intro h
    cases h
    exact hself

variable {store' : RuleStore}

theorem record_cases
    (h : store.recordActivationScoped u now ruleId version scope profile actor = .ok store') :
    (store.openRows u ruleId version scope ≠ [] ∧ store' = store) ∨
    (store.openRows u ruleId version scope = [] ∧ (store.versionRow? ruleId version).isSome ∧
      store' = { store with
        activations := store.activations ++
          [newRow u now ruleId version scope profile actor] }) := by
  unfold recordActivationScoped at h
  split_ifs at h with hopen htime hfor
  · cases h
    exact Or.inl ⟨length_pos_iff.mp hopen, rfl⟩
  · cases h
    refine Or.inr ⟨length_eq_zero_iff.mp (Nat.eq_zero_of_not_pos hopen), ?_, rfl⟩
    rw [isNone_iff_eq_none] at hfor
    exact isSome_iff_ne_none.mpr hfor

theorem openRows_insert (row : ActivationRow) (ruleId' : Text) (version' : Nat)
    (scope' : ActivationScope) :
    openRows u { store with activations := store.activations ++ [row] } ruleId' version' scope' =
      store.openRows u ruleId' version' scope' ++
        if openFor u ruleId' version' scope' row then [row] else [] := by
  unfold openRows
  rw [filter_append, filter_singleton]
  cases openFor u ruleId' version' scope' row <;> rfl

theorem WellFormed.insert (hw : WellFormed u store)
    (hnone : store.openRows u ruleId version scope = [])
    (hfor : (store.versionRow? ruleId version).isSome) : WellFormed u { store with
      activations := store.activations ++
        [newRow u now ruleId version scope profile actor] } where
  stamped := hw.stamped
  versionKeys := hw.versionKeys
  foreign := by
    intro row hrow
    rcases mem_append.mp hrow with hrow | hrow
    · exact hw.foreign row hrow
    · rw [mem_singleton.mp hrow]
      exact hfor
  scopes := by
    intro row hrow
    rcases mem_append.mp hrow with hrow | hrow
    · exact hw.scopes row hrow
    · rw [mem_singleton.mp hrow]
      exact ⟨scope, rfl, rfl⟩
  onePerKey := by
    intro ruleId' version' scope'
    rw [openRows_insert]
    by_cases hkey : (ruleId', version', scope') = (ruleId, version, scope)
    · cases hkey
      rw [hnone, if_pos (openFor_newRow.mpr rfl)]
      exact Nat.le_refl 1
    · rw [if_neg fun h => hkey (openFor_newRow.mp h), append_nil]
      exact hw.onePerKey ruleId' version' scope'

theorem openRows_record
    (h : store.recordActivationScoped u now ruleId version scope profile actor = .ok store')
    (ruleId' : Text) (version' : Nat) (scope' : ActivationScope) :
    store'.openRows u ruleId' version' scope' ≠ [] ↔
      (ruleId', version', scope') = (ruleId, version, scope) ∨
        store.openRows u ruleId' version' scope' ≠ [] := by
  rcases record_cases h with ⟨hopen, rfl⟩ | ⟨hnone, -, rfl⟩
  · refine (or_iff_right_of_imp fun hkey => ?_).symm
    cases hkey
    exact hopen
  · rw [openRows_insert]
    by_cases hkey : (ruleId', version', scope') = (ruleId, version, scope)
    · rw [if_pos (openFor_newRow.mpr hkey)]
      exact iff_of_true (append_ne_nil_of_right_ne_nil _ (cons_ne_nil _ _)) (Or.inl hkey)
    · rw [if_neg fun h => hkey (openFor_newRow.mp h), append_nil]
      exact (or_iff_right hkey).symm

theorem WellFormed.record (hw : WellFormed u store)
    (h : store.recordActivationScoped u now ruleId version scope profile actor = .ok store') :
    WellFormed u store' ∧ store'.versions = store.versions := by
  rcases record_cases h with ⟨-, rfl⟩ | ⟨hnone, hfor, rfl⟩
  · exact ⟨hw, rfl⟩
  · exact ⟨hw.insert hnone hfor, rfl⟩

/-! ## New versions -/

variable {next : Nat} {x : Externals}

theorem create_versions (h : store.createRuleVersion x definition = .ok (next, store')) :
    store'.activations = store.activations ∧ store.versionRow? definition.id next = none ∧
      store'.versions = store.versions ++
        [⟨definition.id, next, { definition with version := next }⟩] := by
  unfold createRuleVersion at h
  split at h
  · cases h
  · dsimp only at h
    split_ifs at h with htomb hrow hkey htags
    cases h
    rw [not_isSome_iff_eq_none] at hkey
    exact ⟨rfl, hkey, rfl⟩

theorem ruleRow?_setLatest {latest : Nat} (hfree : latest = 0 → store.ruleRow? ruleId = none)
    (hrow : latest ≠ 0 → (store.ruleRow? ruleId).isSome) :
    ((store.setLatest ruleId latest next).find? fun row => row.ruleId == ruleId').map
        latestVersion =
      if ruleId' = ruleId then some next
      else (store.ruleRow? ruleId').map latestVersion := by
  unfold setLatest
  by_cases hlatest : latest = 0
  · rw [if_pos hlatest, find?_append]
    by_cases hid : ruleId' = ruleId
    · have hnone : (store.rules.find? fun row => row.ruleId == ruleId') = none := by
        rw [hid]
        exact hfree hlatest
      rw [if_pos hid, hnone, none_or]
      simp [hid]
    · rw [if_neg hid]
      simp [ruleRow?, Ne.symm hid]
  · -- an update keeps the ids, so the row found is the old one, updated
    have hsame : ((fun row : RuleRow => row.ruleId == ruleId') ∘ fun row : RuleRow =>
        if row.ruleId = ruleId then { row with latestVersion := next } else row) =
        fun row => row.ruleId == ruleId' := by
      funext row
      dsimp only [Function.comp_apply]
      split_ifs <;> rfl
    rw [if_neg hlatest, find?_map, hsame, Option.map_map]
    show Option.map _ (store.ruleRow? ruleId') = _
    rcases hfound : store.ruleRow? ruleId' with _ | row
    · by_cases hid : ruleId' = ruleId
      · rw [hid] at hfound
        have hsome := hrow hlatest
        rw [hfound] at hsome
        cases hsome
      · rw [if_neg hid]
        rfl
    · have hkey := find?_some hfound
      have hrowId : row.ruleId = ruleId' := beq_iff_eq.mp hkey
      show some (latestVersion (if row.ruleId = ruleId then
        { row with latestVersion := next } else row)) = _
      rw [hrowId]
      split_ifs <;> rfl

theorem create_latest (h : store.createRuleVersion x definition = .ok (next, store'))
    (ruleId : Text) : next ≠ 0 ∧ (store'.ruleRow? ruleId).map latestVersion =
      if ruleId = definition.id then some next
      else (store.ruleRow? ruleId).map latestVersion := by
  unfold createRuleVersion at h
  split at h
  · cases h
  · dsimp only at h
    split_ifs at h with htomb hrow hkey htags
    cases h
    refine ⟨?_, ruleRow?_setLatest ?_ ?_⟩
    · unfold u32Max
      omega
    · intro hzero
      rw [← not_isSome_iff_eq_none]
      exact fun hsome => hrow ⟨hzero, hsome⟩
    · intro hlatest
      by_contra hnone
      rw [not_isSome_iff_eq_none] at hnone
      rw [hnone] at hlatest
      exact hlatest rfl

theorem getLatestRule_eq (store : RuleStore) (ruleId : Text) :
    store.getLatestRule ruleId = ((store.ruleRow? ruleId).map latestVersion).bind
      fun latest => if latest = 0 then none else store.getRuleVersion ruleId latest := by
  unfold getLatestRule
  rcases store.ruleRow? ruleId with _ | row <;> rfl

theorem getRuleVersion_append (hfree : store.versionRow? row.ruleId row.version = none)
    (hvers : store'.versions = store.versions ++ [row]) : store'.getRuleVersion ruleId version =
      if ruleId = row.ruleId ∧ version = row.version then some row.definition
      else store.getRuleVersion ruleId version := by
  unfold getRuleVersion versionRow? at *
  rw [hvers, find?_append, find?_singleton]
  by_cases hkey : ruleId = row.ruleId ∧ version = row.version
  · rw [if_pos hkey, hkey.1, hkey.2, hfree, beq_self_eq_true, beq_self_eq_true]
    rfl
  · have hother : (row.ruleId == ruleId && row.version == version) = false := by
      rw [Bool.eq_false_iff, Ne, Bool.and_eq_true, beq_iff_eq, beq_iff_eq]
      exact fun h => hkey ⟨h.1.symm, h.2.symm⟩
    rw [if_neg hkey, hother, if_neg Bool.false_ne_true, or_none]

theorem getLatestRule_create (h : store.createRuleVersion x definition = .ok (next, store'))
    (ruleId : Text) : store'.getLatestRule ruleId =
      if ruleId = definition.id then some { definition with version := next }
      else store.getLatestRule ruleId := by
  obtain ⟨-, hfree, hvers⟩ := create_versions h
  have hfound : ∀ version, store'.getRuleVersion ruleId version =
      if ruleId = definition.id ∧ version = next then some { definition with version := next }
      else store.getRuleVersion ruleId version := fun _ => getRuleVersion_append hfree hvers
  obtain ⟨hnext, hlatest⟩ := create_latest h ruleId
  rw [getLatestRule_eq, getLatestRule_eq, hlatest]
  by_cases hid : ruleId = definition.id
  · rw [if_pos hid, if_pos hid, bind_some, if_neg hnext, hfound, if_pos ⟨hid, rfl⟩]
  · rw [if_neg hid, if_neg hid]
    refine congrArg (Option.bind _) (funext fun latest => ?_)
    rw [hfound latest, if_neg fun hkey : ruleId = definition.id ∧ latest = next => hid hkey.1]

theorem versionRow?_append_of_some {row' : RuleVersionRow}
    (h : store.versionRow? ruleId version = some row)
    (hvers : store'.versions = store.versions ++ [row']) :
    store'.versionRow? ruleId version = some row := by
  unfold versionRow? at h ⊢
  rw [hvers, find?_append, h]
  rfl

theorem WellFormed.create (hw : WellFormed u store)
    (h : store.createRuleVersion x definition = .ok (next, store')) : WellFormed u store' := by
  obtain ⟨hact, hfree, hvers⟩ := create_versions h
  have hnew : ∀ row ∈ store.versions, ¬(row.ruleId = definition.id ∧ row.version = next) := by
    rintro row hrow ⟨hid, hver⟩
    have hnone := find?_eq_none.mp hfree row hrow
    rw [hid, hver, beq_self_eq_true, beq_self_eq_true] at hnone
    exact hnone rfl
  refine ⟨?_, ?_, ?_, ?_, ?_⟩
  · intro row hrow
    rw [hvers] at hrow
    rcases mem_append.mp hrow with hrow | hrow
    · exact hw.stamped row hrow
    · rw [mem_singleton.mp hrow]
      exact ⟨rfl, rfl⟩
  · intro row hrow row' hrow' hid hver
    rw [hvers] at hrow hrow'
    rcases mem_append.mp hrow with hrow | hrow <;>
      rcases mem_append.mp hrow' with hrow' | hrow'
    · exact hw.versionKeys row hrow row' hrow' hid hver
    · rw [mem_singleton.mp hrow'] at hid hver
      exact absurd ⟨hid, hver⟩ (hnew row hrow)
    · rw [mem_singleton.mp hrow] at hid hver
      exact absurd ⟨hid.symm, hver.symm⟩ (hnew row' hrow')
    · rw [mem_singleton.mp hrow, mem_singleton.mp hrow']
  · intro row hrow
    rw [hact] at hrow
    obtain ⟨version, hver⟩ := isSome_iff_exists.mp (hw.foreign row hrow)
    rw [versionRow?_append_of_some hver hvers]
    rfl
  · intro row hrow
    rw [hact] at hrow
    exact hw.scopes row hrow
  · intro ruleId version scope
    unfold openRows
    rw [hact]
    exact hw.onePerKey ruleId version scope

/-! ## The active rules -/

def Persisted (u : Uuids) (store : RuleStore) (e : ActivationEntry) : Prop :=
  store.openRows u e.definition.id e.definition.version e.scope ≠ [] ∧
    store.getRuleVersion e.definition.id e.definition.version = some e.definition

theorem persisted_create (hw : WellFormed u store)
    (h : store.createRuleVersion x definition = .ok (next, store')) {e : ActivationEntry} :
    Persisted u store' e ↔ Persisted u store e := by
  obtain ⟨hact, -, hvers⟩ := create_versions h
  have hopen : store'.openRows u e.definition.id e.definition.version e.scope =
      store.openRows u e.definition.id e.definition.version e.scope := by
    unfold openRows
    rw [hact]
  unfold Persisted
  rw [hopen]
  refine and_congr_right fun hrows => ?_
  -- the open row has a version, which is found before the new one
  obtain ⟨row, hrow⟩ := exists_mem_of_ne_nil _ hrows
  obtain ⟨hmem, hfor⟩ := List.mem_filter.mp hrow
  obtain ⟨hid, hver, -⟩ := (openFor_iff u).mp hfor
  have hforeign := hw.foreign row hmem
  rw [hid, hver] at hforeign
  obtain ⟨version, hfound⟩ := isSome_iff_exists.mp hforeign
  unfold getRuleVersion
  rw [hfound, versionRow?_append_of_some hfound hvers]

theorem mem_activeJoin {row : ActivationRow} {version : RuleVersionRow} :
    (row, version) ∈ store.activeJoin ↔
      row ∈ store.activations ∧ row.deactivatedAt = none ∧ version ∈ store.versions ∧
        version.ruleId = row.ruleId ∧ version.version = row.version := by
  unfold activeJoin
  rw [mem_flatMap]
  simp only [List.mem_filter, mem_insertionSort, List.mem_map, isNone_iff_eq_none,
    and_eq_true, beq_iff_eq, Prod.mk.injEq]
  constructor
  · rintro ⟨row', ⟨hrow, hopen⟩, version', ⟨hver, hkeys⟩, rfl, rfl⟩
    exact ⟨hrow, hopen, hver, hkeys⟩
  · rintro ⟨hrow, hopen, hver, hkeys⟩
    exact ⟨row, ⟨hrow, hopen⟩, version, ⟨hver, hkeys⟩, rfl, rfl⟩

theorem mapM_ok {α β ε : Type} {f : α → Except ε β} {l : List α} (h : ∀ a ∈ l, ∃ b, f a = .ok b) :
    ∃ bs, l.mapM f = .ok bs ∧ ∀ b, b ∈ bs ↔ ∃ a ∈ l, f a = .ok b := by
  induction l with
  | nil => exact ⟨[], rfl, fun b => by simp⟩
  | cons a l ih =>
    obtain ⟨b, hb⟩ := h a mem_cons_self
    obtain ⟨bs, hbs, hmem⟩ := ih fun a' ha' => h a' (mem_cons_of_mem a ha')
    refine ⟨b :: bs, ?_, fun b' => ?_⟩
    · rw [mapM_cons, hb, hbs]
      rfl
    · rw [mem_cons, hmem, exists_mem_cons_iff, hb, Except.ok.injEq, eq_comm]

theorem WellFormed.listActive (hw : WellFormed u store) :
    ∃ entries, store.listActiveRuleDefsScoped u = .ok entries ∧
      ∀ e, e ∈ entries ↔ Persisted u store e := by
  obtain ⟨entries, hlist, hmem⟩ : ∃ entries, store.listActiveRuleDefsScoped u = .ok entries ∧ _ := by
    -- the columns of every joined row are read back
    refine mapM_ok ?_
    rintro ⟨row, version⟩ hp
    obtain ⟨scope, hkind, hvalue⟩ := hw.scopes row (mem_activeJoin.mp hp).1
    refine ⟨⟨version.definition, scope⟩, ?_⟩
    dsimp only
    rw [hkind, hvalue, parseScope_columns]
  refine ⟨entries, hlist, fun e => (hmem e).trans ?_⟩
  constructor
  · rintro ⟨⟨row, version⟩, hp, he⟩
    obtain ⟨hrow, hopen, hversion, hid, hver⟩ := mem_activeJoin.mp hp
    obtain ⟨scope, hkind, hvalue⟩ := hw.scopes row hrow
    dsimp only at he
    rw [hkind, hvalue, parseScope_columns] at he
    cases he
    obtain ⟨hsid, hsver⟩ := hw.stamped version hversion
    refine ⟨ne_nil_of_mem (List.mem_filter.mpr ⟨hrow, (openFor_iff u).mpr
      ⟨?_, ?_, hkind, hvalue, hopen⟩⟩), ?_⟩
    · exact (hsid.trans hid).symm
    · exact (hsver.trans hver).symm
    · show store.getRuleVersion version.definition.id version.definition.version = _
      rw [hsid, hsver]
      exact hw.getRuleVersion_of_mem hversion
  · rintro ⟨hrows, hfound⟩
    obtain ⟨row, hrow⟩ := exists_mem_of_ne_nil _ hrows
    obtain ⟨hmemRow, hfor⟩ := List.mem_filter.mp hrow
    obtain ⟨hid, hver, hkind, hvalue, hopen⟩ := (openFor_iff u).mp hfor
    obtain ⟨version, hversion, hdef⟩ := map_eq_some_iff.mp hfound
    obtain ⟨hmemVersion, hvid, hvver⟩ := versionRow?_eq_some hversion
    refine ⟨(row, version), mem_activeJoin.mpr ⟨hmemRow, hopen, hmemVersion,
      hvid.trans hid.symm, hvver.trans hver.symm⟩, ?_⟩
    dsimp only
    rw [hkind, hvalue, parseScope_columns, hdef]

end TerminalCommander.RuleStore
