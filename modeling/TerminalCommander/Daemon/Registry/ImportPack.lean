import TerminalCommander.Daemon.Registry.Durable

/-!
# Importing a pack with activation

An import with `activate` activates the rules it newly stored. A rule whose content is already the
latest stored one is skipped, and so is a rule that the promotion to `active` makes invalid; neither
is activated or reported as failed. So the rules of the pack end up active, or reported, just if
the rules that are passed over were active before.
-/

namespace TerminalCommander.Registry

open List ActivateOutcome Option

open RuleStore (Persisted)

variable {g : Setup}

def PassedOver (g : Setup) (store : RuleStore) (rule : RuleDefinition) : Prop :=
  importable g.x rule = false ∨
    (store.getLatestRule rule.id).map content = some (content rule)

def Daemon.ActiveIn (d : Daemon g) (scope : ActivationScope) (rule : RuleDefinition) : Prop :=
  ∃ e ∈ d.activation, e.scope = scope ∧ content e.definition = content rule ∧
    Persisted g.u d.store e

variable {rule : RuleDefinition}

theorem content_id {rule' : RuleDefinition} (h : content rule = content rule') :
    rule.id = rule'.id := by
  have hid := congrArg RuleDefinition.id h
  exact hid

/-! ## The import loop -/

variable {c c' : Request g}

theorem importRule_cases {imported : Bool} (h : importRule rule c = (.ok imported, c')) :
    (imported = false ∧ PassedOver g c.daemon.store rule ∧ c'.daemon = c.daemon) ∨
    (imported ∧ ¬PassedOver g c.daemon.store rule ∧ ∃ next store,
      c.daemon.store.createRuleVersion g.x rule = .ok (next, store) ∧
      c'.daemon = { c.daemon with store := store }) := by
  unfold importRule at h
  by_cases hrefused : importable g.x rule = false
  · rw [if_pos hrefused] at h
    cases h
    exact Or.inl ⟨rfl, Or.inl hrefused, rfl⟩
  rw [if_neg hrefused] at h
  obtain ⟨stored, c1, hread, h⟩ := Handler.bind_eq_ok h
  obtain ⟨now, store, hcall, rfl⟩ := storeCall_eq_ok hread
  cases hcall
  by_cases hsame : (c.daemon.store.getLatestRule rule.id).map content = some (content rule)
  · rw [if_pos hsame] at h
    cases h
    exact Or.inl ⟨rfl, Or.inr hsame, rfl⟩
  rw [if_neg hsame] at h
  obtain ⟨next, c2, hcreate, h⟩ := Handler.bind_eq_ok h
  obtain ⟨now', store, hcall, rfl⟩ := storeCall_eq_ok hcreate
  cases h
  exact Or.inr ⟨rfl, fun hpass => hpass.elim hrefused hsame, next, store, hcall, rfl⟩

theorem importRule_latest {imported : Bool} (h : importRule rule c = (.ok imported, c')) :
    (imported ↔ ¬PassedOver g c.daemon.store rule) ∧
      (imported →
        (c'.daemon.store.getLatestRule rule.id).map content = some (content rule)) ∧
      (∀ ruleId, ruleId ≠ rule.id →
        c'.daemon.store.getLatestRule ruleId = c.daemon.store.getLatestRule ruleId) ∧
      c'.daemon.activation = c.daemon.activation := by
  rcases importRule_cases h with ⟨rfl, hpass, hd⟩ | ⟨rfl, hpass, next, store, hcreate, hd⟩
  · rw [hd]
    exact ⟨iff_of_false Bool.false_ne_true fun hnot => hnot hpass, nofun, fun _ _ => rfl, rfl⟩
  · rw [hd]
    refine ⟨iff_of_true rfl hpass, fun _ => ?_, fun ruleId hne => ?_, rfl⟩
    · rw [RuleStore.getLatestRule_create hcreate, if_pos rfl]
      rfl
    · rw [RuleStore.getLatestRule_create hcreate, if_neg hne]

theorem idsWith_cons (flag b : Bool) (rule : RuleDefinition) (rules : List RuleDefinition)
    (bs : List Bool) : idsWith flag (rule :: rules) (b :: bs) =
      if b = flag then rule.id :: idsWith flag rules bs else idsWith flag rules bs := by
  unfold idsWith
  rw [zip_cons_cons, filter_cons]
  by_cases h : b = flag
  · rw [if_pos h, if_pos (beq_iff_eq.mpr h), map_cons]
  · rw [if_neg h, if_neg fun hb => h (beq_iff_eq.mp hb)]

theorem idsWith_sublist (flag : Bool) (rules : List RuleDefinition) : ∀ flags : List Bool,
    (idsWith flag rules flags).Sublist (rules.map RuleDefinition.id) := by
  induction rules with
  | nil =>
    intro flags
    exact Sublist.refl []
  | cons rule rules ih =>
    intro flags
    cases flags with
    | nil => exact nil_sublist _
    | cons b bs =>
      rw [idsWith_cons, map_cons]
      split_ifs
      · exact (ih bs).cons_cons rule.id
      · exact (ih bs).cons rule.id

structure Imported (rules : List RuleDefinition) (flags : List Bool) (c c' : Request g) :
    Prop where
  activation : c'.daemon.activation = c.daemon.activation
  others : ∀ ruleId, ruleId ∉ rules.map RuleDefinition.id →
    c'.daemon.store.getLatestRule ruleId = c.daemon.store.getLatestRule ruleId
  ids : ∀ rule ∈ rules,
    (rule.id ∈ idsWith true rules flags ↔ ¬PassedOver g c.daemon.store rule)
  latest : ∀ rule ∈ rules, ¬PassedOver g c.daemon.store rule →
    (c'.daemon.store.getLatestRule rule.id).map content = some (content rule)

theorem importLoop {rules : List RuleDefinition} : ∀ {flags : List Bool} {c c' : Request g},
    (rules.map RuleDefinition.id).Nodup →
    Handler.mapEach importRule rules c = (.ok flags, c') → Imported rules flags c c' := by
  induction rules with
  | nil =>
    intro flags c c' _ h
    cases h
    exact ⟨rfl, fun _ _ => rfl, fun _ h => (not_mem_nil h).elim, fun _ h => (not_mem_nil h).elim⟩
  | cons rule rules ih =>
    intro flags c c' hnodup h
    obtain ⟨hnotMem, hnodup⟩ := nodup_cons.mp hnodup
    obtain ⟨b, c1, hrule, h⟩ := Handler.bind_eq_ok h
    obtain ⟨bs, c2, hrules, h⟩ := Handler.bind_eq_ok h
    cases h
    obtain ⟨himp, hlatest, hothers, hact⟩ := importRule_latest hrule
    have htail := ih hnodup hrules
    -- the other rules have other ids, so the first import does not matter to them
    have hne : ∀ rule' ∈ rules, rule'.id ≠ rule.id := fun rule' hmem heq =>
      hnotMem (heq ▸ List.mem_map_of_mem hmem)
    have hpass : ∀ rule' ∈ rules, (PassedOver g c1.daemon.store rule' ↔
        PassedOver g c.daemon.store rule') := fun rule' hmem => by
      unfold PassedOver
      rw [hothers rule'.id (hne rule' hmem)]
    have hhead : rule.id ∉ idsWith true rules bs := fun hmem =>
      hnotMem ((idsWith_sublist true rules bs).subset hmem)
    refine ⟨htail.activation.trans hact, fun ruleId hid => ?_, fun rule' hmem => ?_,
      fun rule' hmem hnew => ?_⟩
    · rw [map_cons, mem_cons, not_or] at hid
      exact (htail.others ruleId hid.2).trans (hothers ruleId hid.1)
    · rw [idsWith_cons]
      rcases mem_cons.mp hmem with rfl | hmem
      · rw [← himp]
        split_ifs with hb
        · exact iff_of_true mem_cons_self hb
        · exact iff_of_false hhead hb
      · rw [← hpass rule' hmem, ← htail.ids rule' hmem]
        split_ifs
        · exact mem_cons.trans (or_iff_right (hne rule' hmem))
        · exact Iff.rfl
    · rcases mem_cons.mp hmem with rfl | hmem
      · rw [htail.others rule'.id hnotMem]
        exact hlatest (himp.mpr hnew)
      · exact htail.latest rule' hmem fun h => hnew ((hpass rule' hmem).mp h)

/-! ## The activation loop -/

variable {scope : ActivationScope}

theorem activatePlan_key {u : Uuids} {r : ActivationRegistry} {definition : RuleDefinition}
    {e : ActivationEntry} (he : e.definition.id ≠ definition.id) :
    ∀ a ∈ activatePlan u r definition scope, a.key? ≠ some e.key := by
  intro a ha hkey
  rcases mem_cons.mp ha with rfl | ha
  · cases hkey
  rcases mem_cons.mp ha with rfl | ha
  · exact he (congrArg Prod.fst (some.inj hkey)).symm
  · obtain ⟨v, -, rfl⟩ := List.mem_map.mp ha
    exact he (congrArg Prod.fst (some.inj hkey)).symm

theorem mem_changeAll_activatePlan {u : Uuids} {r : ActivationRegistry}
    {definition : RuleDefinition} (helig : definition.status.isRuntimeEligible) :
    (⟨definition, scope⟩ : ActivationEntry) ∈ changeAll r (activatePlan u r definition scope) := by
  show _ ∈ changeAll (r.activate definition scope) _
  refine (mem_changeAll_of_key fun a ha hkey => ?_).mpr
    ((ActivationRegistry.mem_activate helig).mpr (Or.inl rfl))
  -- only other versions are superseded
  obtain ⟨v, hv, rfl⟩ := List.mem_map.mp ha
  rw [supersededVersions, mem_insertionSort, List.mem_filter, decide_eq_true_eq] at hv
  exact hv.2 (congrArg (fun k => k.2.1) (some.inj hkey))

theorem planActivate_cases (d : Daemon g) (ruleId : Text) (scope : ActivationScope) :
    planActivate d ⟨ruleId, none, some scope⟩ = none ∨
    ∃ definition, d.store.getLatestRule ruleId = some definition ∧
      definition.status.isRuntimeEligible ∧
      planActivate d ⟨ruleId, none, some scope⟩ =
        some (scope, activatePlan g.u d.activation definition scope) := by
  unfold planActivate RuleStore.lookup
  dsimp only
  rcases hfound : d.store.getLatestRule ruleId with _ | definition
  · exact Or.inl rfl
  · dsimp only
    split_ifs with hok
    · exact Or.inr ⟨definition, rfl, hok.1, rfl⟩
    · exact Or.inl rfl

theorem activate_latest (ruleId : Text) (scope : ActivationScope) (hc : c.Durable) :
    let r := handleRegistryActivate ⟨ruleId, none, some scope⟩ c
    r.2.daemon.store.getLatestRule = c.daemon.store.getLatestRule ∧
      (∀ e : ActivationEntry, e.definition.id ≠ ruleId →
        (e ∈ r.2.daemon.activation ↔ e ∈ c.daemon.activation)) ∧
      (r.1.isOk → ∃ definition, c.daemon.store.getLatestRule ruleId = some definition ∧
        definition.id = ruleId ∧ ⟨definition, scope⟩ ∈ r.2.daemon.activation) := by
  intro r
  have hsettle : outcome r = settle c.db c.daemon
      (planActivate c.daemon ⟨ruleId, none, some scope⟩) := settle_activate c.db c.daemon _
  have hdaemon : r.2.daemon = (outcome r).2 := rfl
  have hok : r.1.isOk = (outcome r).1 := rfl
  rw [hdaemon, hok, hsettle]
  rcases planActivate_cases c.daemon ruleId scope with hnone | ⟨definition, hfound, helig, hplan⟩
  · rw [hnone]
    exact ⟨rfl, fun _ _ => Iff.rfl, fun h => absurd h Bool.false_ne_true⟩
  have hid : definition.id = ruleId := hc.wellFormed.getLatestRule_id hfound
  rw [hplan]
  have hexec := exec_activation (activatePlan g.u c.daemon.activation definition scope) c.db
    c.daemon
  obtain ⟨hrules, hvers⟩ := exec_tables (activatePlan g.u c.daemon.activation definition scope)
    c.db c.daemon
  have hother : ∀ e : ActivationEntry, e.definition.id ≠ ruleId →
      (e ∈ (exec (activatePlan g.u c.daemon.activation definition scope) c.db
        c.daemon).2.activation ↔ e ∈ c.daemon.activation) := by
    intro e he
    rw [hexec]
    exact mem_changeAll_of_key fun a ha =>
      activatePlan_key (hid ▸ he) a (mem_of_mem_take ha)
  unfold settle
  dsimp only
  split_ifs with hall
  · refine ⟨RuleStore.getLatestRule_congr hrules hvers, hother, fun _ => ⟨definition, hfound, hid, ?_⟩⟩
    show _ ∈ (exec _ c.db c.daemon).2.activation
    rw [hexec, of_decide_eq_true ((exec_fst _ _ _).symm.trans hall), take_length]
    exact mem_changeAll_activatePlan helig
  · exact ⟨RuleStore.getLatestRule_congr hrules hvers, hother, fun h => h.elim⟩

structure Activated (scope : ActivationScope) (ruleIds : List Text)
    (outcomes : List ActivateOutcome) (c c' : Request g) : Prop where
  ids : ∀ o ∈ outcomes, o.1 ∈ ruleIds
  others : ∀ e : ActivationEntry, e.definition.id ∉ ruleIds →
    (e ∈ c'.daemon.activation ↔ e ∈ c.daemon.activation)
  latest : ∀ ruleId ∈ ruleIds, (∃ e, (ruleId, .error e) ∈ outcomes) ∨
    ∃ definition, c.daemon.store.getLatestRule ruleId = some definition ∧
      ⟨definition, scope⟩ ∈ c'.daemon.activation

theorem activateLoop {ruleIds : List Text} : ∀ {outcomes : List ActivateOutcome} {c c' : Request g},
    c.Durable → ruleIds.Nodup →
    Handler.mapEach (attemptActivate scope) ruleIds c = (.ok outcomes, c') →
    Activated scope ruleIds outcomes c c' := by
  induction ruleIds with
  | nil =>
    intro outcomes c c' _ _ h
    cases h
    exact ⟨fun _ h => (not_mem_nil h).elim, fun _ _ => Iff.rfl, fun _ h => (not_mem_nil h).elim⟩
  | cons ruleId ruleIds ih =>
    intro outcomes c c' hc hnodup h
    obtain ⟨hnotMem, hnodup⟩ := nodup_cons.mp hnodup
    obtain ⟨o, c1, hhead, h⟩ := Handler.bind_eq_ok h
    obtain ⟨os, c2, hloop, h⟩ := Handler.bind_eq_ok h
    cases h
    cases hhead
    have hc1 : Request.Durable (handleRegistryActivate ⟨ruleId, none, some scope⟩ c).2 :=
      (spec_activate _).state hc
    obtain ⟨hlatest, hothers, hact⟩ := activate_latest ruleId scope hc
    have htail := ih hc1 hnodup hloop
    refine ⟨fun o ho => ?_, fun e he => ?_, fun ruleId' hmem => ?_⟩
    · rcases mem_cons.mp ho with rfl | ho
      · exact mem_cons_self
      · exact mem_cons_of_mem _ (htail.ids o ho)
    · rw [mem_cons, not_or] at he
      exact (htail.others e he.2).trans (hothers e he.1)
    · rcases mem_cons.mp hmem with rfl | hmem
      · rcases hr : (handleRegistryActivate ⟨ruleId', none, some scope⟩ c).1 with e | response
        · exact Or.inl ⟨e, mem_cons_self⟩
        · rw [hr] at hact
          obtain ⟨definition, hfound, hid, hentry⟩ := hact rfl
          exact Or.inr ⟨definition, hfound, (htail.others _ (hid ▸ hnotMem)).mpr hentry⟩
      · refine (htail.latest ruleId' hmem).imp ?_ ?_
        · exact fun ⟨e, he⟩ => ⟨e, mem_cons_of_mem _ he⟩
        · exact fun ⟨definition, hfound, hentry⟩ => ⟨definition, hlatest ▸ hfound, hentry⟩

/-! ## The import -/

theorem importPack_eq_ok {pack : Text} {response : RegistryImportPackResponse}
    (h : handleRegistryImportPack ⟨pack, true, some scope⟩ c = (.ok response, c')) :
    ∃ file flags outcomes c1, g.packs.resolve pack = some file ∧
      Handler.mapEach importRule (file.rules.map promote) c = (.ok flags, c1) ∧
      Handler.mapEach (attemptActivate scope) (idsWith true (file.rules.map promote) flags) c1 =
        (.ok outcomes, c') ∧
      response.failed = outcomes.filterMap failure? := by
  unfold handleRegistryImportPack at h
  obtain ⟨_, _, hscope, hchecked⟩ := Handler.bind_eq_ok h
  cases (Handler.ofExcept_eq_ok hscope).2
  obtain ⟨_, _, hexamples, himport⟩ := Handler.bind_eq_ok hchecked
  cases (Handler.ofExcept_eq_ok hexamples).2
  obtain ⟨result, c1, hresult, hrest⟩ := Handler.bind_eq_ok himport
  unfold importRulePackByName at hresult
  obtain ⟨file, _, hres, hrules⟩ := Handler.bind_eq_ok hresult
  obtain ⟨hfile, hsame⟩ := Handler.ofExcept_eq_ok hres
  cases hsame
  obtain ⟨flags, _, hloop, hpure⟩ := Handler.bind_eq_ok hrules
  cases hpure
  obtain ⟨parts, _, hact, hpure⟩ := Handler.bind_eq_ok hrest
  cases hpure
  unfold activateIfAsked activateImportedRules at hact
  obtain ⟨outcomes, _, houtcomes, hpure⟩ := Handler.bind_eq_ok hact
  cases hpure
  refine ⟨file, flags, outcomes, c1, ?_, hloop, houtcomes, rfl⟩
  rcases hfound : g.packs.resolve pack with _ | file'
  · rw [hfound] at hfile
    cases hfile
  · rw [hfound] at hfile
    exact congrArg some (Except.ok.inj hfile)

theorem mem_failures {outcomes : List ActivateOutcome} {ruleId : Text} :
    ruleId ∈ (outcomes.filterMap failure?).map RegistryImportFailure.ruleId ↔
      ∃ e, (ruleId, .error e) ∈ outcomes := by
  rw [List.mem_map]
  constructor
  · rintro ⟨failure, hfailure, rfl⟩
    obtain ⟨⟨ruleId, response | e⟩, ho, hsome⟩ := mem_filterMap.mp hfailure
    · cases hsome
      exact ⟨_, ho⟩
    · cases hsome
  · rintro ⟨e, ho⟩
    exact ⟨⟨ruleId, e.message⟩, mem_filterMap.mpr ⟨_, ho, rfl⟩, rfl⟩

/-- **Importing a pack with activation.** After every history, when an import with `activate`
returns, every rule of the pack is active in the scope or reported as failed just if each rule that
the import passes over was active there before. -/
theorem import_activates_pack_iff (history : List Operation) (db : Database) (pack : Text)
    (scope : ActivationScope) (file : RulePackFile) (response : RegistryImportPackResponse)
    (c' : Request g) (hfile : g.packs.resolve pack = some file)
    (hrun : handleRegistryImportPack ⟨pack, true, some scope⟩
      ⟨Daemon.initial.after history, db⟩ = (.ok response, c')) :
    let d : Daemon g := Daemon.initial.after history
    (∀ rule ∈ file.rules, c'.daemon.ActiveIn scope rule ∨
      rule.id ∈ response.failed.map RegistryImportFailure.ruleId) ↔
    ∀ rule ∈ file.rules, PassedOver g d.store (promote rule) → d.ActiveIn scope rule := by
  intro d
  obtain ⟨file', flags, outcomes, c1, hfile', himport, hact, hfailed⟩ := importPack_eq_ok hrun
  cases hfile.symm.trans hfile'
  have hd : Durable d := Durable.after durable_initial
  have hids : (file.rules.map promote).map RuleDefinition.id = file.rules.map RuleDefinition.id :=
    List.map_map
  have hnodup : ((file.rules.map promote).map RuleDefinition.id).Nodup :=
    hids ▸ g.packs.distinct pack file hfile
  have himported := importLoop hnodup himport
  have hc1 : c1.Durable := by
    have hstate : Request.Durable
        (Handler.mapEach importRule (file.rules.map promote) (⟨d, db⟩ : Request g)).2 :=
      (Handler.spec_mapEach fun rule _ => spec_importRule rule).state hd
    rw [himport] at hstate
    exact hstate
  have hactivated := activateLoop hc1 ((idsWith_sublist _ _ _).nodup hnodup) hact
  have hc' : Durable c'.daemon := by
    have hstate := (spec_importPack ⟨pack, true, some scope⟩).state
      (s := (⟨d, db⟩ : Request g)) hd
    rw [hrun] at hstate
    exact hstate
  -- the entries of a rule that is passed over stay as they are
  have hkept : ∀ rule ∈ file.rules, PassedOver g d.store (promote rule) →
      (c'.daemon.ActiveIn scope rule ↔ d.ActiveIn scope rule) := by
    intro rule hrule hpass
    refine exists_congr fun e => ?_
    rw [← hc'.agree e, ← hd.agree e]
    have hentry : content e.definition = content rule →
        (e ∈ c'.daemon.activation ↔ e ∈ d.activation) := by
      intro hcontent
      rw [hactivated.others e, himported.activation]
      rw [content_id hcontent]
      exact fun hmem => (himported.ids (promote rule) (List.mem_map_of_mem hrule)).mp hmem hpass
    constructor
    · rintro ⟨he, hscope, hcontent, -⟩
      exact ⟨(hentry hcontent).mp he, hscope, hcontent, (hentry hcontent).mp he⟩
    · rintro ⟨he, hscope, hcontent, -⟩
      exact ⟨(hentry hcontent).mpr he, hscope, hcontent, (hentry hcontent).mpr he⟩
  constructor
  · intro h rule hrule hpass
    refine (hkept rule hrule hpass).mp ((h rule hrule).resolve_right fun hmem => ?_)
    rw [hfailed] at hmem
    obtain ⟨e, he⟩ := mem_failures.mp hmem
    exact (himported.ids (promote rule) (List.mem_map_of_mem hrule)).mp (hactivated.ids _ he)
      hpass
  · intro h rule hrule
    by_cases hpass : PassedOver g d.store (promote rule)
    · exact Or.inl ((hkept rule hrule hpass).mpr (h rule hrule hpass))
    · have hmem := (himported.ids (promote rule) (List.mem_map_of_mem hrule)).mpr hpass
      rcases hactivated.latest _ hmem with hfail | ⟨definition, hfound, hentry⟩
      · rw [hfailed]
        exact Or.inr (mem_failures.mpr hfail)
      · have hcontent := himported.latest (promote rule) (List.mem_map_of_mem hrule) hpass
        rw [hfound] at hcontent
        exact Or.inl ⟨⟨definition, scope⟩, hentry, rfl, some.inj hcontent,
          (hc'.agree _).mp hentry⟩

/-! ## The `make` pack -/

def makeRecipeError : RuleDefinition where
  id := "make.recipe-error".toList
  version := 1
  kind := .regex
  status := .draft
  severity := .critical
  eventKind := "command_failed".toList
  stream := some .stderr
  description := some "make rule failure line.".toList
  pattern := some ("^make(?:\\[[0-9]+\\])?: \\*\\*\\* \\[(?P<target>[^]]+)\\] ".toList ++
    "Error (?P<code>[0-9]+)".toList)
  keywords := none
  captures := ["target".toList, "code".toList]
  summaryTemplate := "make target $\x7btarget\x7d failed with code $\x7bcode\x7d".toList
  tags := ["build".toList, "make".toList]
  rateLimitPerMin := some 12
  redact := []
  contextHint := ⟨3, 0⟩
  examples := []

def makePack : RulePackFile := ⟨"make".toList, [makeRecipeError]⟩

def makeSetup : Setup :=
  { plainSetup false with
    packs :=
      { names := ["make".toList]
        resolve := fun name => if name = "make".toList then some makePack else none
        distinct := by
          intro name file h
          split_ifs at h
          cases h
          decide } }

def importedAsDraft : List Operation := [.importPack answers ⟨"make".toList, false, none⟩]

def importMake (history : List Operation) :
    Except IpcError RegistryImportPackResponse × Request makeSetup :=
  handleRegistryImportPack ⟨"make".toList, true, some .global⟩
    ⟨Daemon.initial.after history, answers⟩

theorem importMake_eq {history : List Operation} {response : RegistryImportPackResponse}
    (h : (importMake history).1 = .ok response) :
    handleRegistryImportPack ⟨"make".toList, true, some .global⟩
      (⟨Daemon.initial.after history, answers⟩ : Request makeSetup) =
        (.ok response, (importMake history).2) := by
  rw [← h]
  unfold importMake
  exact Prod.mk.eta.symm

theorem importMake_after_draft : (importMake importedAsDraft).1 =
        .ok ⟨"make".toList, [], ["make.recipe-error".toList], [], []⟩ ∧
      (importMake importedAsDraft).2.daemon.activation.byKey.entries = [] := by
  decide +kernel

theorem draft_import_not_activated :
    ∃ response c', handleRegistryImportPack ⟨"make".toList, true, some .global⟩
        (⟨Daemon.initial.after importedAsDraft, answers⟩ : Request makeSetup) =
          (.ok response, c') ∧
      makeSetup.packs.resolve "make".toList = some makePack ∧
      (∀ rule ∈ makePack.rules, importable makeSetup.x rule = true) ∧
      ¬∀ rule ∈ makePack.rules, c'.daemon.ActiveIn .global rule ∨
        rule.id ∈ response.failed.map RegistryImportFailure.ruleId := by
  obtain ⟨hok, hent⟩ := importMake_after_draft
  refine ⟨_, (importMake importedAsDraft).2, importMake_eq hok, rfl, by decide +kernel, fun h => ?_⟩
  rcases h makeRecipeError mem_cons_self with ⟨e, he, -⟩ | hfailed
  · have he : e ∈ (importMake importedAsDraft).2.daemon.activation.byKey.entries := he
    rw [hent] at he
    exact not_mem_nil he
  · exact not_mem_nil hfailed

/-- On an empty database the import with activation leaves the rule active or reported. -/
theorem first_import_activated :
    ∃ response c', handleRegistryImportPack ⟨"make".toList, true, some .global⟩
        (⟨Daemon.initial.after [], answers⟩ : Request makeSetup) = (.ok response, c') ∧
      ∀ rule ∈ makePack.rules, c'.daemon.ActiveIn .global rule ∨
        rule.id ∈ response.failed.map RegistryImportFailure.ruleId := by
  have hok : (importMake []).1 = .ok ⟨"make".toList, ["make.recipe-error".toList], [],
      ["make.recipe-error".toList], []⟩ := by
    decide +kernel
  have hnew : ∀ rule ∈ makePack.rules,
      ¬PassedOver makeSetup (Daemon.initial : Daemon makeSetup).store (promote rule) := by
    unfold PassedOver
    decide +kernel
  refine ⟨_, (importMake []).2, importMake_eq hok, ?_⟩
  exact (import_activates_pack_iff [] answers "make".toList .global makePack _ (importMake []).2 rfl
    (importMake_eq hok)).mpr fun rule hrule hpass => absurd hpass (hnew rule hrule)

end TerminalCommander.Registry
