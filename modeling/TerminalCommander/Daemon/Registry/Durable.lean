import TerminalCommander.Daemon.Registry.History
import TerminalCommander.Store.RegistryFacts

/-!
# Activations survive a restart

The registry and the tables are changed by separate steps, and any access to the database may
fail. The invariant: the tables are well formed, and the entries of the registry are those that are
persisted. Every access keeps it, because the registry follows the tables only after they were
written. So the registry that a restart rebuilds from the tables is the one in memory, after every
history of calls.
-/

namespace TerminalCommander.Registry

open Handler TerminalCommander.ActivationRegistry RuleStore

open RuleStore (WellFormed Persisted)

variable {g : Setup}

structure Durable (d : Daemon g) : Prop where
  wellFormed : WellFormed g.u d.store
  agree : ∀ e, e ∈ d.activation ↔ Persisted g.u d.store e

def Access.Stored (store : RuleStore) : Access → Prop
  | .add definition _ => definition.status.isRuntimeEligible = true ∧
      store.getRuleVersion definition.id definition.version = some definition
  | _ => True

/-! ## One access -/

theorem getRuleVersion_congr {store store' : RuleStore} (h : store'.versions = store.versions)
    (ruleId : Text) (version : Nat) :
    store'.getRuleVersion ruleId version = store.getRuleVersion ruleId version := by
  unfold getRuleVersion versionRow?
  rw [h]

theorem Durable.drop {d : Daemon g} (h : Durable d) (now ruleId : Text) (version : Nat)
    (scope : ActivationScope) : Durable (d.step (.drop ruleId scope version)
      (d.store.deactivateRuleScoped g.u now ruleId version scope).2) := by
  refine ⟨h.wellFormed.deactivate now ruleId version scope, fun e => ?_⟩
  show e ∈ d.activation.deactivate ruleId version scope ↔ _
  rw [mem_deactivate, h.agree]
  unfold Persisted
  show _ ↔ openRows g.u (d.store.deactivateRuleScoped g.u now ruleId version scope).2
    e.definition.id e.definition.version e.scope ≠ [] ∧ _
  rw [openRows_deactivate]
  by_cases hkey : e.key = (ruleId, version, scope)
  · rw [if_pos (show (e.definition.id, e.definition.version, e.scope) = _ from hkey)]
    exact iff_of_false (fun he => he.2 hkey) fun he => he.1 rfl
  · rw [if_neg (show (e.definition.id, e.definition.version, e.scope) ≠ _ from hkey),
      and_iff_left hkey]
    exact Iff.rfl

theorem Durable.add {d : Daemon g} (h : Durable d) {now : Text} {definition : RuleDefinition}
    {scope : ActivationScope} {profile actor : Option Text} {store : RuleStore}
    (helig : definition.status.isRuntimeEligible)
    (hstored : d.store.getRuleVersion definition.id definition.version = some definition)
    (hrecord : d.store.recordActivationScoped g.u now definition.id definition.version scope
      profile actor = .ok store) : Durable (d.step (.add definition scope) store) := by
  obtain ⟨hw, hvers⟩ := h.wellFormed.record hrecord
  refine ⟨hw, fun e => ?_⟩
  show e ∈ d.activation.activate definition scope ↔ _
  rw [mem_activate helig, h.agree]
  unfold Persisted
  show _ ↔ store.openRows g.u _ _ _ ≠ [] ∧ store.getRuleVersion _ _ = _
  rw [openRows_record hrecord, getRuleVersion_congr hvers]
  constructor
  · rintro (rfl | ⟨⟨hopen, hversion⟩, -⟩)
    · exact ⟨Or.inl rfl, hstored⟩
    · exact ⟨Or.inr hopen, hversion⟩
  · rintro ⟨hopen, hversion⟩
    by_cases hkey : e.key = (definition.id, definition.version, scope)
    · left
      obtain ⟨hid, hver, hscope⟩ := by simpa [ActivationEntry.key] using hkey
      rw [hid, hver, hstored] at hversion
      obtain ⟨definition', scope'⟩ := e
      cases hversion
      cases hscope
      rfl
    · exact Or.inr ⟨⟨hopen.resolve_left hkey, hversion⟩, hkey⟩

theorem Durable.step {d : Daemon g} (h : Durable d) {a : Access} {db : Database}
    {store : RuleStore} (hstored : a.Stored d.store) (hmade : a.made g db d.store = some store) :
    Durable (d.step a store) := by
  obtain ⟨now, -, hw⟩ := made_eq_some hmade
  cases a with
  | look =>
    cases hw
    exact h
  | add definition scope => exact h.add hstored.1 hstored.2 hw
  | drop ruleId scope version =>
    cases hw
    exact h.drop now ruleId version scope

theorem Durable.exec {as : List Access} : ∀ {db : Database} {d : Daemon g}, Durable d →
    (∀ a ∈ as, a.Stored d.store) → Durable (exec as db d).2 := by
  induction as with
  | nil =>
    intro db d h _
    exact h
  | cons a as ih =>
    intro db d h hstored
    rcases ha : a.made g db d.store with _ | store
    · rw [exec_cons_of_none ha]
      exact h
    · rw [exec_cons_of_some ha]
      refine ih (h.step (hstored a List.mem_cons_self) ha) fun b hb => ?_
      have hb := hstored b (List.mem_cons_of_mem a hb)
      cases b with
      | add definition scope =>
        exact ⟨hb.1, (getRuleVersion_congr (made_tables ha).2 _ _).trans hb.2⟩
      | _ => trivial

/-! ## One call -/

theorem plan_stored {d : Daemon g} (hw : WellFormed g.u d.store) {call : RegistryCall}
    {scope : ActivationScope} {as : List Access} (h : plan d call = some (scope, as)) :
    ∀ a ∈ as, a.Stored d.store := by
  intro a ha
  cases (plan_planned h).2 a ha with
  | add eligible found => exact ⟨eligible, hw.lookup_stored found⟩
  | _ => trivial

theorem Durable.handle {d : Daemon g} (h : Durable d) (db : Database) (call : RegistryCall) :
    Durable (handle db d call).2 := by
  rw [handle_eq_settle]
  rcases hplan : plan d call with _ | ⟨scope, as⟩
  · exact h
  · have hexec : Durable (Registry.exec as db d).2 := h.exec (plan_stored h.wellFormed hplan)
    unfold settle
    dsimp only
    split_ifs
    · exact ⟨hexec.wellFormed, hexec.agree⟩
    · exact hexec

/-! ## Upserts and imports -/

def Request.Durable (c : Request g) : Prop := Registry.Durable c.daemon

theorem spec_activate (params : RegistryActivateParams) :
    Handler.Spec Request.Durable (handleRegistryActivate params : RegistryM g _)
      (fun _ => Request.Durable) Request.Durable := by
  intro c hc
  have h : Registry.Durable (handleRegistryActivate params c).2.daemon :=
    Durable.handle hc c.db (.activate params)
  split
  · rename_i hrun
    rw [hrun] at h
    exact h
  · rename_i hrun
    rw [hrun] at h
    exact h

theorem spec_create (definition : RuleDefinition) : Handler.Spec Request.Durable
      (storeCall fun _ store => store.createRuleVersion g.x definition : RegistryM g Nat)
      (fun _ => Request.Durable) Request.Durable := by
  intro c hc
  rcases hdb : c.db 0 with reason | now
  · rw [storeCall_fault hdb]
    exact hc
  · rcases hcreate : c.daemon.store.createRuleVersion g.x definition with e | ⟨next, store⟩
    · rw [storeCall_error hdb hcreate]
      exact hc
    · rw [storeCall_ok hdb hcreate]
      refine ⟨hc.wellFormed.create hcreate, fun e => ?_⟩
      rw [persisted_create hc.wellFormed hcreate]
      exact hc.agree e

theorem spec_storeRead {α : Type} (read : RuleStore → α) :
    Handler.Spec Request.Durable (storeRead read : RegistryM g α)
      (fun _ => Request.Durable) Request.Durable := by
  intro c hc
  rcases hdb : c.db 0 with reason | now
  · rw [storeRead_fault hdb]
    exact hc
  · rw [storeRead_ok hdb]
    exact hc

theorem spec_ofExcept_keeps {α : Type} (r : Except IpcError α) :
    Handler.Spec Request.Durable (ofExcept r : RegistryM g α)
      (fun _ => Request.Durable) Request.Durable :=
  spec_ofExcept (fun _ _ _ hc => hc) fun _ hc => hc

theorem spec_upsert (definition : RuleDefinition) :
    Handler.Spec Request.Durable (handleRegistryUpsert definition : RegistryM g Nat)
      (fun _ => Request.Durable) Request.Durable :=
  spec_bind (spec_ofExcept_keeps _) fun _ =>
    spec_bind (spec_ofExcept_keeps _) fun _ => spec_create definition

theorem spec_importRule (rule : RuleDefinition) :
    Handler.Spec Request.Durable (importRule rule : RegistryM g Bool)
      (fun _ => Request.Durable) Request.Durable := by
  refine spec_ite (fun _ => spec_pure fun _ hc => hc) fun _ => ?_
  refine spec_bind (spec_storeRead _) fun stored => ?_
  refine spec_ite (fun _ => spec_pure fun _ hc => hc) fun _ => ?_
  exact spec_bind (spec_create rule) fun _ => spec_pure fun _ hc => hc

theorem spec_activateImportedRules (ruleIds : List Text) (scope : ActivationScope) :
    Handler.Spec Request.Durable (activateImportedRules ruleIds scope : RegistryM g _)
      (fun _ => Request.Durable) Request.Durable := by
  refine spec_bind (Q := fun _ => Request.Durable) ?_ fun _ =>
    spec_pure fun _ hc => hc
  refine spec_mapEach fun ruleId _ => ?_
  exact spec_bind (spec_attempt (spec_activate _)) fun _ =>
    spec_pure fun _ hc => hc

theorem spec_importPack (params : RegistryImportPackParams) :
    Handler.Spec Request.Durable (handleRegistryImportPack params : RegistryM g _)
      (fun _ => Request.Durable) Request.Durable := by
  refine spec_bind (spec_ofExcept_keeps _) fun _ => ?_
  refine spec_bind (spec_ofExcept_keeps _) fun _ => ?_
  refine spec_bind (Q := fun _ => Request.Durable) ?_ fun result => ?_
  · refine spec_bind (spec_ofExcept_keeps _) fun file => ?_
    exact spec_bind (spec_mapEach fun rule _ => spec_importRule rule) fun _ =>
      spec_pure fun _ hc => hc
  · refine spec_bind (Q := fun _ => Request.Durable) ?_ fun _ =>
      spec_pure fun _ hc => hc
    unfold activateIfAsked
    split
    · exact spec_activateImportedRules _ _
    · exact spec_pure fun _ hc => hc

/-! ## Histories -/

theorem durable_initial : Durable (Daemon.initial : Daemon g) where
  wellFormed := wellFormed_empty g.u
  agree := fun _ => iff_of_false List.not_mem_nil fun h => h.1 rfl

theorem Durable.rebuilt {d : Daemon g} (h : Durable d) :
    ∃ entries, d.store.listActiveRuleDefsScoped g.u = .ok entries ∧
      ∀ e, e ∈ fromEntries entries ↔ e ∈ d.activation := by
  obtain ⟨entries, hlist, hmem⟩ := h.wellFormed.listActive
  have hent : ∀ e, e ∈ entries ↔ e ∈ d.activation := fun e => (hmem e).trans (h.agree e).symm
  refine ⟨entries, hlist, fun e => ?_⟩
  rw [mem_fromEntries fun a ha b hb =>
    eq_of_key ((hent a).mp ha) ((hent b).mp hb), hent]
  exact and_iff_left_of_imp fun he => d.activation.eligible e he

theorem Durable.applyBasic {d : Daemon g} (h : Durable d) (op : BasicOperation) :
    Durable (d.applyBasic op) := by
  cases op with
  | call db call => exact h.handle db call
  | upsert db definition => exact (spec_upsert definition).state (s := ⟨d, db⟩) h
  | start ids inlineRules =>
    show Durable (d.start ids inlineRules)
    unfold Daemon.start
    split
    · exact ⟨h.wellFormed, h.agree⟩
    · exact h
  | restart =>
    obtain ⟨entries, hlist, hmem⟩ := h.rebuilt
    show Durable d.restart
    unfold Daemon.restart
    rw [hlist]
    exact ⟨h.wellFormed, fun e => (hmem e).trans (h.agree e)⟩
  | _ => exact ⟨h.wellFormed, h.agree⟩

theorem Durable.apply {d : Daemon g} (h : Durable d) (op : Operation) : Durable (d.apply op) := by
  cases op with
  | basic op => exact h.applyBasic op
  | importPack db params => exact (spec_importPack params).state (s := ⟨d, db⟩) h

theorem Durable.after {history : List Operation} : ∀ {d : Daemon g}, Durable d →
    Durable (d.after history) := by
  induction history with
  | nil =>
    intro d h
    exact h
  | cons op history ih =>
    intro d h
    exact ih (h.apply op)

/-- **Activations survive a restart.** After every history, in which any access to the database may
fail, the registry rebuilt from the tables has the entries of the registry in memory, and the
tables hold at most one open row for each rule, version and scope. -/
theorem restart_rebuilds_registry (history : List Operation) :
    let d : Daemon g := Daemon.initial.after history
    (∃ entries, d.store.listActiveRuleDefsScoped g.u = .ok entries ∧
      ∀ e, e ∈ ActivationRegistry.fromEntries entries ↔ e ∈ d.activation) ∧
    ∀ ruleId version scope, (d.store.openRows g.u ruleId version scope).length ≤ 1 := by
  intro d
  have h : Durable d := Durable.after durable_initial
  exact ⟨h.rebuilt, h.wellFormed.onePerKey⟩

end TerminalCommander.Registry
