import TerminalCommander.Daemon.Registry.Handlers

/-!
# What a registry call does

A registry call is a list of accesses to the database, each followed by the change of the registry
that belongs to it, and at the end one rebind. It stops at the first access that fails. `plan` says,
from the state before the call, which accesses these are; `settle` runs them. The three
`settle_` theorems say that the handlers do just this.
-/

namespace TerminalCommander.Registry

open List Handler ActivationRegistry RuleStore

variable {g : Setup}

/-! ## Accesses -/

inductive Access where
  | look
  | add (definition : RuleDefinition) (scope : ActivationScope)
  | drop (ruleId : Text) (scope : ActivationScope) (version : Nat)
  deriving DecidableEq, Repr

namespace Access

def write (g : Setup) (now : Text) (store : RuleStore) : Access → Except EventStoreError RuleStore
  | look => .ok store
  | add definition scope =>
    store.recordActivationScoped g.u now definition.id definition.version scope (some g.profile)
      (some "ipc".toList)
  | drop ruleId scope version => .ok (store.deactivateRuleScoped g.u now ruleId version scope).2

def made (g : Setup) (db : Database) (store : RuleStore) (a : Access) : Option RuleStore :=
  match db 0 with
  | .error _ => none
  | .ok now =>
    match a.write g now store with
    | .error _ => none
    | .ok store' => some store'

def change (r : ActivationRegistry) : Access → ActivationRegistry
  | look => r
  | add definition scope => r.activate definition scope
  | drop ruleId scope version => r.deactivate ruleId version scope

def key? : Access → Option (Text × Nat × ActivationScope)
  | look => none
  | add definition scope => some (definition.id, definition.version, scope)
  | drop ruleId scope version => some (ruleId, version, scope)

def perform : Access → RegistryM g Unit
  | look => storeRead fun _ => ()
  | add definition scope => openActivation definition scope
  | drop ruleId scope version => closeActivation ruleId scope version

end Access

def changeAll (r : ActivationRegistry) (as : List Access) : ActivationRegistry :=
  as.foldl Access.change r

variable {a : Access}

theorem mem_change_of_key {r : ActivationRegistry} {e : ActivationEntry}
    (h : a.key? ≠ some e.key) : e ∈ a.change r ↔ e ∈ r := by
  cases a with
  | look => exact Iff.rfl
  | add definition scope =>
    have hkey : e.key ≠ (definition.id, definition.version, scope) :=
      fun he => h (congrArg some he.symm)
    show e ∈ r.activate definition scope ↔ e ∈ r
    by_cases helig : definition.status.isRuntimeEligible
    · rw [mem_activate helig, and_iff_left hkey]
      exact or_iff_right fun he => hkey (congrArg ActivationEntry.key he)
    · unfold activate
      rw [dif_neg helig]
  | drop ruleId scope version =>
    exact mem_deactivate.trans
      (and_iff_left fun he => h (congrArg some he.symm))

variable {as : List Access}

theorem mem_changeAll_of_key {e : ActivationEntry} :
    ∀ {r : ActivationRegistry}, (∀ a ∈ as, a.key? ≠ some e.key) →
      (e ∈ changeAll r as ↔ e ∈ r) := by
  induction as with
  | nil =>
    intro r _
    exact Iff.rfl
  | cons a as ih =>
    intro r h
    exact (ih fun b hb => h b (mem_cons_of_mem a hb)).trans
      (mem_change_of_key (h a mem_cons_self))

def Daemon.step (d : Daemon g) (a : Access) (store : RuleStore) : Daemon g :=
  { d with store := store, activation := a.change d.activation }

def exec : List Access → Database → Daemon g → Bool × Daemon g
  | [], _, d => (true, d)
  | a :: as, db, d =>
    match a.made g db d.store with
    | none => (false, d)
    | some store => exec as db.rest (d.step a store)

def progress (g : Setup) : List Access → Database → RuleStore → Nat
  | [], _, _ => 0
  | a :: as, db, store =>
    match a.made g db store with
    | none => 0
    | some store => progress g as db.rest store + 1

def Database.skip (db : Database) (n : Nat) : Database := fun m => db (m + n)

variable {d : Daemon g} {db : Database}

theorem exec_cons_of_none (h : a.made g db d.store = none) : exec (a :: as) db d = (false, d) := by
  unfold exec
  rw [h]

variable {store : RuleStore}

theorem exec_cons_of_some (h : a.made g db d.store = some store) :
    exec (a :: as) db d = exec as db.rest (d.step a store) := by
  rw [exec, h]

theorem made_eq_some {store' : RuleStore} (h : a.made g db store = some store') :
    ∃ now, db 0 = .ok now ∧ a.write g now store = .ok store' := by
  unfold Access.made at h
  rcases hdb : db 0 with reason | now
  · rw [hdb] at h
    cases h
  · rw [hdb] at h
    dsimp only at h
    rcases hw : a.write g now store with e | store1
    · rw [hw] at h
      cases h
    · rw [hw] at h
      cases h
      exact ⟨now, rfl, hw⟩

/-! ## The accesses in a handler -/

variable {c : Request g}

theorem perform_of_none (h : a.made g c.db c.daemon.store = none) :
    ∃ e, a.perform c = (.error e, ⟨c.daemon, c.db.rest⟩) := by
  unfold Access.made at h
  rcases hdb : c.db 0 with reason | now
  · refine ⟨mapStoreError (.sqlite reason), ?_⟩
    cases a with
    | look =>
      show storeCall (fun _ store => .ok ((), store)) c = _
      exact storeCall_fault hdb
    | _ => exact bind_of_error (storeCall_fault hdb)
  · rw [hdb] at h
    dsimp only at h
    split at h
    · rename_i e he
      cases a with
      | add definition scope =>
        refine ⟨mapStoreError e, bind_of_error (storeCall_error hdb ?_)⟩
        rw [show c.daemon.store.recordActivationScoped g.u now definition.id definition.version
          scope (some g.profile) (some "ipc".toList) = .error e from he]
        rfl
      | _ => cases he
    · cases h

theorem perform_of_some (h : a.made g c.db c.daemon.store = some store) :
    a.perform c = (.ok (), ⟨c.daemon.step a store, c.db.rest⟩) := by
  obtain ⟨now, hdb, hw⟩ := made_eq_some h
  cases a with
  | look =>
    cases hw
    show storeCall (fun _ store => .ok ((), store)) c = _
    exact storeCall_ok hdb rfl
  | add definition scope =>
    refine bind_of_ok (a := ()) (storeCall_ok hdb ?_)
    rw [show c.daemon.store.recordActivationScoped g.u now definition.id definition.version
      scope (some g.profile) (some "ipc".toList) = .ok store from hw]
    rfl
  | drop ruleId scope version =>
    cases hw
    exact bind_of_ok (storeCall_ok hdb rfl)

theorem forEach_perform (as : List Access) : ∀ c : Request g,
    ((exec as c.db c.daemon).1 ∧ forEach Access.perform as c =
      (.ok (), ⟨(exec as c.db c.daemon).2, c.db.skip as.length⟩)) ∨
    ((exec as c.db c.daemon).1 = false ∧ ∃ e db, forEach Access.perform as c =
      (.error e, ⟨(exec as c.db c.daemon).2, db⟩)) := by
  induction as with
  | nil =>
    intro c
    exact Or.inl ⟨rfl, rfl⟩
  | cons a as ih =>
    intro c
    rcases ha : a.made g c.db c.daemon.store with _ | store
    · obtain ⟨e, hrun⟩ := perform_of_none ha
      rw [exec_cons_of_none ha]
      exact Or.inr ⟨rfl, e, c.db.rest, bind_of_error hrun⟩
    · rw [exec_cons_of_some ha]
      rw [show forEach Access.perform (a :: as) c = _ from
        bind_of_ok (perform_of_some ha)]
      exact ih ⟨c.daemon.step a store, c.db.rest⟩

theorem skip_rest (db : Database) (n : Nat) : db.rest.skip n = db.skip (n + 1) := rfl

theorem skip_skip (db : Database) (m n : Nat) : db.skip (m + n) = (db.skip m).skip n := by
  funext k
  show db (k + (m + n)) = db (k + n + m)
  rw [Nat.add_comm m n, Nat.add_assoc]

theorem exec_append (as bs : List Access) : ∀ (db : Database) (d : Daemon g), exec (as ++ bs) db d =
      if (exec as db d).1 then exec bs (db.skip as.length) (exec as db d).2
      else (false, (exec as db d).2) := by
  induction as with
  | nil =>
    intro db d
    rfl
  | cons a as ih =>
    intro db d
    rcases ha : a.made g db d.store with _ | store
    · rw [cons_append, exec_cons_of_none ha, exec_cons_of_none ha]
      rfl
    · rw [cons_append, exec_cons_of_some ha, exec_cons_of_some ha, ih, skip_rest, length_cons]

theorem exec_activation (as : List Access) : ∀ (db : Database) (d : Daemon g),
    (exec as db d).2.activation = changeAll d.activation (as.take (progress g as db d.store)) := by
  induction as with
  | nil =>
    intro db d
    rfl
  | cons a as ih =>
    intro db d
    rw [progress]
    rcases ha : a.made g db d.store with _ | store
    · rw [exec_cons_of_none ha]
      rfl
    · rw [exec_cons_of_some ha, ih]
      rfl

theorem exec_fst (as : List Access) : ∀ (db : Database) (d : Daemon g),
    (exec as db d).1 = decide (progress g as db d.store = as.length) := by
  induction as with
  | nil =>
    intro db d
    rfl
  | cons a as ih =>
    intro db d
    rw [progress]
    rcases ha : a.made g db d.store with _ | store
    · rw [exec_cons_of_none ha]
      rfl
    · rw [exec_cons_of_some ha, ih]
      exact decide_eq_decide.mpr Nat.succ_inj.symm

theorem exec_live (as : List Access) : ∀ (db : Database) (d : Daemon g),
    (exec as db d).2.live = d.live ∧ (exec as db d).2.others = d.others := by
  induction as with
  | nil =>
    intro db d
    exact ⟨rfl, rfl⟩
  | cons a as ih =>
    intro db d
    rcases ha : a.made g db d.store with _ | store
    · rw [exec_cons_of_none ha]
      exact ⟨rfl, rfl⟩
    · rw [exec_cons_of_some ha]
      exact ih db.rest (d.step a store)

/-! ## Plans -/

inductive RegistryCall where
  | activate (params : RegistryActivateParams)
  | deactivate (params : RegistryDeactivateParams)
  | deactivateBulk (params : RegistryDeactivateBulkParams)

def RegistryCall.scope : RegistryCall → Option ActivationScope
  | activate params => params.scope
  | deactivate params => params.scope
  | deactivateBulk params => some params.scope

def closeVersions (u : Uuids) (r : ActivationRegistry) (ruleId : Text) (scope : ActivationScope) :
    List Access :=
  (r.activeVersionsForScope u ruleId scope).map (Access.drop ruleId scope)

def bulkRulePlan (u : Uuids) (known : Text → Bool) (scope : ActivationScope)
    (r : ActivationRegistry) (ruleId : Text) : List Access :=
  Access.look :: if known ruleId then closeVersions u r ruleId scope else []

def bulkPlan (u : Uuids) (known : Text → Bool) (scope : ActivationScope) :
    ActivationRegistry → List Text → List Access
  | _, [] => []
  | r, ruleId :: ruleIds =>
    let part := bulkRulePlan u known scope r ruleId
    part ++ bulkPlan u known scope (changeAll r part) ruleIds

def activatePlan (u : Uuids) (r : ActivationRegistry) (definition : RuleDefinition)
    (scope : ActivationScope) : List Access :=
  .look :: .add definition scope ::
    (supersededVersions u (r.activate definition scope) definition.id definition.version
      scope).map (Access.drop definition.id scope)

def planActivate (d : Daemon g) (params : RegistryActivateParams) :
    Option (ActivationScope × List Access) :=
  match params.scope, d.store.lookup params.ruleId params.version with
  | some scope, some definition =>
    if definition.status.isRuntimeEligible = true ∧ d.scopeIsLive scope = true then
      some (scope, activatePlan g.u d.activation definition scope)
    else none
  | _, _ => none

def planDeactivate (d : Daemon g) (params : RegistryDeactivateParams) :
    Option (ActivationScope × List Access) :=
  match params.scope with
  | none => none
  | some scope =>
    if d.scopeIsLive scope = true ∧
        (d.activation.isActive params.ruleId params.version scope = true ∨
          d.store.openRows g.u params.ruleId params.version scope ≠ []) then
      some (scope, [.drop params.ruleId scope params.version])
    else none

def planDeactivateBulk (d : Daemon g) (params : RegistryDeactivateBulkParams) :
    Option (ActivationScope × List Access) :=
  match bulkRuleIds g.packs params with
  | .error _ => none
  | .ok ruleIds =>
    if d.scopeIsLive params.scope = true then
      some (params.scope, bulkPlan g.u d.store.knows params.scope d.activation ruleIds)
    else none

def plan (d : Daemon g) : RegistryCall → Option (ActivationScope × List Access)
  | .activate params => planActivate d params
  | .deactivate params => planDeactivate d params
  | .deactivateBulk params => planDeactivateBulk d params

inductive Planned (store : RuleStore) (scope : ActivationScope) : Access → Prop
  | look : Planned store scope .look
  | add {definition : RuleDefinition} {ruleId : Text} {version : Option Nat}
      (eligible : definition.status.isRuntimeEligible = true)
      (found : store.lookup ruleId version = some definition) :
      Planned store scope (.add definition scope)
  | drop (ruleId : Text) (version : Nat) : Planned store scope (.drop ruleId scope version)

variable {ruleId : Text} {scope : ActivationScope}

theorem planned_of_mem_drops
    {versions : List Nat} (ha : a ∈ versions.map (Access.drop ruleId scope)) :
    Planned store scope a := by
  obtain ⟨v, -, rfl⟩ := List.mem_map.mp ha
  exact .drop ruleId v

theorem planned_of_mem_bulkPlan {u : Uuids} {known : Text → Bool} {ruleIds : List Text} : ∀
    {r : ActivationRegistry}, ∀ a ∈ bulkPlan u known scope r ruleIds, Planned store scope a := by
  induction ruleIds with
  | nil =>
    intro r a ha
    exact (not_mem_nil ha).elim
  | cons ruleId ruleIds ih =>
    intro r a ha
    rcases mem_append.mp ha with ha | ha
    · rcases mem_cons.mp ha with rfl | ha
      · exact .look
      · split_ifs at ha
        · exact planned_of_mem_drops ha
        · exact (not_mem_nil ha).elim
    · exact ih a ha

theorem plan_planned {call : RegistryCall} (h : plan d call = some (scope, as)) :
    call.scope = some scope ∧ ∀ a ∈ as, Planned d.store scope a := by
  cases call with
  | activate params =>
    have h : planActivate d params = some (scope, as) := h
    unfold planActivate at h
    split at h
    · rename_i hscope hfound
      split_ifs at h with hok
      cases h
      refine ⟨hscope, fun a ha => ?_⟩
      rcases mem_cons.mp ha with rfl | ha
      · exact .look
      rcases mem_cons.mp ha with rfl | ha
      · exact .add hok.1 hfound
      · exact planned_of_mem_drops ha
    · cases h
  | deactivate params =>
    have h : planDeactivate d params = some (scope, as) := h
    unfold planDeactivate at h
    split at h
    · cases h
    · rename_i hscope
      split_ifs at h
      cases h
      refine ⟨hscope, fun a ha => ?_⟩
      rw [mem_singleton.mp ha]
      exact .drop params.ruleId params.version
  | deactivateBulk params =>
    have h : planDeactivateBulk d params = some (scope, as) := h
    unfold planDeactivateBulk at h
    split at h
    · cases h
    · split_ifs at h
      cases h
      exact ⟨rfl, planned_of_mem_bulkPlan⟩

def Daemon.rebind (d : Daemon g) (scope : ActivationScope) : Daemon g :=
  { d with live := (rebindJobsInScope (some scope) d.activation d.live).2 }

def settle (db : Database) (d : Daemon g) :
    Option (ActivationScope × List Access) → Bool × Daemon g
  | none => (false, d)
  | some (scope, as) =>
    if (exec as db d).1 then (true, (exec as db d).2.rebind scope) else (false, (exec as db d).2)

theorem settle_fst (db : Database) (d : Daemon g) (scope : ActivationScope) (as : List Access) :
    (settle db d (some (scope, as))).1 = decide (progress g as db d.store = as.length) := by
  rw [← exec_fst, settle]
  rcases (exec as db d).1 with _ | _ <;> rfl

/-! ## The handlers run their plans -/

def outcome {α : Type} (r : Except IpcError α × Request g) : Bool × Daemon g :=
  (r.1.isOk, r.2.daemon)

def handle (db : Database) (d : Daemon g) : RegistryCall → Bool × Daemon g
  | .activate params => outcome (handleRegistryActivate params ⟨d, db⟩)
  | .deactivate params => outcome (handleRegistryDeactivate params ⟨d, db⟩)
  | .deactivateBulk params => outcome (handleRegistryDeactivateBulk params ⟨d, db⟩)

theorem outcome_of_error {α : Type} {r : Except IpcError α × Request g} {e : IpcError}
    (h : r = (.error e, c)) : outcome r = (false, c.daemon) := by
  rw [h]
  rfl

variable {version : Option Nat}

theorem lookupRuleDef_of_fault {reason : Text} (hdb : c.db 0 = .error reason) :
    ∃ e, lookupRuleDef ruleId version c = (.error e, ⟨c.daemon, c.db.rest⟩) :=
  ⟨_, bind_of_error (storeRead_fault hdb)⟩

variable {now : Text}

theorem lookupRuleDef_of_none
    (hdb : c.db 0 = .ok now) (h : c.daemon.store.lookup ruleId version = none) :
    lookupRuleDef ruleId version c =
      (.error (ruleNotFound ruleId version), ⟨c.daemon, c.db.rest⟩) := by
  refine (bind_of_ok (storeRead_ok hdb)).trans ?_
  rw [h]
  rfl

theorem lookupRuleDef_of_some {definition : RuleDefinition} (hdb : c.db 0 = .ok now)
    (h : c.daemon.store.lookup ruleId version = some definition) :
    lookupRuleDef ruleId version c = (.ok definition, ⟨c.daemon, c.db.rest⟩) := by
  refine (bind_of_ok (storeRead_ok hdb)).trans ?_
  rw [h]
  rfl

theorem validateScope_of_live (h : c.daemon.scopeIsLive scope) :
    validateScopeAgainstLiveJobs scope c = (.ok (), c) := by
  show (if c.daemon.scopeIsLive scope then (pure () : RegistryM g Unit) else _) c = _
  rw [if_pos h]
  rfl

theorem validateScope_of_not_live (h : ¬c.daemon.scopeIsLive scope) :
    validateScopeAgainstLiveJobs scope c = (.error (scopeNotLive g.u scope), c) := by
  show (if c.daemon.scopeIsLive scope then (pure () : RegistryM g Unit) else _) c = _
  rw [if_neg h]
  rfl

theorem forEach_close (ruleId : Text) (scope : ActivationScope) (versions : List Nat) :
    (forEach (closeActivation ruleId scope) versions : RegistryM g Unit) =
      forEach Access.perform (versions.map (Access.drop ruleId scope)) := by
  induction versions with
  | nil => rfl
  | cons v vs ih =>
    rw [map_cons, forEach, forEach, ih]
    rfl

theorem outcome_bind_pure {α β : Type} (m : RegistryM g α) (f : α → β) (c : Request g) :
    outcome ((m >>= fun a => pure (f a)) c) = outcome (m c) := by
  rcases hm : m c with ⟨e | a, c'⟩
  · rw [bind_of_error hm]
    rfl
  · rw [bind_of_ok hm]
    rfl

theorem outcome_forEach_rebind {α : Type} (as : List Access) (scope : ActivationScope) (a : α)
    (c : Request g) :
    outcome ((do
      forEach Access.perform as
      rebindScope scope
      pure a : RegistryM g α) c) = settle c.db c.daemon (some (scope, as)) := by
  rcases forEach_perform as c with ⟨hok, hrun⟩ | ⟨hfail, e, db, hrun⟩
  · rw [bind_of_ok hrun, settle, if_pos hok]
    rfl
  · rw [outcome_of_error (bind_of_error hrun), settle, if_neg (by rw [hfail]; decide)]

theorem settle_cons_of_none (h : a.made g db d.store = none) :
    settle db d (some (scope, a :: as)) = (false, d) := by
  rw [settle, exec_cons_of_none h]
  rfl

theorem settle_cons_of_some (h : a.made g db d.store = some store) :
    settle db d (some (scope, a :: as)) = settle db.rest (d.step a store) (some (scope, as)) := by
  rw [settle, exec_cons_of_some h, settle]

theorem made_look_of_fault {reason : Text}
    (h : db 0 = .error reason) : Access.look.made g db store = none := by
  unfold Access.made
  rw [h]

theorem made_look_of_ok (h : db 0 = .ok now) : Access.look.made g db store = some store := by
  unfold Access.made
  rw [h]
  rfl

theorem outcome_activateInScope (definition : RuleDefinition) (scope : ActivationScope)
    (c : Request g) : outcome (activateInScope definition scope c) = settle c.db c.daemon
      (some (scope, .add definition scope ::
        (supersededVersions g.u (c.daemon.activation.activate definition scope) definition.id
          definition.version scope).map (Access.drop definition.id scope))) := by
  rcases ha : (Access.add definition scope).made g c.db c.daemon.store with _ | store
  · obtain ⟨e, hrun⟩ := perform_of_none ha
    have hopen : openActivation definition scope c = (.error e, ⟨c.daemon, c.db.rest⟩) := hrun
    rw [settle_cons_of_none ha]
    exact outcome_of_error (c := ⟨c.daemon, c.db.rest⟩) (bind_of_error hopen)
  · rw [settle_cons_of_some ha]
    refine Eq.trans ?_ (outcome_forEach_rebind _ scope
      (supersededVersions g.u (c.daemon.activation.activate definition scope) definition.id
        definition.version scope) ⟨c.daemon.step (.add definition scope) store, c.db.rest⟩)
    rw [← forEach_close]
    have hopen : openActivation definition scope c =
        (.ok (), ⟨c.daemon.step (.add definition scope) store, c.db.rest⟩) := perform_of_some ha
    refine (congrArg outcome (bind_of_ok hopen)).trans ?_
    exact congrArg outcome (bind_of_ok
      (a := (⟨c.daemon.step (.add definition scope) store, c.db.rest⟩ : Request g)) rfl)

theorem settle_activate (db : Database) (d : Daemon g) (params : RegistryActivateParams) :
    outcome (handleRegistryActivate params ⟨d, db⟩) = settle db d (planActivate d params) := by
  obtain ⟨ruleId, version, scope⟩ := params
  unfold handleRegistryActivate planActivate
  rcases scope with _ | scope
  · rfl
  rw [bind_of_ok (show requireScope _ (some scope) _ = (.ok scope, ⟨d, db⟩) from rfl)]
  dsimp only
  rcases hdb : db 0 with reason | now
  · obtain ⟨e, hlook⟩ : ∃ e, lookupRuleDef ruleId version ⟨d, db⟩ = (.error e, ⟨d, db.rest⟩) :=
      lookupRuleDef_of_fault hdb
    rw [outcome_of_error (bind_of_error hlook)]
    split
    · split
      · exact (settle_cons_of_none (made_look_of_fault hdb)).symm
      · rfl
    · rfl
  rcases hfound : d.store.lookup ruleId version with _ | definition
  · exact outcome_of_error (bind_of_error (lookupRuleDef_of_none hdb hfound))
  rw [bind_of_ok (lookupRuleDef_of_some hdb hfound)]
  dsimp only
  by_cases helig : definition.status.isRuntimeEligible
  · rw [bind_of_ok (show requireEligible definition _ = (.ok (), ⟨d, db.rest⟩) by
      unfold requireEligible; rw [if_pos helig]; rfl)]
    by_cases hlive : d.scopeIsLive scope
    · rw [if_pos ⟨helig, hlive⟩, bind_of_ok (validateScope_of_live hlive)]
      refine Eq.trans ?_ (settle_cons_of_some (made_look_of_ok hdb)).symm
      refine Eq.trans ?_ (outcome_activateInScope definition scope ⟨d, db.rest⟩)
      exact outcome_bind_pure (activateInScope definition scope) _ _
    · rw [if_neg fun h => hlive h.2]
      exact outcome_of_error (bind_of_error (validateScope_of_not_live hlive))
  · rw [if_neg fun h => helig h.1]
    refine outcome_of_error (e := ruleNotEligible definition) (c := ⟨d, db.rest⟩)
      (bind_of_error ?_)
    unfold requireEligible
    rw [if_neg helig]
    rfl

theorem outcome_deactivateInScope_of_neither {version : Nat}
    (h : ¬c.daemon.activation.isActive ruleId version scope) :
    outcome (deactivateInScope ruleId version scope false c) = (false, c.daemon) := by
  show outcome ((if _ then _ else _ : RegistryM g RegistryDeactivateResponse) c) = _
  rw [if_pos ⟨Bool.eq_false_iff.mpr h, rfl⟩]
  rfl

theorem outcome_deactivateInScope {version : Nat} {wasPersisted : Bool}
    (h : c.daemon.activation.isActive ruleId version scope ∨ wasPersisted) :
    outcome (deactivateInScope ruleId version scope wasPersisted c) =
      (true, (c.daemon.step (.drop ruleId scope version) c.daemon.store).rebind scope) := by
  show outcome ((if _ then _ else _ : RegistryM g RegistryDeactivateResponse) c) = _
  rw [if_neg]
  · rfl
  · rintro ⟨hmem, hrows⟩
    rcases h with h | h
    · exact Bool.false_ne_true (hmem.symm.trans h)
    · exact Bool.false_ne_true (hrows.symm.trans h)

theorem settle_deactivate (db : Database) (d : Daemon g) (params : RegistryDeactivateParams) :
    outcome (handleRegistryDeactivate params ⟨d, db⟩) = settle db d (planDeactivate d params) := by
  obtain ⟨ruleId, version, scope⟩ := params
  unfold handleRegistryDeactivate planDeactivate
  rcases scope with _ | scope
  · rfl
  rw [bind_of_ok (show requireScope _ (some scope) _ = (.ok scope, ⟨d, db⟩) from rfl)]
  dsimp only
  by_cases hlive : d.scopeIsLive scope
  swap
  · rw [if_neg fun h => hlive h.1]
    exact outcome_of_error (bind_of_error (validateScope_of_not_live hlive))
  rw [bind_of_ok (validateScope_of_live hlive)]
  rcases hdb : db 0 with reason | now
  · refine (outcome_of_error (c := ⟨d, db.rest⟩) (bind_of_error
      (storeCall_fault hdb))).trans ?_
    split_ifs
    · exact (settle_cons_of_none (by unfold Access.made; rw [hdb])).symm
    · rfl
  refine (congrArg outcome (bind_of_ok (storeCall_ok hdb rfl))).trans ?_
  have hpersisted : (d.store.deactivateRuleScoped g.u now ruleId version scope).1 =
      decide (0 < (d.store.openRows g.u ruleId version scope).length) := rfl
  by_cases hact : d.activation.isActive ruleId version scope ∨
      d.store.openRows g.u ruleId version scope ≠ []
  · rw [if_pos ⟨hlive, hact⟩]
    have hmade : (Access.drop ruleId scope version).made g db d.store =
        some (d.store.deactivateRuleScoped g.u now ruleId version scope).2 := by
      unfold Access.made
      rw [hdb]
      rfl
    refine Eq.trans ?_ (settle_cons_of_some hmade).symm
    refine outcome_deactivateInScope (hact.imp id fun hrows => ?_)
    exact decide_eq_true (length_pos_iff.mpr hrows)
  · rw [if_neg fun h => hact h.2]
    rw [not_or, not_not] at hact
    have hclose : d.store.deactivateRuleScoped g.u now ruleId version scope = (false, d.store) := by
      refine Prod.ext ?_ (deactivateRuleScoped_of_nil g.u hact.2)
      rw [hpersisted, hact.2]
      rfl
    refine Eq.trans (congrArg (fun r : Bool × RuleStore => outcome
      (deactivateInScope ruleId version scope r.1 ⟨{ d with store := r.2 }, db.rest⟩)) hclose) ?_
    exact outcome_deactivateInScope_of_neither hact.1

/-! ## The bulk loop -/

theorem made_tables {store' : RuleStore} (h : a.made g db store = some store') :
    store'.rules = store.rules ∧ store'.versions = store.versions := by
  obtain ⟨now, -, hw⟩ := made_eq_some h
  cases a with
  | add definition scope =>
    unfold Access.write recordActivationScoped at hw
    dsimp only at hw
    split_ifs at hw
    · cases hw
      exact ⟨rfl, rfl⟩
    · cases hw
      exact ⟨rfl, rfl⟩
  | _ =>
    cases hw
    exact ⟨rfl, rfl⟩

theorem exec_tables (as : List Access) : ∀ (db : Database) (d : Daemon g),
    (exec as db d).2.store.rules = d.store.rules ∧
      (exec as db d).2.store.versions = d.store.versions := by
  induction as with
  | nil =>
    intro db d
    exact ⟨rfl, rfl⟩
  | cons a as ih =>
    intro db d
    rcases ha : a.made g db d.store with _ | store
    · rw [exec_cons_of_none ha]
      exact ⟨rfl, rfl⟩
    · rw [exec_cons_of_some ha]
      obtain ⟨hrules, hvers⟩ := made_tables ha
      obtain ⟨ihr, ihv⟩ := ih db.rest (d.step a store)
      exact ⟨ihr.trans hrules, ihv.trans hvers⟩

theorem exec_knows (as : List Access) (db : Database) (d : Daemon g) :
    (exec as db d).2.store.knows = d.store.knows := by
  obtain ⟨hrules, hvers⟩ := exec_tables as db d
  funext ruleId
  unfold knows
  rw [getLatestRule_congr hrules hvers]

def RunsAs {α : Type} (m : RegistryM g α) (as : List Access) (c : Request g) : Prop :=
  ((exec as c.db c.daemon).1 = true ∧
    ∃ a, m c = (.ok a, ⟨(exec as c.db c.daemon).2, c.db.skip as.length⟩)) ∨
  ((exec as c.db c.daemon).1 = false ∧
    ∃ e db, m c = (.error e, ⟨(exec as c.db c.daemon).2, db⟩))

theorem closeBulk_runsAs (scope : ActivationScope) (ruleId : Text) (known : Bool) (c : Request g) :
    RunsAs (closeBulk scope ruleId known)
      (if known then closeVersions g.u c.daemon.activation ruleId scope else []) c := by
  rcases known with _ | _
  · exact Or.inl ⟨rfl, _, rfl⟩
  unfold closeVersions
  by_cases hnil : c.daemon.activation.activeVersionsForScope g.u ruleId scope = []
  · have hrun : closeBulk scope ruleId true c = (.ok ⟨ruleId, none, .notActive⟩, c) :=
      congrFun (if_pos hnil) c
    rw [if_pos rfl, hnil]
    exact Or.inl ⟨rfl, _, hrun⟩
  · have hrun : closeBulk scope ruleId true c = (do
        forEach (closeActivation ruleId scope)
          (c.daemon.activation.activeVersionsForScope g.u ruleId scope)
        pure ⟨ruleId, (c.daemon.activation.activeVersionsForScope g.u ruleId scope).max?,
          .deactivated⟩ : RegistryM g BulkDeactivateOutcome) c :=
      congrFun (if_neg hnil) c
    rw [forEach_close] at hrun
    rw [if_pos rfl]
    rcases forEach_perform ((c.daemon.activation.activeVersionsForScope g.u ruleId scope).map
      (Access.drop ruleId scope)) c with ⟨hok, hloop⟩ | ⟨hfail, e, db, hloop⟩
    · exact Or.inl ⟨hok, _, hrun.trans (bind_of_ok hloop)⟩
    · exact Or.inr ⟨hfail, e, db, hrun.trans (bind_of_error hloop)⟩

theorem RunsAs.bind {α β : Type} {m : RegistryM g α} {f : α → RegistryM g β}
    {bs : List Access} (hm : RunsAs m as c) (hf : ∀ a, (exec as c.db c.daemon).1 →
      m c = (.ok a, ⟨(exec as c.db c.daemon).2, c.db.skip as.length⟩) →
      RunsAs (f a) bs ⟨(exec as c.db c.daemon).2, c.db.skip as.length⟩) :
    RunsAs (m >>= f) (as ++ bs) c := by
  unfold RunsAs
  rw [exec_append]
  rcases hm with ⟨hok, a, hrun⟩ | ⟨hfail, e, db, hrun⟩
  · rw [if_pos hok, bind_of_ok hrun, length_append]
    have htail := hf a hok hrun
    rw [show c.db.skip (as.length + bs.length) = (c.db.skip as.length).skip bs.length from
      skip_skip c.db as.length bs.length]
    exact htail
  · rw [if_neg (by rw [hfail]; decide)]
    exact Or.inr ⟨rfl, e, db, bind_of_error hrun⟩

theorem bulkRule_runsAs (scope : ActivationScope) (ruleId : Text) (c : Request g) :
    RunsAs (bulkRule scope ruleId)
      (bulkRulePlan g.u c.daemon.store.knows scope c.daemon.activation ruleId) c := by
  rcases hdb : c.db 0 with reason | now
  · refine Or.inr ?_
    unfold bulkRulePlan
    rw [exec_cons_of_none (made_look_of_fault hdb)]
    exact ⟨rfl, _, _, bind_of_error (storeRead_fault hdb)⟩
  · have hlook : RunsAs (storeRead fun store => store.knows ruleId) [.look] c := by
      refine Or.inl ?_
      rw [exec_cons_of_some (made_look_of_ok hdb)]
      exact ⟨rfl, _, storeRead_ok hdb⟩
    refine hlook.bind fun known _ hrun => ?_
    have hknown : known = c.daemon.store.knows ruleId := by
      rw [storeRead_ok hdb] at hrun
      exact (Except.ok.inj (congrArg Prod.fst hrun)).symm
    rw [hknown, exec_cons_of_some (made_look_of_ok hdb)]
    exact closeBulk_runsAs scope ruleId _ ⟨c.daemon, c.db.rest⟩

theorem mapEach_bulkRule_runsAs (scope : ActivationScope) (ruleIds : List Text) :
    ∀ c : Request g, RunsAs (mapEach (bulkRule scope) ruleIds)
      (bulkPlan g.u c.daemon.store.knows scope c.daemon.activation ruleIds) c := by
  induction ruleIds with
  | nil =>
    intro c
    exact Or.inl ⟨rfl, [], rfl⟩
  | cons ruleId ruleIds ih =>
    intro c
    refine (bulkRule_runsAs scope ruleId c).bind fun o hok _ => ?_
    have hreg : (exec (bulkRulePlan g.u c.daemon.store.knows scope c.daemon.activation ruleId)
        c.db c.daemon).2.activation = changeAll c.daemon.activation
          (bulkRulePlan g.u c.daemon.store.knows scope c.daemon.activation ruleId) := by
      rw [exec_activation, of_decide_eq_true ((exec_fst _ _ _).symm.trans hok), take_length]
    have htail := ih ⟨(exec (bulkRulePlan g.u c.daemon.store.knows scope c.daemon.activation ruleId)
      c.db c.daemon).2, c.db.skip (bulkRulePlan g.u c.daemon.store.knows scope
        c.daemon.activation ruleId).length⟩
    dsimp only at htail
    rw [exec_knows, hreg] at htail
    rw [← append_nil (bulkPlan _ _ _ _ _)]
    exact htail.bind fun os _ _ => Or.inl ⟨rfl, _, rfl⟩

theorem settle_deactivateBulk (db : Database) (d : Daemon g)
    (params : RegistryDeactivateBulkParams) :
    outcome (handleRegistryDeactivateBulk params ⟨d, db⟩) =
      settle db d (planDeactivateBulk d params) := by
  unfold handleRegistryDeactivateBulk planDeactivateBulk
  rcases hids : bulkRuleIds g.packs params with e | ruleIds
  · rfl
  have hselect : (ofExcept (.ok ruleIds) : RegistryM g (List Text)) ⟨d, db⟩ =
      (.ok ruleIds, ⟨d, db⟩) := rfl
  refine Eq.trans (congrArg outcome (bind_of_ok hselect)) ?_
  dsimp only
  by_cases hlive : d.scopeIsLive params.scope
  · rw [if_pos hlive, bind_of_ok (validateScope_of_live hlive), settle]
    rcases mapEach_bulkRule_runsAs params.scope ruleIds ⟨d, db⟩ with
      ⟨hok, os, hrun⟩ | ⟨hfail, e, db', hrun⟩
    · rw [bind_of_ok hrun, if_pos hok]
      rfl
    · rw [outcome_of_error (bind_of_error hrun), if_neg (by rw [hfail]; decide)]
  · rw [if_neg hlive]
    exact outcome_of_error (bind_of_error (validateScope_of_not_live hlive))

theorem handle_eq_settle (db : Database) (d : Daemon g) (call : RegistryCall) :
    handle db d call = settle db d (plan d call) := by
  cases call with
  | activate params => exact settle_activate db d params
  | deactivate params => exact settle_deactivate db d params
  | deactivateBulk params => exact settle_deactivateBulk db d params

end TerminalCommander.Registry
