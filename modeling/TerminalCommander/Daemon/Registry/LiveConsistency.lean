import TerminalCommander.Daemon.Registry.History
import TerminalCommander.Lib.Transition

/-!
# Live jobs and the registry

A job is consistent with a registry if the rules it has from the registry are those of the entries
whose scope matches it, except the ones its inline rules shadow. A call rebinds the jobs in its
scope only at its end, so a database access that fails after the registry was changed leaves them
with their old rules. The theorems say exactly when jobs stay consistent.
-/

namespace TerminalCommander.Registry

open List ActivationRegistry TerminalCommander.LiveJob JobSifter Handler

variable {g : Setup}

def Held {x : Externals} (r : ActivationRegistry) (job : LiveJob x) (ref : RuleVersion) : Prop :=
  ∃ e ∈ r, e.scope.matchesJob job.ids = true ∧ e.definition.ref = ref ∧
    shadowedBy job.inlineRules ref = false

def Consistent {x : Externals} (r : ActivationRegistry) (job : LiveJob x) : Prop :=
  ∀ ref, ref ∈ job.sifter.rules.registry.map RuleDefinition.ref ↔ Held r job ref

instance {x : Externals} (r : ActivationRegistry) (job : LiveJob x) (ref : RuleVersion) :
    Decidable (Held r job ref) :=
  inferInstanceAs (Decidable (∃ e ∈ r.byKey.entries, _ ∧ _ ∧ _))

def ActivationRegistry.refs (r : ActivationRegistry) : List RuleVersion :=
  r.byKey.entries.map fun e => e.definition.ref

variable {ref : RuleVersion} {r : ActivationRegistry} {x : Externals} {job : LiveJob x}

theorem Held.mem_refs (h : Held r job ref) : ref ∈ ActivationRegistry.refs r := by
  obtain ⟨e, he, -, rfl, -⟩ := h
  exact List.mem_map_of_mem he

theorem agree_iff {P Q : RuleVersion → Prop} {l : List RuleVersion} (hP : ∀ ref, P ref → ref ∈ l)
    (hQ : ∀ ref, Q ref → ref ∈ l) : (∀ ref ∈ l, (P ref ↔ Q ref)) ↔ ∀ ref, P ref ↔ Q ref := by
  refine ⟨fun h ref => ?_, fun h ref _ => h ref⟩
  exact ⟨fun hp => (h ref (hP ref hp)).mp hp, fun hq => (h ref (hQ ref hq)).mpr hq⟩

instance {x : Externals} (r : ActivationRegistry) (job : LiveJob x) : Decidable (Consistent r job) :=
  decidable_of_iff (∀ ref ∈ job.sifter.rules.registry.map RuleDefinition.ref ++
      ActivationRegistry.refs r,
    (ref ∈ job.sifter.rules.registry.map RuleDefinition.ref ↔ Held r job ref))
    (agree_iff (fun _ h => List.mem_append_left _ h) fun _ h =>
      List.mem_append_right _ h.mem_refs)

/-! ## What a rebind compiles -/

theorem ref_mem_merged : ref ∈ (job.merged r).registry.map RuleDefinition.ref ↔ Held r job ref := by
  unfold merged mergedSources
  dsimp only
  constructor
  · intro h
    obtain ⟨rule, hrule, rfl⟩ := List.mem_map.mp h
    obtain ⟨hrule, hkept⟩ := List.mem_filter.mp hrule
    rw [Bool.and_eq_true, Bool.not_eq_true'] at hkept
    obtain ⟨e, he, hmatch, rfl⟩ := mem_of_mem_snapshotForJob hrule
    exact ⟨e, he, hmatch, rfl, hkept.2⟩
  · rintro ⟨e, he, hmatch, rfl, hshadow⟩
    obtain ⟨rule, hrule, href⟩ := List.mem_map.mp
      (ref_mem_snapshotForJob.mpr ⟨e, he, hmatch, rfl⟩)
    obtain ⟨e', he', -, rfl⟩ := mem_of_mem_snapshotForJob hrule
    refine List.mem_map.mpr ⟨e'.definition, List.mem_filter.mpr ⟨hrule, ?_⟩, href⟩
    rw [r.eligible e' he', href, hshadow]
    rfl

theorem consistent_rebind :
    Consistent r (job.rebind r) ↔ builds x (job.merged r).list ∨ Consistent r job := by
  unfold Consistent
  rcases hbuild : builds x (job.merged r).list with _ | _
  · rw [rebind, rules_rebuild_of_not_builds hbuild]
    exact (or_iff_right Bool.false_ne_true).symm
  · refine iff_of_true (fun ref => ?_) (Or.inl rfl)
    rw [rebind, rules_rebuild_of_builds hbuild]
    exact ref_mem_merged

theorem consistent_start {universalExtractors : Bool}
    (h : job.sifter.rules = job.fresh universalExtractors r) : Consistent r job := by
  intro ref
  rw [h, ← ref_mem_merged]
  unfold fresh startSources
  split_ifs with huniv
  · -- the merged list is empty, so its part from the registry is
    have hnil : (job.merged r).registry = [] := (append_eq_nil_iff.mp huniv.2).1
    rw [hnil]
  · exact Iff.rfl

/-! ## Changes in a scope -/

def Access.Within (scope : ActivationScope) : Access → Prop
  | .look => True
  | .add _ scope' => scope' = scope
  | .drop _ scope' _ => scope' = scope

variable {scope : ActivationScope}

theorem Access.Within.key_ne {a : Access} {e : ActivationEntry}
    (ha : a.Within scope) (he : e.scope ≠ scope) : a.key? ≠ some e.key := by
  intro hkey
  cases a with
  | look => cases hkey
  | _ =>
    cases ha
    exact he (congrArg (fun k => k.2.2) (Option.some.inj hkey)).symm

theorem held_changeAll_of_outside
    (hout : ¬scope.matchesJob job.ids) {as : List Access} (hwithin : ∀ a ∈ as, a.Within scope) :
    Held (changeAll r as) job ref ↔ Held r job ref := by
  refine exists_congr fun e => and_congr_left fun hrest => ?_
  refine mem_changeAll_of_key fun a ha => (hwithin a ha).key_ne fun he => hout ?_
  rw [← he]
  exact hrest.1

variable {d : Daemon g}

theorem plan_within {call : RegistryCall} {as : List Access} (h : plan d call = some (scope, as)) :
    call.scope = some scope ∧ ∀ a ∈ as, a.Within scope := by
  obtain ⟨hscope, hplanned⟩ := plan_planned h
  refine ⟨hscope, fun a ha => ?_⟩
  cases hplanned a ha with
  | look => trivial
  | _ => rfl

/-! ## One call -/

def Daemon.AllConsistent (d : Daemon g) : Prop := ∀ job ∈ d.live, Consistent d.activation job

def Daemon.SettledIn (d : Daemon g) (scope : ActivationScope) : Prop :=
  ∀ job ∈ d.live, scope.matchesJob job.ids = true → Consistent d.activation job

def Clean (d : Daemon g) (db : Database) (call : RegistryCall) : Prop :=
  ∀ scope as, plan d call = some (scope, as) →
    ∀ job ∈ d.live, scope.matchesJob job.ids = true →
      (progress g as db d.store = as.length ∧
        builds g.x (job.merged (changeAll d.activation as)).list = true) ∨
      ∀ ref, Held (changeAll d.activation (as.take (progress g as db d.store))) job ref ↔
        Held d.activation job ref

theorem consistent_congr {r' : ActivationRegistry} (h : Consistent r job) :
    Consistent r' job ↔ ∀ ref, Held r' job ref ↔ Held r job ref := by
  constructor
  · intro h' ref
    rw [← h ref, h' ref]
  · intro hheld ref
    rw [h ref, hheld ref]

theorem settle_cases (db : Database) (d : Daemon g) (scope : ActivationScope) (as : List Access) :
    (progress g as db d.store = as.length ∧
      (settle db d (some (scope, as))).2.activation = changeAll d.activation as ∧
      (settle db d (some (scope, as))).2.live =
        (rebindJobsInScope (some scope) (changeAll d.activation as) d.live).2) ∨
    (progress g as db d.store ≠ as.length ∧
      (settle db d (some (scope, as))).2.activation =
        changeAll d.activation (as.take (progress g as db d.store)) ∧
      (settle db d (some (scope, as))).2.live = d.live) := by
  have hreg := exec_activation as db d
  have hlive := (exec_live as db d).1
  by_cases hdone : progress g as db d.store = as.length
  · rw [hdone, take_length] at hreg
    have hok : (exec as db d).1 := (exec_fst as db d).trans (decide_eq_true hdone)
    left
    unfold settle
    dsimp only
    rw [if_pos hok]
    refine ⟨hdone, hreg, ?_⟩
    show (rebindJobsInScope (some scope) (exec as db d).2.activation (exec as db d).2.live).2 = _
    rw [hreg, hlive]
  · have hfail : ¬(exec as db d).1 := by
      rw [exec_fst]
      exact fun h => hdone (of_decide_eq_true h)
    right
    unfold settle
    dsimp only
    rw [if_neg hfail]
    exact ⟨hdone, hreg, hlive⟩

theorem settled_iff_clean (hd : d.AllConsistent) (db : Database) (call : RegistryCall) :
    (∀ scope, call.scope = some scope → (handle db d call).2.SettledIn scope) ↔
      Clean d db call := by
  rw [handle_eq_settle]
  rcases hplan : plan d call with _ | ⟨scope, as⟩
  · refine iff_of_true (fun scope _ job hjob _ => hd job hjob) fun scope as h => ?_
    rw [hplan] at h
    cases h
  obtain ⟨hscope, -⟩ := plan_within hplan
  have hclean : Clean d db call ↔ ∀ job ∈ d.live, scope.matchesJob job.ids →
      (progress g as db d.store = as.length ∧
        builds g.x (job.merged (changeAll d.activation as)).list) ∨
      ∀ ref, Held (changeAll d.activation (as.take (progress g as db d.store))) job ref ↔
        Held d.activation job ref := by
    constructor
    · exact fun h => h scope as hplan
    · intro h scope' as' h'
      rw [hplan] at h'
      cases h'
      exact h
  rw [hclean]
  have hone : (∀ scope', call.scope = some scope' →
      (settle db d (some (scope, as))).2.SettledIn scope') ↔
        (settle db d (some (scope, as))).2.SettledIn scope := by
    constructor
    · exact fun h => h scope hscope
    · intro h scope' h'
      rw [hscope] at h'
      cases h'
      exact h
  rw [hone]
  unfold Daemon.SettledIn
  rcases settle_cases db d scope as with ⟨hdone, hreg, hlive⟩ | ⟨hdone, hreg, hlive⟩
  · rw [hreg, hlive]
    have hjob : ∀ old ∈ d.live, scope.matchesJob old.ids →
        (Consistent (changeAll d.activation as) (old.rebind (changeAll d.activation as)) ↔
          (progress g as db d.store = as.length ∧
            builds g.x (old.merged (changeAll d.activation as)).list) ∨
          ∀ ref, Held (changeAll d.activation (as.take (progress g as db d.store))) old ref ↔
            Held d.activation old ref) := by
      intro old hold _
      rw [consistent_rebind, consistent_congr (hd old hold), hdone, take_length, and_iff_right rfl]
    constructor
    · intro h old hold hmatch
      refine (hjob old hold hmatch).mp (h _ (mem_rebindJobsInScope.mpr ⟨old, hold, ?_⟩) hmatch)
      rw [inScope_some, if_pos hmatch]
    · intro h job hjob' hmatch
      obtain ⟨old, hold, rfl⟩ := mem_rebindJobsInScope.mp hjob'
      rw [inScope_some] at hmatch ⊢
      by_cases hm : scope.matchesJob old.ids
      · rw [if_pos hm]
        exact (hjob old hold hm).mpr (h old hold hm)
      · rw [if_neg hm] at hmatch
        exact absurd hmatch hm
  · rw [hreg, hlive]
    refine forall_congr' fun job => forall_congr' fun hjob => forall_congr' fun _ => ?_
    rw [consistent_congr (hd job hjob), or_iff_right fun h => hdone h.1]

theorem allConsistent_handle (hd : d.AllConsistent) {db : Database}
    {call : RegistryCall} (hclean : Clean d db call) : (handle db d call).2.AllConsistent := by
  have hsettled := (settled_iff_clean hd db call).mpr hclean
  rw [handle_eq_settle] at hsettled ⊢
  rcases hplan : plan d call with _ | ⟨scope, as⟩
  · exact hd
  obtain ⟨hscope, hwithin⟩ := plan_within hplan
  rw [hplan] at hsettled
  intro job hjob
  by_cases hmatch : scope.matchesJob job.ids
  · exact hsettled scope hscope job hjob hmatch
  -- outside the scope neither the job nor what it is to get has changed
  rcases settle_cases db d scope as with ⟨-, hreg, hlive⟩ | ⟨-, hreg, hlive⟩
  · rw [hlive] at hjob
    obtain ⟨old, hold, rfl⟩ := mem_rebindJobsInScope.mp hjob
    rw [inScope_some] at hmatch ⊢
    by_cases hm : scope.matchesJob old.ids
    · rw [if_pos hm] at hmatch
      exact absurd hm hmatch
    · rw [hreg, if_neg hm]
      exact (consistent_congr (hd old hold)).mpr fun ref => held_changeAll_of_outside hm hwithin
  · rw [hlive] at hjob
    rw [hreg]
    exact (consistent_congr (hd job hjob)).mpr fun ref =>
      held_changeAll_of_outside hmatch fun a ha => hwithin a (mem_of_mem_take ha)

/-! ## Histories -/

theorem spec_storeCall_keeps {α : Type}
    {call : Text → RuleStore → Except EventStoreError (α × RuleStore)} {live : LiveMap g.x} :
    Handler.Spec (fun c : Request g => c.daemon.activation = r ∧ c.daemon.live = live)
      (storeCall call) (fun _ c => c.daemon.activation = r ∧ c.daemon.live = live)
      (fun c => c.daemon.activation = r ∧ c.daemon.live = live) := by
  intro c hc
  rcases hdb : c.db 0 with reason | now
  · rw [storeCall_fault hdb]
    exact hc
  · rcases hcall : call now c.daemon.store with e | ⟨a, store⟩
    · rw [storeCall_error hdb hcall]
      exact hc
    · rw [storeCall_ok hdb hcall]
      exact hc

theorem upsert_keeps (d : Daemon g) (db : Database) (definition : RuleDefinition) :
    (handleRegistryUpsert definition ⟨d, db⟩).2.daemon.activation = d.activation ∧
      (handleRegistryUpsert definition ⟨d, db⟩).2.daemon.live = d.live := by
  have hspec : Handler.Spec
      (fun c : Request g => c.daemon.activation = d.activation ∧ c.daemon.live = d.live)
      (handleRegistryUpsert definition)
      (fun _ c => c.daemon.activation = d.activation ∧ c.daemon.live = d.live)
      (fun c => c.daemon.activation = d.activation ∧ c.daemon.live = d.live) := by
    refine spec_bind (spec_ofExcept (fun _ _ _ hc => hc) fun _ hc => hc) fun _ => ?_
    refine spec_bind (spec_ofExcept (fun _ _ _ hc => hc) fun _ hc => hc) fun _ => ?_
    exact spec_storeCall_keeps
  exact hspec.state (s := ⟨d, db⟩) ⟨rfl, rfl⟩

theorem start_cases (d : Daemon g) (ids : JobTriple) (inlineRules : List RuleDefinition) :
    d.start ids inlineRules = d ∨ ∃ sifter : JobSifter g.x,
      sifter.rules = startSources g.universalExtractors (d.activation.snapshotForJob ids)
        inlineRules ∧
      d.start ids inlineRules = { d with live := d.live.insert ⟨ids, inlineRules, sifter⟩ } := by
  unfold Daemon.start startJob
  rcases hbuild : build g.x (startSources g.universalExtractors
    (d.activation.snapshotForJob ids) inlineRules) with e | sifter
  · exact Or.inl rfl
  · exact Or.inr ⟨sifter, rules_of_build hbuild, rfl⟩

theorem allConsistent_applyBasic (hd : d.AllConsistent) {op : BasicOperation}
    (hcall : ∀ db call, op = .call db call → Clean d db call) :
    (d.applyBasic op).AllConsistent := by
  cases op with
  | call db call => exact allConsistent_handle hd (hcall db call rfl)
  | upsert db definition =>
    obtain ⟨hreg, hlive⟩ := upsert_keeps d db definition
    intro job hjob
    show Consistent (handleRegistryUpsert definition ⟨d, db⟩).2.daemon.activation job
    rw [hreg]
    exact hd job (hlive ▸ hjob)
  | start ids inlineRules =>
    show (d.start ids inlineRules).AllConsistent
    rcases start_cases d ids inlineRules with h | ⟨sifter, hrules, h⟩
    · rw [h]
      exact hd
    · rw [h]
      intro job hjob
      rcases KeyedMap.mem_insert.mp hjob with rfl | ⟨hjob, -⟩
      · exact consistent_start hrules
      · exact hd job hjob
  | forget jobId => exact fun job hjob => hd job (KeyedMap.mem_erase.mp hjob).1
  | watch others => exact hd
  | restart =>
    show d.restart.AllConsistent
    unfold Daemon.restart
    split
    · exact fun job hjob => (not_mem_nil hjob).elim
    · exact hd

def basicStep (d : Daemon g) (op : BasicOperation) : Option (Daemon g) := some (d.applyBasic op)

def Settles (d : Daemon g) : BasicOperation → Prop
  | .call db call => ∀ scope, call.scope = some scope → (handle db d call).2.SettledIn scope
  | _ => True

def RunsClean (d : Daemon g) : BasicOperation → Prop
  | .call db call => Clean d db call
  | _ => True

theorem settles_iff_runsClean (hd : d.AllConsistent) (op : BasicOperation) :
    Settles d op ↔ RunsClean d op := by
  cases op with
  | call db call => exact settled_iff_clean hd db call
  | _ => exact Iff.rfl

theorem meets_settles_iff (history : List BasicOperation) : ∀ {d : Daemon g}, d.AllConsistent →
    (Transition.Meets basicStep Settles d history ↔
      Transition.Meets basicStep RunsClean d history) := by
  induction history with
  | nil => exact fun _ => Iff.rfl
  | cons op history ih =>
    intro d hd
    show Settles d op ∧ _ ↔ RunsClean d op ∧ _
    rw [settles_iff_runsClean hd op]
    -- a clean operation leaves a daemon of consistent jobs for the rest of the history
    refine and_congr_right fun hclean => forall_congr' fun d' => forall_congr' fun hstep => ?_
    cases hstep
    refine ih (allConsistent_applyBasic hd fun db call hop => ?_)
    cases hop
    exact hclean

/-- **Calls and live jobs.** In every history, every call leaves the jobs in its scope consistent
with the registry as it stands just if every call is clean: it makes all its accesses and the rules
of the jobs in scope compile, or it leaves what these jobs are to get as it was. -/
theorem calls_settle_iff (history : List BasicOperation) :
    Transition.Meets basicStep Settles (Daemon.initial : Daemon g) history ↔
      Transition.Meets basicStep RunsClean (Daemon.initial : Daemon g) history :=
  meets_settles_iff history fun _ hjob => (not_mem_nil hjob).elim

/-! ## A close that fails -/

def beforeSupersede : List BasicOperation :=
  [.upsert answers (keywordRule "r".toList ["a".toList]),
    .upsert answers (keywordRule "r".toList ["b".toList]),
    .start ⟨1, 2, 3⟩ [],
    .call answers (activateGlobally "r".toList 1)]

theorem handle_failed_supersede :
    let d : Daemon (plainSetup false) := beforeSupersede.foldl Daemon.applyBasic Daemon.initial
    ∃ job ∈ (handle (failsAt 2) d (activateGlobally "r".toList 2)).2.live.entries,
      ¬Consistent (handle (failsAt 2) d (activateGlobally "r".toList 2)).2.activation job := by
  decide +kernel

theorem failed_supersede_unsettled :
    ¬Transition.Meets basicStep Settles (Daemon.initial : Daemon (plainSetup false))
      (beforeSupersede ++ [.call (failsAt 2) (activateGlobally "r".toList 2)]) := by
  intro h
  have hrun : Transition.run basicStep (Daemon.initial : Daemon (plainSetup false))
      beforeSupersede = some (beforeSupersede.foldl Daemon.applyBasic Daemon.initial) := rfl
  obtain ⟨job, hjob, hnot⟩ := handle_failed_supersede
  exact hnot ((Transition.Meets.of_append h hrun).2 .global rfl job hjob rfl)

end TerminalCommander.Registry
