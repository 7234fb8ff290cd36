import TerminalCommander.Daemon.Registry.Concurrent
import TerminalCommander.Daemon.Registry.Durable

/-!
# Activations of one rule that run at once

Several activations of versions of one rule in one scope. If two calls have both added their
versions before either looks, each closes the other's, and no version is left. The calls leave
exactly one version active, in the registry and in the tables alike, if the last of them to add its
version does so when the others have already looked, and if no call closes a version while another
one is recording it.
-/

namespace TerminalCommander.Registry

open List TerminalCommander.ActivationRegistry Option Table RuleStore ActivationEntry

variable {g : Setup}

/-! ## Where an activation stands -/

namespace Pc

variable {x : Externals}

def beforeAdd : Pc x → Bool
  | accepted _ _ => true
  | recorded _ _ => true
  | _ => false

def isAdded : Pc x → Bool
  | added _ _ => true
  | _ => false

def recorded? : Pc x → Option Nat
  | recorded definition _ => some definition.version
  | _ => none

def closing? : Pc x → Option Nat
  | closing _ _ v _ => some v
  | _ => none

def toClose : Pc x → List Nat
  | superseding _ _ pending => pending
  | closing _ _ v pending => v :: pending
  | _ => []

def Of (definition : RuleDefinition) (scope : ActivationScope) : Pc x → Prop
  | accepted definition' scope' => definition' = definition ∧ scope' = scope
  | recorded definition' scope' => definition' = definition ∧ scope' = scope
  | added definition' scope' => definition' = definition ∧ scope' = scope
  | superseding definition' scope' pending =>
    definition' = definition ∧ scope' = scope ∧ definition.version ∉ pending
  | closing definition' scope' v pending =>
    definition' = definition ∧ scope' = scope ∧ definition.version ∉ v :: pending
  | rebinding _ => True
  | rebindJobs _ => True
  | writing _ _ _ => True
  | done => True
  | _ => False

def Late : Pc x → Prop
  | rebinding _ => True
  | rebindJobs _ => True
  | writing _ _ _ => True
  | done => True
  | _ => False

end Pc

def Daemon.Active (d : Daemon g) (ruleId : Text) (scope : ActivationScope) (v : Nat) : Prop :=
  d.activation.isActive ruleId v scope = true

def Daemon.Open (d : Daemon g) (ruleId : Text) (scope : ActivationScope) (v : Nat) : Prop :=
  d.store.openRows g.u ruleId v scope ≠ []

inductive Moves (definition : RuleDefinition) (scope : ActivationScope) (d d' : Daemon g) :
    Pc g.x → Pc g.x → Prop
  | record
      (hactive : ∀ w, d'.Active definition.id scope w ↔ d.Active definition.id scope w)
      (hopen : ∀ w, d'.Open definition.id scope w ↔
        w = definition.version ∨ d.Open definition.id scope w) :
      Moves definition scope d d' (.accepted definition scope) (.recorded definition scope)
  | add
      (hactive : ∀ w, d'.Active definition.id scope w ↔
        w = definition.version ∨ d.Active definition.id scope w)
      (hopen : ∀ w, d'.Open definition.id scope w ↔ d.Open definition.id scope w) :
      Moves definition scope d d' (.recorded definition scope) (.added definition scope)
  | look (pending : List Nat) (hd : d' = d)
      (hpending : ∀ w, w ∈ pending ↔ d.Active definition.id scope w ∧ w ≠ definition.version) :
      Moves definition scope d d' (.added definition scope)
        (.superseding definition scope pending)
  | close (v : Nat) (pending : List Nat)
      (hactive : ∀ w, d'.Active definition.id scope w ↔ d.Active definition.id scope w)
      (hopen : ∀ w, d'.Open definition.id scope w ↔ w ≠ v ∧ d.Open definition.id scope w) :
      Moves definition scope d d' (.superseding definition scope (v :: pending))
        (.closing definition scope v pending)
  | remove (v : Nat) (pending : List Nat)
      (hactive : ∀ w, d'.Active definition.id scope w ↔ w ≠ v ∧ d.Active definition.id scope w)
      (hopen : ∀ w, d'.Open definition.id scope w ↔ d.Open definition.id scope w) :
      Moves definition scope d d' (.closing definition scope v pending)
        (.superseding definition scope pending)
  | leave (hd : d' = d) (scope' : ActivationScope) :
      Moves definition scope d d' (.superseding definition scope []) (.rebinding scope')
  | late {pc pc' : Pc g.x} (hpc : pc.Late) (hpc' : pc'.Late)
      (hactive : d'.activation = d.activation) (hopen : d'.store = d.store) :
      Moves definition scope d d' pc pc'

variable {scope : ActivationScope} {ruleId : Text}

theorem mem_supersededVersions {u : Uuids} {r : ActivationRegistry} {version w : Nat} :
    w ∈ supersededVersions u r ruleId version scope ↔
      r.isActive ruleId w scope ∧ w ≠ version := by
  rw [supersededVersions, mem_insertionSort, List.mem_filter, decide_eq_true_eq,
    mem_activeVersionsForScope, isActive_iff]

theorem version_key {v w : Nat} : (ruleId, w, scope) = (ruleId, v, scope) ↔ w = v := by
  constructor
  · intro h
    exact congrArg (fun k => k.2.1) h
  · intro h
    rw [h]

variable {pc pc' : Pc g.x} {d d' : Daemon g} {definition : RuleDefinition}

theorem Moves.of_next {now : Text} (hof : pc.Of definition scope)
    (helig : definition.status.isRuntimeEligible)
    (h : pc.next now d = some (d', pc')) : Moves definition scope d d' pc pc' := by
  cases pc with
  | accepted definition' scope' =>
    obtain ⟨rfl, rfl⟩ := hof
    unfold Pc.next at h
    dsimp only at h
    split at h
    · rename_i store hrecord
      cases h
      refine .record (fun _ => Iff.rfl) fun w => ?_
      refine (openRows_record hrecord _ _ _).trans (or_congr_left version_key)
    · cases h
  | recorded definition' scope' =>
    obtain ⟨rfl, rfl⟩ := hof
    cases h
    refine .add (fun w => ?_) fun _ => Iff.rfl
    exact (isActive_activate helig).trans (or_congr_left version_key)
  | added definition' scope' =>
    obtain ⟨rfl, rfl⟩ := hof
    cases h
    exact .look _ rfl fun w => mem_supersededVersions
  | superseding definition' scope' pending =>
    obtain ⟨rfl, rfl, -⟩ := hof
    cases pending with
    | nil =>
      cases h
      exact .leave rfl scope'
    | cons v vs =>
      cases h
      refine .close v vs (fun _ => Iff.rfl) fun w => ?_
      show openRows _ (deactivateRuleScoped _ _ _ _ _ _).2 _ _ _ ≠ [] ↔ _
      rw [openRows_deactivate]
      split_ifs with hkey
      · exact iff_of_false (fun hne => hne rfl) fun hne => hne.1 (version_key.mp hkey)
      · exact (and_iff_right fun hw => hkey (version_key.mpr hw)).symm
  | closing definition' scope' v vs =>
    obtain ⟨rfl, rfl, -⟩ := hof
    cases h
    refine .remove v vs (fun w => ?_) fun _ => Iff.rfl
    exact isActive_deactivate.trans
      (and_congr_left fun _ => not_congr version_key)
  | rebinding scope' | writing job rules work =>
    cases h
    exact .late trivial trivial rfl rfl
  | rebindJobs work =>
    cases work with
    | _ =>
      cases h
      exact .late trivial trivial rfl rfl
  | done => cases h
  | _ => exact hof.elim

theorem Moves.of (hof : pc.Of definition scope) (h : Moves definition scope d d' pc pc') :
    pc'.Of definition scope := by
  cases h with
  | look pending _ hpend => exact ⟨hof.1, hof.2, fun h => ((hpend _).mp h).2 rfl⟩
  | remove => exact ⟨hof.1, hof.2.1, fun h => hof.2.2 (mem_cons_of_mem _ h)⟩
  | leave => trivial
  | late _ hpc' =>
    cases pc' <;> trivial
  | _ => exact hof

/-! ## The tables and the registry -/

section Agrees

variable {x : Externals}

structure Agrees (A O : Nat → Prop) (l : List (Pc x)) : Prop where
  recording : ∀ pc ∈ l, ∀ v, pc.recorded? = some v → O v
  closing : ∀ pc ∈ l, ∀ v, pc.closing? = some v → ¬O v
  settled : ∀ v, (∀ pc ∈ l, pc.recorded? ≠ some v ∧ pc.closing? ≠ some v) → (A v ↔ O v)

variable {A A' O O' : Nat → Prop} {l : List (Pc x)} {k : Nat} {pc pc' : Pc x}

theorem Agrees.set (h : Agrees A O l) (hk : l[k]? = some pc)
    (hrec : ∀ v, pc'.recorded? = some v → O' v) (hclosing : ∀ v, pc'.closing? = some v → ¬O' v)
    (hkept : ∀ q ∈ l, ∀ v, (q.recorded? = some v → O v → O' v) ∧
      (q.closing? = some v → O' v → O v))
    (hsettled : ∀ v, pc'.recorded? ≠ some v → pc'.closing? ≠ some v →
      (pc.recorded? ≠ some v ∧ pc.closing? ≠ some v → (A v ↔ O v)) → (A' v ↔ O' v)) :
    Agrees A' O' (l.set k pc') := by
  refine ⟨fun q hq v hv => ?_, fun q hq v hv => ?_, fun v hset => ?_⟩
  · rcases mem_or_eq_of_mem_set hq with hq | rfl
    · exact (hkept q hq v).1 hv (h.recording q hq v hv)
    · exact hrec v hv
  · rcases mem_or_eq_of_mem_set hq with hq | rfl
    · exact fun ho => h.closing q hq v hv ((hkept q hq v).2 hv ho)
    · exact hclosing v hv
  · obtain ⟨hr, hc⟩ := hset pc' (mem_set_self hk pc')
    refine hsettled v hr hc fun hpc => h.settled v fun q hq => ?_
    rcases mem_set_or_eq hk hq with rfl | hq
    · exact hpc
    · exact hset q hq

theorem Pc.Late.views (h : pc.Late) :
    pc.beforeAdd = false ∧ pc.isAdded = false ∧ pc.recorded? = none ∧ pc.closing? = none ∧
      pc.toClose = [] := by
  cases pc <;> first | exact ⟨rfl, rfl, rfl, rfl, rfl⟩ | exact h.elim

theorem Agrees.set_of_none (h : Agrees A O l) (hk : l[k]? = some pc)
    (hpc : pc.recorded? = none ∧ pc.closing? = none)
    (hpc' : pc'.recorded? = none ∧ pc'.closing? = none) : Agrees A O (l.set k pc') := by
  refine h.set hk ?_ ?_ (fun _ _ _ => ⟨fun _ ho => ho, fun _ ho => ho⟩) ?_
  · rw [hpc'.1]
    exact nofun
  · rw [hpc'.2]
    exact nofun
  · rw [hpc.1, hpc.2]
    exact fun _ _ _ hset => hset ⟨nofun, nofun⟩

end Agrees

theorem agrees_step {l : List (Pc g.x)} {k : Nat}
    (h : Agrees (d.Active definition.id scope) (d.Open definition.id scope) l)
    (hk : l[k]? = some pc) (hmoves : Moves definition scope d d' pc pc')
    (hrecord : pc = .accepted definition scope →
      ∀ q ∈ l, q.closing? ≠ some definition.version)
    (hclose : ∀ v pending, pc = .superseding definition scope (v :: pending) →
      ∀ q ∈ l, q.recorded? ≠ some v) :
    Agrees (d'.Active definition.id scope) (d'.Open definition.id scope) (l.set k pc') := by
  have hmem : pc ∈ l := mem_iff_getElem?.mpr ⟨k, hk⟩
  cases hmoves with
  | record hact hopen =>
    refine h.set hk (fun v hv => ?_) nofun (fun q hq v => ⟨fun _ ho => ?_, fun hv ho => ?_⟩)
      fun v hv _ hset => ?_
    · exact (hopen v).mpr (.inl (some.inj hv).symm)
    · exact (hopen v).mpr (.inr ho)
    · refine ((hopen v).mp ho).resolve_left ?_
      rintro rfl
      exact hrecord rfl q hq hv
    · rw [hact, hopen, or_iff_right fun heq => hv (congrArg some heq.symm)]
      exact hset ⟨nofun, nofun⟩
  | add hact hopen =>
    refine h.set hk nofun nofun (fun q _ v => ⟨fun _ => (hopen v).mpr, fun _ => (hopen v).mp⟩)
      fun v _ _ hset => ?_
    rw [hact, hopen]
    by_cases hv : v = definition.version
    · -- the row of the version was recorded before
      rw [hv]
      exact iff_of_true (Or.inl rfl) (h.recording _ hmem _ rfl)
    · rw [or_iff_right hv]
      exact hset ⟨fun heq => hv (some.inj heq).symm, nofun⟩
  | look pending hd _ | leave hd scope' =>
    rw [hd]
    exact h.set_of_none hk ⟨rfl, rfl⟩ ⟨rfl, rfl⟩
  | close v pending hact hopen =>
    refine h.set hk nofun (fun w hw ho => ?_) (fun q hq w => ⟨fun hw ho => ?_, fun _ ho => ?_⟩)
      fun w _ hw hset => ?_
    · exact ((hopen w).mp ho).1 (some.inj hw).symm
    · exact (hopen w).mpr ⟨fun heq => hclose v pending rfl q hq (heq ▸ hw), ho⟩
    · exact ((hopen w).mp ho).2
    · rw [hact, hopen, and_iff_right fun heq => hw (congrArg some heq.symm)]
      exact hset ⟨nofun, nofun⟩
  | remove v pending hact hopen =>
    refine h.set hk nofun nofun (fun q _ w => ⟨fun _ => (hopen w).mpr, fun _ => (hopen w).mp⟩)
      fun w _ _ hset => ?_
    rw [hact, hopen]
    by_cases hw : w = v
    · -- the row of the version was closed before
      rw [hw]
      exact iff_of_false (fun hne => hne.1 rfl) (h.closing _ hmem _ rfl)
    · rw [and_iff_right hw]
      exact hset ⟨nofun, fun heq => hw (some.inj heq).symm⟩
  | late hpc hpc' hact hopen =>
    obtain ⟨-, -, hr, hc, -⟩ := hpc.views
    obtain ⟨-, -, hr', hc', -⟩ := hpc'.views
    unfold Daemon.Active Daemon.Open
    rw [hact, hopen]
    exact h.set_of_none hk ⟨hr, hc⟩ ⟨hr', hc'⟩

/-! ## The version that is left -/

section Wins

variable {x : Externals}

structure Wins (A : Nat → Prop) (l : List (Pc x)) (t v : Nat) : Prop where
  active : A v
  others : ∀ j pc, j ≠ t → l[j]? = some pc → pc.isAdded = false ∧ v ∉ pc.toClose
  rest : ∀ pc, l[t]? = some pc → pc.isAdded = false → ∀ w, w ≠ v → A w → w ∈ pc.toClose

def HasWinner (definitions : List RuleDefinition) (A : Nat → Prop) (l : List (Pc x)) : Prop :=
  (∀ pc ∈ l, pc.beforeAdd = false) →
    ∃ t definition, definitions[t]? = some definition ∧ Wins A l t definition.version

variable {A A' : Nat → Prop} {l : List (Pc x)} {k t v : Nat} {pc pc' : Pc x}

theorem Wins.set (h : Wins A l t v) (hact : A' v)
    (hother : k ≠ t → (pc'.isAdded = false ∧ v ∉ pc'.toClose) ∧ ∀ w, A' w → A w)
    (hsame : k = t → pc'.isAdded = false → ∀ w, w ≠ v → A' w → w ∈ pc'.toClose) :
    Wins A' (l.set k pc') t v := by
  refine ⟨hact, fun j q hj hq => ?_, fun q hq hadded w hw ha => ?_⟩
  · rcases set_cases hq with ⟨rfl, rfl⟩ | ⟨-, hq⟩
    · exact (hother hj).1
    · exact h.others j q hj hq
  · rcases set_cases hq with ⟨rfl, rfl⟩ | ⟨hne, hq⟩
    · exact hsame rfl hadded w hw ha
    · exact h.rest q hq hadded w hw ((hother hne.symm).2 w ha)

theorem HasWinner.before {definitions : List RuleDefinition} (h : HasWinner definitions A l)
    (hk : l[k]? = some pc) (hpc : pc.beforeAdd = false)
    (hall : ∀ q ∈ l.set k pc', q.beforeAdd = false) :
    ∃ t definition, definitions[t]? = some definition ∧ Wins A l t definition.version := by
  refine h fun q hq => ?_
  rcases mem_set_or_eq hk hq with rfl | hq
  · exact hpc
  · exact hall q hq

end Wins

variable {definitions : List RuleDefinition}

theorem hasWinner_step {l : List (Pc g.x)} {k : Nat}
    (h : HasWinner definitions (d.Active definition.id scope) l) (hk : l[k]? = some pc)
    (howner : definitions[k]? = some definition) (hof : pc.Of definition scope)
    (hmoves : Moves definition scope d d' pc pc') (hadd : pc = .recorded definition scope →
      (∃ q ∈ l.eraseIdx k, q.beforeAdd) ∨
        ∀ q ∈ l.eraseIdx k, q.isAdded = false ∧ definition.version ∉ q.toClose) :
    HasWinner definitions (d'.Active definition.id scope) (l.set k pc') := by
  have hmem' : pc' ∈ l.set k pc' := mem_set_self hk pc'
  have howns : ∀ {t definition'}, definitions[t]? = some definition' → k = t →
      definition' = definition := by
    intro t definition' ht hkt
    rw [← hkt, howner] at ht
    exact (some.inj ht).symm
  intro hall
  cases hmoves with
  | record => exact absurd (hall _ hmem').symm Bool.false_ne_true
  | add hact =>
    -- every call has added its version, and this one is the last
    have hothers := (hadd rfl).resolve_left fun ⟨q, hq, hbef⟩ => by
      obtain ⟨j, hj, hq⟩ := mem_eraseIdx_iff_getElem?.mp hq
      have hq' : q ∈ l.set k (.added definition scope) :=
        mem_iff_getElem?.mpr ⟨j, (getElem?_set_ne hj.symm).trans hq⟩
      exact Bool.false_ne_true ((hall q hq').symm.trans hbef)
    refine ⟨k, definition, howner, (hact _).mpr (Or.inl rfl), fun j q hj hq => ?_,
      fun q hq hadded => ?_⟩
    · rcases set_cases hq with ⟨rfl, -⟩ | ⟨-, hq⟩
      · exact absurd rfl hj
      · exact hothers q (mem_eraseIdx_iff_getElem?.mpr ⟨j, hj, hq⟩)
    · rcases set_cases hq with ⟨-, rfl⟩ | ⟨hne, -⟩
      · cases hadded
      · exact absurd rfl hne
  | look pending hd hpend =>
    obtain ⟨t, definition', ht, hwins⟩ := h.before hk rfl hall
    -- only the call whose version stays may still have to look
    have hkt : k = t := by
      by_contra hne
      exact Bool.false_ne_true (hwins.others k _ hne hk).1.symm
    rw [hd]
    refine ⟨t, definition', ht, hwins.set hwins.active (fun hne => absurd hkt hne) ?_⟩
    intro _ _ w hw ha
    rw [howns ht hkt] at hw
    exact (hpend w).mpr ⟨ha, hw⟩
  | close v pending hact =>
    obtain ⟨t, definition', ht, hwins⟩ := h.before hk rfl hall
    refine ⟨t, definition', ht, hwins.set ((hact _).mpr hwins.active) (fun hne => ?_) ?_⟩
    · exact ⟨⟨rfl, (hwins.others k _ hne hk).2⟩, fun w => (hact w).mp⟩
    · rintro rfl hadded w hw ha
      exact hwins.rest _ hk hadded w hw ((hact w).mp ha)
  | remove v pending hact =>
    obtain ⟨t, definition', ht, hwins⟩ := h.before hk rfl hall
    have hne : definition'.version ≠ v := by
      by_cases hkt : k = t
      · rw [howns ht hkt]
        exact fun heq => hof.2.2 (heq ▸ mem_cons_self)
      · exact fun heq => (hwins.others k _ hkt hk).2 (heq ▸ mem_cons_self)
    refine ⟨t, definition', ht, hwins.set ((hact _).mpr ⟨hne, hwins.active⟩) (fun hkt => ?_) ?_⟩
    · have hnot := (hwins.others k _ hkt hk).2
      exact ⟨⟨rfl, fun hw => hnot (mem_cons_of_mem v hw)⟩, fun w ha => ((hact w).mp ha).2⟩
    · rintro rfl - w hw ha
      obtain ⟨hwv, ha⟩ := (hact w).mp ha
      exact (mem_cons.mp (hwins.rest _ hk rfl w hw ha)).resolve_left hwv
  | leave hd scope' =>
    obtain ⟨t, definition', ht, hwins⟩ := h.before hk rfl hall
    rw [hd]
    refine ⟨t, definition', ht, hwins.set hwins.active (fun hne => ⟨⟨rfl, not_mem_nil⟩,
      fun w ha => ha⟩) ?_⟩
    rintro rfl - w hw ha
    exact hwins.rest _ hk rfl w hw ha
  | late hpc hpc' hact =>
    obtain ⟨hbef, hadded, -, -, hclose⟩ := hpc.views
    obtain ⟨-, hadded', -, -, hclose'⟩ := hpc'.views
    obtain ⟨t, definition', ht, hwins⟩ := h.before hk hbef hall
    unfold Daemon.Active at hwins ⊢
    rw [hact]
    refine ⟨t, definition', ht, hwins.set hwins.active (fun hne => ⟨⟨hadded', ?_⟩,
      fun w ha => ha⟩) ?_⟩
    · rw [hclose']
      exact not_mem_nil
    · rintro rfl - w hw ha
      rw [hclose', ← hclose]
      exact hwins.rest _ hk hadded w hw ha

/-! ## Runs -/

def race (d : Daemon g) (definitions : List RuleDefinition) (scope : ActivationScope) : Sys g :=
  ⟨d, definitions.map fun definition => .accepted definition scope⟩

def raceStep (s : Sys g) (a : Nat × Text) : Option (Sys g) := s.stepRequest a.1 a.2

def Pc.Ordered {x : Externals} (all others : List (Pc x)) : Pc x → Prop
  | accepted definition _ => ∀ q ∈ all, q.closing? ≠ some definition.version
  | recorded definition _ =>
    (∃ q ∈ others, q.beforeAdd = true) ∨
      ∀ q ∈ others, q.isAdded = false ∧ definition.version ∉ q.toClose
  | superseding _ _ (v :: _) => ∀ q ∈ all, q.recorded? ≠ some v
  | _ => True

instance {x : Externals} (all others : List (Pc x)) : ∀ pc : Pc x, Decidable (pc.Ordered all others)
  | .accepted definition _ =>
    inferInstanceAs (Decidable (∀ q ∈ all, _))
  | .recorded definition _ =>
    inferInstanceAs (Decidable (_ ∨ _))
  | .superseding _ _ (v :: _) => inferInstanceAs (Decidable (∀ q ∈ all, _))
  | .superseding _ _ [] | .added _ _ | .closing _ _ _ _ | .deactivating _ _ _
  | .dropping _ _ _ _ | .rebinding _ | .rebindJobs _ | .writing _ _ _ | .starting _ _ | .built _
  | .done => inferInstanceAs (Decidable True)

def KeepsOrder (s : Sys g) (a : Nat × Text) : Prop :=
  ∀ pc ∈ s.requests[a.1]?, pc.Ordered s.requests (s.requests.eraseIdx a.1)

instance (s : Sys g) (a : Nat × Text) : Decidable (KeepsOrder s a) :=
  inferInstanceAs (Decidable (∀ pc ∈ s.requests[a.1]?, _))

structure Race (definitions : List RuleDefinition) (ruleId : Text) (scope : ActivationScope)
    (s : Sys g) : Prop where
  length : s.requests.length = definitions.length
  owner : ∀ (k : Nat) (pc : Pc g.x), s.requests[k]? = some pc →
    ∃ definition, definitions[k]? = some definition ∧ pc.Of definition scope
  agrees : Agrees (s.daemon.Active ruleId scope) (s.daemon.Open ruleId scope) s.requests
  winner : HasWinner definitions (s.daemon.Active ruleId scope) s.requests

theorem Race.step (hrule : ∀ definition ∈ definitions,
      definition.id = ruleId ∧ definition.status.isRuntimeEligible)
    {s s' : Sys g} {a : Nat × Text} (h : Race definitions ruleId scope s) (hkeeps : KeepsOrder s a)
    (hstep : raceStep s a = some s') : Race definitions ruleId scope s' := by
  obtain ⟨k, now⟩ := a
  obtain ⟨pc, pc', d, hk, hnext, rfl⟩ := Sys.stepRequest_eq_some hstep
  obtain ⟨definition, howner, hof⟩ := h.owner k pc hk
  obtain ⟨rfl, helig⟩ := hrule definition (mem_iff_getElem?.mpr ⟨k, howner⟩)
  have hmoves := Moves.of_next hof helig hnext
  have hkeeps := hkeeps pc hk
  refine ⟨length_set.trans h.length, fun j q hq => ?_,
    agrees_step h.agrees hk hmoves ?_ ?_, hasWinner_step h.winner hk howner hof hmoves ?_⟩
  · rcases set_cases hq with ⟨rfl, rfl⟩ | ⟨-, hq⟩
    · exact ⟨definition, howner, hmoves.of hof⟩
    · exact h.owner j q hq
  · rintro rfl
    exact hkeeps
  · rintro v pending rfl
    exact hkeeps
  · rintro rfl
    exact hkeeps

theorem Durable.active_iff_open (h : Durable d) (ruleId : Text)
    (scope : ActivationScope) (v : Nat) : d.Active ruleId scope v ↔ d.Open ruleId scope v := by
  unfold Daemon.Active Daemon.Open
  rw [isActive_iff]
  constructor
  · rintro ⟨e, he, hkey⟩
    obtain ⟨hid, hver, hscope⟩ := by simpa [key] using hkey
    have hopen := ((h.agree e).mp he).1
    rw [hid, hver, hscope] at hopen
    exact hopen
  · intro hopen
    obtain ⟨row, hrow⟩ := exists_mem_of_ne_nil _ hopen
    obtain ⟨hmem, hfor⟩ := List.mem_filter.mp hrow
    obtain ⟨hid, hver, -⟩ := (openFor_iff g.u).mp hfor
    have hforeign := h.wellFormed.foreign row hmem
    rw [hid, hver] at hforeign
    obtain ⟨version, hfound⟩ := Option.isSome_iff_exists.mp hforeign
    have hget : d.store.getRuleVersion ruleId v = some version.definition :=
      congrArg (Option.map RuleVersionRow.definition) hfound
    obtain ⟨hdid, hdversion⟩ := h.wellFormed.getRuleVersion_ref hget
    refine ⟨⟨version.definition, scope⟩, (h.agree _).mpr ⟨?_, ?_⟩, ?_⟩
    · rw [hdid, hdversion]
      exact hopen
    · rw [hdid, hdversion]
      exact hget
    · unfold key
      rw [hdid, hdversion]

theorem race_start (h : Durable d)
    (hne : definitions ≠ []) (ruleId : Text) (scope : ActivationScope) :
    Race definitions ruleId scope (race d definitions scope) := by
  have haccepted : ∀ pc ∈ (race d definitions scope).requests,
      ∃ definition, pc = .accepted definition scope := by
    intro pc hpc
    obtain ⟨definition, -, rfl⟩ := List.mem_map.mp hpc
    exact ⟨definition, rfl⟩
  refine ⟨length_map _, fun k pc hk => ?_,
    ⟨fun pc hpc v hv => ?_, fun pc hpc v hv => ?_, fun v _ => ?_⟩, fun hall => ?_⟩
  · rw [race, getElem?_map] at hk
    obtain ⟨definition, hdef, rfl⟩ := map_eq_some_iff.mp hk
    exact ⟨definition, hdef, rfl, rfl⟩
  · obtain ⟨definition, rfl⟩ := haccepted pc hpc
    cases hv
  · obtain ⟨definition, rfl⟩ := haccepted pc hpc
    cases hv
  · exact h.active_iff_open ruleId scope v
  · obtain ⟨definition, hdef⟩ := exists_mem_of_ne_nil _ hne
    exact absurd (hall _ (List.mem_map_of_mem hdef)).symm Bool.false_ne_true

/-- **Activations of one rule that run at once.** After every history, if activations of versions of
one rule in one scope run at once and their steps keep the order, then when all of them have
returned exactly one of their versions is active, in the registry and in the tables alike. -/
theorem race_leaves_one (history : List Operation) (definitions : List RuleDefinition)
    (ruleId : Text) (scope : ActivationScope) (schedule : List (Nat × Text)) (s : Sys g)
    (hne : definitions ≠ []) (hrule : ∀ definition ∈ definitions,
      definition.id = ruleId ∧ definition.status.isRuntimeEligible = true)
    (hrun : Transition.run raceStep (race (Daemon.initial.after history) definitions scope)
      schedule = some s) (hkeeps : Transition.Meets raceStep KeepsOrder
      (race (Daemon.initial.after history) definitions scope : Sys g) schedule)
    (hdone : s.Quiescent) :
    ∃ definition ∈ definitions, ∀ v,
      (s.daemon.activation.isActive ruleId v scope = true ↔ v = definition.version) ∧
      (s.daemon.store.openRows g.u ruleId v scope ≠ [] ↔ v = definition.version) := by
  have hrace : Race definitions ruleId scope s :=
    Transition.run_invariant (fun _ _ _ h hg hs => h.step hrule hg hs)
      (race_start (Durable.after durable_initial) hne ruleId scope) hkeeps hrun
  obtain ⟨t, definition, ht, hwins⟩ := hrace.winner fun pc hpc => by rw [hdone pc hpc]; rfl
  have hact : ∀ v, s.daemon.Active ruleId scope v ↔ v = definition.version := by
    intro v
    constructor
    · intro ha
      by_contra hv
      obtain ⟨hlt, -⟩ := List.getElem?_eq_some_iff.mp ht
      have hmem := getElem?_eq_getElem (hrace.length ▸ hlt)
      have hpc := hdone _ (mem_iff_getElem?.mpr ⟨t, hmem⟩)
      rw [hpc] at hmem
      exact not_mem_nil (hwins.rest _ hmem rfl v hv ha)
    · rintro rfl
      exact hwins.active
  refine ⟨definition, mem_iff_getElem?.mpr ⟨t, ht⟩, fun v => ⟨hact v, ?_⟩⟩
  refine (hrace.agrees.settled v fun pc hpc => ?_).symm.trans (hact v)
  rw [hdone pc hpc]
  exact ⟨nofun, nofun⟩

/-! ## Two versions -/

def twoVersions : List Operation :=
  [.basic (.upsert answers (keywordRule "r".toList ["a".toList])),
    .basic (.upsert answers (keywordRule "r".toList ["b".toList]))]

def racingVersions : List RuleDefinition :=
  [keywordRule "r".toList ["a".toList],
    { keywordRule "r".toList ["b".toList] with version := 2 }]

def raceOfTwo : Sys (plainSetup false) :=
  race (Daemon.initial.after twoVersions) racingVersions .global

def turns (calls : List Nat) : List (Nat × Text) :=
  calls.map fun k => (k, "2026-01-01T00:00:01Z".toList)

/-- Both calls add their versions before either looks: each removes the other's version. -/
theorem crossed_race_leaves_none :
    ∃ s ∈ Transition.run raceStep raceOfTwo
        (turns ([0, 0, 1, 1, 0, 1] ++ List.replicate 5 0 ++ List.replicate 5 1)),
      s.Quiescent ∧ ∀ definition ∈ racingVersions,
        s.daemon.activation.isActive "r".toList definition.version .global = false ∧
        s.daemon.store.openRows strokes "r".toList definition.version .global = [] := by
  decide +kernel

/-- The second call records and adds its version when the first one has looked. -/
theorem ordered_race_leaves_one :
    ∃ s ∈ Transition.run raceStep raceOfTwo
        (turns ([0, 0, 0, 1, 0, 1, 0] ++ List.replicate 6 1 ++ [0])),
      s.Quiescent ∧ ∃ definition ∈ racingVersions, ∀ v,
        (s.daemon.activation.isActive "r".toList v .global = true ↔ v = definition.version) ∧
        (s.daemon.store.openRows strokes "r".toList v .global ≠ [] ↔ v = definition.version) := by
  have hend : ∃ s ∈ Transition.run raceStep raceOfTwo
      (turns ([0, 0, 0, 1, 0, 1, 0] ++ replicate 6 1 ++ [0])), s.Quiescent := by
    decide +kernel
  obtain ⟨s, hrun, hdone⟩ := hend
  exact ⟨s, hrun, hdone, race_leaves_one twoVersions racingVersions "r".toList .global _ s
    (cons_ne_nil _ _) (by decide +kernel) hrun (by decide +kernel) hdone⟩

end TerminalCommander.Registry
