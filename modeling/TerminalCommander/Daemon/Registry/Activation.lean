import TerminalCommander.Lib.KeyedMap
import TerminalCommander.Store.Registry

/-!
# The activation registry

The in-memory authority on active rules, after `daemon/src/activation.rs`. The map is a `KeyedMap`
of entries; its iteration order is the order of the list, and every reader sorts what it returns.
`activate` refuses a rule that is not runtime-eligible, so that every entry is eligible is a field.
-/

namespace TerminalCommander

open List ActivationEntry KeyedMap

abbrev RuleVersion := Text × Nat

instance RuleVersion.lawfulBEq : LawfulBEq RuleVersion := inferInstance

def RuleDefinition.ref (definition : RuleDefinition) : RuleVersion :=
  (definition.id, definition.version)

def ActivationEntry.key (entry : ActivationEntry) : Text × Nat × ActivationScope :=
  (entry.definition.id, entry.definition.version, entry.scope)

structure ActivationRegistry where
  byKey : KeyedMap ActivationEntry.key
  eligible : ∀ entry ∈ byKey, entry.definition.status.isRuntimeEligible = true

/-! ## Orders of the readers -/

def Text.cmp (a b : Text) : Ordering :=
  if a = b then .eq else if Text.le a b then .lt else .gt

def cmpOptionText : Option Text → Option Text → Ordering
  | none, none => .eq
  | none, some _ => .lt
  | some _, none => .gt
  | some a, some b => Text.cmp a b

def ruleCmp (a b : RuleDefinition) : Ordering :=
  (Text.cmp a.id b.id).then (compare a.version b.version)

def entryCmp (u : Uuids) (a b : ActivationEntry) : Ordering :=
  (ruleCmp a.definition b.definition).then <|
    (Text.cmp a.scope.kindLabel b.scope.kindLabel).then <|
    cmpOptionText (a.scope.valueWire u) (b.scope.valueWire u)

def unseen : List RuleVersion → List RuleDefinition → List RuleDefinition
  | _, [] => []
  | seen, d :: ds => if d.ref ∈ seen then unseen seen ds else d :: unseen (d.ref :: seen) ds

theorem ref_mem_unseen {ds : List RuleDefinition} {ref : RuleVersion} : ∀ {seen : List RuleVersion},
      ref ∈ (unseen seen ds).map RuleDefinition.ref ↔
        ref ∈ ds.map RuleDefinition.ref ∧ ref ∉ seen := by
  induction ds with
  | nil => intro seen; simp [unseen]
  | cons d ds ih =>
    intro seen
    rw [unseen]
    by_cases hd : d.ref ∈ seen
    · rw [if_pos hd, ih, map_cons, mem_cons]
      constructor
      · exact fun h => ⟨Or.inr h.1, h.2⟩
      · rintro ⟨rfl | h, hnot⟩
        · exact absurd hd hnot
        · exact ⟨h, hnot⟩
    · rw [if_neg hd, map_cons, mem_cons, ih, map_cons, mem_cons, mem_cons]
      constructor
      · rintro (rfl | ⟨h, hnot⟩)
        · exact ⟨Or.inl rfl, hd⟩
        · exact ⟨Or.inr h, fun hs => hnot (Or.inr hs)⟩
      · rintro ⟨rfl | h, hnot⟩
        · exact Or.inl rfl
        · by_cases hr : ref = d.ref
          · exact Or.inl hr
          · exact Or.inr ⟨h, fun hs => hs.elim hr hnot⟩

theorem unseen_subset {ds : List RuleDefinition} :
    ∀ {seen : List RuleVersion}, unseen seen ds ⊆ ds := by
  induction ds with
  | nil =>
    intro seen r hr
    exact hr
  | cons d ds ih =>
    intro seen r hr
    rw [unseen] at hr
    split_ifs at hr with hd
    · exact mem_cons_of_mem d (ih hr)
    · rcases mem_cons.mp hr with rfl | hr
      · exact mem_cons_self
      · exact mem_cons_of_mem d (ih hr)

def dedupRuns : List Nat → List Nat
  | [] => []
  | [a] => [a]
  | a :: b :: l => if a = b then dedupRuns (b :: l) else a :: dedupRuns (b :: l)

@[simp] theorem mem_dedupRuns {n : Nat} {l : List Nat} : n ∈ dedupRuns l ↔ n ∈ l := by
  fun_induction dedupRuns l with
  | case1 => exact Iff.rfl
  | case2 a => exact Iff.rfl
  | case3 b l ih =>
    rw [ih]
    constructor
    · exact mem_cons_of_mem b
    · intro h
      rcases mem_cons.mp h with rfl | h
      · exact mem_cons_self
      · exact h
  | case4 a b l hne ih => rw [mem_cons, ih, mem_cons (a := n) (b := a)]

namespace ActivationRegistry

instance : Membership ActivationEntry ActivationRegistry := ⟨fun r e => e ∈ r.byKey⟩

instance (e : ActivationEntry) (r : ActivationRegistry) : Decidable (e ∈ r) :=
  inferInstanceAs (Decidable (e ∈ r.byKey))

def new : ActivationRegistry := ⟨KeyedMap.empty, fun _ h => (List.not_mem_nil h).elim⟩

/-! ## Changes -/

def activate (r : ActivationRegistry) (definition : RuleDefinition) (scope : ActivationScope) :
    ActivationRegistry :=
  if h : definition.status.isRuntimeEligible = true then
    { byKey := r.byKey.insert ⟨definition, scope⟩
      eligible := by
        intro e he
        rcases KeyedMap.mem_insert.mp he with rfl | he
        · exact h
        · exact r.eligible e he.1 }
  else r

def deactivate (r : ActivationRegistry) (ruleId : Text) (version : Nat) (scope : ActivationScope) :
    ActivationRegistry where
  byKey := r.byKey.erase (ruleId, version, scope)
  eligible := fun e he => r.eligible e (KeyedMap.mem_erase.mp he).1

def isActive (r : ActivationRegistry) (ruleId : Text) (version : Nat) (scope : ActivationScope) :
    Bool :=
  r.byKey.containsKey (ruleId, version, scope)

def fromEntries (entries : List ActivationEntry) : ActivationRegistry :=
  entries.foldl (fun r e =>
    if e.definition.status.isRuntimeEligible then r.activate e.definition e.scope else r) new

/-! ## Snapshots -/

def snapshotEntries (u : Uuids) (r : ActivationRegistry) : List ActivationEntry :=
  r.byKey.entries.insertionSort fun a b => (entryCmp u a b).isLE = true

def snapshotForJob (r : ActivationRegistry) (ids : JobTriple) : List RuleDefinition :=
  (unseen [] ((r.byKey.entries.filter fun e => e.scope.matchesJob ids).map
    ActivationEntry.definition)).insertionSort fun a b => (ruleCmp a b).isLE = true

def activeVersionsForScope (u : Uuids) (r : ActivationRegistry) (ruleId : Text)
    (scope : ActivationScope) : List Nat :=
  dedupRuns ((((r.snapshotEntries u).filter fun e =>
    e.definition.id == ruleId && decide (e.scope = scope)).map
      fun e => e.definition.version).insertionSort (· ≤ ·))

/-! ## What the changes do to the entries -/

variable {r : ActivationRegistry}

variable {e : ActivationEntry} {scope : ActivationScope}

theorem mem_activate {definition : RuleDefinition}
    (h : definition.status.isRuntimeEligible) : e ∈ r.activate definition scope ↔
      e = ⟨definition, scope⟩ ∨ e ∈ r ∧ e.key ≠ (definition.id, definition.version, scope) := by
  unfold activate
  rw [dif_pos h]
  exact mem_insert

variable {version : Nat} {ruleId : Text}

@[simp] theorem mem_deactivate :
    e ∈ r.deactivate ruleId version scope ↔ e ∈ r ∧ e.key ≠ (ruleId, version, scope) :=
  mem_erase

theorem isActive_iff :
    r.isActive ruleId version scope ↔ ∃ e ∈ r, e.key = (ruleId, version, scope) :=
  containsKey_iff

theorem isActive_activate {definition : RuleDefinition}
    (h : definition.status.isRuntimeEligible) {scope' : ActivationScope} :
    (r.activate definition scope).isActive ruleId version scope' ↔
      (ruleId, version, scope') = (definition.id, definition.version, scope) ∨
        r.isActive ruleId version scope' := by
  rw [isActive_iff, isActive_iff]
  constructor
  · rintro ⟨e, he, hkey⟩
    rcases (mem_activate h).mp he with rfl | ⟨he, -⟩
    · exact Or.inl hkey.symm
    · exact Or.inr ⟨e, he, hkey⟩
  · intro hact
    by_cases hkey : (ruleId, version, scope') = (definition.id, definition.version, scope)
    · exact ⟨⟨definition, scope⟩, (mem_activate h).mpr (Or.inl rfl), hkey.symm⟩
    · obtain ⟨e, he, hekey⟩ := hact.resolve_left hkey
      exact ⟨e, (mem_activate h).mpr (Or.inr ⟨he, hekey ▸ hkey⟩), hekey⟩

theorem isActive_deactivate {ruleId' : Text} {version' : Nat} {scope' : ActivationScope} :
    (r.deactivate ruleId version scope).isActive ruleId' version' scope' ↔
      (ruleId', version', scope') ≠ (ruleId, version, scope) ∧
        r.isActive ruleId' version' scope' := by
  rw [isActive_iff, isActive_iff]
  constructor
  · rintro ⟨e, he, hkey⟩
    obtain ⟨he, hne⟩ := mem_deactivate.mp he
    exact ⟨hkey ▸ hne, e, he, hkey⟩
  · rintro ⟨hne, e, he, hkey⟩
    exact ⟨e, mem_deactivate.mpr ⟨he, hkey ▸ hne⟩, hkey⟩

theorem eq_of_key {e' : ActivationEntry} (h : e ∈ r) (h' : e' ∈ r) (hkey : e.key = e'.key) :
    e = e' := KeyedMap.eq_of_key h h' hkey

theorem mem_fromEntries {entries : List ActivationEntry}
    (hkeys : ∀ a ∈ entries, ∀ b ∈ entries, a.key = b.key → a = b) : e ∈ fromEntries entries ↔
      e ∈ entries ∧ e.definition.status.isRuntimeEligible := by
  induction entries using reverseRecOn with
  | nil => exact iff_of_false (not_mem_nil) fun h => not_mem_nil h.1
  | append_singleton entries last ih =>
    have ih := ih fun a ha b hb =>
      hkeys a (mem_append_left _ ha) b (mem_append_left _ hb)
    have hlast : last ∈ entries ++ [last] := mem_append_right _ (mem_singleton_self last)
    unfold fromEntries at ih ⊢
    rw [foldl_append, foldl_cons, foldl_nil, mem_append, mem_singleton]
    by_cases helig : last.definition.status.isRuntimeEligible
    · rw [if_pos helig, mem_activate helig, ih]
      constructor
      · rintro (rfl | ⟨⟨he, heligible⟩, -⟩)
        · exact ⟨Or.inr rfl, helig⟩
        · exact ⟨Or.inl he, heligible⟩
      · rintro ⟨he | rfl, heligible⟩
        · by_cases hkey : e.key = last.key
          · exact Or.inl (hkeys e (mem_append_left _ he) last hlast hkey)
          · exact Or.inr ⟨⟨he, heligible⟩, hkey⟩
        · exact Or.inl rfl
    · rw [if_neg helig, ih]
      constructor
      · exact fun h => ⟨Or.inl h.1, h.2⟩
      · rintro ⟨he | rfl, heligible⟩
        · exact ⟨he, heligible⟩
        · exact absurd heligible helig

theorem mem_activeVersionsForScope {u : Uuids} : version ∈ r.activeVersionsForScope u ruleId scope ↔
      ∃ e ∈ r, e.key = (ruleId, version, scope) := by
  unfold activeVersionsForScope snapshotEntries
  rw [mem_dedupRuns, mem_insertionSort, List.mem_map]
  simp only [List.mem_filter, mem_insertionSort, Bool.and_eq_true, beq_iff_eq, decide_eq_true_eq]
  constructor
  · rintro ⟨e, ⟨he, hid, hscope⟩, rfl⟩
    exact ⟨e, he, by rw [key, hid, hscope]⟩
  · rintro ⟨e, he, hkey⟩
    obtain ⟨hid, hver, hscope⟩ := by simpa [key] using hkey
    exact ⟨e, ⟨he, hid, hscope⟩, hver⟩

theorem ref_mem_snapshotForJob {ids : JobTriple} {ref : RuleVersion} :
    ref ∈ (r.snapshotForJob ids).map RuleDefinition.ref ↔
      ∃ e ∈ r, e.scope.matchesJob ids ∧ e.definition.ref = ref := by
  have hsort : ref ∈ (r.snapshotForJob ids).map RuleDefinition.ref ↔
      ref ∈ (unseen [] ((r.byKey.entries.filter fun e => e.scope.matchesJob ids).map
        definition)).map RuleDefinition.ref :=
    ((perm_insertionSort _ _).map RuleDefinition.ref).mem_iff
  rw [hsort, ref_mem_unseen, List.map_map, List.mem_map]
  simp only [List.mem_filter, not_mem_nil, not_false_eq_true, and_true, and_assoc]
  exact Iff.rfl

theorem mem_of_mem_snapshotForJob {ids : JobTriple} {rule : RuleDefinition}
    (h : rule ∈ r.snapshotForJob ids) : ∃ e ∈ r, e.scope.matchesJob ids ∧ e.definition = rule := by
  unfold snapshotForJob at h
  rw [mem_insertionSort] at h
  obtain ⟨e, he, rfl⟩ := List.mem_map.mp (unseen_subset h)
  obtain ⟨he, hmatch⟩ := List.mem_filter.mp he
  exact ⟨e, he, hmatch, rfl⟩

end ActivationRegistry

end TerminalCommander
