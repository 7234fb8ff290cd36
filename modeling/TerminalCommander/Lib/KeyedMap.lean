import Mathlib.Data.List.Nodup

/-!
# Maps as lists with distinct keys

A hash map whose values carry their own key: the list of its values in the order in which it is
iterated, with the proof that no key occurs twice. An insert replaces the value at its key.
-/

structure KeyedMap {α κ : Type} (key : α → κ) where
  entries : List α
  nodup : (entries.map key).Nodup

namespace KeyedMap

variable {α κ : Type} {key : α → κ}

instance : Membership α (KeyedMap key) := ⟨fun m a => a ∈ m.entries⟩

instance [DecidableEq α] (a : α) (m : KeyedMap key) : Decidable (a ∈ m) :=
  inferInstanceAs (Decidable (a ∈ m.entries))

def empty : KeyedMap key := ⟨[], List.nodup_nil⟩

def mapValues (m : KeyedMap key) (f : α → α) (hf : ∀ a, key (f a) = key a) : KeyedMap key where
  entries := m.entries.map f
  nodup := by
    rw [List.map_map, show key ∘ f = key from funext hf]
    exact m.nodup

variable [DecidableEq κ]

def containsKey (m : KeyedMap key) (k : κ) : Bool := m.entries.any fun a => key a == k

def erase (m : KeyedMap key) (k : κ) : KeyedMap key where
  entries := m.entries.filter fun a => key a != k
  nodup := m.nodup.sublist (List.filter_sublist.map key)

def insert (m : KeyedMap key) (a : α) : KeyedMap key where
  entries := (m.erase (key a)).entries ++ [a]
  nodup := by
    rw [List.map_append, List.map_singleton, List.nodup_append]
    refine ⟨(m.erase (key a)).nodup, List.nodup_singleton _, ?_⟩
    rintro k hk k' hk' rfl
    obtain ⟨b, hb, rfl⟩ := List.mem_map.mp hk
    rw [List.mem_singleton] at hk'
    have hne := (List.mem_filter.mp hb).2
    rw [hk', bne_self_eq_false] at hne
    cases hne

variable {a : α} {m : KeyedMap key}

theorem mem_def : a ∈ m ↔ a ∈ m.entries := Iff.rfl

@[simp] theorem mem_erase {k : κ} : a ∈ m.erase k ↔ a ∈ m ∧ key a ≠ k := by
  rw [mem_def, erase, List.mem_filter, bne_iff_ne, mem_def]

@[simp] theorem mem_insert {b : α} : b ∈ m.insert a ↔ b = a ∨ b ∈ m ∧ key b ≠ key a := by
  rw [mem_def, insert, List.mem_append, List.mem_singleton, ← mem_def, mem_erase, or_comm]

theorem eq_of_key {b : α} (ha : a ∈ m) (hb : b ∈ m) (h : key a = key b) :
    a = b := List.inj_on_of_nodup_map m.nodup ha hb h

theorem containsKey_iff {k : κ} : m.containsKey k ↔ ∃ a ∈ m, key a = k := by
  unfold containsKey
  rw [List.any_eq_true]
  simp only [beq_iff_eq]
  exact Iff.rfl

end KeyedMap
