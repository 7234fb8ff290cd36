import Mathlib.Data.List.Basic

/-!
# Lexical paths

An absolute path is a list of components, each of them a name, `.` or `..`. It has a lexical
resolution: `.` is dropped and `..` takes back the name before it, never past the root. A path that
exists in a tree without links is resolved by walking the tree, and leads where its lexical
resolution says (`walk_eq`).
-/

namespace LexicalPath

open List Option

variable {α : Type*}

inductive Component (α : Type*) where
  | here
  | parent
  | name (a : α)
  deriving DecidableEq, Repr

def names : List (Component α) → List α
  | [] => []
  | .name a :: cs => a :: names cs
  | _ :: cs => names cs

def push (dir : List α) : Component α → List α
  | .here => dir
  | .parent => dir.dropLast
  | .name a => dir ++ [a]

def resolveFrom (dir : List α) (cs : List (Component α)) : List α := cs.foldl push dir

def resolve (cs : List (Component α)) : List α := resolveFrom [] cs

@[simp] theorem resolveFrom_cons (dir : List α) (c : Component α) (cs : List (Component α)) :
    resolveFrom dir (c :: cs) = resolveFrom (push dir c) cs := rfl

theorem resolveFrom_append (dir : List α) (cs ds : List (Component α)) :
    resolveFrom dir (cs ++ ds) = resolveFrom (resolveFrom dir cs) ds := foldl_append

variable {cs : List (Component α)} {dir : List α}

theorem mem_resolveFrom {a : α} (h : a ∈ resolveFrom dir cs) : a ∈ dir ∨ Component.name a ∈ cs := by
  induction cs generalizing dir with
  | nil => exact Or.inl h
  | cons c cs ih =>
    rw [resolveFrom_cons] at h
    rcases ih h with hdir | hcs
    · cases c with
      | here => exact Or.inl hdir
      | parent => exact Or.inl ((dropLast_subset dir) hdir)
      | name b =>
        rcases mem_append.mp hdir with hmem | hmem
        · exact Or.inl hmem
        · obtain rfl := mem_singleton.mp hmem
          exact Or.inr mem_cons_self
    · exact Or.inr (mem_cons_of_mem c hcs)

theorem resolveFrom_map_name (as dir : List α) : resolveFrom dir (as.map .name) = dir ++ as := by
  induction as generalizing dir with
  | nil => exact (append_nil dir).symm
  | cons a as ih => rw [map_cons, resolveFrom_cons, push, ih, append_assoc]; rfl

@[simp] theorem names_append (cs ds : List (Component α)) :
    names (cs ++ ds) = names cs ++ names ds := by
  induction cs with
  | nil => rfl
  | cons c cs ih => cases c <;> simp [names, ih]

/-! ## Paths without `..` -/

theorem resolveFrom_of_not_mem (h : Component.parent ∉ cs) :
    ∀ dir : List α, resolveFrom dir cs = dir ++ names cs := by
  induction cs with
  | nil => exact fun dir => (append_nil dir).symm
  | cons c cs ih =>
    intro dir
    have hcs := ih fun hmem => h (mem_cons_of_mem c hmem)
    rw [resolveFrom_cons, hcs]
    cases c with
    | here => rfl
    | parent => exact absurd mem_cons_self h
    | name a => rw [push, names, append_assoc, singleton_append]

theorem length_resolveFrom_le (cs : List (Component α)) :
    ∀ dir : List α, (resolveFrom dir cs).length ≤ dir.length + (names cs).length := by
  induction cs with
  | nil => exact fun dir => Nat.le_refl _
  | cons c cs ih =>
    intro dir
    have hcs := ih (push dir c)
    rw [resolveFrom_cons]
    cases c with
    | here => exact hcs
    | parent =>
      rw [push, length_dropLast] at hcs
      exact Nat.le_trans hcs (by simp only [names]; omega)
    | name a =>
      rw [push, length_append, length_singleton] at hcs
      rw [push, names, length_cons]
      omega

theorem length_resolveFrom_lt (h : Component.parent ∈ cs) : ∀ {dir : List α}, dir ≠ [] →
      (resolveFrom dir cs).length < dir.length + (names cs).length := by
  induction cs with
  | nil => exact absurd h not_mem_nil
  | cons c cs ih =>
    intro dir hdir
    have hpos := length_pos_of_ne_nil hdir
    rw [resolveFrom_cons]
    cases c with
    | parent =>
      have hcs := length_resolveFrom_le cs (push dir .parent)
      rw [push, length_dropLast] at hcs
      simp only [push, names]
      omega
    | here => exact ih ((mem_cons.mp h).resolve_left nofun) hdir
    | name a =>
      have hcs := ih ((mem_cons.mp h).resolve_left nofun)
        (append_ne_nil_of_right_ne_nil dir (cons_ne_nil a []))
      rw [length_append, length_singleton] at hcs
      rw [push, names, length_cons]
      omega

/-! ## Trees without links -/

inductive Node where
  | directory | file
  deriving DecidableEq, Repr

structure Tree (α : Type*) where
  node : List α → Option Node
  root : node [] = some .directory
  parent : ∀ dir a, (node (dir ++ [a])).isSome → node dir = some .directory

namespace Tree

variable (t : Tree α)

def enter (dir : List α) (c : Component α) : Option (List α) :=
  if t.node dir = some .directory then
    match c with
    | .name a => if (t.node (dir ++ [a])).isSome then some (dir ++ [a]) else none
    | c => some (push dir c)
  else none

def walk (dir : List α) : List (Component α) → Option (List α)
  | [] => some dir
  | c :: cs => (t.enter dir c).bind fun next => walk next cs

variable {t}

theorem enter_eq {next : List α} {c : Component α} (h : t.enter dir c = some next) :
    next = push dir c := by
  unfold enter at h
  split_ifs at h
  cases c with
  | here => exact (some.inj h).symm
  | parent => exact (some.inj h).symm
  | name a =>
    simp only at h
    split_ifs at h
    exact (some.inj h).symm

theorem walk_append (cs ds : List (Component α)) : ∀ dir : List α,
    t.walk dir (cs ++ ds) = (t.walk dir cs).bind fun next => t.walk next ds := by
  induction cs with
  | nil => exact fun dir => rfl
  | cons c cs ih =>
    intro dir
    rw [cons_append, walk, walk, bind_assoc]
    congr 1
    funext next
    exact ih next

theorem walk_eq : ∀ {dir next : List α},
    t.walk dir cs = some next → next = resolveFrom dir cs := by
  induction cs with
  | nil => exact fun h => (some.inj h).symm
  | cons c cs ih =>
    intro dir next h
    obtain ⟨mid, hmid, h⟩ := bind_eq_some_iff.mp h
    rw [ih h, enter_eq hmid, resolveFrom_cons]

theorem walk_of_prefix {ds : List (Component α)} (h : cs <+: ds)
    (hsome : (t.walk dir ds).isSome) : (t.walk dir cs).isSome := by
  obtain ⟨es, rfl⟩ := h
  rw [walk_append] at hsome
  cases hcs : t.walk dir cs with
  | none =>
    rw [hcs] at hsome
    cases hsome
  | some next => rfl

theorem enter_of_directory (h : t.node dir = some .directory) :
    t.enter dir .here = some dir ∧ t.enter dir .parent = some dir.dropLast :=
  ⟨if_pos h, if_pos h⟩

theorem directory_of_enter {next : List α} {c : Component α} (h : t.enter dir c = some next)
    (hc : ∀ a, c ≠ .name a) : t.node next = some .directory := by
  have hdir : t.node dir = some .directory := by
    by_contra hne
    unfold enter at h
    rw [if_neg hne] at h
    cases h
  rw [enter_eq h]
  cases c with
  | here => exact hdir
  | parent =>
    rcases eq_nil_or_concat' dir with rfl | ⟨above, a, rfl⟩
    · exact t.root
    · rw [push, dropLast_concat]
      exact t.parent above a (isSome_of_eq_some hdir)
  | name a => exact absurd rfl (hc a)

end Tree

end LexicalPath
