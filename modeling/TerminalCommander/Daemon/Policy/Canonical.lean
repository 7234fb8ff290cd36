import Mathlib.Data.List.TakeWhile
import TerminalCommander.Core.Text
import TerminalCommander.Lib.LexicalPath

/-!
# Canonical paths

`canonicalize_lexical` of `daemon/src/policy.rs` on a file system without symbolic links. A path is
the list of its components; a trailing or doubled separator counts as `.`, as in `std::path`.
`std::fs::canonicalize` is the walk of the tree. If it fails, the nearest ancestor that exists is
made canonical, and the components behind it are put back by their file names: a `..` has no file
name, and is lost.
-/

namespace TerminalCommander

open LexicalPath List Option Component

abbrev FileTree := LexicalPath.Tree Text

abbrev AbsPath := List (Component Text)

namespace AbsPath

def isHere (c : Component Text) : Bool := c == .here

def trimEnd (p : AbsPath) : AbsPath := (p.reverse.dropWhile isHere).reverse

def fileName : Component Text → List Text
  | .name a => [a]
  | _ => []

end AbsPath

def canonicalize (fs : FileTree) (p : AbsPath) : Option (List Text) := fs.walk [] p

def climb (fs : FileTree) : List (Component Text) → List Text → Option (List Text)
  | [], _ => none
  | c :: rest, tail =>
    if AbsPath.isHere c then climb fs rest tail
    else
      match canonicalize fs (AbsPath.trimEnd rest.reverse) with
      | some base => some (base ++ (AbsPath.fileName c ++ tail))
      | none => climb fs rest (AbsPath.fileName c ++ tail)

def canonicalizeLexical (fs : FileTree) (candidate : AbsPath) : AbsPath :=
  match canonicalize fs candidate with
  | some canonical => canonical.map .name
  | none => ((climb fs candidate.reverse []).map (List.map .name)).getD candidate

def normalize (p : AbsPath) : AbsPath := (resolve p).map .name

def ParentsExist (fs : FileTree) (p : AbsPath) : Prop :=
  ∀ before after, p = before ++ .parent :: after →
    (canonicalize fs (before ++ [.parent])).isSome = true

/-! ## Trailing dots -/

namespace AbsPath

theorem isHere_iff {c : Component Text} : isHere c ↔ c = .here := beq_iff_eq

theorem trimEnd_reverse (rs : List (Component Text)) :
    trimEnd rs.reverse = (rs.dropWhile isHere).reverse := by
  unfold trimEnd
  rw [reverse_reverse]

theorem mem_takeWhile_isHere {rs : List (Component Text)} : ∀ c ∈ rs.takeWhile isHere, c = .here :=
  fun _ hc => isHere_iff.mp (mem_takeWhile_imp hc)

theorem exists_trimEnd (p : AbsPath) : ∃ hs, p = trimEnd p ++ hs ∧ ∀ c ∈ hs, c = .here := by
  refine ⟨(p.reverse.takeWhile isHere).reverse, ?_, fun c hc => ?_⟩
  · unfold trimEnd
    rw [← reverse_append, takeWhile_append_dropWhile, reverse_reverse]
  · exact mem_takeWhile_isHere c (mem_reverse.mp hc)

theorem names_of_here {hs : List (Component Text)} (h : ∀ c ∈ hs, c = .here) : names hs = [] := by
  induction hs with
  | nil => rfl
  | cons c hs ih =>
    rw [h c mem_cons_self]
    exact ih fun d hd => h d (mem_cons_of_mem c hd)

theorem names_singleton (c : Component Text) : names [c] = fileName c := by
  cases c <;> rfl

theorem resolveFrom_of_here {hs : List (Component Text)} (h : ∀ c ∈ hs, c = .here)
    (dir : List Text) : resolveFrom dir hs = dir := by
  have hnot : parent ∉ hs := fun hmem => by cases h _ hmem
  rw [resolveFrom_of_not_mem hnot, names_of_here h, append_nil]

end AbsPath

/-! ## The loop -/

variable {fs : FileTree}

structure Breaks (fs : FileTree) (p : AbsPath) (base hs : AbsPath) (c : Component Text)
    (rest : AbsPath) (dir : List Text) : Prop where
  path : p = base ++ (hs ++ c :: rest)
  here : ∀ h ∈ hs, h = .here
  component : c ≠ .here
  exists_base : canonicalize fs base = some dir
  breaks : canonicalize fs (base ++ (hs ++ [c])) = none

theorem climb_spec : ∀ (rs : List (Component Text)) (tail : List Text),
    canonicalize fs (rs.dropWhile AbsPath.isHere).reverse = none →
    ∃ base hs c rest dir, Breaks fs (rs.dropWhile AbsPath.isHere).reverse base hs c rest dir ∧
      climb fs rs tail = some (dir ++ (names (c :: rest) ++ tail)) := by
  intro rs
  induction rs with
  | nil => exact fun _ h => by cases h
  | cons c rs ih =>
    intro tail hnone
    unfold climb
    by_cases hhere : AbsPath.isHere c
    · rw [dropWhile_cons_of_pos hhere] at hnone ⊢
      rw [if_pos hhere]
      exact ih tail hnone
    · rw [dropWhile_cons_of_neg hhere] at hnone ⊢
      rw [if_neg hhere, AbsPath.trimEnd_reverse]
      have hcomponent : c ≠ .here := fun h => hhere (AbsPath.isHere_iff.mpr h)
      have hsplit : (c :: rs).reverse = (rs.dropWhile AbsPath.isHere).reverse ++
          ((rs.takeWhile AbsPath.isHere).reverse ++ [c]) := by
        rw [← append_assoc, ← reverse_append, takeWhile_append_dropWhile, reverse_cons]
      have hhs : ∀ h ∈ (rs.takeWhile AbsPath.isHere).reverse, h = .here :=
        fun h hh => AbsPath.mem_takeWhile_isHere h (mem_reverse.mp hh)
      cases hbase : canonicalize fs (rs.dropWhile AbsPath.isHere).reverse with
      | some dir =>
        -- the parent exists: this is the component that does not
        refine ⟨_, _, c, [], dir, ⟨hsplit, hhs, hcomponent, hbase, hsplit ▸ hnone⟩, ?_⟩
        rw [AbsPath.names_singleton]
      | none =>
        obtain ⟨base, hs, c', rest, dir, hbreaks, hclimb⟩ := ih (AbsPath.fileName c ++ tail) hbase
        refine ⟨base, hs, c', rest ++ ((rs.takeWhile AbsPath.isHere).reverse ++ [c]), dir,
          ⟨?_, hbreaks.here, hbreaks.component, hbreaks.exists_base, hbreaks.breaks⟩, ?_⟩
        · rw [hsplit, hbreaks.path]
          simp only [append_assoc, cons_append]
        · rw [hclimb, ← cons_append, names_append, names_append, AbsPath.names_of_here hhs,
            AbsPath.names_singleton, nil_append, append_assoc]

variable {dir : List Text} {rest p base hs : AbsPath} {c : Component Text}

theorem Breaks.append (h : Breaks fs p base hs c rest dir) (more : AbsPath) :
    Breaks fs (p ++ more) base hs c (rest ++ more) dir := by
  refine ⟨?_, h.here, h.component, h.exists_base, h.breaks⟩
  rw [h.path]
  simp only [append_assoc, cons_append]

theorem Breaks.parentsExist_iff (h : Breaks fs p base hs c rest dir) :
    ParentsExist fs p ↔ parent ∉ c :: rest := by
  constructor
  · intro hall hmem
    obtain ⟨mid, after, hrest⟩ := append_of_mem hmem
    have hsome := hall (base ++ (hs ++ mid)) after (by
      rw [h.path, hrest]
      simp only [append_assoc])
    have hprefix : base ++ (hs ++ [c]) <+: base ++ (hs ++ mid) ++ [.parent] := by
      cases mid with
      | _ =>
        rw [(List.cons.inj hrest).1]
        simp
    have := Tree.walk_of_prefix hprefix hsome
    rw [show fs.walk [] (base ++ (hs ++ [c])) = none from h.breaks] at this
    cases this
  · intro hnot before after hp
    have hbase : before ++ [.parent] <+: base := by
      have hlist : before ++ [.parent] ++ after = base ++ (hs ++ c :: rest) := by
        rw [← h.path, hp, append_assoc, singleton_append]
      rcases prefix_or_prefix_of_prefix ⟨after, hlist⟩ (prefix_append _ _)
        with hle | hge
      · exact hle
      · obtain ⟨mid, hmid⟩ := hge
        rcases eq_nil_or_concat' mid with rfl | ⟨mid, d, rfl⟩
        · rw [append_nil] at hmid
          exact ⟨[], (append_nil _).trans hmid.symm⟩
        · -- the `..` would stand behind the base
          exfalso
          have hd : d = .parent := by
            have := congrArg getLast? hmid
            rw [← append_assoc, getLast?_concat, getLast?_concat] at this
            exact Option.some.inj this
          rw [← hmid, append_assoc, append_cancel_left_eq] at hlist
          have hmem : parent ∈ hs ++ c :: rest := by
            rw [← hlist, hd]
            simp
          rcases mem_append.mp hmem with hmem | hmem
          · cases h.here _ hmem
          · exact hnot hmem
    exact Tree.walk_of_prefix hbase (by
      rw [show fs.walk [] base = some dir from h.exists_base]
      rfl)

/-! ## Files with a trailing dot -/

theorem walk_of_here {hs : List (Component Text)} (h : ∀ c ∈ hs, c = .here)
    (hdir : fs.node dir = some .directory) : fs.walk dir hs = some dir := by
  induction hs with
  | nil => rfl
  | cons c hs ih =>
    rw [h c mem_cons_self, Tree.walk, (Tree.enter_of_directory hdir).1]
    exact ih fun d hd => h d (mem_cons_of_mem c hd)

theorem climb_of_file {e : List Text} (hfile : fs.node e ≠ some .directory) :
    ∀ (rs : List (Component Text)) (tail : List Text),
    canonicalize fs (rs.dropWhile AbsPath.isHere).reverse = some e →
    climb fs rs tail = some (e ++ tail) := by
  intro rs
  induction rs with
  | nil =>
    intro _ h
    rw [← Option.some.inj h] at hfile
    exact absurd fs.root hfile
  | cons c rs ih =>
    intro tail hsome
    unfold climb
    by_cases hhere : AbsPath.isHere c
    · rw [dropWhile_cons_of_pos hhere] at hsome
      rw [if_pos hhere]
      exact ih tail hsome
    · rw [dropWhile_cons_of_neg hhere, reverse_cons, canonicalize, Tree.walk_append] at hsome
      rw [if_neg hhere, AbsPath.trimEnd_reverse]
      obtain ⟨mid, hmid, hlast⟩ := bind_eq_some_iff.mp hsome
      obtain ⟨next, henter, hnext⟩ := bind_eq_some_iff.mp hlast
      obtain rfl : next = e := Option.some.inj hnext
      -- the dots between the directory and the name change nothing
      have hsplit : rs.reverse = (rs.dropWhile AbsPath.isHere).reverse ++
          (rs.takeWhile AbsPath.isHere).reverse := by
        rw [← reverse_append, takeWhile_append_dropWhile]
      rw [hsplit, Tree.walk_append] at hmid
      obtain ⟨base, hbase, hdots⟩ := bind_eq_some_iff.mp hmid
      have hmid : mid = base := by
        rw [Tree.walk_eq hdots]
        exact AbsPath.resolveFrom_of_here
          (fun h hh => AbsPath.mem_takeWhile_isHere h (mem_reverse.mp hh)) base
      rw [show canonicalize fs (rs.dropWhile AbsPath.isHere).reverse = some base from hbase]
      cases c with
      | name a =>
        rw [Tree.enter_eq henter, hmid, push, AbsPath.fileName, append_assoc]
      | here =>
        have hname : ∀ a : Text, here ≠ name a := fun a heq => by cases heq
        exact absurd (Tree.directory_of_enter henter hname) hfile
      | parent =>
        have hname : ∀ a : Text, parent ≠ name a := fun a heq => by cases heq
        exact absurd (Tree.directory_of_enter henter hname) hfile

/-! ## The canonical path -/

theorem parentsExist_of_isSome (h : (canonicalize fs p).isSome)
    (hhs : ∀ c ∈ hs, c = .here) : ParentsExist fs (p ++ hs) := by
  intro before after heq
  have hprefix : before ++ [.parent] <+: p := by
    rcases append_eq_append_iff.mp heq with ⟨mid, hbef, hhere⟩ | ⟨mid, hp, hafter⟩
    · -- the `..` would be one of the dots
      have hmem : parent ∈ hs := by
        rw [hhere]
        simp
      cases hhs _ hmem
    · cases mid with
      | nil =>
        have hmem : parent ∈ hs := by
          rw [← nil_append hs, ← hafter]
          exact mem_cons_self
        cases hhs _ hmem
      | cons d mid =>
        rw [hp, (List.cons.inj hafter).1]
        exact ⟨mid, by simp⟩
  exact Tree.walk_of_prefix hprefix h

theorem map_name_injective : Function.Injective (List.map (@name Text)) :=
  map_injective_iff.mpr fun _ _ h => name.inj h

theorem Breaks.resolve_eq (h : Breaks fs p base hs c rest dir) :
    resolve p = resolveFrom dir (c :: rest) := by
  rw [h.path, resolve, resolveFrom_append, resolveFrom_append, ← Tree.walk_eq h.exists_base,
    AbsPath.resolveFrom_of_here h.here]

theorem Breaks.resolve_eq_iff (h : Breaks fs p base hs c rest dir) :
    dir ++ names (c :: rest) = resolve p ↔ parent ∉ c :: rest := by
  rw [h.resolve_eq]
  constructor
  · intro heq hmem
    have hlen := congrArg List.length heq
    rw [length_append] at hlen
    by_cases hdir : dir = []
    · subst hdir
      cases c with
      | here => exact h.component rfl
      | parent =>
        -- the parent of the root is the root
        have hbreaks := h.breaks
        rw [canonicalize, Tree.walk_append,
          show fs.walk [] base = some [] from h.exists_base, bind_some, Tree.walk_append,
          walk_of_here h.here fs.root, bind_some, Tree.walk,
          (Tree.enter_of_directory fs.root).2] at hbreaks
        cases hbreaks
      | name a =>
        have hparent : parent ≠ name a := by
          intro heq
          cases heq
        have hlt := length_resolveFrom_lt ((mem_cons.mp hmem).resolve_left hparent)
          (cons_ne_nil a [])
        rw [resolveFrom_cons, push, nil_append, names, length_cons] at hlen
        rw [length_singleton] at hlt
        simp only [length_nil] at hlen
        omega
    · have hlt := length_resolveFrom_lt hmem hdir
      omega
  · intro hnot
    exact (resolveFrom_of_not_mem hnot dir).symm

theorem canonicalizeLexical_eq_iff (fs : FileTree) (p : AbsPath) :
    canonicalizeLexical fs p = normalize p ↔ ParentsExist fs p := by
  obtain ⟨hs, hp, hhs⟩ := AbsPath.exists_trimEnd p
  have hres : resolve p = resolve (AbsPath.trimEnd p) := by
    rw [hp, resolve, resolveFrom_append, AbsPath.resolveFrom_of_here hhs, ← hp, resolve]
  unfold canonicalizeLexical normalize
  cases hcan : canonicalize fs p with
  | some e =>
    rw [Tree.walk_eq hcan]
    refine ⟨fun _ => ?_, fun _ => rfl⟩
    rw [← append_nil p]
    exact parentsExist_of_isSome (isSome_of_eq_some hcan) nofun
  | none =>
    have htrim : AbsPath.trimEnd p = (p.reverse.dropWhile AbsPath.isHere).reverse := rfl
    cases hexists : canonicalize fs (AbsPath.trimEnd p) with
    | some e =>
      have hfile : fs.node e ≠ some .directory := fun hdir => by
        rw [hp, canonicalize, Tree.walk_append,
          show fs.walk [] (AbsPath.trimEnd p) = some e from hexists, bind_some,
          walk_of_here hhs hdir] at hcan
        cases hcan
      dsimp only
      rw [climb_of_file hfile p.reverse [] hexists, hres, Tree.walk_eq hexists]
      refine ⟨fun _ => ?_, fun _ => by simp [resolve]⟩
      rw [hp]
      exact parentsExist_of_isSome (isSome_of_eq_some hexists) hhs
    | none =>
      obtain ⟨base, dots, c, rest, dir, hbreaks, hclimb⟩ := climb_spec p.reverse [] hexists
      have hbreaks : Breaks fs p base dots c (rest ++ hs) dir := by
        have := hbreaks.append hs
        rwa [← htrim, ← hp] at this
      have hnames : names (c :: (rest ++ hs)) = names (c :: rest) := by
        rw [← cons_append, names_append, AbsPath.names_of_here hhs, append_nil]
      dsimp only
      rw [hclimb, hbreaks.parentsExist_iff, ← hbreaks.resolve_eq_iff, hnames, append_nil]
      exact map_name_injective.eq_iff

end TerminalCommander
