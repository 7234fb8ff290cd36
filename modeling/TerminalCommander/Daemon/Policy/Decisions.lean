import TerminalCommander.Core.OsGuard.Lexical
import TerminalCommander.Daemon.Policy.Engine

/-!
# Decisions

What the decisions of the engine depend on. A file action is decided by the canonical path, and that
is the normalized path only if every `..` is taken from a directory that exists
(`file_decision_normalized_iff`). A command is decided by the failsafe, by its first word and by
the profile (`first_word_decides`): what a launcher starts in the end is not looked at.
-/

namespace TerminalCommander

namespace Policy

open LexicalPath OsGuard ShellDeny List PolicyEngine PolicyVerdict Text

variable {m m' : Machine} {e : PolicyEngine}

def PolicyEngine.Denies (e : PolicyEngine) (m : Machine) (action : PolicyAction) : Prop :=
  (e.evaluate m action).map PolicyVerdict.decision = .ok .deny

instance (e : PolicyEngine) (m : Machine) (action : PolicyAction) :
    Decidable (e.Denies m action) := inferInstanceAs (Decidable (_ = _))

/-! ## Normalized paths -/

variable {path : Text}

theorem name_of_mem_resolve {name : Text} (h : name ∈ resolve (segments path)) :
    '/' ∉ name ∧ componentOf name = .name name := by
  rcases mem_resolveFrom h with hnil | hmem
  · cases hnil
  · obtain ⟨seg, hseg, hname⟩ := List.mem_map.mp hmem
    obtain rfl := componentOf_eq_name hname
    exact ⟨(Segments.part_of_mem_splitOn hseg).1, hname⟩

theorem resolve_segments_join {names : List Text}
    (h : ∀ name ∈ names, '/' ∉ name ∧ componentOf name = .name name) :
    Component.parent ∉ segments (join ['/'] names) ∧
      resolve (segments (join ['/'] names)) = names := by
  by_cases hnil : names = []
  · subst hnil
    decide +kernel
  · have hsegments : segments (join ['/'] names) = names.map .name := by
      unfold segments join
      rw [splitOn_intercalate '/' (fun name hname => (h name hname).1) hnil]
      exact map_congr_left fun name hname => (h name hname).2
    rw [hsegments]
    refine ⟨fun hmem => ?_, ?_⟩
    · obtain ⟨name, -, hname⟩ := List.mem_map.mp hmem
      cases hname
    · rw [resolve, resolveFrom_map_name, nil_append]

theorem display_normalize (path : AbsPath) :
    display (normalize path) = '/' :: join ['/'] (resolve path) := by
  unfold display normalize
  rw [List.map_map, show segmentText ∘ Component.name = id from rfl, List.map_id]

theorem canonicalizeLexical_display_normalize (m : Machine) (path : Text) :
    m.canonicalizeLexical (display (normalize (segments path))) =
      display (normalize (segments path)) := by
  have hnames : ∀ name ∈ resolve (segments path), '/' ∉ name ∧ componentOf name = .name name :=
    fun name hname => name_of_mem_resolve hname
  obtain ⟨hparent, hres⟩ := resolve_segments_join hnames
  have hexist : ParentsExist m.tree (segments (join ['/'] (resolve (segments path)))) :=
    fun before after hsplit => absurd (hsplit ▸ mem_append_right before mem_cons_self)
      hparent
  rw [display_normalize, Machine.canonicalizeLexical, (canonicalizeLexical_eq_iff _ _).mpr hexist,
    display_normalize, hres]

/-! ## File actions -/

def fileActions : List (Text → PolicyAction) := [.fileRead, .fileWatch, .fileWrite]

variable {act : Text → PolicyAction}

theorem mem_fileActions (h : act ∈ fileActions) :
    act = .fileRead ∨ act = .fileWatch ∨ act = .fileWrite := by
  simpa [fileActions] using h

variable {path' : Text}

section

variable (hpath : m.canonicalizeLexical path = m'.canonicalizeLexical path')
    (hact : act ∈ fileActions)

include hpath hact

theorem pathGate_decision : (e.pathGate m (act path)).map decision =
      (e.pathGate m' (act path')).map decision := by
  obtain rfl | rfl | rfl := mem_fileActions hact
  all_goals
    simp only [pathGate, fileRule, hpath]
    split_ifs <;> rfl

theorem profileVerdict_decision :
    (e.profileVerdict m (act path)).decision = (e.profileVerdict m' (act path')).decision := by
  have hcont : e.repoRootContains m path = e.repoRootContains m' path' := by
    unfold repoRootContains
    rw [hpath]
  unfold profileVerdict
  obtain rfl | rfl | rfl := mem_fileActions hact
  all_goals
    cases e.profile with
    | repoOnly =>
      simp only [repoOnlyVerdict, actionPathSubject, hcont]
      split_ifs <;> rfl
    | _ => rfl

theorem evaluate_file_decision : (e.evaluate m (act path)).map decision =
      (e.evaluate m' (act path')).map decision := by
  have hjudge : ∀ (m : Machine) (path : Text), (e.evaluate m (act path)).map
      decision = .ok (((e.pathGate m (act path)).map decision).getD
        (e.profileVerdict m (act path)).decision) := by
    intro m path
    obtain rfl | rfl | rfl := mem_fileActions hact
    all_goals
      simp only [evaluate, osGuardHit, judge, commandGate, laneGate]
      cases e.pathGate m _ <;> rfl
  rw [hjudge, hjudge, pathGate_decision hpath hact, profileVerdict_decision hpath hact]

end

/-- **File decisions.** The canonical path of an absolute path is the normalized one, and the
decision on each file action is the decision on the normalized path on any machine, exactly if every
`..` of the path is taken from a directory that exists. -/
theorem file_decision_normalized_iff (m : Machine) (path : Text) :
    (canonicalizeLexical m.tree (segments path) = normalize (segments path) ∧
      ∀ (e : PolicyEngine) (m' : Machine), ∀ act ∈ fileActions,
        (e.evaluate m (act ('/' :: path))).map PolicyVerdict.decision =
          (e.evaluate m' (act (display (normalize (segments path))))).map
            PolicyVerdict.decision) ↔
      ParentsExist m.tree (segments path) := by
  rw [← canonicalizeLexical_eq_iff]
  refine ⟨fun h => h.1, fun h => ⟨h, fun e m' act hact => evaluate_file_decision ?_ hact⟩⟩
  rw [canonicalizeLexical_display_normalize, Machine.canonicalizeLexical, h]

def allowedTree : FileTree where
  node path := if path = [] ∨ path = ["allowed".toList] then some .directory else none
  root := rfl
  parent dir a h := by
    split_ifs at h with hpath
    · obtain hnil | hone := hpath
      · exact absurd hnil (List.append_ne_nil_of_right_ne_nil dir (List.cons_ne_nil a []))
      · exact if_pos (Or.inl (List.append_eq_singleton_iff.mp hone |>.elim (·.1) nofun))
    · cases h

def allowedMachine : Machine := ⟨allowedTree, [], none⟩

/-- A path below a directory that does not exist keeps the names that its `..` should take back, and
is allowed by a glob that does not allow the normalized path. -/
theorem missing_directory_keeps_names :
    let path := "allowed/missing/../../etc/secret".toList
    let e := (PolicyEngine.withConfig allowedMachine .developerLocal none none).withPaths
      (fun _ => true) ["/allowed/**".toList] [] [] []
    display (canonicalizeLexical allowedTree (segments path)) =
        "/allowed/missing/etc/secret".toList ∧
      display (normalize (segments path)) = "/etc/secret".toList ∧
      (e.evaluate allowedMachine (.fileRead ('/' :: path))).map PolicyVerdict.decision =
        .ok .allow ∧
      (e.evaluate allowedMachine (.fileRead "/etc/secret".toList)).map PolicyVerdict.decision =
        .ok .deny := by
  decide +kernel

/-! ## Commands -/

def Escalates (argv : List Text) : Prop :=
  ∃ arg0 ∈ argv.head?, programName arg0 ∈ COMMANDS_DENY

def PolicyEngine.Refuses (e : PolicyEngine) (m : Machine) (argv : List Text) (cwd : Text) : Prop :=
  match e.profile with
  | .readOnlyObserver => True
  | .adminDebug => False
  | .repoOnly => e.repoRootContains m cwd = false ∨
      e.commandAllowed ((argv.head?.map programName).getD []) = false
  | .developerLocal | .fullAccess =>
      e.commandAllowed ((argv.head?.map programName).getD []) = false

theorem denies_iff {action : PolicyAction} :
    e.Denies m action ↔ (∃ hit, osGuardHit m action = .ok (some hit)) ∨
      (osGuardHit m action = .ok none ∧ (e.judge m action).decision = .deny) := by
  unfold PolicyEngine.Denies evaluate
  cases hguard : osGuardHit m action with
  | error fault => exact ⟨nofun, by rintro (⟨hit, ⟨⟩⟩ | ⟨⟨⟩, -⟩)⟩
  | ok found =>
    cases found with
    | some hit => exact ⟨fun _ => Or.inl ⟨hit, rfl⟩, fun _ => rfl⟩
    | none =>
      refine ⟨fun h => Or.inr ⟨rfl, Except.ok.inj h⟩, ?_⟩
      rintro (⟨hit, hhit⟩ | ⟨-, hdeny⟩)
      · cases hhit
      · exact congrArg Except.ok hdeny

variable {argv : List Text}

theorem devLocalRepoOnlyVerdict_deny_iff (cwd : Text) :
    (e.devLocalRepoOnlyVerdict (.commandStart argv cwd)).decision = .deny ↔
      e.commandAllowed ((argv.head?.map programName).getD []) = false := by
  unfold devLocalRepoOnlyVerdict
  dsimp only
  cases e.commandAllowed ((argv.head?.map programName).getD []) with
  | false => exact ⟨fun _ => rfl, fun _ => rfl⟩
  | true => exact ⟨nofun, nofun⟩

theorem profileVerdict_deny_iff {cwd : Text} :
    (e.profileVerdict m (.commandStart argv cwd)).decision = .deny ↔ e.Refuses m argv cwd := by
  unfold profileVerdict PolicyEngine.Refuses
  cases e.profile with
  | readOnlyObserver => exact ⟨fun _ => trivial, fun _ => rfl⟩
  | adminDebug => exact ⟨nofun, False.elim⟩
  | repoOnly =>
    dsimp only [repoOnlyVerdict, actionPathSubject]
    cases e.repoRootContains m cwd with
    | false => exact ⟨fun _ => Or.inl rfl, fun _ => rfl⟩
    | true =>
      refine (devLocalRepoOnlyVerdict_deny_iff cwd).trans ⟨Or.inr, ?_⟩
      exact fun h => h.resolve_left nofun
  | _ => exact devLocalRepoOnlyVerdict_deny_iff cwd

theorem commandGate_of_escalates (hprof : e.profile ≠ .fullAccess)
    (h : Escalates argv) (cwd : Text) :
    ∃ reason, e.commandGate (.commandStart argv cwd) = some ⟨.deny, reason⟩ := by
  obtain ⟨arg0, harg0, hmem⟩ := h
  obtain ⟨args, rfl⟩ := head?_eq_some_iff.mp harg0
  have hstructural : e.structural = true := bne_iff_ne.mpr hprof
  have hcont : COMMANDS_DENY.contains (programName arg0) = true :=
    contains_iff_mem.mpr hmem
  exact ⟨_, if_pos (Bool.and_eq_true_iff.mpr ⟨hstructural, hcont⟩)⟩

theorem commandGate_of_not_escalates (h : ¬ Escalates argv) (cwd : Text) :
    e.commandGate (.commandStart argv cwd) = none := by
  cases argv with
  | nil => rfl
  | cons arg0 args =>
    refine if_neg fun hdeny => h ⟨arg0, rfl, ?_⟩
    exact contains_iff_mem.mp (Bool.and_eq_true_iff.mp hdeny).2

theorem judge_commandStart_deny_iff (hprof : e.profile ≠ .fullAccess) {cwd : Text} :
    (e.judge m (.commandStart argv cwd)).decision = .deny ↔
      Escalates argv ∨ e.Refuses m argv cwd := by
  unfold judge
  by_cases hesc : Escalates argv
  · obtain ⟨reason, hgate⟩ := commandGate_of_escalates hprof hesc cwd
    rw [hgate]
    exact ⟨fun _ => Or.inl hesc, fun _ => rfl⟩
  · rw [commandGate_of_not_escalates hesc]
    exact profileVerdict_deny_iff.trans ⟨Or.inr, fun h => h.resolve_left hesc⟩

/-- **The first word decides.** In a profile with the deny set, a command whose first word names a
program of the set is refused, if the failsafe returns. In all, a command is refused exactly if the
failsafe hits, or it does not and the first word names a program of the set or the profile refuses
the command: the program behind a launcher does not count. -/
theorem first_word_decides (m : Machine) (e : PolicyEngine) (argv : List Text) (cwd : Text)
    (hprofile : e.profile ≠ .fullAccess) :
    (Escalates argv → Checked.Returns (argvDeletionHit m.host argv (some cwd)) →
      e.Denies m (.commandStart argv cwd)) ∧ (e.Denies m (.commandStart argv cwd) ↔
      (∃ hit, argvDeletionHit m.host argv (some cwd) = .ok (some hit)) ∨
        (argvDeletionHit m.host argv (some cwd) = .ok none ∧
          (Escalates argv ∨ e.Refuses m argv cwd))) := by
  have hdenies : e.Denies m (.commandStart argv cwd) ↔
      (∃ hit, argvDeletionHit m.host argv (some cwd) = .ok (some hit)) ∨
        (argvDeletionHit m.host argv (some cwd) = .ok none ∧
          (Escalates argv ∨ e.Refuses m argv cwd)) := by
    rw [denies_iff, judge_commandStart_deny_iff hprofile]
    rfl
  refine ⟨fun hesc hret => hdenies.mpr ?_, hdenies⟩
  obtain ⟨found, hfound⟩ := hret
  cases found with
  | some hit => exact Or.inl ⟨hit, hfound⟩
  | none => exact Or.inr ⟨hfound, Or.inl hesc⟩

/-- A path of `doas` is refused in the profile `repo_only`. -/
theorem first_word_decides_doas :
    (PolicyEngine.withConfig allowedMachine .repoOnly none none).Denies allowedMachine
      (.commandStart (["/usr/bin/doas", "ls"].map String.toList) "/allowed".toList) := by
  refine (first_word_decides allowedMachine _ _ _ (by decide)).1 ?_ ?_
  · exact ⟨"/usr/bin/doas".toList, rfl, by decide +kernel⟩
  · exact ⟨none, by decide +kernel⟩

/-- Behind `env`, `sudo` is started: `launched_argv` finds it, and the engine allows it. -/
theorem env_carries_sudo :
    let e := PolicyEngine.withConfig allowedMachine .developerLocal none none
    let argv := ["env", "sudo", "ls"].map String.toList
    e.profile ≠ .fullAccess ∧
      launchedArgv argv = .ok (["sudo", "ls"].map String.toList) ∧
      programName "sudo".toList ∈ COMMANDS_DENY ∧
      (e.evaluate allowedMachine (.commandStart argv "/allowed".toList)).map
        PolicyVerdict.decision = .ok .allow := by
  decide +kernel

end Policy

end TerminalCommander
