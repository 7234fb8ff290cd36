import TerminalCommander.Core.OsGuard.Relative
import TerminalCommander.Core.OsGuard.Total

/-!
# Commands behind launchers

A command behind escalators, `busybox` and wrappers is unwrapped to the command itself, unless an
option word of a wrapper is itself named like a wrapper, a word is read as a change of directory
though it is none, or a wrapper stands in front of a command that begins with wrappers of its own:
the words of both are peeled at once under the name of the first. `ClearFrom` rules these out.
-/

namespace TerminalCommander

namespace OsGuard

open ShellDeny List Launched Option Char

inductive Invocation where
  | escalator (w : Launcher) (word : Text) (options : List (List Text))
  | applet (word : Text)
  | wrapper (w : Launcher) (word : Text) (options : List (List Text)) (operand : List Text)

def IsOption (w : Launcher) (words : List Text) : Prop :=
  ∃ tok values, words = tok :: values ∧ startsDash tok = true ∧ tok ≠ "--".toList ∧
    optionWords w tok = words.length

structure Leads (word : Text) : Prop where
  dash : startsDash word = false
  digit : word.head?.any Char.isDigit = false
  assignment : isEnvAssignment word = false
  wrapper : wrapperOf word = none

def IsOperand (w : Launcher) (operand : List Text) : Prop :=
  if VALUE_OPERAND_WRAPPERS.contains w.name then
    ∃ number, operand = [number] ∧ number.head?.any Char.isDigit = true ∧
      number.any isSeparator = false
  else operand = []

namespace Invocation

def words : Invocation → List Text
  | escalator _ word options => word :: options.flatten
  | applet word => [word]
  | wrapper _ word options operand => word :: (options.flatten ++ operand)

def Valid : Invocation → Prop
  | escalator w word options =>
    escalatorOf word = some w ∧ w.name ≠ "su".toList ∧ w.name ≠ "chroot".toList ∧ Leads word ∧
      ∀ option ∈ options, IsOption w option
  | applet word => commandBasename word = "busybox".toList ∧ Leads word
  | wrapper w word options operand =>
    wrapperOf word = some w ∧ isEnvAssignment word = false ∧ escalatorOf word = none ∧
      commandBasename word ≠ "busybox".toList ∧ startsDash word = false ∧
      (∀ option ∈ options, IsOption w option ∧
        ∀ tok ∈ option.head?, splitValue (optionWith w tok option[1]?) = none) ∧
      IsOperand w operand

end Invocation

def TailClear (run argv : List Text) (cwd : Option Text) : Prop :=
  ∀ first ∈ argv.head?, isEnvAssignment first = false ∧
    ((wrapperOf first = none ∧ launcherChdir run cwd = cwd) ∨
      ((wrapperOf first).isSome = true ∧ escalatorOf first = none ∧
        commandBasename first ≠ "busybox".toList ∧ launchedWords argv ≠ [] ∧
        launcherChdir (run ++ peeledFront argv (launchedWords argv)) cwd =
          launcherChdir (peeledFront argv (launchedWords argv)) cwd))

def ClearFrom (argv : List Text) (cwd : Option Text) : List Text → List Invocation → Prop
  | run, [] => run = [] ∨ TailClear run argv cwd
  | run, .wrapper w word options operand :: invocations =>
    (∀ option ∈ options, ∀ tok ∈ option.head?, wrapperOf tok = none) ∧
      ClearFrom argv cwd (run ++ (Invocation.wrapper w word options operand).words) invocations
  | run, .escalator w word options :: invocations =>
    launcherChdir run cwd = cwd ∧
      launcherChdir (Invocation.escalator w word options).words cwd = cwd ∧
      ClearFrom argv cwd [] invocations
  | run, .applet _ :: invocations => launcherChdir run cwd = cwd ∧ ClearFrom argv cwd [] invocations

/-! ## Rounds -/

theorem unwrapLoop_fuel : ∀ {fuel more : Nat} {argv : List Text} {cwd : Option Text},
    weight argv < fuel → weight argv < more → unwrapLoop fuel argv cwd = unwrapLoop more argv cwd := by
  intro fuel
  induction fuel with
  | zero => exact fun h => absurd h (Nat.not_lt_zero _)
  | succ fuel ih =>
    intro more argv cwd hfuel hmore
    cases more with
    | zero => exact absurd hmore (Nat.not_lt_zero _)
    | succ more =>
      rw [unwrapLoop_succ, unwrapLoop_succ]
      cases hpeel : peel argv with
      | none => rfl
      | some step =>
        cases step with
        | line line => rfl
        | argv rest =>
          have hlt := weight_peel hpeel
          have hrest : weight rest < more := by omega
          dsimp only
          rw [ih (by omega) hrest]

variable {rest : List Text}

theorem argvDeletionHit_step {real : List Text} (hstep : Steps real rest)
    (hle : rest.length ≤ real.length) (host : Host) (cwd : Option Text) :
    argvDeletionHit host real cwd =
      argvDeletionHit host rest (launcherChdir (peeledFront real rest) cwd) := by
  have hunwrap : unwrapLaunchers real cwd =
      unwrapLaunchers rest (launcherChdir (peeledFront real rest) cwd) := by
    unfold unwrapLaunchers
    rw [unwrapLoop_succ, show peel real = some (.argv rest) from hstep]
    dsimp only
    rw [if_pos hle]
    exact unwrapLoop_fuel (weight_peel hstep) (Nat.lt_succ_self _)
  unfold argvDeletionHit scan argvHit
  rw [hunwrap]

theorem peeledFront_append (front rest : List Text) : peeledFront (front ++ rest) rest = front := by
  unfold peeledFront
  rw [length_append, Nat.add_sub_cancel, take_left]

/-! ## Escalators and applets -/

variable {first : Text}

theorem afterOptions_leads (w : Launcher) (h : startsDash first = false)
    (rest : List Text) : afterOptions w (first :: rest) = first :: rest := by
  have hend : first ≠ "--".toList := by
    rintro rfl
    cases h
  unfold afterOptions
  rw [if_neg hend, h]
  rfl

variable {option : List Text} {w : Launcher}

theorem afterOptions_option (h : IsOption w option)
    (rest : List Text) : afterOptions w (option ++ rest) = afterOptions w rest := by
  obtain ⟨tok, values, rfl, hdash, hend, hwords⟩ := h
  conv_lhs => unfold afterOptions
  dsimp only [cons_append]
  rw [if_neg hend, hdash, Bool.not_true]
  rcases optionWords_cases w tok with hone | htwo
  · have hvalues : values = [] := by
      rw [hone] at hwords
      exact length_eq_zero_iff.mp (by simpa using hwords.symm)
    rw [if_neg Bool.false_ne_true, if_pos hone, hvalues, nil_append]
  · obtain ⟨value, rfl⟩ : ∃ value, values = [value] := by
      rw [htwo] at hwords
      exact length_eq_one_iff.mp (by simpa using hwords.symm)
    rw [if_neg Bool.false_ne_true, if_neg (by omega)]
    rfl

variable {options : List (List Text)}

theorem afterOptions_options (h : ∀ option ∈ options, IsOption w option) (rest : List Text) :
    afterOptions w (options.flatten ++ rest) = afterOptions w rest := by
  induction options with
  | nil => rfl
  | cons option options ih =>
    rw [flatten_cons, append_assoc, afterOptions_option (h option mem_cons_self)]
    exact ih fun o ho => h o (mem_cons_of_mem option ho)

variable {word : Text}

theorem steps_escalator (h : (Invocation.escalator w word options).Valid)
    (hfirst : startsDash first = false) (rest : List Text) :
    Steps ((Invocation.escalator w word options).words ++ first :: rest) (first :: rest) := by
  obtain ⟨hesc, hsu, hchroot, -, hoptions⟩ := h
  have hafter : afterOptions w (options.flatten ++ first :: rest) = first :: rest := by
    rw [afterOptions_options hoptions, afterOptions_leads w hfirst]
  have hskip : skipsOperand w (some first) = false := by
    unfold skipsOperand
    rw [beq_eq_false_iff_ne.mpr hchroot, beq_eq_false_iff_ne.mpr hsu]
    rfl
  have hbehind : commandBehind w (options.flatten ++ first :: rest) = first :: rest := by
    unfold commandBehind
    rw [hafter, head?_cons, hskip]
    rfl
  unfold Steps peel escalated Invocation.words suLineFirst
  rw [cons_append, head?_cons, bind_some, hesc]
  dsimp only [tail_cons]
  rw [if_neg hsu, hbehind]

theorem steps_applet (h : (Invocation.applet word).Valid)
    (hfirst : startsDash first = false) (rest : List Text) :
    Steps (word :: first :: rest) (first :: rest) ∧ ∀ cwd, launcherChdir [word] cwd = cwd := by
  have hesc : escalatorOf word = none := by
    have hall : ∀ w ∈ ESCALATORS, w.name ≠ "busybox".toList := by decide +kernel
    refine find?_eq_none.mpr fun w hw heq => hall w hw ?_
    rw [beq_iff_eq.mp heq, h.1]
  have happlet : isApplet (word :: first :: rest) = true := by
    unfold isApplet
    dsimp only
    rw [h.1, hfirst]
    rfl
  refine ⟨?_, launcherChdir_applet happlet⟩
  unfold Steps peel escalated
  rw [head?_cons, bind_some, hesc]
  dsimp only
  rw [if_pos happlet, tail_cons]

/-! ## Runs of wrappers -/

theorem isPrefix_winStem (t : Text) : winStem t <+: t := by
  unfold winStem
  split
  · exact List.take_prefix _ t
  · exact prefix_rfl

theorem isPrefix_dataStripped (t : Text) : dataStripped t <+: t := by
  unfold dataStripped
  split_ifs
  · exact List.take_prefix _ t
  · exact prefix_rfl

theorem isDigit_cases {c : Char} (h : c.isDigit = true) :
    c.toLower = c ∧ c.isAlpha = false ∧ c ≠ '_' ∧ c ≠ '-' := by
  simp only [isDigit, Bool.and_eq_true, decide_eq_true_eq, UInt32.le_iff_toNat_le] at h
  have h0 : '0'.val.toNat = 48 := rfl
  have h9 : '9'.val.toNat = 57 := rfl
  have hA : 'A'.val.toNat = 65 := rfl
  have ha : 'a'.val.toNat = 97 := rfl
  refine ⟨?_, eq_false_of_ne_true fun halpha => ?_, ?_, ?_⟩
  · unfold toLower
    rw [dif_neg]
    rintro ⟨hle, -⟩
    rw [ge_iff_le, UInt32.le_iff_toNat_le] at hle
    omega
  · rw [Text.isAlpha_iff, Char.toNat] at halpha
    omega
  · rintro rfl
    exact absurd h (by decide)
  · rintro rfl
    exact absurd h (by decide)

theorem wrapperOf_number {number : Text} (hdigit : number.head?.any isDigit = true)
    (hsep : number.any isSeparator = false) : wrapperOf number = none := by
  have hbase : argvBasename number = number := by
    refine rtakeWhile_eq_self_iff.mpr fun c hc => ?_
    rw [eq_false_of_ne_true (List.any_eq_false.mp hsep c hc)]
    rfl
  have hpre : winStem (winBasename number) <+: number := by
    refine (isPrefix_winStem _).trans ?_
    unfold winBasename
    rw [hbase]
    refine (List.rdropWhile_prefix _ _).trans ((isPrefix_dataStripped _).trans ?_)
    exact (List.rdropWhile_prefix _ _).trans ((isPrefix_dataStripped _).trans
      (List.rdropWhile_prefix _ _))
  have hnames : ∀ w ∈ SHELL_ARGV_WRAPPERS,
      w.name.toAsciiLowercase.head?.any isAlpha = true := by decide +kernel
  refine find?_eq_none.mpr fun w hw heq => ?_
  obtain ⟨c, hc, halpha⟩ := (any_eq_true _ _).mp (hnames w hw)
  rw [← eqIgnoreAsciiCase_iff.mp heq] at hc
  obtain ⟨more, hmore⟩ := hpre
  cases hstem : winStem (winBasename number) with
  | nil =>
    rw [hstem] at hc
    cases hc
  | cons d stem =>
    rw [hstem] at hc hmore
    obtain rfl := some.inj hc
    rw [← hmore] at hdigit
    obtain ⟨hlower, hnot, -⟩ := isDigit_cases (show d.isDigit = true from hdigit)
    rw [hlower, hnot] at halpha
    cases halpha

variable {tok : Text}

theorem isEnvAssignment_of_head {c : Char} (hc : tok.head? = some c)
    (h : (c == '_' || c.isAlpha) = false) : isEnvAssignment tok = false := by
  cases tok with
  | nil => cases hc
  | cons d tok =>
    obtain rfl := some.inj hc
    unfold isEnvAssignment
    split
    · rfl
    · rename_i name value hsplit
      have hname : name = (d :: tok).takeWhile (· != '=') := by
        unfold Text.splitOnce at hsplit
        split at hsplit
        · cases hsplit
        · exact ((Prod.mk.inj (some.inj hsplit)).1).symm
      by_cases heq : d = '='
      · subst heq
        rw [hname]
        rfl
      · rw [hname, takeWhile_cons_of_pos (by simpa using heq)]
        dsimp only
        rw [h, Bool.false_and]

theorem optionWith_of_one (h : optionWords w tok = 1)
    (next : Option Text) : optionWith w tok next = optionOf w tok := by
  unfold optionWords at h
  unfold optionWith
  cases hof : optionOf w tok with
  | none => rfl
  | some hit =>
    obtain ⟨key, value⟩ := hit
    cases value with
    | none =>
      rw [hof] at h
      cases h
    | some value => rfl

theorem IsOption.cases (h : IsOption w option) :
    (∃ tok, option = [tok] ∧ startsDash tok = true ∧ optionWords w tok = 1) ∨
      ∃ tok value, option = [tok, value] ∧ startsDash tok = true ∧ optionWords w tok = 2 := by
  obtain ⟨tok, values, rfl, hdash, -, hwords⟩ := h
  rcases optionWords_cases w tok with hone | htwo
  · obtain rfl : values = [] := by
      rw [hone] at hwords
      exact length_eq_zero_iff.mp (by simpa using hwords.symm)
    exact Or.inl ⟨tok, rfl, hdash, hone⟩
  · obtain ⟨value, rfl⟩ : ∃ value, values = [value] := by
      rw [htwo] at hwords
      exact length_eq_one_iff.mp (by simpa using hwords.symm)
    exact Or.inr ⟨tok, value, rfl, hdash, htwo⟩

theorem readToken_option {next : Option Text}
    (hdash : startsDash tok = true) (hwrap : wrapperOf tok = none)
    (hsplit : splitValue (optionWith w tok next) = none) (valueOperand : Bool) :
    readToken (some w) valueOperand tok next =
      if optionWords w tok = 1 then .word (some w) valueOperand else .pair := by
  have hhead : tok.head? = some '-' := beq_iff_eq.mp hdash
  unfold readToken
  rw [isEnvAssignment_of_head hhead rfl, hwrap, if_neg Bool.false_ne_true]
  dsimp only
  rw [if_pos hhead, hsplit]

theorem readToken_option_one (hdash : startsDash tok = true)
    (hone : optionWords w tok = 1) (hwrap : wrapperOf tok = none)
    (hsplit : splitValue (optionWith w tok none) = none) (valueOperand : Bool)
    (next : Option Text) :
    readToken (some w) valueOperand tok next = .word (some w) valueOperand := by
  have hnext : splitValue (optionWith w tok next) = none := by
    rw [optionWith_of_one hone, ← optionWith_of_one hone none]
    exact hsplit
  rw [readToken_option hdash hwrap hnext, if_pos hone]

theorem readToken_option_two {value : Text} (hdash : startsDash tok = true)
    (htwo : optionWords w tok = 2) (hwrap : wrapperOf tok = none)
    (hsplit : splitValue (optionWith w tok (some value)) = none) (valueOperand : Bool) :
    readToken (some w) valueOperand tok (some value) = .pair := by
  rw [readToken_option hdash hwrap hsplit, if_neg (by omega)]

theorem readToken_number {number : Text} (hdigit : number.head?.any isDigit = true)
    (hsep : number.any isSeparator = false) (w : Launcher) (next : Option Text) :
    readToken (some w) true number next = .word (some w) false := by
  cases number with
  | nil => cases hdigit
  | cons c number =>
    obtain ⟨-, halpha, hline, hminus⟩ := isDigit_cases (show c.isDigit = true from hdigit)
    have hassign : isEnvAssignment (c :: number) = false := by
      refine isEnvAssignment_of_head (show (c :: number).head? = some c from rfl) ?_
      rw [halpha, beq_eq_false_iff_ne.mpr hline, Bool.or_false]
    have hdash : ¬ (c :: number).head? = some '-' := fun heq => hminus (some.inj heq)
    unfold readToken
    rw [hassign, wrapperOf_number hdigit hsep, if_neg Bool.false_ne_true]
    dsimp only
    rw [if_neg hdash, Bool.true_or, if_pos rfl]

theorem readToken_word (hassign : isEnvAssignment word = false)
    (hword : wrapperOf word = some w) (state : Option Launcher) (valueOperand : Bool)
    (next : Option Text) : readToken state valueOperand word next =
      .word (some w) (VALUE_OPERAND_WRAPPERS.contains w.name) := by
  unfold readToken
  rw [hassign, if_neg Bool.false_ne_true, hword]

theorem readLaunched_option (h : IsOption w option)
    (hsplit : ∀ tok ∈ option.head?, splitValue (optionWith w tok option[1]?) = none)
    (hwrap : ∀ tok ∈ option.head?, wrapperOf tok = none) (valueOperand : Bool)
    (rest : List Text) : readLaunched (some w) valueOperand (option ++ rest) =
      (readLaunched (some w) valueOperand rest).behind option := by
  rcases h.cases with ⟨tok, rfl, hdash, hone⟩ | ⟨tok, value, rfl, hdash, htwo⟩
  · have hread := readToken_option_one hdash hone (hwrap tok rfl) (hsplit tok rfl)
      valueOperand rest.head?
    rw [singleton_append, readLaunched_cons_word hread]
  · have hread := readToken_option_two hdash htwo (hwrap tok rfl) (hsplit tok rfl) valueOperand
    rw [cons_append, singleton_append, readLaunched_cons_pair hread]

theorem readLaunched_options (h : ∀ option ∈ options, IsOption w option ∧
      ∀ tok ∈ option.head?, splitValue (optionWith w tok option[1]?) = none)
    (hwrap : ∀ option ∈ options, ∀ tok ∈ option.head?, wrapperOf tok = none)
    (valueOperand : Bool) (rest : List Text) :
    readLaunched (some w) valueOperand (options.flatten ++ rest) =
      (readLaunched (some w) valueOperand rest).behind options.flatten := by
  induction options with
  | nil => exact (behind_nil _).symm
  | cons option options ih =>
    obtain ⟨hoption, hsplit⟩ := h option mem_cons_self
    rw [flatten_cons, append_assoc, readLaunched_option hoption hsplit (hwrap option mem_cons_self),
      ih (fun o ho => h o (mem_cons_of_mem option ho))
        (fun o ho => hwrap o (mem_cons_of_mem option ho)), behind_behind]

variable {operand : List Text}

theorem readLaunched_operand (h : IsOperand w operand) (rest : List Text) :
    readLaunched (some w) (VALUE_OPERAND_WRAPPERS.contains w.name) (operand ++ rest) =
      (readLaunched (some w) false rest).behind operand := by
  unfold IsOperand at h
  split_ifs at h with hdue
  · obtain ⟨number, rfl, hdigit, hsep⟩ := h
    rw [hdue]
    rw [singleton_append, readLaunched_cons_word (readToken_number hdigit hsep w rest.head?)]
  · rw [h, eq_false_of_ne_true hdue]
    exact (behind_nil _).symm

theorem readLaunched_word (hassign : isEnvAssignment word = false)
    (hword : wrapperOf word = some w) (state : Option Launcher) (valueOperand : Bool)
    (rest : List Text) : readLaunched state valueOperand (word :: rest) =
      (readLaunched (some w) (VALUE_OPERAND_WRAPPERS.contains w.name) rest).behind [word] :=
  readLaunched_cons_word (readToken_word hassign hword state valueOperand rest.head?)

theorem readLaunched_wrapper (h : (Invocation.wrapper w word options operand).Valid)
    (hwrap : ∀ option ∈ options, ∀ tok ∈ option.head?, wrapperOf tok = none)
    (state : Option Launcher) (valueOperand : Bool) (rest : List Text) :
    readLaunched state valueOperand ((Invocation.wrapper w word options operand).words ++ rest) =
      (readLaunched (some w) false rest).behind
        (Invocation.wrapper w word options operand).words := by
  obtain ⟨hword, hassign, -, -, -, hoptions, hoperand⟩ := h
  unfold Invocation.words
  rw [cons_append, readLaunched_word hassign hword, append_assoc,
    readLaunched_options hoptions hwrap, readLaunched_operand hoperand, behind_behind,
    behind_behind]
  rfl

structure IsRun (run : List Text) : Prop where
  read : ∃ w, ∀ state valueOperand rest, readLaunched state valueOperand (run ++ rest) =
    (readLaunched (some w) false rest).behind run
  head : ∃ first more, run = first :: more ∧ (wrapperOf first).isSome = true ∧
    escalatorOf first = none ∧ commandBasename first ≠ "busybox".toList

theorem isRun_wrapper (h : (Invocation.wrapper w word options operand).Valid)
    (hwrap : ∀ option ∈ options, ∀ tok ∈ option.head?, wrapperOf tok = none) :
    IsRun (Invocation.wrapper w word options operand).words := by
  refine ⟨⟨w, readLaunched_wrapper h hwrap⟩, word, _, rfl, ?_, h.2.2.1, h.2.2.2.1⟩
  rw [h.1]
  rfl

variable {run : List Text}

theorem IsRun.append {more : List Text} (h : IsRun run) (hmore : IsRun more) :
    IsRun (run ++ more) := by
  obtain ⟨w, hw⟩ := h.read
  obtain ⟨v, hv⟩ := hmore.read
  obtain ⟨first, rest, rfl, hhead⟩ := h.head
  refine ⟨⟨v, fun state valueOperand tail => ?_⟩, first, rest ++ more, rfl, hhead⟩
  rw [append_assoc, hw, hv, behind_behind]

theorem IsRun.launchOf_wrapper (h : IsRun run) (argv : List Text)
    (hargv : ∃ first rest, argv = first :: rest ∧ isEnvAssignment first = false ∧
      (wrapperOf first).isSome = true) : launchOf (run ++ argv) = launchOf argv := by
  obtain ⟨w, hw⟩ := h.read
  induction hn : weight argv using Nat.strong_induction_on generalizing argv with
  | _ n ih =>
    subst hn
    obtain ⟨first, rest, rfl, hassign, hsome⟩ := hargv
    obtain ⟨found, hfound⟩ := isSome_iff_exists.mp hsome
    have hread := readLaunched_word hassign hfound
    have hwithin := readLaunched_within (first :: rest) none false
    rw [launchOf_eq, launchOf_eq (first :: rest), hw, hread]
    rw [hread] at hwithin ⊢
    generalize readLaunched (some found) (VALUE_OPERAND_WRAPPERS.contains found.name) rest = launched
      at hwithin ⊢
    cases launched with
    | programAt index =>
      dsimp only [behind]
      rw [drop_append]
      simp
    | splitString expanded =>
      dsimp only [behind] at hwithin ⊢
      exact ih _ (hwithin.split _ rfl) ([first] ++ expanded)
        ⟨first, expanded, rfl, hassign, hsome⟩ rfl
    | nothing => rfl
    | unparseable => rfl

theorem IsRun.launchOf_leads (h : IsRun run) (hfirst : Leads first)
    (rest : List Text) : launchOf (run ++ first :: rest) = some (first :: rest) := by
  obtain ⟨w, hw⟩ := h.read
  have hdash : ¬ first.head? = some '-' := fun heq => by
    have := hfirst.dash
    unfold startsDash at this
    rw [heq] at this
    cases this
  have hread : readLaunched (some w) false (first :: rest) = .programAt 0 := by
    unfold readLaunched readToken isNumericOperand
    rw [hfirst.assignment, hfirst.wrapper, hfirst.digit, if_neg Bool.false_ne_true]
    dsimp only
    rw [if_neg hdash, Bool.and_false, Bool.false_and, Bool.or_false, if_neg Bool.false_ne_true]
  rw [launchOf_eq, hw, hread]
  dsimp only [behind]
  rw [Nat.add_zero, drop_left]

theorem steps_launched (hesc : escalatorOf first = none)
    (hbusybox : commandBasename first ≠ "busybox".toList) {launched : List Text}
    (hwords : launchedWords (first :: rest) = launched) (hne : launched ≠ [])
    (hstable : launched ≠ first :: rest) : Steps (first :: rest) launched := by
  unfold Steps
  rw [peel_eq_launched hesc hbusybox, hwords, if_neg]
  rw [Bool.or_eq_true, List.isEmpty_iff, beq_iff_eq]
  exact fun hor => hor.elim hne hstable

variable {argv : List Text}

theorem IsRun.steps {launched : List Text} (h : IsRun run)
    (hlaunch : launchOf (run ++ argv) = some launched) (hne : launched ≠ [])
    (hstable : launched ≠ run ++ argv) : Steps (run ++ argv) launched := by
  obtain ⟨first, more, rfl, -, hesc, hbusybox⟩ := h.head
  have hwords : launchedWords (first :: more ++ argv) = launched := by
    unfold launchedWords
    rw [hlaunch]
    rfl
  exact steps_launched hesc hbusybox hwords hne hstable

/-! ## The command behind the launchers -/

variable {cwd : Option Text} {host : Host}

theorem hits_step {real : List Text} (hstep : Steps real rest) (hle : rest.length ≤ real.length) :
    Hits host real cwd ↔ Hits host rest (launcherChdir (peeledFront real rest) cwd) := by
  unfold Hits
  rw [argvDeletionHit_step hstep hle]

theorem hits_front {front : List Text}
    (hstep : Steps (front ++ rest) rest) (hdir : launcherChdir front cwd = cwd) :
    Hits host (front ++ rest) cwd ↔ Hits host rest cwd := by
  rw [hits_step hstep (by simp), peeledFront_append, hdir]

theorem length_le_of_hits
    (hstep : Steps argv rest) (h : Hits host argv cwd) : rest.length ≤ argv.length := by
  refine Nat.le_of_not_lt fun hlong => ?_
  obtain ⟨hit, hhit⟩ := h
  have hunder := unwrapLaunchers_underflow
    (fun h => Nat.not_lt.mpr (h argv rest .refl hstep) hlong) cwd
  unfold argvDeletionHit scan argvHit at hhit
  rw [hunder] at hhit
  cases hhit

theorem peeledFront_run (run : List Text) (h : rest.length ≤ argv.length) :
    peeledFront (run ++ argv) rest = run ++ peeledFront argv rest := by
  unfold peeledFront
  rw [length_append, Nat.add_sub_assoc h, take_append]
  simp

theorem weight_pos (h : argv ≠ []) : 0 < weight argv := by
  obtain ⟨word, rest, rfl⟩ := exists_cons_of_ne_nil h
  rw [weight_cons]
  omega

theorem IsRun.ne_nil (h : IsRun run) : run ≠ [] := by
  obtain ⟨first, more, rfl, -⟩ := h.head
  exact cons_ne_nil first more

theorem IsRun.steps_leads (h : IsRun run) (hfirst : Leads first)
    (rest : List Text) : Steps (run ++ first :: rest) (first :: rest) := by
  refine h.steps (h.launchOf_leads hfirst rest) (cons_ne_nil first rest) fun heq => ?_
  exact h.ne_nil (append_left_eq_self.mp heq.symm)

theorem IsRun.hits_tail (h : IsRun run) (hargv : argv = first :: rest)
    (hdash : startsDash first = false) (hdigit : first.head?.any isDigit = false)
    (hclear : TailClear run argv cwd) (hhit : Hits host argv cwd) : Hits host (run ++ argv) cwd := by
  subst hargv
  obtain ⟨hassign, ⟨hnone, hdir⟩ | ⟨hsome, hesc, hbusybox, hne, hdir⟩⟩ := hclear first rfl
  · exact (hits_front (h.steps_leads ⟨hdash, hdigit, hassign, hnone⟩ rest) hdir).mpr hhit
  · have hlaunch : launchOf (first :: rest) = some (launchedWords (first :: rest)) := by
      unfold launchedWords at hne ⊢
      cases hof : launchOf (first :: rest) with
      | none =>
        rw [hof] at hne
        exact absurd rfl hne
      | some launched => rfl
    have hrun := h.launchOf_wrapper (first :: rest) ⟨first, rest, rfl, hassign, hsome⟩
    generalize hwords : launchedWords (first :: rest) = launched at hne hdir hlaunch
    -- what is launched weighs no more than the command, so it is not the whole
    have hstable : launched ≠ run ++ first :: rest := by
      intro heq
      have hpos := weight_pos h.ne_nil
      have hweight : weight launched = weight run + weight (first :: rest) := by
        rw [heq, weight_append]
      rcases launchedWords_cases (first :: rest) with hsame | hless
      · rw [← hwords, hsame] at hweight
        omega
      · rw [hwords] at hless
        omega
    have hstep := h.steps (hrun.trans hlaunch) hne hstable
    by_cases hsame : launched = first :: rest
    · have hfront : peeledFront (first :: rest) launched = [] := by
        rw [hsame]
        exact peeledFront_append [] (first :: rest)
      rw [hfront, append_nil] at hdir
      rw [hsame] at hstep
      exact (hits_front hstep hdir).mpr hhit
    · have halone : Steps (first :: rest) launched :=
        steps_launched hesc hbusybox hwords hne hsame
      have hle := length_le_of_hits halone hhit
      rw [hits_step hstep (by rw [length_append]; omega), peeledFront_run run hle, hdir]
      exact (hits_step halone hle).mp hhit

theorem leads_words {invocation : Invocation} (h : invocation.Valid) :
    ∃ first rest, invocation.words = first :: rest ∧ startsDash first = false := by
  cases invocation with
  | escalator w word options => exact ⟨word, _, rfl, h.2.2.2.1.dash⟩
  | applet word => exact ⟨word, [], rfl, h.2.dash⟩
  | wrapper w word options operand => exact ⟨word, _, rfl, h.2.2.2.2.1⟩

def launcherWords (invocations : List Invocation) : List Text :=
  invocations.flatMap Invocation.words

theorem head_launcherWords {invocations : List Invocation} (h : ∀ inv ∈ invocations, inv.Valid)
    (hfirst : startsDash first = false) (rest : List Text) :
    ∃ word more, launcherWords invocations ++ first :: rest = word :: more ∧
      startsDash word = false := by
  cases invocations with
  | nil => exact ⟨first, rest, rfl, hfirst⟩
  | cons invocation invocations =>
    obtain ⟨word, more, hwords, hdash⟩ := leads_words (h invocation mem_cons_self)
    refine ⟨word, more ++ launcherWords invocations ++ first :: rest, ?_, hdash⟩
    unfold launcherWords
    rw [flatMap_cons, hwords]
    simp

theorem hits_run (h : run = [] ∨ IsRun run) (hfirst : Leads first)
    (hdir : launcherChdir run cwd = cwd)
    (hhit : Hits host (first :: rest) cwd) : Hits host (run ++ first :: rest) cwd := by
  rcases h with rfl | h
  · exact hhit
  · exact (hits_front (h.steps_leads hfirst rest) hdir).mpr hhit

theorem hits_behind
    (hdash : startsDash first = false) (hdigit : first.head?.any isDigit = false)
    (hhit : Hits host (first :: rest) cwd) : ∀ (invocations : List Invocation) (run : List Text),
    (∀ inv ∈ invocations, inv.Valid) → run = [] ∨ IsRun run →
    ClearFrom (first :: rest) cwd run invocations →
    Hits host (run ++ (launcherWords invocations ++ first :: rest)) cwd := by
  intro invocations
  induction invocations with
  | nil =>
    intro run _ hrun hclear
    rcases hrun with rfl | hrun
    · exact hhit
    · rcases hclear with hnil | htail
      · exact absurd hnil hrun.ne_nil
      · exact hrun.hits_tail rfl hdash hdigit htail hhit
  | cons invocation invocations ih =>
    intro run hvalid hrun hclear
    have hinv := hvalid invocation mem_cons_self
    have hrest : ∀ inv ∈ invocations, inv.Valid :=
      fun inv hmem => hvalid inv (mem_cons_of_mem invocation hmem)
    obtain ⟨word, more, hbehind, hword⟩ := head_launcherWords hrest hdash rest
    have hwords : launcherWords (invocation :: invocations) ++ first :: rest =
        invocation.words ++ (launcherWords invocations ++ first :: rest) := by
      unfold launcherWords
      rw [flatMap_cons, append_assoc]
    rw [hwords]
    cases invocation with
    | escalator w word' options =>
      obtain ⟨hdir, hown, hclear⟩ := hclear
      have hnext := ih [] hrest (Or.inl rfl) hclear
      rw [nil_append, hbehind] at hnext
      rw [hbehind]
      exact hits_run hrun hinv.2.2.2.1 hdir
        ((hits_front (steps_escalator hinv hword more) hown).mpr hnext)
    | applet word' =>
      obtain ⟨hdir, hclear⟩ := hclear
      have hnext := ih [] hrest (Or.inl rfl) hclear
      rw [nil_append, hbehind] at hnext
      rw [hbehind]
      obtain ⟨hstep, hown⟩ := steps_applet hinv hword more
      have hfront : Hits host ([word'] ++ word :: more) cwd :=
        (hits_front hstep (hown cwd)).mpr hnext
      exact hits_run hrun hinv.2 hdir hfront
    | wrapper w word' options operand =>
      obtain ⟨hoptions, hclear⟩ := hclear
      have hnew := isRun_wrapper hinv hoptions
      rw [← append_assoc]
      refine ih _ hrest (Or.inr ?_) hclear
      rcases hrun with rfl | hrun
      · exact hnew
      · exact hrun.append hnew

def sudoRoot : Invocation :=
  .escalator (launcher "sudo" "aCcDgpRrTtUu"
    ["chdir", "chroot", "close-from", "command-timeout", "group", "host", "other-user", "prompt",
      "role", "type", "user"] (Eq.refl true)) "sudo".toList [["-u".toList, "root".toList]]

def timeoutFive : Invocation :=
  .wrapper (launcher "timeout" "sk" ["signal", "kill-after"] (Eq.refl true)) "timeout".toList
    [["-k".toList, "1".toList]] ["5".toList]

def niceAlone : Invocation :=
  .wrapper (launcher "nice" "n" ["adjustment"] (Eq.refl true)) "nice".toList [] []

theorem niceAlone_valid : niceAlone.Valid :=
  ⟨by decide +kernel, by decide, by decide +kernel, by decide +kernel, by decide,
    fun _ h => (not_mem_nil h).elim, rfl⟩

theorem sudoRoot_valid : sudoRoot.Valid := by
  refine ⟨by decide +kernel, by decide, by decide, ⟨by decide, by decide, by decide, by decide +kernel⟩,
    fun option h => ?_⟩
  obtain rfl := mem_singleton.mp h
  exact ⟨_, _, rfl, by decide, by decide, by decide +kernel⟩

theorem timeoutFive_valid : timeoutFive.Valid := by
  refine ⟨by decide +kernel, by decide, by decide +kernel, by decide +kernel, by decide,
    fun option h => ?_, ⟨"5".toList, rfl, by decide, by decide⟩⟩
  obtain rfl := mem_singleton.mp h
  refine ⟨⟨_, _, rfl, by decide, by decide, by decide +kernel⟩, fun tok htok => ?_⟩
  obtain rfl := some.inj htok
  decide +kernel

end OsGuard

end TerminalCommander
