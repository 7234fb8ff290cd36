import Mathlib.Order.WellFounded
import TerminalCommander.Core.OsGuard.Scan

/-!
# The failsafe returns

The scan subtracts the length of the words a command launches from the length of the command. If a
command is met whose `env -S` string launches more words than the command has, the subtraction
underflows; nothing else in the scan can fail.
-/

namespace TerminalCommander

namespace OsGuard

open ShellDeny Checked List Text Nat

/-! ## Unwrapping -/

def Steps (real rest : List Text) : Prop := peel real = some (.argv rest)

instance (real rest : List Text) : Decidable (Steps real rest) :=
  inferInstanceAs (Decidable (peel real = some (.argv rest)))

def Shrinks (argv : List Text) : Prop :=
  ∀ real rest, Relation.ReflTransGen Steps argv real → Steps real rest →
    rest.length ≤ real.length

inductive UnwrapsTo : List Text → Unwrapped → Prop
  | stable {real : List Text} : peel real = none → UnwrapsTo real (.argv real)
  | line {real : List Text} {line : Text} :
    peel real = some (.line line) → UnwrapsTo real (.line line)
  | step {real rest : List Text} {last : Unwrapped} :
    Steps real rest → UnwrapsTo rest last → UnwrapsTo real last

variable {real rest : List Text}

theorem Shrinks.step (h : Shrinks real) (hstep : Steps real rest) :
    Shrinks rest := fun mid last hmid => h mid last (.head hstep hmid)

theorem Shrinks.of_stuck (h : ∀ rest, ¬ Steps real rest) : Shrinks real := by
  intro mid rest hmid hstep
  obtain rfl | ⟨next, hnext, -⟩ := Relation.ReflTransGen.cases_head hmid
  · exact absurd hstep (h rest)
  · exact absurd hnext (h next)

theorem Shrinks.of_step (hstep : Steps real rest)
    (hle : rest.length ≤ real.length) (h : Shrinks rest) : Shrinks real := by
  intro mid last hmid hlast
  obtain rfl | ⟨next, hnext, hreach⟩ := Relation.ReflTransGen.cases_head hmid
  · rw [Steps, show peel real = some (.argv rest) from hstep] at hlast
    cases hlast
    exact hle
  · rw [Steps, show peel real = some (.argv rest) from hstep] at hnext
    cases hnext
    exact h mid last hreach hlast

/-- Allowed a round for each unit of weight, the loop ends with the unwrapped command, or in the
subtraction. -/
theorem unwrapLoop_cases : ∀ {fuel : Nat} {argv : List Text} (cwd : Option Text),
    weight argv < fuel →
      (∃ last dir, unwrapLoop fuel argv cwd = .ok (last, dir) ∧ UnwrapsTo argv last ∧
        Shrinks argv) ∨ unwrapLoop fuel argv cwd = .error .underflow ∧ ¬ Shrinks argv := by
  intro fuel
  induction fuel with
  | zero => exact fun _ h => absurd h (not_lt_zero _)
  | succ fuel ih =>
    intro argv cwd hfuel
    rw [unwrapLoop_succ]
    cases hpeel : peel argv with
    | none => exact .inl ⟨_, _, rfl, .stable hpeel, .of_stuck (by simp [Steps, hpeel])⟩
    | some step =>
      cases step with
      | line line => exact .inl ⟨_, _, rfl, .line hpeel, .of_stuck (by simp [Steps, hpeel])⟩
      | argv rest =>
        have hlt : weight rest < fuel := by
          have hless := weight_peel hpeel
          omega
        dsimp only
        split_ifs with hle
        · rcases ih _ hlt with ⟨last, dir, hok, hto, hshrinks⟩ | ⟨hunder, hlong⟩
          · exact .inl ⟨last, dir, hok, .step hpeel hto, .of_step hpeel hle hshrinks⟩
          · exact .inr ⟨hunder, fun h => hlong (h.step hpeel)⟩
        · exact .inr ⟨rfl, fun h => hle (h argv rest .refl hpeel)⟩

variable {argv : List Text}

theorem unwrapLaunchers_underflow (h : ¬ Shrinks argv) (cwd : Option Text) :
    unwrapLaunchers argv cwd = .error .underflow := by
  rcases unwrapLoop_cases cwd (lt_succ_self _) with ⟨-, -, -, -, hshrinks⟩ | ⟨hunder, -⟩
  · exact absurd hshrinks h
  · exact hunder

/-! ## The loops end -/

def Expands (argv expanded : List Text) : Prop :=
  launchedProgram argv = .ok (.splitString expanded)

theorem Expands.weight_lt {expanded : List Text} (h : Expands argv expanded) :
    weight expanded < weight argv := by
  rw [Expands, launchedProgram_eq] at h
  exact (readLaunched_within argv none false).split expanded (Except.ok.inj h)

theorem exists_not_of_weight_lt {r : List Text → List Text → Prop}
    (hr : ∀ {real rest}, r real rest → weight rest < weight real) (rounds : Nat → List Text) :
    ∃ n, ¬ r (rounds n) (rounds (n + 1)) := by
  obtain ⟨n, hn⟩ := WellFounded.not_rel_apply_succ (r := fun n m : Nat => n < m) fun n => weight (rounds n)
  exact ⟨n, fun h => hn (hr h)⟩

/-- **Unwrapping ends.** Both loops are over after one round for each character and each word, if
they are allowed that many rounds or more: `launched` with a result, `unwrap_launchers` with a
result or in the subtraction that underflows. No sequence of rounds goes on for ever, whether or
not the lengths are subtracted. -/
theorem unwrapping_ends (argv : List Text) (cwd : Option Text) (more : Nat)
    (rounds : Nat → List Text) :
    (∃ words, launchedRounds (weight argv + 1 + more) argv = .ok words) ∧
      unwrapLoop (weight argv + 1 + more) argv cwd ≠ .error .fuel ∧
      (∃ n, ¬ Expands (rounds n) (rounds (n + 1))) ∧
      ∃ n, ¬ Steps (rounds n) (rounds (n + 1)) := by
  have hrounds : weight argv < weight argv + 1 + more := by omega
  refine ⟨⟨launchOf argv, launchedRounds_eq hrounds⟩, ?_,
    exists_not_of_weight_lt Expands.weight_lt rounds, exists_not_of_weight_lt weight_peel rounds⟩
  rcases unwrapLoop_cases cwd hrounds with ⟨last, dir, hok, -⟩ | ⟨hunder, -⟩
  · rw [hok]
    exact nofun
  · rw [hunder]
    exact nofun

/-- The string of `env -S` may hold more words than the command, and another `-S` among them. -/
example : launchedProgram (["env", "-S", "a=1 env -S b"].map String.toList) =
    .ok (.splitString (["env", "a=1", "env", "-S", "b"].map String.toList)) := by decide +kernel

/-! ## Parts that always return -/

theorem captureParens_length (chars : Text) : ∀ (body : Text) (depth : Nat) (quote : Option Char),
    (captureParens body depth quote chars).2.length ≤ chars.length := by
  induction chars with
  | nil => exact fun _ _ _ => le_refl _
  | cons ch chars ih =>
    intro body depth quote
    have hnext : ∀ body depth quote,
        (captureParens body depth quote chars).2.length ≤ (ch :: chars).length :=
      fun body depth quote => le_succ_of_le (ih body depth quote)
    unfold captureParens
    repeat' split
    any_goals exact hnext _ _ _
    exact le_succ _

theorem captureBackticks_length (body chars : Text) :
    (captureBackticks body chars).2.length ≤ chars.length := by
  fun_induction captureBackticks body chars with
  | case1 => exact le_refl _
  | case2 => exact le_succ _
  | case3 body next chars ih => exact le_trans ih (by simp only [length_cons]; omega)
  | case4 => exact le_succ _
  | case5 body ch chars _ _ _ ih => exact le_succ_of_le ih

variable {grammar : Grammar}

theorem splitSubstitution_length {s : LineState} {ch : Char} {chars : Text}
    {next : LineState × Text} (h : splitSubstitution grammar s ch chars = some next) :
    next.2.length ≤ chars.length := by
  unfold splitSubstitution at h
  split at h
  · split_ifs at h
    obtain rfl := Option.some.inj h
    exact le_succ_of_le (captureParens_length _ _ _ _)
  · split_ifs at h
    obtain rfl := Option.some.inj h
    exact captureBackticks_length _ _
  · cases h

section

variable (grammar : Grammar) (s : LineState) (ch : Char) (chars : Text)

theorem splitDouble_length : (splitDouble grammar s ch chars).2.length ≤ chars.length := by
  unfold splitDouble
  repeat' split
  all_goals first | exact splitSubstitution_length ‹_› | simp

theorem splitBare_length : (splitBare grammar s ch chars).2.length ≤ chars.length := by
  have hdrop (p : Char → Bool) : (chars.dropWhile p).length ≤ chars.length :=
    (dropWhile_suffix p).length_le
  unfold splitBare
  repeat' split
  all_goals first | exact splitSubstitution_length ‹_› | exact hdrop _ | simp

theorem splitChar_length : (splitChar grammar s ch chars).2.length ≤ chars.length := by
  unfold splitChar
  split_ifs
  · unfold splitSingle
    repeat' split
    all_goals simp
  · exact splitDouble_length grammar s ch chars
  · exact splitBare_length grammar s ch chars

end

/-- With enough fuel the split ends, and more fuel does not change it. -/
theorem splitLoop_fuel (grammar : Grammar) : ∀ {fuel more : Nat} {s : LineState} {chars : Text},
    chars.length ≤ fuel → chars.length ≤ more →
      splitLoop grammar fuel s chars = splitLoop grammar more s chars ∧
        Returns (splitLoop grammar fuel s chars) := by
  intro fuel
  induction fuel with
  | zero =>
    intro more s chars hfuel _
    obtain rfl := length_eq_zero_iff.mp (le_zero.mp hfuel)
    unfold splitLoop
    exact ⟨rfl, returns_ok s⟩
  | succ fuel ih =>
    intro more s chars hfuel hmore
    cases chars with
    | nil =>
      unfold splitLoop
      exact ⟨rfl, returns_ok s⟩
    | cons ch chars =>
      cases more with
      | zero => exact absurd hmore (not_succ_le_zero _)
      | succ more =>
        have hle := splitChar_length grammar s ch chars
        rw [length_cons] at hfuel hmore
        rw [splitLoop, splitLoop]
        cases hsplit : splitChar grammar s ch chars with
        | mk next rest =>
          rw [hsplit] at hle
          exact ih (le_trans hle (by omega)) (le_trans hle (by omega))

theorem splitLine_returns (line : Text) (grammar : Grammar) : Returns (splitLine line grammar) :=
  (splitLoop_fuel grammar (le_refl _) (le_refl _)).2.bind fun _ _ => returns_ok _

theorem utf8Size_of_glue {ch : Char} (h : ch.toLower ∈ ['c', 'k', 'r']) : ch.utf8Size = 1 := by
  rw [← utf8Size_toLower]
  rw [mem_cons, mem_cons, mem_singleton] at h
  rcases h with h | h | h <;> rw [h] <;> rfl

theorem gluedFrom_returns (flag : Text) : ∀ (chars front : Text), flag = front ++ chars →
    Returns (gluedFrom flag front.len chars) := by
  intro chars
  induction chars with
  | nil => exact fun front _ => returns_ok _
  | cons ch chars ih =>
    intro front hflag
    have hnext : Returns (gluedFrom flag (front.len + ch.utf8Size) chars) := by
      have h := ih (front ++ [ch]) (by rw [hflag, append_assoc, singleton_append])
      rwa [len_append, len, len_nil, add_zero] at h
    unfold gluedFrom
    split_ifs with hglue
    · have hbef : flag.sliceTo front.len = .ok front := by
        rw [hflag]
        exact sliceTo_append front (ch :: chars)
      have hbehind : flag.sliceFrom (front.len + 1) = .ok chars := by
        have h := sliceFrom_append (front ++ [ch]) chars
        rwa [len_append, len, len_nil, utf8Size_of_glue hglue, append_assoc,
          singleton_append, ← hflag] at h
      rw [hbef]
      refine Returns.bind (returns_ok front) fun before _ => ?_
      split_ifs
      · exact ⟨chars, hbehind⟩
      · exact hnext
    · exact hnext

theorem cmdPayload_returns (flag : Text) (rest : List Text) : Returns (cmdPayload flag rest) :=
  (gluedFrom_returns flag flag [] rfl).bind fun _ _ => returns_ok _

theorem scriptFlagFrom_lt {stem : Text} : ∀ {args : List Text} {skip base index : Nat},
    scriptFlagFrom stem skip base args = some index → base ≤ index ∧ index < base + args.length := by
  intro args
  induction args with
  | nil => exact fun h => by cases h
  | cons arg args ih =>
    intro skip base index h
    rw [length_cons]
    cases skip with
    | succ skip =>
      rw [scriptFlagFrom] at h
      have := ih h
      omega
    | zero =>
      rw [scriptFlagFrom] at h
      split_ifs at h
      · obtain rfl := Option.some.inj h
        omega
      all_goals
        have := ih h
        omega

theorem interpreterPayload_returns (shell : Text) (args : List Text) :
    Returns (interpreterPayload shell args) := by
  unfold interpreterPayload interpreterScriptFlag
  rw [stripWinExt_eq]
  refine Returns.bind (returns_ok _) fun found hfound => ?_
  have hfound : scriptFlagFrom (winStem shell) 0 0 args = found := Except.ok.inj hfound
  cases found with
  | none => exact returns_ok _
  | some index =>
    have hlt := (scriptFlagFrom_lt hfound).2
    rw [zero_add] at hlt
    refine Returns.bind ⟨_, index_of_getElem? (getElem?_eq_getElem hlt)⟩ fun flag _ => ?_
    refine Returns.bind ⟨_, sliceFrom_of_le hlt⟩ fun rest _ => ?_
    cases Grammar.ofShell shell with
    | cmd => exact (cmdPayload_returns flag rest).bind fun _ _ => returns_ok _
    | _ => exact returns_ok _

theorem wslLine_returns (args : List Text) (index : Nat) (cwd : Option Text) :
    Returns (wslLine args index cwd) :=
  Returns.bind ⟨_, sliceFrom_of_le (min_le_right _ _)⟩ fun _ _ => returns_ok _

theorem wslLoop_returns (rest front : List Text) :
    ∀ cwd, Returns (wslLoop (front ++ rest) front.length cwd rest) := by
  refine Checked.read_induction
    (P := fun args index rest => ∀ cwd, Returns (wslLoop args index cwd rest)) ?_ ?_ rest front
  · intro args cwd
    unfold wslLoop
    exact wslLine_returns _ _ _
  · intro front arg rest hnext hbehind cwd
    unfold wslLoop
    dsimp only
    by_cases hexec : arg.toAsciiLowercase = "-e".toList ∨ arg.toAsciiLowercase = "--exec".toList
    · rw [if_pos hexec]
      refine Returns.bind ⟨_, sliceFrom_of_le ?_⟩ fun _ _ => returns_ok _
      rw [length_append, length_cons]
      omega
    rw [if_neg hexec]
    by_cases hend : arg.toAsciiLowercase = "--".toList
    · rw [if_pos hend]
      exact wslLine_returns _ _ _
    rw [if_neg hend]
    by_cases hdash : (!startsDash arg) = true
    · rw [if_pos hdash]
      exact wslLine_returns _ _ _
    rw [if_neg hdash]
    by_cases hvalue : WSL_VALUE_OPTS.contains arg.toAsciiLowercase = true
    · rw [if_pos hvalue]
      cases rest with
      | nil => exact wslLine_returns _ _ _
      | cons value rest => exact hbehind value rest rfl _
    · rw [if_neg hvalue]
      exact hnext cwd

theorem commandWords_returns (grammar : Grammar) (command : List Text) :
    Returns (commandWords grammar command) := by
  unfold commandWords
  split_ifs
  · refine ⟨_, sliceFrom_of_le ?_⟩
    cases hidx : command.findIdx? fun word => !POSIX_RESERVED.contains word with
    | none => exact le_refl _
    | some i =>
      have := findIdx?_eq_some_iff_getElem.mp hidx
      exact le_of_lt this.1
  · exact returns_ok _

/-! ## What the scan meets -/

inductive Item where
  | words (argv : List Text)
  | line (text : Text) (grammar : Grammar)

def Task.item : Task → Item
  | .argv words _ => .words words
  | .line text grammar _ => .line text grammar

inductive Holds : Item → Item → Prop
  | escalated {argv : List Text} {line : Text} : UnwrapsTo argv (.line line) →
    Holds (.words argv) (.line line .posix)
  | payload {argv operands : List Text} {nameTok shell text : Text} {grammar : Grammar} :
    UnwrapsTo argv (.argv (nameTok :: operands)) → interpreterOf nameTok = some shell →
    interpreterPayload shell operands = .ok (some (grammar, text)) →
    Holds (.words argv) (.line text grammar)
  | carried {argv operands : List Text} {nameTok : Text} {cwd : Option Text} {task : Task} :
    UnwrapsTo argv (.argv (nameTok :: operands)) → interpreterOf nameTok = none →
    namesWsl nameTok = true → wslLoop operands 0 cwd operands = .ok task →
    Holds (.words argv) task.item
  | nested {text body : Text} {grammar : Grammar} {split : SplitLine} :
    splitLine text grammar = .ok split → body ∈ split.nested →
    Holds (.line text grammar) (.line body grammar)
  | evaluated {text first : Text} {grammar : Grammar} {split : SplitLine} {level : Nat}
    {command args : List Text} :
    splitLine text grammar = .ok split → (level, command) ∈ split.commands →
    commandWords grammar command = .ok (first :: args) →
    grammar = .posix ∧ commandBasename first = "eval".toList →
    Holds (.line text grammar) (.line (Text.join [' '] args) grammar)
  | command {text first : Text} {grammar : Grammar} {split : SplitLine} {level : Nat}
    {command args : List Text} :
    splitLine text grammar = .ok split → (level, command) ∈ split.commands →
    commandWords grammar command = .ok (first :: args) →
    ¬ (grammar = .posix ∧ commandBasename first = "eval".toList) →
    changesDir (commandBasename first) grammar = false →
    Holds (.line text grammar) (.words (first :: args))

def Fits : Nat → Item → Prop
  | 0, _ => True
  | levels + 1, item =>
    (∀ argv, item = .words argv → Shrinks argv) ∧ ∀ inner, Holds item inner → Fits levels inner

/-! ## The scan -/

section Levels

variable {host : Host} {deeper : Deeper}

variable {cwd : Option Text}

theorem argvHit_returns (hshrinks : Shrinks argv)
    (hdeeper : ∀ task : Task, Holds (.words argv) task.item → Returns (deeper task)) :
    Returns (argvHit host deeper argv cwd) := by
  unfold argvHit unwrapLaunchers
  obtain ⟨last, dir, hlast, hunwraps, -⟩ :=
    (unwrapLoop_cases cwd (lt_succ_self _)).resolve_right fun h => h.2 hshrinks
  refine Returns.bind ⟨_, hlast⟩ fun found hfound => ?_
  obtain rfl : (last, dir) = found := Except.ok.inj (hlast.symm.trans hfound)
  cases last with
  | line line => exact hdeeper (.line line .posix dir) (.escalated hunwraps)
  | argv real =>
    cases real with
    | nil => exact returns_ok _
    | cons nameTok operands =>
      dsimp only [realHit]
      rw [shellInterpreterDenied_eq]
      refine Returns.bind (returns_ok _) fun found hfound => ?_
      have hfound : interpreterOf nameTok = found := Except.ok.inj hfound
      cases found with
      | some shell =>
        refine (interpreterPayload_returns shell operands).bind fun found hpayload => ?_
        cases found with
        | none => exact returns_ok _
        | some payload =>
          exact hdeeper (.line payload.2 payload.1 dir) (.payload hunwraps hfound hpayload)
      | none =>
        dsimp only
        rw [isWslCarrier_eq]
        refine Returns.bind (returns_ok _) fun carrier hcarrier => ?_
        have hcarrier : namesWsl nameTok = carrier := Except.ok.inj hcarrier
        cases carrier with
        | true =>
          refine (wslLoop_returns operands [] dir).bind fun task htask => ?_
          exact hdeeper task (.carried hunwraps hfound hcarrier htask)
        | false =>
          rw [if_neg Bool.false_ne_true]
          cases classify (commandBasename nameTok) with
          | none => exact returns_ok _
          | some kind =>
            dsimp only
            rw [operandsHit_eq]
            exact returns_ok _

theorem nestedHit_returns {nested : List Text}
    (h : ∀ body ∈ nested, Returns (deeper (.line body grammar cwd))) :
    Returns (nestedHit deeper grammar cwd nested) := by
  induction nested with
  | nil => exact returns_ok _
  | cons body nested ih =>
    unfold nestedHit
    refine (h body mem_cons_self).bind fun found _ => ?_
    cases found with
    | some hit => exact returns_ok _
    | none => exact ih fun body hbody => h body (mem_cons_of_mem _ hbody)

theorem commandsHit_returns {text : Text} {split : SplitLine}
    (hsplit : splitLine text grammar = .ok split)
    (hdeeper : ∀ task : Task, Holds (.line text grammar) task.item → Returns (deeper task)) :
    ∀ {commands : List (Nat × List Text)}, (∀ c ∈ commands, c ∈ split.commands) →
      ∀ (cwd : Option Text) (saved : List (Option Text)),
        Returns (commandsHit deeper grammar cwd saved commands) := by
  intro commands
  induction commands with
  | nil => exact fun _ _ _ => returns_ok _
  | cons entry commands ih =>
    intro hmem cwd saved
    obtain ⟨level, command⟩ := entry
    have hrest := ih fun c hc => hmem c (mem_cons_of_mem _ hc)
    have hcommand := hmem _ mem_cons_self
    unfold commandsHit
    generalize (if grammar = .posix then enterLevel cwd saved level else (cwd, saved)) = place
    obtain ⟨cwd, saved⟩ := place
    refine (commandWords_returns grammar command).bind fun words hwords => ?_
    cases words with
    | nil => exact hrest cwd saved
    | cons first args =>
      dsimp only
      by_cases heval : grammar = .posix ∧ commandBasename first = "eval".toList
      · rw [if_pos heval]
        refine (hdeeper (.line (join [' '] args) grammar cwd)
          (.evaluated hsplit hcommand hwords heval)).bind fun found _ => ?_
        cases found with
        | some hit => exact returns_ok _
        | none => exact hrest cwd saved
      rw [if_neg heval]
      by_cases hdir : changesDir (commandBasename first) grammar = true
      · rw [if_pos hdir]
        exact hrest _ saved
      · rw [if_neg hdir]
        refine (hdeeper (.argv (first :: args) cwd) (.command hsplit hcommand hwords heval
          (eq_false_of_ne_true hdir))).bind fun found _ => ?_
        cases found with
        | some hit => exact returns_ok _
        | none => exact hrest cwd saved

theorem lineHit_returns {text : Text}
    (hdeeper : ∀ task : Task, Holds (.line text grammar) task.item → Returns (deeper task)) :
    Returns (lineHit deeper text grammar cwd) := by
  unfold lineHit
  refine (splitLine_returns text grammar).bind fun split hsplit => ?_
  refine (nestedHit_returns fun body hbody =>
    hdeeper (.line body grammar cwd) (.nested hsplit hbody)).bind fun found _ => ?_
  cases found with
  | some hit => exact returns_ok _
  | none => exact commandsHit_returns hsplit hdeeper (fun _ hc => hc) cwd []

end Levels

theorem scan_returns (host : Host) : ∀ (levels : Nat) (task : Task),
    Fits levels task.item → Returns (scan host levels task) := by
  intro levels
  induction levels with
  | zero => exact fun _ _ => returns_ok _
  | succ levels ih =>
    intro task hfits
    have hdeeper : ∀ inner : Task, Holds task.item inner.item → Returns (scan host levels inner) :=
      fun inner hinner => ih inner (hfits.2 _ hinner)
    cases task with
    | argv words cwd => exact argvHit_returns (hfits.1 words rfl) hdeeper
    | line text grammar cwd => exact lineHit_returns hdeeper

theorem UnwrapsTo.of_stable {last : Unwrapped} (hreal : peel real = none)
    (h : UnwrapsTo real last) : last = .argv real := by
  cases h <;> simp_all [Steps]

theorem UnwrapsTo.of_step {last : Unwrapped} (hreal : Steps real rest)
    (h : UnwrapsTo real last) : UnwrapsTo rest last := by
  unfold Steps at hreal
  cases h <;> simp_all [Steps]

def unixHost : Host := ⟨false, none⟩

end OsGuard

end TerminalCommander
