import TerminalCommander.Core.OsGuard.Relative
import TerminalCommander.Core.OsGuard.Total

/-!
# Quoted commands

The words of a command, each in single quotes as `shell_single_quote` puts it and joined by blanks,
are read by `split_line` as the one command (`splitLine_quotedLine`). The scan of the line is then
that of the command one level deeper, unless the loop over the commands of a line takes its first
word for a command of its own: `A=/cd` in front of a command counts as `cd`.
-/

namespace TerminalCommander

namespace OsGuard

open ShellDeny Checked List Text

def shellSingleQuote (s : Text) : Text :=
  '\'' :: s.flatMap (fun c => if c = '\'' then "'\\''".toList else [c]) ++ ['\'']

def quotedLine (argv : List Text) : Text := Text.join [' '] (argv.map shellSingleQuote)

/-! ## The loop without its count -/

def splitAll (grammar : Grammar) (s : LineState) (chars : Text) : Checked LineState :=
  splitLoop grammar chars.length s chars

variable {grammar : Grammar}

theorem splitAll_cons {s next : LineState} {ch : Char} {chars rest : Text}
    (h : splitChar grammar s ch chars = (next, rest)) :
    splitAll grammar s (ch :: chars) = splitAll grammar next rest := by
  have hle := splitChar_length grammar s ch chars
  rw [h] at hle
  unfold splitAll
  rw [length_cons, splitLoop, h]
  exact (splitLoop_fuel grammar hle (Nat.le_refl _)).1

theorem splitLine_eq {line : Text} {last : LineState}
    (h : splitAll grammar ⟨⟨[], []⟩, ⟨[], [], false, false, 0⟩, none⟩ line = .ok last) :
    splitLine line grammar = .ok last.endCommand.out := by
  unfold splitAll at h
  unfold splitLine
  rw [h]
  rfl

/-! ## Quoted words -/

def quotedText (w : Text) : Text := w.flatMap fun c => if c = '\'' then "'\\''".toList else [c]

theorem shellSingleQuote_append (w rest : Text) :
    shellSingleQuote w ++ rest = '\'' :: (quotedText w ++ '\'' :: rest) := by
  unfold shellSingleQuote quotedText
  simp

def LineState.reading (s : LineState) (word : Text) (quote : Option Char) : LineState :=
  { s with words := { s.words with word := word, hasWord := true }, quote := quote }

theorem splitAll_quotedText (s : LineState) (word w rest : Text) :
    splitAll .posix (s.reading word (some '\'')) (quotedText w ++ '\'' :: rest) =
      splitAll .posix (s.reading (word ++ w) none) rest := by
  induction w generalizing word with
  | nil =>
    rw [append_nil]
    exact splitAll_cons rfl
  | cons c w ih =>
    have hcons : quotedText (c :: w) ++ '\'' :: rest =
        (if c = '\'' then "'\\''".toList else [c]) ++ (quotedText w ++ '\'' :: rest) := by
      unfold quotedText
      rw [flatMap_cons, append_assoc]
    have hword : word ++ c :: w = word ++ [c] ++ w := by rw [append_assoc, singleton_append]
    rw [hcons, hword, ← ih]
    by_cases hc : c = '\''
    · -- the quote is closed, escaped and opened again
      subst hc
      rw [if_pos rfl]
      exact (splitAll_cons rfl).trans ((splitAll_cons rfl).trans (splitAll_cons rfl))
    · rw [if_neg hc, singleton_append]
      refine splitAll_cons ?_
      unfold splitChar splitSingle
      rw [if_pos (show (s.reading word (some '\'')).quote = some '\'' from rfl), if_pos hc]
      rfl

theorem splitAll_shellSingleQuote {s : LineState} (hquote : s.quote = none) (w rest : Text) :
    splitAll .posix s (shellSingleQuote w ++ rest) =
      splitAll .posix (s.reading (s.words.word ++ w) none) rest := by
  rw [shellSingleQuote_append, ← splitAll_quotedText]
  refine splitAll_cons ?_
  unfold splitChar
  rw [hquote]
  rfl

def between (words : List Text) : LineState :=
  ⟨⟨[], []⟩, ⟨words, [], false, false, 0⟩, none⟩

def Spells (grammar : Grammar) (spelled w : Text) : Prop :=
  ∀ {s : LineState}, s.quote = none → ∀ rest : Text, splitAll grammar s (spelled ++ rest) =
    splitAll grammar (s.reading (s.words.word ++ w) none) rest

theorem splitAll_spelled {spell : Text → Text} (words : List Text) (first : Text)
    (rest : List Text) (hspell : ∀ w ∈ first :: rest, Spells grammar (spell w) w) :
    splitAll grammar (between words) (join [' '] ((first :: rest).map spell)) =
      .ok ((between (words ++ (first :: rest).dropLast)).reading
        ((first :: rest).getLast (List.cons_ne_nil first rest)) none) := by
  obtain ⟨hfirst, hrest⟩ := forall_mem_cons.mp hspell
  induction rest generalizing words first with
  | nil =>
    have hline : join [' '] ([first].map spell) = spell first ++ [] := by
      unfold join
      rw [append_nil, map_singleton, intercalate_singleton]
    rw [hline, hfirst rfl, splitAll, dropLast_singleton, append_nil]
    rfl
  | cons second rest ih =>
    have hline : join [' '] ((first :: second :: rest).map spell) =
        spell first ++ ' ' :: join [' '] ((second :: rest).map spell) := by
      unfold join
      rw [map_cons, map_cons, intercalate_cons_cons, append_assoc]
      rfl
    have hblank (chars : Text) : splitChar grammar ((between words).reading ([] ++ first) none) ' '
        chars = (between (words ++ [first]), chars) := by
      cases grammar <;> rfl
    rw [hline, hfirst rfl]
    refine (splitAll_cons (hblank _)).trans ?_
    obtain ⟨hsecond, hmore⟩ := forall_mem_cons.mp hrest
    rw [ih _ _ hrest hsecond hmore, dropLast_cons_cons, append_assoc]
    rfl

theorem splitLine_spelled {spell : Text → Text} {argv : List Text}
    (hne : argv ≠ []) (hspell : ∀ w ∈ argv, Spells grammar (spell w) w) :
    splitLine (join [' '] (argv.map spell)) grammar = .ok ⟨[(0, argv)], []⟩ := by
  obtain ⟨first, rest, rfl⟩ := exists_cons_of_ne_nil hne
  have hwords : [] ++ (first :: rest).dropLast ++
      [(first :: rest).getLast (cons_ne_nil first rest)] = first :: rest := by
    rw [nil_append, dropLast_append_getLast]
  have hend : ∀ (words : List Text) (word : Text),
      ((between words).reading word none).endCommand.out = ⟨[(0, words ++ [word])], []⟩ := by
    intro words word
    cases words <;> rfl
  rw [splitLine_eq (splitAll_spelled [] first rest hspell), hend, hwords]

theorem splitLine_quotedLine {argv : List Text} (hne : argv ≠ []) :
    splitLine (quotedLine argv) .posix = .ok ⟨[(0, argv)], []⟩ :=
  splitLine_spelled hne fun w _ _ hquote rest => splitAll_shellSingleQuote hquote w rest

/-! ## The scan of the line -/

structure Harmless (word : Text) : Prop where
  assignment : isEnvAssignment word = false
  wrapper : wrapperOf word = none
  escalator : escalatorOf word = none
  applet : commandBasename word ≠ "busybox".toList
  interpreter : interpreterOf word = none
  wsl : namesWsl word = false
  kind : classify (commandBasename word) = none

theorem harmless_of_reserved {word : Text} (h : word ∈ POSIX_RESERVED) : Harmless word := by
  have hall : ∀ word ∈ POSIX_RESERVED, isEnvAssignment word = false ∧ wrapperOf word = none ∧
      escalatorOf word = none ∧ commandBasename word ≠ "busybox".toList ∧
      interpreterOf word = none ∧ namesWsl word = false ∧
      classify (commandBasename word) = none := by decide +kernel
  obtain ⟨hassign, hwrap, hesc, happlet, hinterp, hwsl, hkind⟩ := hall word h
  exact ⟨hassign, hwrap, hesc, happlet, hinterp, hwsl, hkind⟩

theorem scan_harmless {word : Text} (h : Harmless word) (host : Host) (levels : Nat)
    (rest : List Text) (cwd : Option Text) :
    scan host (levels + 1) (.argv (word :: rest) cwd) = .ok none := by
  have hread : readLaunched none false (word :: rest) = .programAt 0 := by
    have htoken : readToken none false word rest.head? = .program := by
      unfold readToken
      rw [h.assignment, if_neg Bool.false_ne_true, h.wrapper]
    unfold readLaunched
    rw [htoken]
  have hlaunched : launchedWords (word :: rest) = word :: rest := by
    unfold launchedWords
    rw [launchOf_eq, hread]
    rfl
  have hpeel : peel (word :: rest) = none := by
    rw [peel_eq_launched h.escalator h.applet, hlaunched, if_pos (by simp)]
  have hunwrap : unwrapLaunchers (word :: rest) cwd = .ok (.argv (word :: rest), cwd) := by
    unfold unwrapLaunchers
    rw [unwrapLoop_succ, hpeel]
  rw [scan, argvHit, hunwrap]
  simp only [bind, Except.bind]
  rw [realHit, shellInterpreterDenied_eq, h.interpreter, isWslCarrier_eq, h.wsl]
  simp only [bind, Except.bind]
  rw [if_neg Bool.false_ne_true, h.kind]
  rfl

theorem commandWords_of_not_reserved {first : Text} (h : first ∉ POSIX_RESERVED)
    (rest : List Text) : commandWords .posix (first :: rest) = .ok (first :: rest) := by
  have hfirst : (!POSIX_RESERVED.contains first) := by simpa using h
  unfold commandWords
  rw [if_pos rfl, findIdx?_cons, if_pos hfirst]
  rfl

def Kept (host : Host) (first : Text) (rest : List Text) (cwd : Option Text) : Prop :=
  if commandBasename first = "eval".toList then
    ∃ hit, scan host MAX_NESTING (.line (Text.join [' '] rest) .posix cwd) = .ok (some hit)
  else
    changesDir (commandBasename first) .posix = false ∧
      ∃ hit, scan host MAX_NESTING (.argv (first :: rest) cwd) = .ok (some hit)

theorem lineHit_quotedLine (deeper : Deeper) (first : Text) (rest : List Text) (cwd : Option Text) :
    lineHit deeper (quotedLine (first :: rest)) .posix cwd =
      commandsHit deeper .posix cwd [] [(0, first :: rest)] := by
  unfold lineHit
  rw [splitLine_quotedLine (cons_ne_nil first rest)]
  rfl

theorem commandsHit_one_iff (deeper : Deeper) {first : Text} (h : first ∉ POSIX_RESERVED)
    (rest : List Text) (cwd : Option Text) :
    (∃ hit, commandsHit deeper .posix cwd [] [(0, first :: rest)] = .ok (some hit)) ↔
      if commandBasename first = "eval".toList then
        ∃ hit, deeper (.line (join [' '] rest) .posix cwd) = .ok (some hit)
      else
        changesDir (commandBasename first) .posix = false ∧
          ∃ hit, deeper (.argv (first :: rest) cwd) = .ok (some hit) := by
  have henter : (if Grammar.posix = .posix then enterLevel cwd [] 0 else (cwd, [])) = (cwd, []) := rfl
  rw [commandsHit, henter]
  dsimp only
  rw [commandWords_of_not_reserved h]
  simp only [bind, Except.bind, true_and]
  -- nothing follows the command, so its own answer is the answer
  by_cases heval : commandBasename first = "eval".toList
  · rw [if_pos heval, if_pos heval]
    cases deeper (.line (join [' '] rest) .posix cwd) with
    | error fault => simp
    | ok found => cases found <;> simp [commandsHit, pure, Except.pure]
  · rw [if_neg heval, if_neg heval]
    by_cases hdir : changesDir (commandBasename first) .posix
    · rw [if_pos hdir, hdir]
      simp [commandsHit]
    · rw [if_neg hdir, eq_false_of_ne_true hdir]
      cases deeper (.argv (first :: rest) cwd) with
      | error fault => simp
      | ok found => cases found <;> simp [commandsHit, pure, Except.pure]

end OsGuard

end TerminalCommander
