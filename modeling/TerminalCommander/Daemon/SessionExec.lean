import TerminalCommander.Core.OsGuard.Quoted
import TerminalCommander.Lib.Transition

/-!
# The directory of a shell session

`ShellSessionRuntime::exec` of `daemon/src/shell_session.rs`. A line that the failsafe refuses is not
written to the shell; relative operands are judged below the directory that the session tracks. That
directory is the text behind the last `cd`, so it is the one of the shell only if that text is
absolute.
-/

namespace TerminalCommander

namespace SessionExec

open OsGuard LexicalPath Segments List Option Text Transition

def MAX_SESSION_LINE_BYTES : Nat := 4000

def FAILSAFE_REASON_TAG : Text := "TC's one failsafe".toList

structure Session where
  shell : Text
  /-- The best-known working directory. -/
  cwd : Option Text
  /-- The job of the shell has not ended. -/
  live : Bool
  written : List Text
  deriving DecidableEq, Repr

inductive SessionError where
  | oversizedLine
  | notLive
  | osCriticalPathProtected (reason : Text)
  | secretInputDenied
  | pty
  deriving DecidableEq, Repr

inductive PtyAnswer where
  | ok | secretInputDenied | unknownJob | other
  deriving DecidableEq, Repr

def unquote (s : Text) : Text :=
  match s with
  | '\'' :: rest => if rest.getLast? = some '\'' then rest.dropLast else s
  | '"' :: rest => if rest.getLast? = some '"' then rest.dropLast else s
  | _ => s

def parseCdTarget (line : Text) : Option Text := do
  let rest ← line.trim.stripPrefix "cd ".toList
  let arg := rest.trim
  if arg.isEmpty || arg = "-".toList || (arg.any fun c => [';', '|', '&', '\n'].contains c) ||
      arg.splitWhitespace.length ≠ 1 then none
  else some (unquote arg)

def reason (hit : OsGuardHit) : Text :=
  "refused: ".toList ++ hit.op ++ " would delete OS-critical infrastructure (".toList ++ hit.path ++
    "); this is ".toList ++ FAILSAFE_REASON_TAG ++ " and applies in every profile".toList

def exec (host : Host) (s : Session) (line : Text) (answer : PtyAnswer) :
    Checked (Except SessionError Unit × Session) :=
  if MAX_SESSION_LINE_BYTES < line.len then .ok (.error .oversizedLine, s)
  else if !s.live then .ok (.error .notLive, s)
  else do
    match ← shellLineDeletionHit host line s.shell s.cwd with
    | some hit => return (.error (.osCriticalPathProtected (reason hit)), s)
    | none =>
      match answer with
      | .ok => return (.ok (), { s with
          written := s.written ++ [line ++ ['\n']]
          cwd := (parseCdTarget line).or s.cwd })
      | .secretInputDenied => return (.error .secretInputDenied, s)
      | .unknownJob => return (.error .notLive, s)
      | .other => return (.error .pty, s)

/-! ## Plain words -/

def plainChar (c : Char) : Bool :=
  c.isAlphanum || (128 ≤ c.toNat && !whiteSpace c) || ['.', '_', '-', '/'].contains c

structure PlainPath (w : Text) : Prop where
  nonempty : w ≠ []
  plain : ∀ c ∈ w, plainChar c = true

section

variable {c : Char} {w : Text}

theorem whiteSpace_plainChar (h : plainChar c) : whiteSpace c = false := by
  simp only [plainChar, Bool.or_eq_true, Bool.and_eq_true, Bool.not_eq_true', decide_eq_true_eq,
    Char.isAlphanum] at h
  rcases h with ((halpha | hdigit) | ⟨-, hblank⟩) | hsign
  · exact whiteSpace_of_isAlpha halpha
  · simp only [Char.isDigit, Bool.and_eq_true, decide_eq_true_eq, ge_iff_le,
      UInt32.le_iff_toNat_le] at hdigit
    have hlow : 48 ≤ c.toNat ∧ c.toNat ≤ 57 := hdigit
    simp [whiteSpace]
    omega
  · exact hblank
  · simp at hsign
    rcases hsign with rfl | rfl | rfl | rfl <;> decide

theorem plainChar_ne {d : Char} (hd : plainChar d = false) (h : plainChar c) : c ≠ d := by
  rintro rfl
  rw [hd] at h
  cases h

def signs : List Char :=
  ['\\', '`', '^', '\'', '"', '$', '#', '&', '|', ';', '(', ')', '<', '>', '\x7b', '\x7d', '\n',
    ' ', '\t', '\r']

theorem plainChar_not_sign (h : plainChar c) : ∀ d ∈ signs, c ≠ d := by
  have hsigns : ∀ d ∈ signs, plainChar d = false := by decide
  exact fun d hd => plainChar_ne (hsigns d hd) h

theorem splitBare_plain (h : plainChar c) (grammar : Grammar) (s : LineState)
    (chars : Text) : splitBare grammar s c chars = (s.push c, chars) := by
  have hsub : splitSubstitution grammar s c chars = none := by
    unfold splitSubstitution
    split
    · exact absurd rfl (plainChar_not_sign h '$' (by decide))
    · exact absurd rfl (plainChar_not_sign h '`' (by decide))
    · rfl
  have hescape : c ≠ grammar.escape := by
    cases grammar
    · exact plainChar_not_sign h '\\' (by decide)
    · exact plainChar_not_sign h '`' (by decide)
    · exact plainChar_not_sign h '^' (by decide)
  have hne := plainChar_not_sign h
  simp only [signs, forall_mem_cons] at hne
  unfold splitBare
  simp [hescape, hsub, hne]

theorem splitChar_plain (h : plainChar c) (grammar : Grammar) (out : SplitLine)
    (words : Words) (chars : Text) : splitChar grammar ⟨out, words, none⟩ c chars =
      (LineState.reading ⟨out, words, none⟩ (words.word ++ [c]) none, chars) :=
  splitBare_plain h grammar ⟨out, words, none⟩ chars

theorem spells_plain (hw : PlainPath w) (grammar : Grammar) : Spells grammar w w := by
  rintro ⟨out, words, quote⟩ hquote rest
  obtain rfl : quote = none := hquote
  obtain ⟨hne, hplain⟩ := hw
  induction w generalizing words with
  | nil => exact absurd rfl hne
  | cons c w ih =>
    obtain ⟨hc, hplain⟩ := forall_mem_cons.mp hplain
    rw [cons_append, splitAll_cons (splitChar_plain hc grammar out words _)]
    by_cases hw : w = []
    · rw [hw]
      rfl
    · exact (ih _ hw hplain).trans (by simp [LineState.reading])

end

/-! ## The deletion -/

structure PlainOperand (r : Text) : Prop extends PlainPath r where
  relative : r.head? ≠ some '/'
  noDash : r.head? ≠ some '-'

def rmLine (r : Text) : Text := "rm -rf ".toList ++ r

section

variable {r : Text}

theorem splitLine_rmLine (hr : PlainPath r) (grammar : Grammar) :
    splitLine (rmLine r) grammar = .ok ⟨[(0, ["rm".toList, "-rf".toList, r])], []⟩ := by
  have hplain : ∀ w ∈ ["rm".toList, "-rf".toList, r], Spells grammar (id w) w := by
    intro w hw
    refine spells_plain ?_ grammar
    simp only [mem_cons, not_mem_nil, or_false] at hw
    rcases hw with rfl | rfl | rfl
    · exact ⟨by decide, by decide⟩
    · exact ⟨by decide, by decide⟩
    · exact hr
  have hline : rmLine r = Text.join [' '] (["rm".toList, "-rf".toList, r].map id) := by
    rw [List.map_id, Text.join, intercalate_cons_cons, intercalate_cons_cons, intercalate_singleton]
    rfl
  rw [hline]
  exact splitLine_spelled (cons_ne_nil _ _) hplain

theorem commandsHit_rm {deeper : Deeper} {args : List Text} {cwd : Option Text} {hit : OsGuardHit}
    (grammar : Grammar) (h : deeper (.argv ("rm".toList :: args) cwd) = .ok (some hit)) :
    commandsHit deeper grammar cwd [] [(0, "rm".toList :: args)] = .ok (some hit) := by
  have hwords : commandWords grammar ("rm".toList :: args) = .ok ("rm".toList :: args) := by
    cases grammar
    · exact commandWords_of_not_reserved (by decide) args
    · rfl
    · rfl
  have hbase : commandBasename "rm".toList = "rm".toList := by decide
  have heval : "rm".toList ≠ "eval".toList := by decide
  have hdir : changesDir "rm".toList grammar = false := by cases grammar <;> decide
  have henter : (if grammar = .posix then enterLevel cwd [] 0 else (cwd, [])) = (cwd, []) := by
    cases grammar <;> rfl
  rw [commandsHit, henter]
  dsimp only
  rw [hwords]
  simp only [bind, Except.bind]
  rw [hbase, if_neg fun heq => heval heq.2, hdir, if_neg Bool.false_ne_true, h]
  rfl

theorem rm_deletes : Deletes "rm".toList .pathOperands :=
  ⟨by decide +kernel, by decide, by decide +kernel, by decide +kernel, by decide +kernel⟩

theorem rmLine_hit (host : Host) (hr : PlainOperand r) (shell : Text) {cwd : Option Text}
    (h : protects host r cwd) :
    ∃ hit, shellLineDeletionHit host (rmLine r) shell cwd = .ok (some hit) := by
  obtain ⟨c, rest, rfl⟩ := exists_cons_of_ne_nil hr.nonempty
  have hflag : isFlag (c :: rest) = false :=
    isFlag_relative (fun heq => hr.noDash (by rw [heq]; rfl))
      fun heq => hr.relative (by rw [heq]; rfl)
  have htarget : targetOf host .pathOperands cwd (c :: rest) = some (c :: rest) := by
    dsimp only [targetOf, pathCandidate]
    rw [hflag, if_neg Bool.false_ne_true, bind_some, refuse, if_pos h]
  have hflags : targetOf host .pathOperands cwd "-rf".toList = none := rfl
  have hscan : scan host MAX_NESTING (.argv ["rm".toList, "-rf".toList, c :: rest] cwd) =
      .ok (some ⟨commandBasename "rm".toList, c :: rest⟩) := by
    refine (rm_deletes.scan_eq host 15 _ cwd).trans ?_
    rw [findSome?_cons, hflags, findSome?_cons, htarget]
    rfl
  refine ⟨⟨commandBasename "rm".toList, c :: rest⟩, ?_⟩
  unfold shellLineDeletionHit
  rw [scan, lineHit, splitLine_rmLine hr.toPlainPath]
  exact commandsHit_rm _ hscan

end

/-! ## The directory of the shell -/

def components (path : Text) : List (Component Text) := (path.splitOn '/').map componentOf

def shellCd (dir : List Text) (w : Text) : List Text :=
  if w.head? = some '/' then resolve (components w) else resolveFrom dir (components w)

def shellDir (cwd : Text) (ws : List Text) : List Text :=
  ws.foldl shellCd (resolve (components cwd))

def shellPath (cwd : Text) (ws : List Text) (r : Text) : Text :=
  '/' :: Text.join ['/'] (resolveFrom (shellDir cwd ws) (components r))

theorem shellDir_eq {cwd : Text} {ws : List Text} (h : ∀ w ∈ ws.getLast?, w.head? = some '/') :
    shellDir cwd ws = resolve (components (ws.getLast?.getD cwd)) := by
  rcases eq_nil_or_concat ws with rfl | ⟨front, w, rfl⟩
  · rfl
  · have hw : w.head? = some '/' := h w (by simp)
    simp [shellDir, shellCd, hw]

/-! ## The directory that is tracked -/

def cdLine (w : Text) : Text := "cd ".toList ++ w

section

variable {w : Text}

theorem trimEnd_plain (hw : PlainPath w) (front : Text) : trimEnd (front ++ w) = front ++ w := by
  rcases eq_nil_or_concat w with rfl | ⟨init, c, rfl⟩
  · exact absurd rfl hw.nonempty
  · have hc : whiteSpace c = false := whiteSpace_plainChar (hw.plain c (by simp))
    rw [concat_eq_append, ← append_assoc]
    exact rdropWhile_append_cons hc (front ++ init) []

theorem parseCdTarget_cdLine (hw : PlainPath w) (hdash : w ≠ "-".toList) :
    parseCdTarget (cdLine w) = some w := by
  have hline : trim (cdLine w) = "cd ".toList ++ w := trimEnd_plain hw "cd ".toList
  obtain ⟨c, rest, hcons⟩ := exists_cons_of_ne_nil hw.nonempty
  have hc : plainChar c := hw.plain c (by simp [hcons])
  have hstart : trimStart w = w := by
    rw [hcons]
    exact dropWhile_cons_of_neg (by rw [whiteSpace_plainChar hc]; exact Bool.false_ne_true)
  have htrim : trim w = w := by
    rw [trim, hstart]
    exact trimEnd_plain hw []
  have hany : (w.any fun c => [';', '|', '&', '\n'].contains c) = false := by
    rw [List.any_eq_false]
    intro d hd hmem
    have hnot := plainChar_not_sign (hw.plain d hd)
    simp only [contains_eq_mem, mem_cons, not_mem_nil, or_false, decide_eq_true_eq] at hmem
    rcases hmem with rfl | rfl | rfl | rfl <;> exact hnot _ (by decide) rfl
  have hcount : (splitWhitespace w).length = 1 := by
    rw [splitWhitespace_word hw.nonempty fun d hd => whiteSpace_plainChar (hw.plain d hd)]
    rfl
  have hquote : unquote w = w := by
    rw [hcons]
    unfold unquote
    split
    · rename_i heq
      exact absurd (List.cons.inj heq).1 (plainChar_not_sign hc '\'' (by decide))
    · rename_i heq
      exact absurd (List.cons.inj heq).1 (plainChar_not_sign hc '"' (by decide))
    · rfl
  unfold parseCdTarget
  rw [hline, stripPrefix_append]
  simp only [bind_eq_bind, bind_some, htrim, hany, hcount, hquote]
  rw [if_neg (by simpa [hw.nonempty] using hdash)]

end

def cdStep (host : Host) (s : Session) (w : Text) : Option Session :=
  match exec host s (cdLine w) .ok with
  | .ok (.ok _, s') => some s'
  | _ => none

variable {host : Host}

theorem cdStep_eq {s s' : Session} {w : Text} (h : cdStep host s w = some s') :
    s'.cwd = (parseCdTarget (cdLine w)).or s.cwd ∧ s'.live = s.live := by
  unfold cdStep exec at h
  by_cases hlong : MAX_SESSION_LINE_BYTES < (cdLine w).len
  · rw [if_pos hlong] at h
    cases h
  · rw [if_neg hlong] at h
    by_cases hlive : (!s.live)
    · rw [if_pos hlive] at h
      cases h
    · rw [if_neg hlive] at h
      simp only [bind, Except.bind] at h
      cases hscan : shellLineDeletionHit host (cdLine w) s.shell s.cwd with
      | error fault => simp [hscan] at h
      | ok found =>
        cases found with
        | some hit => simp [hscan, pure, Except.pure] at h
        | none =>
          simp only [hscan, pure, Except.pure, Option.some.injEq] at h
          rw [← h]
          exact ⟨rfl, rfl⟩

theorem run_cwd {s s' : Session} {ws : List Text} (hws : ∀ w ∈ ws, PlainPath w ∧ w ≠ "-".toList)
    (h : run (cdStep host) s ws = some s') : s'.cwd = ws.getLast?.or s.cwd ∧ s'.live = s.live := by
  induction ws generalizing s with
  | nil =>
    cases h
    exact ⟨rfl, rfl⟩
  | cons w ws ih =>
    obtain ⟨⟨hplain, hdash⟩, hws⟩ := forall_mem_cons.mp hws
    obtain ⟨mid, hstep, h⟩ := run_cons_eq_some.mp h
    obtain ⟨hcwd, hlive⟩ := cdStep_eq hstep
    obtain ⟨hcwd', hlive'⟩ := ih hws h
    rw [parseCdTarget_cdLine hplain hdash, some_or] at hcwd
    refine ⟨?_, hlive'.trans hlive⟩
    rw [hcwd', hcwd, getLast?_cons]
    cases ws.getLast? <;> rfl

/-! ## The path that is judged -/

section

variable {dir r : Text}

theorem words_trimEndMatches (dir : Text) :
    words '/' (trimEndMatches (· == '/') dir) = words '/' dir := by
  induction dir using reverseRecOn with
  | nil => rfl
  | append_singleton dir c ih =>
    unfold trimEndMatches at ih ⊢
    rw [rdropWhile_concat]
    split_ifs with hc
    · obtain rfl := beq_iff_eq.mp hc
      rw [ih, words_append_sep]
      exact (append_nil _).symm
    · rfl

theorem words_plainTarget (hr : PlainPath r) : words '/' (plainTarget r) = words '/' r := by
  have hback : '\\' ∉ r := fun hmem => plainChar_not_sign (hr.plain _ hmem) '\\' (by decide) rfl
  unfold plainTarget
  rw [words_squeeze, show r.trimEnd = r from trimEnd_plain hr [], slashed_eq_self hback]

theorem resolve_resolvedTarget (hr : PlainPath r) {rest : Text}
    (hrest : resolvedTarget dir r = '/' :: rest) :
    resolve (components rest) = resolveFrom (resolve (components dir)) (components r) := by
  have hwords : words '/' rest = words '/' dir ++ words '/' r := by
    rw [← words_sep_cons, ← hrest, resolvedTarget, words_append_sep, words_trimEndMatches,
      words_plainTarget hr]
  have hfilter : ∀ path start, resolveFrom start (components path) =
      resolveFrom start ((words '/' path).map componentOf) := fun path start =>
    (resolveFrom_filter (path.splitOn '/') start).symm
  rw [resolve, resolve, hfilter, hfilter dir, hfilter r, hwords, map_append, resolveFrom_append]

theorem protects_plain (host : Host) (hr : PlainOperand r) :
    protects host r (some dir) = critical host (resolvedTarget dir r) := by
  obtain ⟨c, rest, hcons⟩ := exists_cons_of_ne_nil hr.nonempty
  have hne : ∀ d, plainChar d = false → d ∉ r := fun d hd hmem =>
    plainChar_ne hd (hr.plain d hmem) rfl
  have hc : c ∈ r := by simp [hcons]
  have hfirst : ReadsPlain r := by
    refine ⟨c, by rw [hcons]; rfl, fun heq => hr.noDash (by rw [hcons, heq]; rfl),
      whiteSpace_plainChar (hr.plain c hc), fun heq => hne '\\' (by decide) (heq ▸ hc)⟩
  have hdrive : hasDrive r = false := by
    unfold hasDrive
    split
    · exact absurd (by simp) (hne ':' (by decide))
    · rfl
  have hglob : ∀ d ∈ r, isGlob d = false := by
    intro d hd
    simp only [isGlob, Bool.or_eq_false_iff, beq_eq_false_iff_ne]
    exact ⟨⟨plainChar_ne (by decide) (hr.plain d hd), plainChar_ne (by decide) (hr.plain d hd)⟩,
      plainChar_ne (by decide) (hr.plain d hd)⟩
  have hshell : isUnresolvable r = false := by
    have hplain := hr.plain c hc
    simp only [isUnresolvable, hcons, head?_cons, any_some, Bool.or_eq_false_iff,
      beq_eq_false_iff_ne]
    exact ⟨⟨plainChar_ne (by decide) hplain, plainChar_ne (by decide) hplain⟩,
      plainChar_ne (by decide) hplain⟩
  exact protects_relative hfirst hdrive hr.relative hglob hshell

def SpelledOut (judged path : Text) : Prop :=
  judged = path ∨ ∃ rest, judged = '/' :: rest ∧ rest.head? ≠ some '/' ∧ Ordinary rest ∧
    Ordinary (rootedResolved rest)

theorem SpelledOut.critical_judged (hhost : host.windows = false) (hr : PlainPath r)
    (h : SpelledOut (resolvedTarget dir r)
      ('/' :: join ['/'] (resolveFrom (resolve (components dir)) (components r))))
    (hcrit : critical host
      ('/' :: join ['/'] (resolveFrom (resolve (components dir)) (components r)))) :
    critical host (resolvedTarget dir r) := by
  rcases h with heq | ⟨rest, heq, hhead, hordinary, hresolved⟩
  · rw [heq]
    exact hcrit
  · rw [← resolve_resolvedTarget hr heq] at hcrit
    rw [heq, critical_rooted hhost, hordinary.refused_resolved hhost hresolved hhead]
    exact (critical_rooted hhost _).mp hcrit

end

/-- **The tracked directory.** On a host without drives, after any `cd` lines the last of which, if
there is one, has an absolute path: a deletion whose operand names a critical path in the shell is
refused and not written, if the path is spelled out below the tracked directory. -/
theorem tracked_directory_protects (host : Host) (hhost : host.windows = false) (s s' : Session)
    (cwd : Text) (hcwd : s.cwd = some cwd) (hlive : s.live = true) (ws : List Text)
    (hws : ∀ w ∈ ws, PlainPath w ∧ w ≠ "-".toList)
    (hrun : Transition.run (cdStep host) s ws = some s')
    (hlast : ∀ w ∈ ws.getLast?, w.head? = some '/') (r : Text) (hr : PlainOperand r)
    (hlen : (rmLine r).len ≤ MAX_SESSION_LINE_BYTES)
    (hspelled : SpelledOut (resolvedTarget (ws.getLast?.getD cwd) r) (shellPath cwd ws r))
    (hcritical : isOsCriticalPath host (shellPath cwd ws r) = .ok true) (answer : PtyAnswer) :
    ∃ reason, exec host s' (rmLine r) answer =
      .ok (.error (.osCriticalPathProtected reason), s') := by
  obtain ⟨hcwd', hlive'⟩ := run_cwd hws hrun
  have htracked : s'.cwd = some (ws.getLast?.getD cwd) := by
    rw [hcwd', hcwd]
    cases ws.getLast? <;> rfl
  rw [isOsCriticalPath_eq, Except.ok.injEq] at hcritical
  unfold shellPath at hspelled hcritical
  rw [shellDir_eq hlast] at hspelled hcritical
  have hprotects : protects host r s'.cwd = true := by
    rw [htracked, protects_plain host hr]
    exact hspelled.critical_judged hhost hr.toPlainPath hcritical
  obtain ⟨hit, hhit⟩ := rmLine_hit host hr s'.shell hprotects
  refine ⟨reason hit, ?_⟩
  unfold exec
  rw [if_neg (Nat.not_lt.mpr hlen), if_neg (by rw [hlive', hlive]; decide), hhit]
  rfl

def rootSession : Session := ⟨"bash".toList, some "/".toList, true, []⟩

theorem absolute_cd_protects :
    ∃ s ∈ Transition.run (cdStep unixHost) rootSession ["home".toList, "/usr/share".toList],
      ∃ reason, exec unixHost s (rmLine "../lib".toList) .ok =
        .ok (.error (.osCriticalPathProtected reason), s) := by
  obtain ⟨s, hrun⟩ := isSome_iff_exists.mp (show (run (cdStep unixHost) rootSession
    ["home".toList, "/usr/share".toList]).isSome = true by decide +kernel)
  refine ⟨s, hrun, tracked_directory_protects unixHost rfl rootSession s "/".toList rfl rfl _
    ?_ hrun ?_ "../lib".toList ⟨⟨by decide, by decide⟩, by decide, by decide⟩ (by decide) ?_
    (by decide +kernel) .ok⟩
  · have hall : ∀ w ∈ ["home".toList, "/usr/share".toList],
        w ≠ [] ∧ (∀ c ∈ w, plainChar c = true) ∧ w ≠ "-".toList := by decide
    exact fun w hw => ⟨⟨(hall w hw).1, (hall w hw).2.1⟩, (hall w hw).2.2⟩
  · decide
  · exact .inr ⟨"usr/share/../lib".toList, by decide +kernel, by decide,
      ⟨by decide, by decide, by decide, by decide⟩, ⟨by decide, by decide, by decide, by decide⟩⟩

/-- From the root a `cd usr` is tracked as the directory `usr`; the operand `lib` of a deletion is
then no critical path, and `/usr/lib` is deleted. -/
theorem relative_cd_loses_directory :
    ∃ s ∈ Transition.run (cdStep unixHost) rootSession ["usr".toList],
      s.cwd = some "usr".toList ∧
      shellPath "/".toList ["usr".toList] "lib".toList = "/usr/lib".toList ∧
      isOsCriticalPath unixHost "/usr/lib".toList = .ok true ∧
      exec unixHost s (rmLine "lib".toList) .ok =
        .ok (.ok (), { s with written := s.written ++ ["rm -rf lib\n".toList] }) := by
  decide +kernel

end SessionExec

end TerminalCommander
