import TerminalCommander.Core.OsGuard.Scan
import TerminalCommander.Core.OsGuard.UnixLexical

/-!
# Relative targets

What the failsafe makes of the target of a deletion that is not a rooted path. A path operand is
resolved against the working directory, and judged as its absolute form is if neither form is bent
on the way (`Resolvable`). The readers of `dd`, `format` and `cipher` do not resolve: there the two
forms are judged as two paths of their own.
-/

namespace TerminalCommander

namespace OsGuard

open ShellDeny Segments List Option Text

def Hits (host : Host) (argv : List Text) (cwd : Option Text) : Prop :=
  ∃ hit, argvDeletionHit host argv cwd = .ok (some hit)

structure Deletes (tok : Text) (kind : DestructiveKind) : Prop where
  kind : classify (commandBasename tok) = some kind
  assignment : isEnvAssignment tok = false
  wrapper : wrapperOf tok = none
  interpreter : interpreterOf tok = none
  wsl : namesWsl tok = false

/-! ## The command -/

variable {tok : Text} {kind : DestructiveKind}

theorem escalatorOf_eq_none
    (h : classify (commandBasename tok) = some kind) : escalatorOf tok = none := by
  have hall : ∀ w ∈ ESCALATORS, classify w.name = none := by decide +kernel
  refine find?_eq_none.mpr fun w hw heq => ?_
  rw [← beq_iff_eq.mp heq, hall w hw] at h
  cases h

theorem Deletes.peel_eq (h : Deletes tok kind)
    (operands : List Text) : peel (tok :: operands) = none := by
  have hbusybox : commandBasename tok ≠ "busybox".toList := by
    intro heq
    have hkind := h.kind
    rw [heq, show classify "busybox".toList = none by decide +kernel] at hkind
    cases hkind
  have hread : readLaunched none false (tok :: operands) = .programAt 0 := by
    unfold readLaunched readToken
    rw [h.assignment, if_neg Bool.false_ne_true, h.wrapper]
  have hlaunched : launchedWords (tok :: operands) = tok :: operands := by
    unfold launchedWords
    rw [launchOf_eq, hread]
    rfl
  rw [peel_eq_launched (escalatorOf_eq_none h.kind) hbusybox, hlaunched, if_pos (by simp)]

theorem Deletes.scan_eq (h : Deletes tok kind)
    (host : Host) (levels : Nat) (operands : List Text) (cwd : Option Text) :
    scan host (levels + 1) (.argv (tok :: operands) cwd) =
      .ok ((operands.findSome? (targetOf host kind cwd)).map fun path =>
        ⟨commandBasename tok, path⟩) := by
  have hunwrap : unwrapLaunchers (tok :: operands) cwd = .ok (.argv (tok :: operands), cwd) := by
    unfold unwrapLaunchers
    rw [unwrapLoop_succ, h.peel_eq]
  unfold scan argvHit
  rw [hunwrap]
  simp only [bind, Except.bind]
  rw [realHit, shellInterpreterDenied_eq, h.interpreter, isWslCarrier_eq, h.wsl]
  simp only [bind, Except.bind]
  rw [if_neg Bool.false_ne_true, h.kind]
  dsimp only
  rw [operandsHit_eq]
  rfl

def targetWord : DestructiveKind → Text → Text
  | .pathOperands, target => target
  | .ddOutfile, target => "of=".toList ++ target
  | .format, target => target
  | .cipher, target => "/w:".toList ++ target

theorem Deletes.hits_iff (h : Deletes tok kind) {host : Host}
    {flags : List Text} (hflags : ∀ flag ∈ flags, ∀ cwd, targetOf host kind cwd flag = none)
    (word : Text) (cwd : Option Text) :
    Hits host (tok :: (flags ++ [word])) cwd ↔ (targetOf host kind cwd word).isSome := by
  have hfind : (flags ++ [word]).findSome? (targetOf host kind cwd) = targetOf host kind cwd word := by
    rw [findSome?_append, findSome?_eq_none_iff.mpr fun flag hmem => hflags flag hmem cwd, none_or]
    simp
  unfold Hits argvDeletionHit
  rw [h.scan_eq, hfind]
  cases targetOf host kind cwd word with
  | none => simp
  | some path => simp

/-! ## The operand -/

theorem isSome_refuse (refused : Text → Bool) (target : Text) :
    (refuse refused target).isSome = refused target := by
  unfold refuse
  split_ifs with h
  · rw [h]
    rfl
  · rw [eq_false_of_ne_true h]
    rfl

def judgedAlone (host : Host) (kind : DestructiveKind) (target : Text) : Bool :=
  match kind with
  | .ddOutfile => isDiskDevice target || critical host target
  | .format => !isFlag target && critical host target
  | _ => critical host target

theorem stripPrefix_append (p t : Text) : stripPrefix (p ++ t) p = some t := by
  unfold stripPrefix
  rw [if_pos (prefix_append p t), drop_left]

theorem isSome_targetOf (hkind : kind ≠ .pathOperands) (host : Host)
    (cwd : Option Text) (target : Text) :
    (targetOf host kind cwd (targetWord kind target)).isSome = judgedAlone host kind target := by
  cases kind with
  | pathOperands => exact absurd rfl hkind
  | ddOutfile =>
    dsimp only [targetOf, targetWord, judgedAlone]
    rw [stripPrefix_append, bind_some, isSome_refuse]
  | format =>
    dsimp only [targetOf, targetWord, judgedAlone]
    cases isFlag target with
    | true => rfl
    | false => exact isSome_refuse (critical host) target
  | cipher =>
    dsimp only [targetOf, targetWord, judgedAlone]
    rw [stripPrefix_append, some_or, bind_some, isSome_refuse]

def ReadsPlain (target : Text) : Prop :=
  ∃ c, target.head? = some c ∧ c ≠ '-' ∧ whiteSpace c = false ∧ c ≠ '\\'

structure Resolvable (cwd target : Text) : Prop where
  /-- The directory has no backslash, no glob, and no repeated separators but at its end. -/
  backslash : '\\' ∉ cwd
  glob : ∀ c ∈ cwd, isGlob c = false
  single : squeeze '/' false (Text.trimEndMatches (· == '/') cwd) =
    Text.trimEndMatches (· == '/') cwd
  /-- The target begins with no dash, no white space and no backslash, and has no drive. -/
  first : ∃ c, target.head? = some c ∧ c ≠ '-' ∧ whiteSpace c = false ∧ c ≠ '\\'
  drive : hasDrive target = false
  /-- The absolute form is no switch of `cmd` and no device path. -/
  switch : isFlag (cwd ++ '/' :: target) = false
  device : ¬ "//./".toList <+: Text.replaceChar '\\' '/' (cwd ++ '/' :: target)

section

variable {host : Host} {cwd target : Text}

def plainTarget (target : Text) : Text :=
  squeeze '/' false (target.trimEnd.replaceChar '\\' '/')

def resolvedTarget (cwd target : Text) : Text :=
  Text.trimEndMatches (· == '/') cwd ++ '/' :: plainTarget target

theorem isGlob_plainTarget (h : ∀ c ∈ target, isGlob c = false) :
    ∀ c ∈ plainTarget target, isGlob c = false := by
  intro c hc
  obtain ⟨d, hd, rfl⟩ := List.mem_map.mp ((squeeze_sublist _ false).subset hc)
  split_ifs
  · rfl
  · exact h d ((List.rdropWhile_prefix whiteSpace target).subset hd)

theorem fixedPart_eq {t : Text} (h : ∀ c ∈ t, isGlob c = false) : fixedPart t = t := by
  unfold fixedPart
  rw [if_neg]
  rw [List.any_eq_true]
  rintro ⟨c, hc, hglob⟩
  rw [h c hc] at hglob
  cases hglob

theorem plainTarget_eq (hfirst : ReadsPlain target) (hrel : target.head? ≠ some '/') :
    ∃ c rest, target = c :: rest ∧ c ≠ '/' ∧ c ≠ '\\' ∧ c ≠ '-' ∧ whiteSpace c = false ∧
      target.trimEnd = c :: trimEnd rest ∧
      plainTarget target = c :: squeeze '/' false ((trimEnd rest).replaceChar '\\' '/') := by
  obtain ⟨c, hc, hdash, hblank, hback⟩ := hfirst
  cases target with
  | nil => cases hc
  | cons d rest =>
    obtain rfl := Option.some.inj hc
    have hslash : d ≠ '/' := fun heq => hrel (by rw [heq]; rfl)
    have htrim : trimEnd (d :: rest) = d :: trimEnd rest :=
      rdropWhile_append_cons hblank [] rest
    refine ⟨d, rest, rfl, hslash, hback, hdash, hblank, htrim, ?_⟩
    unfold plainTarget
    rw [htrim, slashed_cons, if_neg hback, squeeze, if_neg hslash]

theorem hasDrive_of_plain {c : Char} {rest : Text}
    (h : hasDrive (c :: squeeze '/' false ((trimEnd rest).replaceChar '\\' '/'))) :
    hasDrive (c :: rest) := by
  have hpre : trimEnd rest <+: rest := List.rdropWhile_prefix whiteSpace rest
  cases hrest : trimEnd rest with
  | nil =>
    rw [hrest] at h
    cases h
  | cons d more =>
    rw [hrest] at h hpre
    obtain ⟨tail, rfl⟩ := hpre
    rw [slashed_cons, squeeze] at h
    by_cases hd : d = ':'
    · subst hd
      exact h
    · exfalso
      by_cases hsep : (if d = '\\' then '/' else d) = '/'
      · rw [hsep, if_pos rfl, if_neg Bool.false_ne_true] at h
        cases h
      · rw [if_neg hsep] at h
        by_cases hback : d = '\\'
        · exact hsep (if_pos hback)
        · rw [if_neg hback] at h
          unfold hasDrive at h
          split at h
          · rename_i heq
            exact hd (List.cons.inj (List.cons.inj heq).2).1
          · cases h

theorem protects_relative (hfirst : ReadsPlain target) (hnodrive : hasDrive target = false)
    (hrel : target.head? ≠ some '/') (hglob : ∀ c ∈ target, isGlob c = false)
    (hshell : isUnresolvable target = false) :
    protects host target (some cwd) = critical host (resolvedTarget cwd target) := by
  obtain ⟨c, rest, rfl, hslash, hback, -, hblank, htrim, hplain⟩ := plainTarget_eq hfirst hrel
  have hstart : trimStart (c :: rest) = c :: rest :=
    dropWhile_cons_of_neg (by rw [hblank]; exact Bool.false_ne_true)
  have hraw : (trim (c :: rest)).replaceChar '\\' '/' =
      c :: (trimEnd rest).replaceChar '\\' '/' := by
    unfold trim
    rw [hstart, htrim, slashed_cons, if_neg hback]
  have hpath : plainOf host (c :: rest) = some (plainTarget (c :: rest)) := by
    rw [plainOf_of_head host hslash hraw, hplain, squeeze, if_neg hslash]
  have hdrive : hasDrive (plainTarget (c :: rest)) = false := by
    refine eq_false_of_ne_true fun hd => ?_
    rw [hplain] at hd
    have := hasDrive_of_plain hd
    rw [hnodrive] at this
    cases this
  unfold protects
  rw [hpath]
  dsimp only
  rw [fixedPart_eq (isGlob_plainTarget hglob), hdrive]
  unfold resolvedTarget
  rw [hplain]
  have hun : isUnresolvable (c :: squeeze '/' false ((trimEnd rest).replaceChar '\\' '/')) =
      false := hshell
  rw [hun]
  simp [hslash]

theorem Resolvable.squeeze_eq (h : Resolvable cwd target) (hrel : target.head? ≠ some '/') :
    squeeze '/' false (cwd ++ '/' :: target.trimEnd.replaceChar '\\' '/') =
      resolvedTarget cwd target := by
  obtain ⟨c, rest, rfl, hslash, hback, -, -, htrim, hplain⟩ := plainTarget_eq h.first hrel
  have hcwd : trimEndMatches (· == '/') cwd ++ cwd.rtakeWhile (· == '/') = cwd :=
    rdropWhile_append_rtakeWhile
  have hrun : ∀ d ∈ cwd.rtakeWhile (· == '/'), d = '/' := by
    intro d hd
    have hmem := @List.mem_rtakeWhile_imp _ (· == '/') cwd d hd
    exact beq_iff_eq.mp hmem
  have hlast : (trimEndMatches (· == '/') cwd).getLast? ≠ some '/' := by
    intro hend
    obtain ⟨hne, heq⟩ := mem_getLast?_eq_getLast hend
    exact rdropWhile_last_not (· == '/') cwd hne (beq_iff_eq.mpr heq.symm)
  conv_lhs => rw [← hcwd]
  rw [append_assoc, squeeze_append (fun _ => rfl) hlast, h.single, squeeze_run hrun]
  unfold resolvedTarget
  rw [hplain, htrim, slashed_cons, if_neg hback, squeeze, if_neg hslash]

theorem head?_resolvedTarget (hcwd : cwd.head? = some '/') :
    (resolvedTarget cwd target).head? = some '/' := by
  unfold resolvedTarget
  have hpre : trimEndMatches (· == '/') cwd <+: cwd := List.rdropWhile_prefix _ cwd
  cases hbase : trimEndMatches (· == '/') cwd with
  | nil => rfl
  | cons c base =>
    rw [hbase] at hpre
    obtain ⟨more, rfl⟩ := hpre
    exact hcwd

theorem Resolvable.protects_absolute (hhost : host.windows = false) (h : Resolvable cwd target)
    (hcwd : cwd.head? = some '/') (hrel : target.head? ≠ some '/')
    (hglob : ∀ c ∈ target, isGlob c = false) {dir : Option Text}
    (hdir : ∀ d ∈ dir, hasDrive d.trimStart = false) :
    protects host (cwd ++ '/' :: target) dir = critical host (resolvedTarget cwd target) := by
  obtain ⟨d, rfl⟩ : ∃ d, cwd = '/' :: d := by
    cases cwd with
    | nil => cases hcwd
    | cons c d => exact ⟨d, by rw [Option.some.inj hcwd]⟩
  have htrim : trim ('/' :: d ++ '/' :: target) = '/' :: d ++ '/' :: target.trimEnd :=
    rdropWhile_append_cons (x := '/') rfl ('/' :: d) target
  have hslashed : (trim ('/' :: d ++ '/' :: target)).replaceChar '\\' '/' =
      '/' :: d ++ '/' :: target.trimEnd.replaceChar '\\' '/' := by
    rw [htrim]
    unfold replaceChar
    rw [map_append, map_cons]
    exact congrArg (· ++ _) (slashed_eq_self h.backslash)
  have hverbatim : ¬ "//?/".toList <+: '/' :: d ++ '/' :: target.trimEnd.replaceChar '\\' '/' := by
    intro hpre
    have hmem := hpre.subset (show '?' ∈ "//?/".toList by decide)
    rcases mem_append.mp hmem with hmem | hmem
    · exact Bool.noConfusion (h.glob '?' hmem)
    · rcases mem_cons.mp hmem with heq | hmem
      · cases heq
      · obtain ⟨e, he, heq⟩ := List.mem_map.mp hmem
        split_ifs at heq
        · cases heq
        · subst heq
          exact Bool.noConfusion (hglob '?' ((List.rdropWhile_prefix whiteSpace target).subset he))
  have hdevice : ¬ "//./".toList <+: '/' :: d ++ '/' :: target.trimEnd.replaceChar '\\' '/' := by
    intro hpre
    have hcut : '/' :: d ++ '/' :: target.trimEnd <+: '/' :: d ++ '/' :: target :=
      (prefix_append_right_inj _).mpr
        (cons_prefix_cons.mpr ⟨rfl, List.rdropWhile_prefix whiteSpace target⟩)
    rw [← hslashed, htrim] at hpre
    exact h.device (hpre.trans (hcut.map _))
  have hpath : plainOf host ('/' :: d ++ '/' :: target) = some (resolvedTarget ('/' :: d) target) := by
    unfold plainOf
    rw [hslashed]
    dsimp only
    rw [stripPrefix_eq_none hverbatim, stripPrefix_eq_none hdevice]
    dsimp only [Option.or]
    rw [collapseSeparators_eq (isUnc_unix hhost _), h.squeeze_eq hrel]
  have hfixed : fixedPart (resolvedTarget ('/' :: d) target) = resolvedTarget ('/' :: d) target := by
    refine fixedPart_eq fun c hc => ?_
    rcases mem_append.mp hc with hc | hc
    · exact h.glob c ((List.rdropWhile_prefix _ _).subset hc)
    · rcases mem_cons.mp hc with rfl | hc
      · rfl
      · exact isGlob_plainTarget hglob c hc
  have hnone : (dir.map trimStart).filter hasDrive = none := by
    cases dir with
    | none => rfl
    | some dir =>
      rw [map_some, filter_some, hdir dir rfl]
      rfl
  have hhead : (resolvedTarget ('/' :: d) target).head? = some '/' := head?_resolvedTarget rfl
  unfold protects
  rw [hpath]
  dsimp only
  rw [hfixed, hnone]
  generalize resolvedTarget ('/' :: d) target = path at hhead ⊢
  cases path with
  | nil => cases hhead
  | cons c path =>
    obtain rfl := Option.some.inj hhead
    have hdrive : hasDrive ('/' :: path) = false := by
      unfold hasDrive
      split
      · rename_i heq
        cases heq
        rfl
      · rfl
    rw [hdrive]
    simp [isUnresolvable]

theorem isFlag_relative {c : Char} {rest : Text} (hdash : c ≠ '-') (hslash : c ≠ '/') :
    isFlag (c :: rest) = false := by
  unfold isFlag startsDash
  rw [head?_cons, beq_eq_false_iff_ne.mpr fun h => hdash (Option.some.inj h), Bool.false_or]
  split
  · rename_i heq
    exact absurd (List.cons.inj heq).1 hslash
  · rfl

end

/-! ## The two forms of a target -/

end OsGuard

end TerminalCommander
