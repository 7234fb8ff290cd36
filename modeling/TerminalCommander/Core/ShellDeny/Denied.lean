import TerminalCommander.Core.OsGuard.Transparent

/-!
# The interpreter deny

`shell_argv_denied` of `core/src/shell_deny.rs`, and what it makes of `NAME=value` words and
wrappers in front of a command. `readThrough` is the loop of `launched_program` over words that it
passes over; behind such words a command launches what it launches alone (`launchOf_append`).
Wrappers with their options are passed over, unless an option word is itself named like a wrapper:
the loop asks for the name before it asks for the dash.
-/

namespace TerminalCommander

namespace ShellDeny

open OsGuard List Launched Option

def ENV_SPLIT_STRING_DENY : Text := "env -S".toList

def REMOTE_CARRIERS : List Text :=
  ["ssh", "docker", "podman", "nerdctl", "kubectl"].map String.toList

def isRemoteCarrier (token : Text) : Checked Bool := do
  let stem ← stripWinExt (← normalizedWinBasename token)
  return REMOTE_CARRIERS.any fun carrier => stem.eqIgnoreAsciiCase carrier

def findScripted : List Text → Checked (Option Text)
  | [] => .ok none
  | arg :: args => do
    match ← shellInterpreterDenied arg with
    | none => findScripted args
    | some shell =>
      match ← interpreterScriptFlag shell args with
      | some _ => return some shell
      | none => findScripted args

def shellArgvDenied (argv : List Text) : Checked (Option Text) := do
  match ← launched argv with
  | none => return some ENV_SPLIT_STRING_DENY
  | some [] => return none
  | some (head :: rest) =>
    match ← shellInterpreterDenied head with
    | some shell => return some shell
    | none => if ← isRemoteCarrier head then return none else findScripted (head :: rest)

theorem launched_eq (argv : List Text) : launched argv = .ok (launchOf argv) :=
  launchedRounds_eq (Nat.lt_succ_self _)

variable {argv : List Text}

theorem shellArgvDenied_congr {more : List Text} (h : launchOf argv = launchOf more) :
    shellArgvDenied argv = shellArgvDenied more := by
  unfold shellArgvDenied
  rw [launched_eq, launched_eq, h]

/-! ## Words that are passed over -/

def readThrough : Option Launcher → Bool → List Text → Option (Option Launcher × Bool)
  | wrapper, valueOperand, [] => some (wrapper, valueOperand)
  | wrapper, valueOperand, token :: rest =>
    match readToken wrapper valueOperand token rest.head? with
    | .word wrapper valueOperand => readThrough wrapper valueOperand rest
    | .pair =>
      match rest with
      | [] => none
      | _ :: rest => readThrough wrapper valueOperand rest
    | _ => none

inductive PassedOver : List Text → Prop
  | through {front : List Text} {wrapper : Option Launcher} :
    readThrough none false front = some (wrapper, false) → PassedOver front
  | split {front expanded : List Text} :
    readLaunched none false front = .splitString expanded → PassedOver expanded →
      PassedOver front

def Leading (argv : List Text) : Prop :=
  ∀ first ∈ argv.find? fun word => !isEnvAssignment word,
    startsDash first = false ∧ first.head?.any Char.isDigit = false

def Launched.followed (more : List Text) : Launched → Launched
  | .splitString expanded => .splitString (expanded ++ more)
  | found => found

theorem Launched.followed_behind (front more : List Text) (found : Launched) :
    (found.behind front).followed more = (found.followed more).behind front := by
  cases found <;> simp [behind, followed]

@[simp] theorem Launched.behind_eq_nothing {front : List Text} {found : Launched} :
    found.behind front = .nothing ↔ found = .nothing := by
  cases found <;> simp [behind]

variable {token : Text} {w : Launcher}

theorem optionOf_of_two (h : optionWords w token = 2) :
    ∃ key, optionOf w token = some (key, none) := by
  unfold optionWords at h
  split at h
  · rename_i key hof
    exact ⟨key, hof⟩
  · cases h

theorem splitValue_of_two (h : optionWords w token = 2) :
    splitValue (optionWith w token none) = none := by
  obtain ⟨key, hof⟩ := optionOf_of_two h
  unfold optionWith
  rw [hof]
  rfl

variable {valueOperand : Bool} {wrapper : Option Launcher}

theorem readToken_next
    (h : readToken wrapper valueOperand token none ≠ .pair) (next : Option Text) :
    readToken wrapper valueOperand token next = readToken wrapper valueOperand token none := by
  unfold readToken at h ⊢
  by_cases hassign : isEnvAssignment token
  · rw [if_pos hassign, if_pos hassign]
  rw [if_neg hassign] at h
  rw [if_neg hassign, if_neg hassign]
  cases hwrap : wrapperOf token with
  | some found => rfl
  | none =>
    rw [hwrap] at h
    cases wrapper with
    | none => rfl
    | some w =>
      dsimp only at h ⊢
      by_cases hdash : token.head? = some '-'
      · rw [if_pos hdash] at h
        rw [if_pos hdash, if_pos hdash]
        rcases optionWords_cases w token with hone | htwo
        · rw [optionWith_of_one hone next, optionWith_of_one hone none]
        · rw [splitValue_of_two htwo] at h
          dsimp only at h
          exact absurd (if_neg (by omega)) h
      · rw [if_neg hdash, if_neg hdash]

variable {rest : List Text}

theorem readToken_append (h : readToken wrapper valueOperand token rest.head? ≠ .pair)
    (more : List Text) : readToken wrapper valueOperand token (rest ++ more).head? =
      readToken wrapper valueOperand token rest.head? := by
  cases rest with
  | nil => exact readToken_next h _
  | cons value rest => rfl

theorem count_le_of_split {words : List Text} {count : Nat}
    (h : readToken wrapper valueOperand token rest.head? = .split words count) :
    count - 1 ≤ rest.length := by
  obtain ⟨w, split, hsplit, -, rfl⟩ := eq_of_readToken_split h
  have hle := optionWords_le_of_split hsplit
  omega

variable {front : List Text}

theorem readLaunched_of_readThrough {last : Option Launcher} {due : Bool}
    (h : readThrough wrapper valueOperand front = some (last, due))
    (more : List Text) : readLaunched wrapper valueOperand (front ++ more) =
      (readLaunched last due more).behind front := by
  fun_induction readThrough wrapper valueOperand front with
  | case1 wrapper valueOperand =>
    cases h
    exact (behind_nil _).symm
  | case2 wrapper valueOperand token rest wrapper' valueOperand' hread ih =>
    have hnext := readToken_append (by rw [hread]; simp) more
    rw [hread] at hnext
    rw [cons_append, readLaunched_cons_word hnext, ih h, behind_behind]
    rfl
  | case3 => cases h
  | case4 wrapper valueOperand token value rest hread ih =>
    rw [cons_append, cons_append, readLaunched_cons_pair hread, ih h, behind_behind]
    rfl
  | case5 => cases h

theorem readLaunched_followed (h : readLaunched wrapper valueOperand front ≠ .nothing)
    (more : List Text) : readLaunched wrapper valueOperand (front ++ more) =
      (readLaunched wrapper valueOperand front).followed more := by
  fun_induction readLaunched wrapper valueOperand front with
  | case1 => exact absurd rfl h
  | case2 wrapper valueOperand token rest last due hread ih =>
    have hnext := (readToken_append (by simp [hread]) more).trans hread
    rw [cons_append, readLaunched_cons_word hnext, followed_behind, ih (by simpa using h)]
  | case3 => exact absurd rfl h
  | case4 wrapper valueOperand token value rest hread ih =>
    rw [cons_append, cons_append, readLaunched_cons_pair hread, followed_behind,
      ih (by simpa using h)]
  | case5 wrapper valueOperand token rest hread | case7 wrapper valueOperand token rest hread =>
    have hnext := (readToken_append (by simp [hread]) more).trans hread
    rw [cons_append]
    unfold readLaunched
    rw [hnext]
    rfl
  | case6 wrapper valueOperand token rest words count hread =>
    have hnext := (readToken_append (by simp [hread]) more).trans hread
    rw [cons_append]
    unfold readLaunched
    rw [hnext]
    simp [followed, drop_append_of_le_length (count_le_of_split hread)]

/-! ## A command behind such words -/

variable {expanded : List Text}

theorem eq_of_behind_splitString {found : Launched}
    (h : found.behind front = .splitString expanded) :
    ∃ more, found = .splitString more ∧ expanded = front ++ more := by
  cases found <;> simp_all [behind]

theorem readToken_assignment (h : isEnvAssignment token)
    (wrapper : Option Launcher) (valueOperand : Bool) (next : Option Text) :
    readToken wrapper valueOperand token next = .word wrapper valueOperand := if_pos h

theorem readToken_program (hassign : isEnvAssignment token = false)
    (hwrap : wrapperOf token = none) (hdash : startsDash token = false)
    (hdigit : token.head?.any Char.isDigit = false) (wrapper : Option Launcher)
    (next : Option Text) : readToken wrapper false token next = .program := by
  have hhead : ¬ token.head? = some '-' := by
    intro heq
    rw [startsDash, heq] at hdash
    cases hdash
  unfold readToken
  rw [hassign, if_neg Bool.false_ne_true, hwrap]
  cases wrapper with
  | none => rfl
  | some w =>
    dsimp only
    rw [if_neg hhead, isNumericOperand, hdigit, Bool.and_false, Bool.false_and, Bool.or_self]
    rfl

theorem Leading.tail (h : Leading (token :: rest))
    (hassign : isEnvAssignment token) : Leading rest := by
  unfold Leading at h
  rwa [find?_cons_of_neg (by simp [hassign])] at h

theorem Leading.head (h : Leading (token :: rest)) (hassign : isEnvAssignment token = false) :
    startsDash token = false ∧ token.head?.any Char.isDigit = false :=
  h token (find?_cons_of_pos (by simp [hassign]))

theorem readLaunched_leading (h : Leading argv) (wrapper : Option Launcher) :
    readLaunched wrapper false argv = readLaunched none false argv := by
  induction argv with
  | nil => rfl
  | cons token rest ih =>
    cases hassign : isEnvAssignment token with
    | true =>
      have hread := fun state => readToken_assignment hassign state false rest.head?
      rw [readLaunched_cons_word (hread wrapper), readLaunched_cons_word (hread none),
        ih (h.tail hassign)]
    | false =>
      cases hwrap : wrapperOf token with
      | some found => rw [readLaunched_word hassign hwrap, readLaunched_word hassign hwrap]
      | none =>
        obtain ⟨hdash, hdigit⟩ := h.head hassign
        have hread := fun state =>
          readToken_program hassign hwrap hdash hdigit state rest.head?
        unfold readLaunched
        rw [hread, hread]

theorem find?_of_splitString
    (h : readLaunched none false argv = .splitString expanded) :
    (expanded.find? fun word => !isEnvAssignment word) =
      argv.find? fun word => !isEnvAssignment word := by
  induction argv generalizing expanded with
  | nil => cases h
  | cons token rest ih =>
    cases hassign : isEnvAssignment token with
    | true =>
      rw [readLaunched_cons_word (readToken_assignment hassign none false rest.head?)] at h
      obtain ⟨more, hmore, rfl⟩ := eq_of_behind_splitString h
      rw [singleton_append, find?_cons_of_neg (by simp [hassign]),
        find?_cons_of_neg (by simp [hassign]), ih hmore]
    | false =>
      cases hwrap : wrapperOf token with
      | some found =>
        rw [readLaunched_word hassign hwrap] at h
        obtain ⟨more, -, rfl⟩ := eq_of_behind_splitString h
        rw [singleton_append, find?_cons_of_pos (by simp [hassign]),
          find?_cons_of_pos (by simp [hassign])]
      | none =>
        have hread : readToken none false token rest.head? = .program := by
          unfold readToken
          rw [hassign, if_neg Bool.false_ne_true, hwrap]
        unfold readLaunched at h
        rw [hread] at h
        cases h

theorem launchOf_append_through (hfront : readThrough none false front = some (wrapper, false))
    (h : Leading argv) : launchOf (front ++ argv) = launchOf argv := by
  induction hn : weight argv using Nat.strong_induction_on generalizing argv with
  | _ n ih =>
    subst hn
    have hwithin := readLaunched_within argv none false
    rw [launchOf_eq, launchOf_eq argv, readLaunched_of_readThrough hfront, readLaunched_leading h]
    cases hread : readLaunched none false argv with
    | programAt index =>
      dsimp only [behind]
      rw [drop_append]
      simp
    | splitString expanded =>
      have hleading : Leading expanded := by
        unfold Leading
        rw [find?_of_splitString hread]
        exact h
      exact ih (weight expanded) (hwithin.split expanded hread) hleading rfl
    | nothing => rfl
    | unparseable => rfl

theorem launchOf_splitString
    (h : readLaunched none false front = .splitString expanded) (argv : List Text) :
    launchOf (front ++ argv) = launchOf (expanded ++ argv) := by
  have hne : readLaunched none false front ≠ .nothing := by
    rw [h]
    simp
  rw [launchOf_eq, readLaunched_followed hne, h]
  rfl

theorem launchOf_append (hfront : PassedOver front)
    (h : Leading argv) : launchOf (front ++ argv) = launchOf argv := by
  induction hfront with
  | through hthrough => exact launchOf_append_through hthrough h
  | split hsplit _ ih => rw [launchOf_splitString hsplit, ih]

/-! ## Words that show -/

def probe : Text := "$".toList

theorem leading_probe : Leading [probe] := by
  intro first hfirst
  obtain rfl : probe = first := by
    have hfind : [probe].find? (fun word => !isEnvAssignment word) = some probe := by decide
    rw [hfind] at hfirst
    exact some.inj hfirst
  decide

theorem launchedWords_probe : launchedWords [probe] = [probe] := by decide +kernel

theorem readToken_due
    {next : Option Text} (h : readToken wrapper valueOperand token next = .word none true) :
    wrapper = none ∧ valueOperand := by
  unfold readToken at h
  repeat' split at h
  all_goals simp_all

theorem readThrough_due (h : readThrough wrapper valueOperand front = some (none, true)) :
    wrapper = none ∧ valueOperand := by
  fun_induction readThrough wrapper valueOperand front with
  | case1 wrapper valueOperand => simpa using h
  | case2 wrapper valueOperand token rest wrapper' valueOperand' hread ih =>
    obtain ⟨rfl, rfl⟩ := ih h
    exact readToken_due hread
  | case4 wrapper valueOperand token value rest hread ih => exact ih h
  | _ => cases h

theorem readToken_waits (h : readToken wrapper valueOperand token none = .pair) :
    readToken wrapper valueOperand token (some probe) = .pair ∨
      readToken wrapper valueOperand token (some probe) = .unparseable := by
  unfold readToken at h ⊢
  by_cases hassign : isEnvAssignment token
  · rw [if_pos hassign] at h
    cases h
  rw [if_neg hassign] at h ⊢
  cases hwrap : wrapperOf token with
  | some found =>
    rw [hwrap] at h
    cases h
  | none =>
    rw [hwrap] at h
    cases wrapper with
    | none => cases h
    | some w =>
      dsimp only at h ⊢
      by_cases hdash : token.head? = some '-'
      · rw [if_pos hdash] at h ⊢
        rcases optionWords_cases w token with hone | htwo
        · rw [if_pos hone] at h
          split at h
          · split at h <;> cases h
          · cases h
        · cases hsplit : splitValue (optionWith w token (some probe)) with
          | none =>
            dsimp only
            exact Or.inl (if_neg (by omega))
          | some split =>
            have hprobe : split = probe := by
              obtain ⟨key, hof⟩ := optionOf_of_two htwo
              unfold optionWith at hsplit
              rw [hof] at hsplit
              dsimp only [splitValue] at hsplit
              split_ifs at hsplit
              exact (some.inj hsplit).symm
            rw [hprobe]
            exact Or.inr rfl
      · rw [if_neg hdash] at h
        split_ifs at h

theorem readLaunched_waits (hthrough : readThrough wrapper valueOperand front = none)
    (h : readLaunched wrapper valueOperand front = .nothing) :
    readLaunched wrapper valueOperand (front ++ [probe]) = .nothing ∨
      readLaunched wrapper valueOperand (front ++ [probe]) = .unparseable := by
  fun_induction readThrough wrapper valueOperand front with
  | case1 => cases hthrough
  | case2 wrapper valueOperand token rest wrapper' valueOperand' hread ih =>
    have hnext := (readToken_append (by simp [hread]) [probe]).trans hread
    rw [readLaunched_cons_word hread, behind_eq_nothing] at h
    rw [cons_append, readLaunched_cons_word hnext]
    rcases ih hthrough h with heq | heq <;> simp [heq, behind]
  | case3 wrapper valueOperand token hread =>
    rw [singleton_append]
    rcases readToken_waits hread with hpair | hsplit
    · exact Or.inl (readLaunched_cons_pair hpair)
    · simp [readLaunched, hsplit]
  | case4 wrapper valueOperand token value rest hread ih =>
    rw [readLaunched_cons_pair hread, behind_eq_nothing] at h
    rw [cons_append, cons_append, readLaunched_cons_pair hread]
    rcases ih hthrough h with heq | heq <;> simp [heq, behind]
  | case5 wrapper valueOperand token rest hword hpair =>
    unfold readLaunched at h
    split at h <;> simp_all

theorem passedOver_of_launchedWords
    (h : ∀ argv, Leading argv → launchedWords (front ++ argv) = launchedWords argv) :
    PassedOver front := by
  induction hn : weight front using Nat.strong_induction_on generalizing front with
  | _ n ih =>
    subst hn
    have hwithin := readLaunched_within front none false
    have hprobe := h [probe] leading_probe
    rw [launchedWords_probe, launchedWords, launchOf_eq] at hprobe
    cases hread : readLaunched none false front with
    | programAt index =>
      have hlt := hwithin.program index hread
      rw [readLaunched_followed (by rw [hread]; simp), hread] at hprobe
      have hlength := congrArg List.length hprobe
      dsimp only [followed, getD_some] at hlength
      rw [length_drop, length_append, length_singleton] at hlength
      omega
    | splitString expanded =>
      refine .split hread (ih (weight expanded) (hwithin.split expanded hread) ?_ rfl)
      intro argv hargv
      rw [← h argv hargv, launchedWords, launchedWords, launchOf_splitString hread]
    | unparseable =>
      rw [readLaunched_followed (by rw [hread]; simp), hread] at hprobe
      cases hprobe
    | nothing =>
      cases hthrough : readThrough none false front with
      | none =>
        rcases readLaunched_waits hthrough hread with heq | heq
        · rw [heq] at hprobe
          cases hprobe
        · rw [heq] at hprobe
          cases hprobe
      | some state =>
        obtain ⟨wrapper, due⟩ := state
        cases due with
        | false => exact .through hthrough
        | true =>
          cases wrapper with
          | none => exact absurd (readThrough_due hthrough).2 Bool.false_ne_true
          | some w =>
            -- the operand that is due is the probe
            have hdue : readLaunched (some w) true [probe] = .nothing := by
              have htoken : readToken (some w) true probe none = .word (some w) false := by
                unfold readToken
                rw [show isEnvAssignment probe = false by decide,
                  show wrapperOf probe = none by decide +kernel, if_neg Bool.false_ne_true]
                dsimp only
                rw [if_neg (by decide), Bool.true_or, if_pos rfl]
              exact readLaunched_cons_word htoken
            rw [readLaunched_of_readThrough hthrough, hdue] at hprobe
            cases hprobe

/-! ## Wrappers -/

inductive Lead where
  | assignment (word : Text)
  | wrapper (w : Launcher) (word : Text) (options : List (List Text)) (operand : List Text)

namespace Lead

def words : Lead → List Text
  | .assignment word => [word]
  | .wrapper _ word options operand => word :: (options.flatten ++ operand)

def Valid : Lead → Prop
  | .assignment word => isEnvAssignment word = true
  | .wrapper w word options operand =>
    wrapperOf word = some w ∧ isEnvAssignment word = false ∧
      (∀ option ∈ options, IsOption w option ∧
        ∀ tok ∈ option.head?, splitValue (optionWith w tok option[1]?) = none) ∧
      IsOperand w operand

def Plain : Lead → Prop
  | .assignment _ => True
  | .wrapper _ _ options _ => ∀ option ∈ options, ∀ tok ∈ option.head?, wrapperOf tok = none

end Lead

theorem readThrough_cons_word {last : Option Launcher} {due : Bool}
    (h : ∀ next, readToken wrapper valueOperand token next = .word last due) (rest : List Text) :
    readThrough wrapper valueOperand (token :: rest) = readThrough last due rest := by
  conv_lhs => unfold readThrough
  rw [h]

theorem readThrough_options {options : List (List Text)}
    (h : ∀ option ∈ options, IsOption w option ∧
      ∀ tok ∈ option.head?, splitValue (optionWith w tok option[1]?) = none)
    (hplain : ∀ option ∈ options, ∀ tok ∈ option.head?, wrapperOf tok = none)
    (valueOperand : Bool) (rest : List Text) :
    readThrough (some w) valueOperand (options.flatten ++ rest) =
      readThrough (some w) valueOperand rest := by
  induction options with
  | nil => rfl
  | cons option options ih =>
    obtain ⟨hoption, hsplit⟩ := h option mem_cons_self
    have hwrapper := hplain option mem_cons_self
    have hrest := ih (fun o ho => h o (mem_cons_of_mem option ho))
      (fun o ho => hplain o (mem_cons_of_mem option ho))
    rw [flatten_cons, append_assoc]
    rcases hoption.cases with ⟨tok, rfl, hdash, hone⟩ | ⟨tok, value, rfl, hdash, htwo⟩
    · rw [singleton_append, readThrough_cons_word
        (readToken_option_one hdash hone (hwrapper tok rfl) (hsplit tok rfl) valueOperand), hrest]
    · have hread := readToken_option_two hdash htwo (hwrapper tok rfl) (hsplit tok rfl) valueOperand
      rw [cons_append, singleton_append]
      conv_lhs => unfold readThrough
      rw [head?_cons, hread]
      exact hrest

theorem readThrough_lead {lead : Lead} (h : lead.Valid) (hplain : lead.Plain)
    (wrapper : Option Launcher) (rest : List Text) :
    ∃ last, readThrough wrapper false (lead.words ++ rest) = readThrough last false rest := by
  cases lead with
  | assignment word =>
    exact ⟨wrapper, readThrough_cons_word (readToken_assignment h wrapper false) rest⟩
  | wrapper w word options operand =>
    obtain ⟨hword, hassign, hoptions, hoperand⟩ := h
    refine ⟨some w, ?_⟩
    rw [Lead.words, cons_append,
      readThrough_cons_word (readToken_word hassign hword wrapper false), append_assoc,
      readThrough_options hoptions hplain]
    unfold IsOperand at hoperand
    split_ifs at hoperand with hdue
    · obtain ⟨number, rfl, hdigit, hsep⟩ := hoperand
      rw [hdue, singleton_append, readThrough_cons_word (readToken_number hdigit hsep w)]
    · rw [hoperand, eq_false_of_ne_true hdue, nil_append]

theorem passedOver_leads {leads : List Lead} (h : ∀ lead ∈ leads, lead.Valid)
    (hplain : ∀ lead ∈ leads, lead.Plain) : PassedOver (leads.flatMap Lead.words) := by
  have hthrough : ∀ wrapper, ∃ last,
      readThrough wrapper false (leads.flatMap Lead.words) = some (last, false) := by
    induction leads with
    | nil => exact fun wrapper => ⟨wrapper, rfl⟩
    | cons lead leads ih =>
      intro wrapper
      obtain ⟨last, hlead⟩ := readThrough_lead (h lead mem_cons_self)
        (hplain lead mem_cons_self) wrapper (leads.flatMap Lead.words)
      rw [flatMap_cons, hlead]
      exact ih (fun l hl => h l (mem_cons_of_mem lead hl))
        (fun l hl => hplain l (mem_cons_of_mem lead hl)) last
  obtain ⟨last, hlast⟩ := hthrough none
  exact .through hlast

/-- **Wrappers are transparent** to the interpreter deny exactly if the loop passes over their
words, and it does if no option word is named like a wrapper. -/
theorem wrappers_transparent_iff (leads : List Lead) (hvalid : ∀ lead ∈ leads, lead.Valid) :
    ((∀ argv, Leading argv →
        shellArgvDenied (leads.flatMap Lead.words ++ argv) = shellArgvDenied argv ∧
          launchedArgv (leads.flatMap Lead.words ++ argv) = launchedArgv argv) ↔
      PassedOver (leads.flatMap Lead.words)) ∧
      ((∀ lead ∈ leads, lead.Plain) → PassedOver (leads.flatMap Lead.words)) := by
  refine ⟨⟨fun h => ?_, fun h argv hargv => ?_⟩, passedOver_leads hvalid⟩
  · refine passedOver_of_launchedWords fun argv hargv => ?_
    have hlaunched := (h argv hargv).2
    rw [launchedArgv_eq, launchedArgv_eq] at hlaunched
    exact Except.ok.inj hlaunched
  · have hlaunch := launchOf_append h hargv
    refine ⟨shellArgvDenied_congr hlaunch, ?_⟩
    rw [launchedArgv_eq, launchedArgv_eq, launchedWords, launchedWords, hlaunch]

def timeoutLead : Lead :=
  .wrapper (launcher "timeout" "sk" ["signal", "kill-after"] (Eq.refl true)) "timeout".toList
    [["--kill".toList, "1".toList]] ["5".toList]

theorem assigned_timeout_transparent :
    (∀ lead ∈ [.assignment "A=1".toList, timeoutLead], lead.Valid ∧ lead.Plain) ∧
      shellArgvDenied (["A=1", "timeout", "--kill", "1", "5", "env", "-S", "bash -c id"].map
        String.toList) =
      shellArgvDenied (["env", "-S", "bash -c id"].map String.toList) := by
  have hvalid : ∀ lead ∈ [.assignment "A=1".toList, timeoutLead], lead.Valid ∧ lead.Plain := by
    intro lead hlead
    rcases mem_pair.mp hlead with rfl | rfl
    · exact ⟨show isEnvAssignment "A=1".toList = true by decide, trivial⟩
    · refine ⟨⟨by decide +kernel, by decide, fun option hoption => ?_,
        ⟨"5".toList, rfl, by decide, by decide⟩⟩, fun option hoption tok htok => ?_⟩
      · obtain rfl := mem_singleton.mp hoption
        refine ⟨⟨_, _, rfl, by decide, by decide, by decide +kernel⟩, fun tok htok => ?_⟩
        obtain rfl := some.inj htok
        decide +kernel
      · obtain rfl := mem_singleton.mp hoption
        obtain rfl := some.inj htok
        decide +kernel
  have hleading : Leading (["env", "-S", "bash -c id"].map String.toList) := by
    intro first hfirst
    obtain rfl : "env".toList = first := some.inj hfirst
    decide
  obtain ⟨hiff, hplain⟩ := wrappers_transparent_iff [.assignment "A=1".toList, timeoutLead]
    fun lead hlead => (hvalid lead hlead).1
  exact ⟨hvalid, (hiff.mpr (hplain fun lead hlead => (hvalid lead hlead).2) _ hleading).1⟩

def timeLead : Lead :=
  .wrapper (launcher "time" "fo" ["format", "output"] (Eq.refl true)) "time".toList
    [["--output=/x/timeout".toList]] []

/-- The file that `time` writes to is named like a wrapper, and its duration is taken to be the
interpreter. -/
theorem output_named_timeout :
    timeLead.Valid ∧ Leading ["bash".toList] ∧
      shellArgvDenied ["bash".toList] = .ok (some "bash".toList) ∧
      shellArgvDenied (timeLead.words ++ ["bash".toList]) = .ok none ∧
      launchedArgv (timeLead.words ++ ["bash".toList]) = .ok [] := by
  refine ⟨⟨by decide +kernel, by decide, fun option hoption => ?_, rfl⟩, fun first hfirst => ?_,
    by decide +kernel, by decide +kernel, by decide +kernel⟩
  · obtain rfl := mem_singleton.mp hoption
    refine ⟨⟨_, _, rfl, by decide, by decide, by decide +kernel⟩, fun tok htok => ?_⟩
    obtain rfl := some.inj htok
    decide +kernel
  · obtain rfl : "bash".toList = first := some.inj hfirst
    decide

end ShellDeny

end TerminalCommander
