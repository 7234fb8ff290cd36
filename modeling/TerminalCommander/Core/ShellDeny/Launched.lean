import TerminalCommander.Core.ShellDeny.Options

/-!
# The launched program

`launched_argv` of `core/src/shell_deny.rs`: the words of a command from the program it launches
onward, behind `NAME=value` words and wrappers with their options and value operands. The string of
`env -S` is split into words, and the longer list is read again; the loop ends, since the new words
weigh less than the option they replace (`weight_expand_lt`).
-/

namespace TerminalCommander

open List Option Checked

namespace ShellDeny

def isEnvBlank (c : Char) : Bool := " \t\n\x0b\x0c\r".toList.contains c

def pushLiteral (word : Option Text) (literal : Char) : Option Text :=
  some (word.getD [] ++ [literal])

def splitEnvLoop : Bool → Option Char → Option Text → List Text → Text → Option (List Text)
  | _, quote, word, words, [] => if quote.isSome then none else some (words ++ word.toList)
  | true, quote, word, words, ch :: chars =>
    splitEnvLoop false quote (pushLiteral word ch) words chars
  | false, quote, word, words, ch :: chars =>
    if quote = some ch then splitEnvLoop false none word words chars
    else if quote = some '\'' then
      -- inside single quotes only `\\` and `\'` are escapes
      if ch = '\\' ∧ (chars.head? = some '\\' ∨ chars.head? = some '\'') then
        splitEnvLoop true quote word words chars
      else splitEnvLoop false quote (pushLiteral word ch) words chars
    else if ch = '$' then none
    else if ch = '\\' then
      if chars.head?.any fun next => ['\\', '\'', '"', '#', '$'].contains next then
        splitEnvLoop true quote word words chars
      else none
    else if quote = none ∧ (ch = '\'' ∨ ch = '"') then
      splitEnvLoop false (some ch) (some (word.getD [])) words chars
    else if quote = none ∧ isEnvBlank ch = true then
      splitEnvLoop false none none (words ++ word.toList) chars
    else if quote = none ∧ ch = '#' ∧ word = none then some words
    else splitEnvLoop false quote (pushLiteral word ch) words chars

def splitEnvWords (split : Text) : Option (List Text) := splitEnvLoop false none none [] split

inductive Launched where
  | programAt (index : Nat)
  | splitString (expanded : List Text)
  | nothing
  | unparseable
  deriving DecidableEq

def splitValue : Option ValueOption → Option Text
  | some (key, some split) =>
    if key = "S".toList ∨ key = "split-string".toList then some split else none
  | _ => none

def isNumericOperand (w : Launcher) (token : Text) : Bool :=
  VALUE_OPERAND_WRAPPERS.contains w.name && (token.head?.any Char.isDigit) &&
    !token.any isSeparator

def launchedLoop (argv : List Text) :
    Option Launcher → Bool → Nat → List Text → Checked Launched
  | _, _, _, [] => .ok .nothing
  | wrapper, valueOperand, index, token :: rest =>
    if isEnvAssignment token then launchedLoop argv wrapper valueOperand (index + 1) rest
    else do
      match ← shellWrapper token, wrapper with
      | some found, _ =>
        launchedLoop argv (some found) (VALUE_OPERAND_WRAPPERS.contains found.name) (index + 1) rest
      | none, none => return .programAt index
      | none, some w =>
        if token.head? = some '-' then do
          let (option, next) ← wrapperOption argv index w
          match splitValue option with
          | some split =>
            match splitEnvWords split with
            | none => return .unparseable
            | some words => do
              let before ← Checked.sliceTo argv index
              let behind ← Checked.sliceFrom argv next
              return .splitString (before ++ words ++ behind)
          | none =>
            -- an option takes one word, or two
            if next = index + 1 then launchedLoop argv wrapper valueOperand next rest
            else
              match rest with
              | [] => return .nothing
              | _ :: rest => launchedLoop argv wrapper valueOperand next rest
        else if valueOperand || isNumericOperand w token then
          launchedLoop argv wrapper false (index + 1) rest
        else return .programAt index

def launchedProgram (argv : List Text) : Checked Launched := launchedLoop argv none false 0 argv

def launchedRounds : Nat → List Text → Checked (Option (List Text))
  | 0, _ => .error .fuel
  | fuel + 1, argv => do
    match ← launchedProgram argv with
    | .programAt index => return some (← Checked.sliceFrom argv index)
    | .splitString expanded => launchedRounds fuel expanded
    | .nothing => return some []
    | .unparseable => return none

def weight (argv : List Text) : Nat := (argv.map fun word => word.length + 1).sum

def launched (argv : List Text) : Checked (Option (List Text)) :=
  launchedRounds (weight argv + 1) argv

def launchedArgv (argv : List Text) : Checked (List Text) := do
  return (← launched argv).getD []

/-! ## The plain functions -/

def Launched.behind (front : List Text) : Launched → Launched
  | .programAt index => .programAt (front.length + index)
  | .splitString expanded => .splitString (front ++ expanded)
  | found => found

inductive Reading where
  /-- The word is passed over; the wrapper whose options follow, and whether its operand is due. -/
  | word (wrapper : Option Launcher) (valueOperand : Bool)
  /-- The word is an option, and the next word its value. -/
  | pair
  | program
  /-- The option, of so many words, holds words of its own. -/
  | split (words : List Text) (count : Nat)
  | unparseable

def readToken (wrapper : Option Launcher) (valueOperand : Bool) (token : Text)
    (next : Option Text) : Reading :=
  if isEnvAssignment token then .word wrapper valueOperand
  else
    match wrapperOf token, wrapper with
    | some found, _ => .word (some found) (VALUE_OPERAND_WRAPPERS.contains found.name)
    | none, none => .program
    | none, some w =>
      if token.head? = some '-' then
        match splitValue (optionWith w token next) with
        | some split =>
          match splitEnvWords split with
          | none => .unparseable
          | some words => .split words (optionWords w token)
        | none => if optionWords w token = 1 then .word wrapper valueOperand else .pair
      else if valueOperand || isNumericOperand w token then .word wrapper false
      else .program

def readLaunched : Option Launcher → Bool → List Text → Launched
  | _, _, [] => .nothing
  | wrapper, valueOperand, token :: rest =>
    match readToken wrapper valueOperand token rest.head? with
    | .word wrapper valueOperand => (readLaunched wrapper valueOperand rest).behind [token]
    | .pair =>
      match rest with
      | [] => .nothing
      | value :: rest => (readLaunched wrapper valueOperand rest).behind [token, value]
    | .program => .programAt 0
    | .split words count => .splitString (words ++ rest.drop (count - 1))
    | .unparseable => .unparseable

def launchRounds : Nat → List Text → Option (List Text)
  | 0, _ => none
  | fuel + 1, argv =>
    match readLaunched none false argv with
    | .programAt index => some (argv.drop index)
    | .splitString expanded => launchRounds fuel expanded
    | .nothing => some []
    | .unparseable => none

def launchOf (argv : List Text) : Option (List Text) := launchRounds (weight argv + 1) argv

def launchedWords (argv : List Text) : List Text := (launchOf argv).getD []

/-! ## The loop of `launched_program` -/

namespace Launched

theorem behind_behind (front more : List Text) (found : Launched) :
    (found.behind more).behind front = found.behind (front ++ more) := by
  cases found with
  | programAt index => simp [behind, Nat.add_assoc]
  | splitString expanded => simp [behind]
  | nothing => rfl
  | unparseable => rfl

theorem behind_nil (found : Launched) : found.behind [] = found := by
  cases found with
  | programAt index => simp [behind]
  | _ => rfl

end Launched

variable {rest : List Text} {token : Text} {valueOperand : Bool} {wrapper : Option Launcher}

theorem readLaunched_cons_word {last : Option Launcher} {due : Bool}
    (h : readToken wrapper valueOperand token rest.head? = .word last due) :
    readLaunched wrapper valueOperand (token :: rest) =
      (readLaunched last due rest).behind [token] := by
  conv_lhs => unfold readLaunched
  rw [h]

variable {value : Text}

theorem readLaunched_cons_pair (h : readToken wrapper valueOperand token (some value) = .pair) :
    readLaunched wrapper valueOperand (token :: value :: rest) =
      (readLaunched wrapper valueOperand rest).behind [token, value] := by
  conv_lhs => unfold readLaunched
  rw [head?_cons, h]

theorem optionWords_cases (w : Launcher) (token : Text) :
    optionWords w token = 1 ∨ optionWords w token = 2 := by
  unfold optionWords
  split
  · exact Or.inr rfl
  · exact Or.inl rfl

theorem getElem?_behind (front : List Text) (token : Text) (rest : List Text) :
    (front ++ token :: rest)[front.length]? = some token ∧
      (front ++ token :: rest)[front.length + 1]? = rest.head? := by
  constructor
  · simp
  · rw [getElem?_append_right (by omega), head?_eq_getElem?]
    simp

variable {split : Text} {w : Launcher}

theorem optionWords_le_of_split (h : splitValue (optionWith w token rest.head?) = some split) :
    optionWords w token ≤ rest.length + 1 := by
  unfold splitValue optionWith at h
  unfold optionWords
  cases hof : optionOf w token with
  | none => exact Nat.le_add_left 1 _
  | some hit =>
    obtain ⟨key, value⟩ := hit
    cases value with
    | some value => exact Nat.le_add_left 1 _
    | none =>
      rw [hof] at h
      cases rest with
      | nil => cases h
      | cons value rest => simp

variable {count : Nat}

theorem splitString_behind (front : List Text) (token : Text) (rest words : List Text)
    (h : count = 1 ∨ count = 2) :
    Launched.splitString ((front ++ token :: rest).take front.length ++ words ++
        (front ++ token :: rest).drop (front.length + count)) =
      (Launched.splitString (words ++ rest.drop (count - 1))).behind front := by
  rw [Launched.behind, take_left, drop_append, append_assoc]
  rcases h with rfl | rfl <;> simp

theorem launchedLoop_eq (rest front : List Text) :
    ∀ wrapper valueOperand, launchedLoop (front ++ rest) wrapper valueOperand front.length rest =
      .ok ((readLaunched wrapper valueOperand rest).behind ((front ++ rest).take front.length)) := by
  refine read_induction (P := fun argv index rest => ∀ wrapper valueOperand,
    launchedLoop argv wrapper valueOperand index rest =
      .ok ((readLaunched wrapper valueOperand rest).behind (argv.take index))) ?_ ?_ rest front
  · intro argv wrapper valueOperand
    unfold launchedLoop readLaunched
    rfl
  · intro front token rest hnext hbehind wrapper valueOperand
    -- what is found one word further on stands behind the word too
    have hnext : ∀ wrapper valueOperand,
        launchedLoop (front ++ token :: rest) wrapper valueOperand (front.length + 1) rest =
          .ok (((readLaunched wrapper valueOperand rest).behind [token]).behind front) := by
      intro wrapper valueOperand
      rw [hnext, take_length_add_append, ← Launched.behind_behind]
      rfl
    obtain ⟨htoken, hvalue⟩ := getElem?_behind front token rest
    rw [take_left]
    unfold launchedLoop readLaunched readToken
    by_cases hassign : isEnvAssignment token = true
    · simp [hassign, hnext]
    rw [if_neg hassign, if_neg hassign, shellWrapper_eq]
    cases hwrap : wrapperOf token with
    | some found => exact hnext _ _
    | none =>
      cases wrapper with
      | none => rfl
      | some w =>
        simp only [bind, Except.bind]
        by_cases hdash : token.head? = some '-'
        · rw [if_pos hdash, if_pos hdash, wrapperOption_eq htoken w, hvalue]
          dsimp only
          cases hsplit : splitValue (optionWith w token rest.head?) with
          | some split =>
            dsimp only
            cases hwords : splitEnvWords split with
            | none => rfl
            | some words =>
              have := optionWords_le_of_split hsplit
              rw [sliceTo_of_le (by simp), sliceFrom_of_le (by simp; omega)]
              exact congrArg Except.ok (splitString_behind front token rest words
                (optionWords_cases w token))
          | none =>
            rcases optionWords_cases w token with hone | htwo
            · simp [hone, hnext]
            · rw [htwo]
              cases rest with
              | nil =>
                rw [if_neg (by omega)]
                rfl
              | cons value rest =>
                have h := hbehind value rest rfl (some w) valueOperand
                rw [take_length_add_append, ← Launched.behind_behind] at h
                simpa using h
        · simp only [hdash, if_false]
          split_ifs
          · exact hnext _ _
          · rfl

theorem launchedProgram_eq (argv : List Text) :
    launchedProgram argv = .ok (readLaunched none false argv) := by
  have h := launchedLoop_eq argv [] none false
  rwa [length_nil, take_zero, Launched.behind_nil] at h

/-! ## Weights -/

@[simp] theorem weight_nil : weight [] = 0 := rfl

@[simp] theorem weight_cons (word : Text) (argv : List Text) :
    weight (word :: argv) = word.length + 1 + weight argv := by
  unfold weight
  rw [map_cons, sum_cons]

@[simp] theorem weight_append (argv more : List Text) :
    weight (argv ++ more) = weight argv + weight more := by
  unfold weight
  rw [map_append, sum_append]

theorem weight_drop_le (n : Nat) (argv : List Text) : weight (argv.drop n) ≤ weight argv := by
  have h := weight_append (argv.take n) (argv.drop n)
  rw [take_append_drop] at h
  omega

def roomOf : Option Text → Nat
  | some word => word.length + 1
  | none => 1

theorem weight_splitEnvLoop (chars : Text) : ∀ (taken : Bool) (quote : Option Char)
    (word : Option Text) (words out : List Text),
    splitEnvLoop taken quote word words chars = some out →
      weight out ≤ weight words + roomOf word + chars.length := by
  have hpush : ∀ (word : Option Text) (c : Char), roomOf (pushLiteral word c) ≤ roomOf word + 1 := by
    intro word c
    cases word <;> simp [pushLiteral, roomOf]
  have hflush : ∀ word : Option Text, weight word.toList ≤ roomOf word := by
    intro word
    cases word <;> simp [roomOf]
  induction chars with
  | nil =>
    intro taken quote word words out h
    have := hflush word
    unfold splitEnvLoop at h
    split_ifs at h
    obtain rfl := some.inj h
    rw [weight_append, length_nil]
    omega
  | cons ch chars ih =>
    intro taken quote word words out h
    have hch := hpush word ch
    have hflush := hflush word
    rw [length_cons]
    cases taken with
    | true =>
      have := ih _ _ _ _ _ h
      omega
    | false =>
      have hopen : roomOf (some (word.getD [])) = roomOf word := by cases word <;> rfl
      have hnone : roomOf none = 1 := rfl
      unfold splitEnvLoop at h
      -- one goal for each way the loop goes on, and one for the comment that ends it
      split_ifs at h
      all_goals first
        | have hle := ih _ _ _ _ _ h
          omega
        | have hle := ih _ _ _ _ _ h
          rw [weight_append] at hle
          omega
        | obtain rfl := some.inj h
          omega

variable {words : List Text}

theorem weight_splitEnvWords
    (h : splitEnvWords split = some words) : weight words ≤ split.length + 1 := by
  have := weight_splitEnvLoop split false none none [] words h
  rw [weight_nil, roomOf] at this
  omega

theorem length_stripPrefix {p t u : Text} (h : t.stripPrefix p = some u) :
    t.length = p.length + u.length := by
  unfold Text.stripPrefix at h
  split_ifs at h with hp
  obtain rfl := some.inj h
  have := hp.length_le
  rw [length_drop]
  omega

theorem length_splitOnce {c : Char} {t name : Text}
    (h : t.splitOnce c = some (name, value)) : value.length < t.length := by
  unfold Text.splitOnce at h
  split at h
  · cases h
  · rename_i d rest hdrop
    obtain rfl := (Prod.mk.inj (some.inj h)).2
    have := (dropWhile_suffix (p := (· != c)) (l := t)).length_le
    rw [hdrop, length_cons] at this
    omega

theorem length_shortOf {shorts body key : Text}
    (h : shortOf shorts body = some (key, some value)) : value.length < body.length := by
  unfold shortOf at h
  split at h
  · cases h
  · rename_i letter rest hdrop
    have hlen := (dropWhile_suffix (p := fun c => !shorts.contains c) (l := body)).length_le
    rw [hdrop, length_cons] at hlen
    have hvalue := (Prod.mk.inj (some.inj h)).2
    split_ifs at hvalue
    obtain rfl := some.inj hvalue
    omega

theorem length_optionOf {key : Text}
    (h : optionOf w token = some (key, some value)) : value.length < token.length := by
  unfold optionOf at h
  cases hlong : token.stripPrefix "--".toList with
  | some long =>
    rw [hlong] at h
    have hlen := length_stripPrefix hlong
    obtain ⟨full, -, hfull⟩ := map_eq_some_iff.mp h
    have hinline := (Prod.mk.inj hfull).2
    split at hinline
    · next name value' honce =>
      obtain rfl := some.inj hinline
      have := length_splitOnce honce
      omega
    · cases hinline
  | none =>
    rw [hlong] at h
    have hlt := length_shortOf h
    cases hshort : token.stripPrefix "-".toList with
    | none => rwa [hshort] at hlt
    | some body =>
      have hlen := length_stripPrefix hshort
      rw [hshort, getD_some] at hlt
      omega

theorem weight_split_lt (h : splitValue (optionWith w token rest.head?) = some split)
    (hwords : splitEnvWords split = some words) :
    weight (words ++ rest.drop (optionWords w token - 1)) < weight (token :: rest) := by
  have hle := weight_splitEnvWords hwords
  unfold splitValue optionWith at h
  unfold optionWords
  match hof : optionOf w token with
  | none => simp [hof] at h
  | some (key, some value) =>
    have hlt := length_optionOf hof
    simp only [hof, ite_none_right_eq_some, some.injEq] at h
    rw [h.2] at hlt
    simp only [weight_append, weight_cons, Nat.sub_self, drop_zero]
    omega
  | some (key, none) =>
    cases rest with
    | nil => simp [hof] at h
    | cons value rest =>
      simp only [hof, head?_cons, ite_none_right_eq_some, some.injEq] at h
      simp only [weight_append, weight_cons, h.2, Nat.add_one_sub_one, drop_succ_cons, drop_zero]
      omega

theorem eq_of_readToken_split
    {next : Option Text} (h : readToken wrapper valueOperand token next = .split words count) :
    ∃ w split, splitValue (optionWith w token next) = some split ∧
      splitEnvWords split = some words ∧ count = optionWords w token := by
  unfold readToken at h
  repeat' split at h
  all_goals cases h
  exact ⟨_, _, by assumption, by assumption, rfl⟩

theorem readToken_split (h : readToken wrapper valueOperand token rest.head? = .split words count) :
    weight (words ++ rest.drop (count - 1)) < weight (token :: rest) := by
  obtain ⟨w, split, hsplit, hwords, rfl⟩ := eq_of_readToken_split h
  exact weight_split_lt hsplit hwords

structure Launched.Within (argv : List Text) (found : Launched) : Prop where
  program : ∀ index, found = .programAt index → index < argv.length
  split : ∀ expanded, found = .splitString expanded → weight expanded < weight argv

theorem Launched.Within.behind {argv : List Text} {found : Launched} (h : found.Within argv)
    (front : List Text) : (found.behind front).Within (front ++ argv) := by
  cases found with
  | programAt i =>
    refine ⟨?_, nofun⟩
    rintro _ ⟨⟩
    have := h.program i rfl
    rw [length_append]
    omega
  | splitString e =>
    refine ⟨nofun, ?_⟩
    rintro _ ⟨⟩
    have := h.split e rfl
    rw [weight_append, weight_append]
    omega
  | _ => exact ⟨nofun, nofun⟩

theorem readLaunched_within (argv : List Text) (wrapper : Option Launcher)
    (valueOperand : Bool) : (readLaunched wrapper valueOperand argv).Within argv := by
  fun_induction readLaunched wrapper valueOperand argv with
  | case2 _ _ token _ _ _ _ ih => exact ih.behind [token]
  | case4 _ _ token value _ _ ih => exact ih.behind [token, value]
  | case5 => exact ⟨fun _ h => by cases h; exact Nat.succ_pos _, nofun⟩
  | case6 _ _ _ _ _ _ hread => exact ⟨nofun, fun _ h => by cases h; exact readToken_split hread⟩
  | _ => exact ⟨nofun, nofun⟩

theorem launchRounds_eq : ∀ {fuel more : Nat} {argv : List Text}, weight argv < fuel →
    weight argv < more → launchRounds fuel argv = launchRounds more argv := by
  intro fuel
  induction fuel with
  | zero => exact fun h => absurd h (Nat.not_lt_zero _)
  | succ fuel ih =>
    intro more argv hfuel hmore
    cases more with
    | zero => exact absurd hmore (Nat.not_lt_zero _)
    | succ more =>
      unfold launchRounds
      cases hread : readLaunched none false argv with
      | splitString expanded =>
        have hlt := (readLaunched_within argv none false).split expanded hread
        exact ih (by omega) (by omega)
      | _ => rfl

theorem launchOf_eq (argv : List Text) : launchOf argv =
    match readLaunched none false argv with
    | .programAt index => some (argv.drop index)
    | .splitString expanded => launchOf expanded
    | .nothing => some []
    | .unparseable => none := by
  unfold launchOf
  rw [launchRounds]
  cases hread : readLaunched none false argv with
  | splitString expanded =>
    have hlt := (readLaunched_within argv none false).split expanded hread
    exact launchRounds_eq hlt (Nat.lt_succ_self _)
  | _ => rfl

theorem launchedRounds_eq : ∀ {fuel : Nat} {argv : List Text}, weight argv < fuel →
    launchedRounds fuel argv = .ok (launchOf argv) := by
  intro fuel
  induction fuel with
  | zero => exact fun h => absurd h (Nat.not_lt_zero _)
  | succ fuel ih =>
    intro argv hfuel
    unfold launchedRounds
    rw [launchedProgram_eq, launchOf_eq]
    have hwithin := readLaunched_within argv none false
    simp only [bind, Except.bind]
    cases hread : readLaunched none false argv with
    | splitString expanded =>
      have hlt := hwithin.split expanded hread
      exact ih (by omega)
    | programAt index =>
      have hlt := hwithin.program index hread
      dsimp only
      rw [sliceFrom_of_le (by omega)]
      rfl
    | _ => rfl

theorem launchedArgv_eq (argv : List Text) : launchedArgv argv = .ok (launchedWords argv) := by
  unfold launchedArgv launched
  rw [launchedRounds_eq (Nat.lt_succ_self _)]
  rfl

theorem weight_drop_lt {index : Nat} {argv : List Text} (hpos : 0 < index)
    (h : index < argv.length) : weight (argv.drop index) < weight argv := by
  cases argv with
  | nil => exact absurd h (Nat.not_lt_zero _)
  | cons word argv =>
    obtain ⟨n, rfl⟩ := Nat.exists_eq_add_of_lt hpos
    have := weight_drop_le (0 + n) argv
    rw [drop_succ_cons, weight_cons]
    omega

theorem launchedWords_cases (argv : List Text) :
    launchedWords argv = argv ∨ weight (launchedWords argv) < weight argv := by
  induction hn : weight argv using Nat.strong_induction_on generalizing argv with
  | _ n ih =>
    subst hn
    have hwithin := readLaunched_within argv none false
    -- nothing launched weighs less than any words
    have hnothing : [] = argv ∨ weight [] < weight argv := by
      cases argv with
      | nil => exact Or.inl rfl
      | cons word argv => exact Or.inr (by rw [weight_nil, weight_cons]; omega)
    unfold launchedWords
    rw [launchOf_eq]
    cases hread : readLaunched none false argv with
    | programAt index =>
      cases index with
      | zero => exact Or.inl rfl
      | succ index =>
        exact Or.inr (weight_drop_lt (Nat.succ_pos index) (hwithin.program _ hread))
    | splitString expanded =>
      have hlt := hwithin.split expanded hread
      rcases ih (weight expanded) hlt expanded rfl with heq | hless
      · exact Or.inr (Nat.lt_of_le_of_lt (Nat.le_of_eq (congrArg weight heq)) hlt)
      · exact Or.inr (Nat.lt_trans hless hlt)
    | _ => exact hnothing

end ShellDeny

end TerminalCommander
