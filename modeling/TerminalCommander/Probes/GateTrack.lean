import TerminalCommander.Probes.Rearm

/-!
# The gate without the owner

The reader of a PTY job when nobody answers a prompt: `process_line` on completed lines and
`classify_pending_secret` on candidate texts, in any order. The gate is active exactly if a secret
prompt was processed after the last completed line that was a shell or a yes/no prompt
(`active_run`). Of the two `u64` counters the generation wraps and the count of prompts saturates.
-/

namespace TerminalCommander

namespace GateTrack

open List SecretGate PtyProbeMetrics

inductive Action where
  | line (text : Text) (nowMs : Nat)
  | peek (candidates : List Text) (nowMs : Nat)
  deriving DecidableEq, Repr

variable (lower : Text → Text)

def step (r : Reader) : Action → Reader
  | .line text nowMs => processLine lower nowMs r text
  | .peek candidates nowMs => classifyPendingSecret lower nowMs candidates r

def run (r : Reader) (as : List Action) : Reader := as.foldl (step lower) r

def init : Reader := ⟨.new, .zero, []⟩

def secretText (text : Text) : Bool := (classify lower text).isSecret

def Action.texts : Action → List Text
  | .line text _ => [text]
  | .peek candidates _ => candidates.filter fun c => !c.isEmpty

def Action.resolves : Action → Bool
  | .line text _ => (classify lower text).resolves
  | .peek _ _ => false

def Prompted (as : List Action) : Prop :=
  ∃ a ∈ as.rtakeWhile (fun a => !a.resolves lower), ∃ text ∈ a.texts, secretText lower text = true

def flips : Reader → List Action → Nat
  | _, [] => 0
  | r, a :: as =>
    (if r.gate.active = false ∧ (step lower r a).gate.active = true then 1 else 0) +
      flips (step lower r a) as

theorem run_concat (r : Reader) (as : List Action) (a : Action) :
    run lower r (as ++ [a]) = step lower (run lower r as) a := by
  simp only [run, foldl_append, foldl_cons, foldl_nil]

theorem flips_append (as bs : List Action) : ∀ r : Reader,
    flips lower r (as ++ bs) = flips lower r as + flips lower (run lower r as) bs := by
  induction as with
  | nil => exact fun r => (Nat.zero_add _).symm
  | cons a as ih =>
    intro r
    show _ + flips lower (step lower r a) (as ++ bs) = _ + flips lower (step lower r a) as + _
    rw [ih, Nat.add_assoc]
    rfl

/-! ## One step -/

variable {lower}

structure Unowned (g : SecretGate) : Prop where
  answered : g.answered = false
  scrub : g.scrub = none

structure StepSpec (heard resolves : Bool) (r r' : Reader) : Prop where
  unowned : Unowned r'.gate
  active : r'.gate.active = (heard || (r.gate.active && !resolves))
  generation : r'.gate.generation =
    if r.gate.active = false ∧ r'.gate.active = true then wrapAdd r.gate.generation 1
    else r.gate.generation
  secrets : r'.metrics.secretPromptsTotal =
    if r.gate.active = false ∧ r'.gate.active = true then satAdd r.metrics.secretPromptsTotal 1
    else r.metrics.secretPromptsTotal

variable {r : Reader}

theorem processLine_eq (h : Unowned r.gate) (nowMs : Nat) (text : Text) :
    processLine lower nowMs r text =
      ⟨((r.gate.setPending false).settle (classify lower text) nowMs).2,
        r.metrics.countLine (classify lower text)
          ((r.gate.setPending false).settle (classify lower text) nowMs).1,
        r.frames ++ [⟨text, (classify lower text).isSecret⟩]⟩ := by
  have hscrub : r.gate.scrubLine text = (none, r.gate) := by
    simp only [scrubLine, h.scrub]
  have hswap : r.gate.swapAnswered = (false, r.gate) := by
    rw [swapAnswered, h.answered, ← h.answered]
  have hkind : effectiveKind lower text false = classify lower text := by
    simp only [effectiveKind, Bool.false_and, Bool.false_eq_true, if_false]
  unfold processLine
  simp only [hscrub, hswap, Option.getD_none, hkind]

theorem settle_unowned {g : SecretGate} (h : Unowned g) (kind : PromptKind) (nowMs : Nat) :
    Unowned (g.settle kind nowMs).2 := by
  refine ⟨(g.settle_answered kind nowMs).trans h.answered, ?_⟩
  unfold settle
  split_ifs <;> exact h.scrub

variable {kind : PromptKind}

theorem settle_flipped {g : SecretGate} (h : kind.isSecret)
    (nowMs : Nat) : (g.settle kind nowMs).1 = !g.active := by
  unfold settle
  rw [if_pos h]
  split_ifs with hact
  · simp [hact]
  · simp [hact]

theorem countLine_secret (m : PtyProbeMetrics) (h : kind.isSecret)
    (flippedHere : Bool) : (m.countLine kind flippedHere).secretPromptsTotal =
      if flippedHere then satAdd m.secretPromptsTotal 1 else m.secretPromptsTotal := by
  have hne : kind ≠ .none := by
    rintro rfl
    exact Bool.false_ne_true h
  unfold countLine
  simp only [h, if_neg hne, if_true]
  split_ifs <;> rfl

theorem countLine_other (m : PtyProbeMetrics) (h : kind.isSecret = false) (flippedHere : Bool) :
    (m.countLine kind flippedHere).secretPromptsTotal = m.secretPromptsTotal := by
  unfold countLine
  simp only [h, Bool.false_eq_true, if_false]
  split_ifs <;> rfl

theorem line_spec (h : Unowned r.gate) (nowMs : Nat) (text : Text) :
    StepSpec (secretText lower text) (classify lower text).resolves r
      (processLine lower nowMs r text) := by
  rw [processLine_eq h, secretText]
  have hu : Unowned (r.gate.setPending false) := ⟨h.answered, h.scrub⟩
  by_cases hs : (classify lower text).isSecret
  · obtain ⟨hact, hgen⟩ := settle_secret (g := r.gate.setPending false) hs nowMs
    have hcount := countLine_secret r.metrics hs (!r.gate.active)
    refine ⟨settle_unowned hu _ _, by rw [hact, hs, Bool.true_or], ?_, ?_⟩
    · rw [hact, hgen, show (r.gate.setPending false).active = r.gate.active from rfl]
      cases r.gate.active <;> rfl
    · rw [hact, settle_flipped hs nowMs]
      refine hcount.trans ?_
      cases r.gate.active <;> rfl
  · have hs : (classify lower text).isSecret = false := eq_false_of_ne_true hs
    obtain ⟨hact, hgen⟩ := settle_other (g := r.gate.setPending false) hs nowMs
    -- the flag can only be cleared, so nothing is counted
    have hno : ¬ (r.gate.active = false ∧
        ((r.gate.setPending false).settle (classify lower text) nowMs).2.active) := by
      rintro ⟨hfalse, htrue⟩
      rw [hact, show (r.gate.setPending false).active = false from hfalse] at htrue
      exact Bool.false_ne_true htrue
    refine ⟨settle_unowned hu _ _, by rw [hact, hs, Bool.false_or]; rfl, ?_, ?_⟩
    · rw [if_neg hno, hgen]
      rfl
    · rw [if_neg hno, countLine_other r.metrics hs]

def armedBy (r : Reader) (kind : PromptKind) (nowMs : Nat) : Reader :=
  { r with
    gate := (((r.gate.setActive true).bumpGeneration).setPending true).recordArm kind nowMs
    metrics := r.metrics.countSecret }

def anySecret (lower : Text → Text) (candidates : List Text) : Bool :=
  (candidates.filter fun c => !c.isEmpty).any (secretText lower)

theorem anySecret_cons (candidate : Text) (rest : List Text) : anySecret lower (candidate :: rest) =
      (!candidate.isEmpty && secretText lower candidate || anySecret lower rest) := by
  unfold anySecret
  rw [filter_cons]
  cases candidate.isEmpty <;> simp

theorem peekCandidates_inactive (h : r.gate.active = false) (nowMs : Nat) (candidates : List Text) :
    (anySecret lower candidates = false ∧ peekCandidates lower nowMs r candidates = r) ∨
    (anySecret lower candidates ∧
      ∃ kind, peekCandidates lower nowMs r candidates = armedBy r kind nowMs) := by
  induction candidates with
  | nil => exact .inl ⟨rfl, rfl⟩
  | cons candidate rest ih =>
    rw [anySecret_cons]
    unfold peekCandidates
    by_cases hhere : candidate.isEmpty = false ∧ secretText lower candidate
    · rw [if_pos ⟨hhere.1, hhere.2, h⟩, hhere.1, hhere.2]
      exact .inr ⟨rfl, _, rfl⟩
    · have hnot : (!candidate.isEmpty && secretText lower candidate) = false := by
        apply eq_false_of_ne_true
        simpa using hhere
      rw [if_neg (fun hall => hhere ⟨hall.1, hall.2.1⟩), hnot, Bool.false_or]
      exact ih

theorem peek_spec (h : Unowned r.gate) (nowMs : Nat) (candidates : List Text) :
    StepSpec (anySecret lower candidates) false r
      (classifyPendingSecret lower nowMs candidates r) := by
  have hpeek : classifyPendingSecret lower nowMs candidates r =
      peekCandidates lower nowMs r candidates := by
    unfold classifyPendingSecret
    rw [h.answered]
    rfl
  rw [hpeek]
  by_cases hact : r.gate.active
  · rw [peekCandidates_active lower nowMs hact]
    exact ⟨h, by simp [hact], by simp [hact], by simp [hact]⟩
  · have hact : r.gate.active = false := eq_false_of_ne_true hact
    rcases peekCandidates_inactive hact nowMs candidates with ⟨hany, heq⟩ | ⟨hany, kind, heq⟩
    · rw [hany, heq]
      exact ⟨h, by simp [hact], by simp [hact], by simp [hact]⟩
    · rw [hany, heq]
      exact ⟨⟨h.answered, h.scrub⟩, rfl, (if_pos ⟨hact, rfl⟩).symm, (if_pos ⟨hact, rfl⟩).symm⟩

theorem step_spec (h : Unowned r.gate) (a : Action) :
    StepSpec (a.texts.any (secretText lower)) (a.resolves lower) r (step lower r a) := by
  cases a with
  | line text nowMs =>
    have hany : (Action.line text nowMs).texts.any (secretText lower) = secretText lower text := by
      simp only [Action.texts, any_cons, any_nil, Bool.or_false]
    rw [hany]
    exact line_spec h nowMs text
  | peek candidates nowMs => exact peek_spec h nowMs candidates

theorem not_secret_of_resolves {a : Action} (h : a.resolves lower) :
    a.texts.any (secretText lower) = false := by
  cases a with
  | line text nowMs =>
    have hkind : ∀ kind : PromptKind, kind.resolves → kind.isSecret = false := by
      intro kind
      cases kind <;> decide
    simp only [Action.texts, any_cons, any_nil, Bool.or_false]
    exact hkind _ h
  | peek candidates nowMs => exact absurd h Bool.false_ne_true

/-! ## Whole runs -/

theorem run_unowned (h : Unowned r.gate) (as : List Action) : Unowned (run lower r as).gate := by
  induction as using reverseRecOn with
  | nil => exact h
  | append_singleton as a ih =>
    rw [run_concat]
    exact (step_spec ih a).unowned

theorem active_run (h : Unowned r.gate) (hact : r.gate.active = false)
    (as : List Action) : (run lower r as).gate.active ↔ Prompted lower as := by
  induction as using reverseRecOn with
  | nil => simp [run, hact, Prompted]
  | append_singleton as a ih =>
    rw [run_concat, (step_spec (run_unowned h as) a).active, Prompted, rtakeWhile_concat]
    by_cases hr : a.resolves lower
    · -- the line ends whatever prompt was up
      simp [hr, not_secret_of_resolves hr]
    · have hr : a.resolves lower = false := eq_false_of_ne_true hr
      rw [hr, Bool.not_false, if_pos rfl, Bool.and_true, Bool.or_eq_true, ih, Prompted,
        List.any_eq_true]
      simp only [mem_append, mem_singleton, or_and_right, exists_or, exists_eq_left]
      exact or_comm

theorem init_unowned : Unowned init.gate := ⟨rfl, rfl⟩

theorem run_spec (lower : Text → Text) (as : List Action) (a : Action) :
    StepSpec (a.texts.any (secretText lower)) (a.resolves lower) (run lower init as)
      (run lower init (as ++ [a])) := by
  rw [run_concat]
  exact step_spec (run_unowned init_unowned as) a

theorem flips_concat (as : List Action) (a : Action) (r : Reader) :
    flips lower r (as ++ [a]) = flips lower r as +
      if (run lower r as).gate.active = false ∧ (run lower r (as ++ [a])).gate.active
        then 1 else 0 := by
  rw [flips_append, run_concat]
  rfl

theorem generation_run (as : List Action) :
    (run lower init as).gate.generation = flips lower init as % (u64Max + 1) := by
  induction as using reverseRecOn with
  | nil => rfl
  | append_singleton as a ih =>
    rw [flips_concat, (run_spec lower as a).generation, ih]
    split_ifs
    · unfold wrapAdd u64Max
      omega
    · rfl

theorem secrets_run (as : List Action) :
    (run lower init as).metrics.secretPromptsTotal = min (flips lower init as) u64Max := by
  induction as using reverseRecOn with
  | nil => rfl
  | append_singleton as a ih =>
    rw [flips_concat, (run_spec lower as a).secrets, ih]
    split_ifs
    · unfold satAdd
      omega
    · rfl

/-- **The gate tracks the prompts.** After any sequence of reader steps without an owner, the gate
is active exactly if some secret prompt was processed after the last completed line that is a shell
or a yes/no prompt; the generation is the number of flips as a wrapping counter and the count of
secret prompts the same as a saturating one, so that the three are equal exactly below `2^64`
flips; and a completed line that is no prompt leaves the gate as it is. -/
theorem gate_tracks_prompts (lower : Text → Text) (as : List Action) :
    ((run lower init as).gate.active = true ↔ Prompted lower as) ∧
    ((run lower init as).gate.generation = flips lower init as % (u64Max + 1) ∧
      (run lower init as).metrics.secretPromptsTotal = min (flips lower init as) u64Max) ∧
    ((run lower init as).gate.generation = flips lower init as ∧
      (run lower init as).metrics.secretPromptsTotal = flips lower init as ↔
        flips lower init as ≤ u64Max) ∧ ∀ text nowMs, classify lower text = .none →
      (run lower init (as ++ [.line text nowMs])).gate.active =
        (run lower init as).gate.active := by
  refine ⟨active_run init_unowned rfl as, ⟨generation_run as, secrets_run as⟩, ?_, ?_⟩
  · rw [generation_run, secrets_run]
    constructor
    · rintro ⟨-, h⟩
      omega
    · intro h
      exact ⟨Nat.mod_eq_of_lt (by omega), Nat.min_eq_left h⟩
  · intro text nowMs hkind
    rw [(run_spec lower as _).active]
    simp [Action.texts, Action.resolves, secretText, hkind, PromptKind.isSecret,
      PromptKind.resolves]

/-! ## Past the largest counter -/

def rounds (n : Nat) : List Action :=
  (List.replicate n [.line "Password:".toList 0, .line "$".toList 0]).flatten

theorem rounds_succ (n : Nat) : rounds (n + 1) =
    rounds n ++ [.line "Password:".toList 0] ++ [.line "$".toList 0] := by
  unfold rounds
  rw [replicate_succ', flatten_append, flatten_singleton, append_assoc]
  rfl

theorem rounds_flips (n : Nat) : flips Pty.asciiLower init (rounds n) = n ∧
    (run Pty.asciiLower init (rounds n)).gate.active = false := by
  induction n with
  | zero => exact ⟨rfl, rfl⟩
  | succ n ih =>
    have hprompt : (run Pty.asciiLower init
        (rounds n ++ [.line "Password:".toList 0])).gate.active := by
      rw [(run_spec Pty.asciiLower (rounds n) _).active, ih.2]
      decide
    have hshell : (run Pty.asciiLower init (rounds (n + 1))).gate.active = false := by
      rw [rounds_succ, (run_spec Pty.asciiLower _ _).active, hprompt]
      decide
    refine ⟨?_, hshell⟩
    rw [rounds_succ] at hshell ⊢
    rw [flips_concat, flips_concat, ih.1, ih.2, hprompt, hshell]
    rfl

/-- At the flip that wraps the generation the three numbers differ. -/
theorem counters_part : ∃ as, flips Pty.asciiLower init as = u64Max + 1 ∧
    (run Pty.asciiLower init as).gate.generation = 0 ∧
    (run Pty.asciiLower init as).metrics.secretPromptsTotal = u64Max := by
  refine ⟨rounds (u64Max + 1), (rounds_flips _).1, ?_, ?_⟩
  · rw [generation_run, (rounds_flips _).1, Nat.mod_self]
  · rw [secrets_run, (rounds_flips _).1]
    omega

end GateTrack

end TerminalCommander
