import Mathlib.Data.List.Forall2
import TerminalCommander.Probes.StdinGate

/-!
# Prompts after an owner's answer

The reader of a PTY job and the owner's answers, which may come between any two steps of the reader.
`since` is a second normalizer, cleared at every answer and fed the same bytes: its texts are what
was printed after the answer. It and `lastAnswer` are not part of the source.

Whether a prompt is heard after an answer is a matter of the flag `answered`, which an answer to an
open prompt sets and only a completed line clears: `later_prompt_rearms_iff`.
-/

namespace TerminalCommander

open SecretGate Pty Bool

/-! ## The gate, field by field -/

namespace SecretGate

theorem scrubLine_eq (g : SecretGate) (line : Text) :
    ∃ scrub, (g.scrubLine line).2 = { g with scrub := scrub } := by
  unfold scrubLine
  split
  · exact ⟨g.scrub, rfl⟩
  · simp only
    split_ifs
    · exact ⟨_, rfl⟩
    · exact ⟨_, rfl⟩

theorem armScrub_eq (g : SecretGate) (line : List UInt8) :
    ∃ scrub, g.armScrub line = { g with scrub := scrub } := by
  unfold armScrub
  split_ifs
  · exact ⟨g.scrub, rfl⟩
  · exact ⟨_, rfl⟩

theorem settle_secret {g : SecretGate} {kind : PromptKind} (h : kind.isSecret)
    (nowMs : Nat) : (g.settle kind nowMs).2.active ∧
      (g.settle kind nowMs).2.generation =
        if g.active then g.generation else wrapAdd g.generation 1 := by
  unfold settle
  rw [if_pos h]
  by_cases hact : g.active
  · rw [if_pos hact, if_pos hact]
    exact ⟨hact, rfl⟩
  · rw [if_neg hact, if_neg hact]
    exact ⟨rfl, rfl⟩

theorem settle_other {g : SecretGate} {kind : PromptKind} (h : kind.isSecret = false)
    (nowMs : Nat) : (g.settle kind nowMs).2.active = (g.active && !kind.resolves) ∧
      (g.settle kind nowMs).2.generation = g.generation := by
  unfold settle
  rw [if_neg (by simp [h])]
  by_cases hr : kind.resolves
  · rw [if_pos hr, hr]
    exact ⟨(Bool.and_false _).symm, rfl⟩
  · rw [if_neg hr, eq_false_of_ne_true hr]
    exact ⟨(Bool.and_true _).symm, rfl⟩

theorem settle_answered (g : SecretGate) (kind : PromptKind) (nowMs : Nat) :
    (g.settle kind nowMs).2.answered = g.answered := by
  unfold settle
  split_ifs <;> rfl

end SecretGate

/-! ## The two reader steps -/

def scrubbed (g : SecretGate) (line : Text) : Text := (g.scrubLine line).1.getD line

theorem processLine_gate (lower : Text → Text) (nowMs : Nat) (r : Reader) (line : Text) :
    ∃ scrub, (processLine lower nowMs r line).gate =
      (settle { r.gate with scrub := scrub, answered := false, pending := false }
        (effectiveKind lower (scrubbed r.gate line) r.gate.answered) nowMs).2 := by
  obtain ⟨scrub, hscrub⟩ := r.gate.scrubLine_eq line
  refine ⟨scrub, ?_⟩
  have hgate : (processLine lower nowMs r line).gate =
      (settle (((r.gate.scrubLine line).2.swapAnswered.2).setPending false)
        (effectiveKind lower (scrubbed r.gate line) (r.gate.scrubLine line).2.answered)
        nowMs).2 := rfl
  rw [hgate, hscrub]
  rfl

theorem processLine_answered (lower : Text → Text) (nowMs : Nat) (r : Reader) (line : Text) :
    (processLine lower nowMs r line).gate.answered = false := by
  obtain ⟨scrub, h⟩ := processLine_gate lower nowMs r line
  rw [h, settle_answered]

variable {r : Reader}

section

variable (lower : Text → Text) (nowMs : Nat)

theorem peekCandidates_active (h : r.gate.active) (candidates : List Text) :
    peekCandidates lower nowMs r candidates = r := by
  induction candidates with
  | nil => rfl
  | cons candidate rest ih =>
    unfold peekCandidates
    rw [if_neg (by simp [h]), ih]

theorem peekCandidates_cases (r : Reader)
    (candidates : List Text) : (peekCandidates lower nowMs r candidates).gate = r.gate ∨
      (peekCandidates lower nowMs r candidates).gate.answered = r.gate.answered ∧
      (peekCandidates lower nowMs r candidates).gate.generation = wrapAdd r.gate.generation 1 := by
  induction candidates with
  | nil => exact .inl rfl
  | cons candidate rest ih =>
    unfold peekCandidates
    simp only
    split_ifs
    · exact .inr ⟨rfl, rfl⟩
    · exact ih

theorem peekCandidates_secret (hact : r.gate.active = false) : ∀ {candidates : List Text},
      (∃ c ∈ candidates, c.isEmpty = false ∧ (classify lower c).isSecret) →
      (peekCandidates lower nowMs r candidates).gate.active ∧
      (peekCandidates lower nowMs r candidates).gate.generation =
        wrapAdd r.gate.generation 1 := by
  intro candidates
  induction candidates with
  | nil => exact fun ⟨_, hc, _⟩ => absurd hc List.not_mem_nil
  | cons candidate rest ih =>
    rintro ⟨c, hc, hne, hsec⟩
    unfold peekCandidates
    by_cases hhere : candidate.isEmpty = false ∧ (classify lower candidate).isSecret
    · rw [if_pos ⟨hhere.1, hhere.2, hact⟩]
      exact ⟨rfl, rfl⟩
    · rw [if_neg (fun h => hhere ⟨h.1, h.2.1⟩)]
      refine ih ⟨c, (List.mem_cons.mp hc).resolve_left ?_, hne, hsec⟩
      rintro rfl
      exact hhere ⟨hne, hsec⟩

end

namespace Rearm

/-! ## The system -/

variable {P : Type}

structure Sys (P : Type) extends Reader where
  norm : AnsiNormalizer P
  /-- The completed lines of the chunk that are still to be processed, while there is one. -/
  todo : Option (List Text)
  since : AnsiNormalizer P
  todoSince : List Text
  lastAnswer : Option Nat

inductive Action where
  | chunk (bytes : List UInt8)
  | line (nowMs : Nat)
  | peek (nowMs : Nat)
  | answer (bytes : List UInt8)
  | finish (nowMs : Nat)

def init (vte : VteParser P) : Sys P := ⟨⟨.new, .zero, []⟩, .new vte, none, .new vte, [], none⟩

def Sys.answer (s : Sys P) (bytes : List UInt8) : Sys P :=
  if s.gate.disarmForOwner.1 then { s with
    gate := s.gate.disarmForOwner.2.armScrub bytes
    since := ⟨⟨[], [], [], false⟩, s.norm.parser⟩
    todoSince := s.todoSince.map fun _ => []
    lastAnswer := some s.gate.generation }
  else s

def step (lower : Text → Text) (vte : VteParser P) (s : Sys P) : Action → Option (Sys P)
  | .chunk bytes =>
    if s.todo.isSome then none
    else some { s with
      norm := (s.norm.feed vte bytes).takeLines.2
      todo := some (s.norm.feed vte bytes).takeLines.1
      since := (s.since.feed vte bytes).takeLines.2
      todoSince := (s.since.feed vte bytes).takeLines.1 }
  | .line nowMs =>
    match s.todo with
    | some (line :: todo) => some { s with
        toReader := processLine lower nowMs s.toReader line
        todo := some todo
        todoSince := s.todoSince.tail }
    | _ => none
  | .peek nowMs =>
    if s.todo = some [] then some { s with
      toReader := classifyPendingSecret lower nowMs
        [s.norm.peekPending, s.norm.takeOverwritten.1] s.toReader
      norm := s.norm.takeOverwritten.2
      todo := none
      since := s.since.takeOverwritten.2 }
    else none
  | .answer bytes => some (s.answer bytes)
  | .finish nowMs =>
    if s.todo.isSome then none
    else match s.norm.flush.1 with
      | some line => some { s with
          toReader := processLine lower nowMs s.toReader line
          norm := s.norm.flush.2
          since := s.since.flush.2 }
      | none => some s

def consumed (s : Sys P) : Action → List (Text × Text)
  | .line _ =>
    match s.todo with
    | some (line :: _) => [(line, s.todoSince.headD [])]
    | _ => []
  | .peek _ =>
    [(s.norm.peekPending, s.since.peekPending),
      (s.norm.takeOverwritten.1, s.since.takeOverwritten.1)]
  | .finish _ =>
    match s.norm.flush.1 with
    | some line => [(line, s.since.flush.1.getD [])]
    | none => []
  | _ => []

def PromptSinceAnswer (lower : Text → Text) (s : Sys P) (a : Action) : Prop :=
  ∃ t ∈ consumed s a, t.1.isEmpty = false ∧ (classify lower t.1).isSecret = true ∧
    t.2.isEmpty = false ∧ (classify lower t.2).isSecret = true

def Rearmed (generation : Nat) (s : Sys P) : Prop :=
  s.gate.active = true ∧ generation < s.gate.generation

def HeardLine (lower : Text → Text) (g : SecretGate) (line : Text) : Prop :=
  g.answered = false ∧ ((classify lower (scrubbed g line)).isSecret = true ∨
    g.active = true ∧ (classify lower (scrubbed g line)).resolves = false)

def Heard (lower : Text → Text) (s : Sys P) : Action → Prop
  | .peek _ => s.gate.answered = false
  | a => ∀ t ∈ consumed s a, HeardLine lower s.gate t.1

variable {lower : Text → Text} {vte : VteParser P} {s s' : Sys P}

/-! ## What a step does to the gate -/

structure ReaderStep (g g' : SecretGate) : Prop where
  answered : g'.answered = true → g' = g
  moved : g'.generation = g.generation ∧ (g'.active = true → g.active = true) ∨
    g'.generation = g.generation + 1

theorem processLine_readerStep (hgen : r.gate.generation < u64Max) (nowMs : Nat)
    (line : Text) : ReaderStep r.gate (processLine lower nowMs r line).gate := by
  refine ⟨fun h => ?_, ?_⟩
  · rw [processLine_answered] at h
    cases h
  · obtain ⟨scrub, hgate⟩ := processLine_gate lower nowMs r line
    rw [hgate]
    by_cases hs : (effectiveKind lower (scrubbed r.gate line) r.gate.answered).isSecret
    · rw [(settle_secret hs nowMs).2]
      by_cases hact : r.gate.active
      · rw [if_pos hact]
        exact .inl ⟨rfl, fun _ => hact⟩
      · rw [if_neg hact]
        exact .inr (wrapAdd_of_le hgen)
    · obtain ⟨hact, hsame⟩ :=
        settle_other (g := { r.gate with scrub, answered := false, pending := false })
          (eq_false_of_ne_true hs) nowMs
      rw [hact, hsame]
      exact .inl ⟨rfl, fun h => (and_eq_true_iff.mp h).1⟩

theorem classifyPendingSecret_readerStep (hgen : r.gate.generation < u64Max)
    (nowMs : Nat) (candidates : List Text) :
    ReaderStep r.gate (classifyPendingSecret lower nowMs candidates r).gate := by
  unfold classifyPendingSecret
  by_cases hans : r.gate.answered
  · rw [if_pos hans]
    exact ⟨fun _ => rfl, .inl ⟨rfl, id⟩⟩
  · rw [if_neg hans]
    rcases peekCandidates_cases lower nowMs r candidates with h | ⟨ha, hg⟩
    · rw [h]
      exact ⟨fun _ => rfl, .inl ⟨rfl, id⟩⟩
    · refine ⟨fun h => absurd (ha ▸ h) hans, .inr ?_⟩
      rw [hg]
      exact wrapAdd_of_le hgen

structure Inv (s : Sys P) : Prop where
  answered : s.gate.answered = true → s.gate.active = false
  generation : ∀ g, s.lastAnswer = some g → g ≤ s.gate.generation
  active : ∀ g, s.lastAnswer = some g → s.gate.active = true → g < s.gate.generation

theorem init_inv (vte : VteParser P) : Inv (init vte) := ⟨nofun, nofun, nofun⟩

theorem Inv.reader (h : Inv s) (hgate : ReaderStep s.gate s'.gate)
    (hlast : s'.lastAnswer = s.lastAnswer) : Inv s' := by
  refine ⟨fun hans => ?_, fun g hg => ?_, fun g hg hact => ?_⟩
  · have hsame := hgate.answered hans
    rw [hsame] at hans ⊢
    exact h.answered hans
  · have := h.generation g (hlast ▸ hg)
    rcases hgate.moved with ⟨hsame, -⟩ | hnext <;> omega
  · rcases hgate.moved with ⟨hsame, hkeep⟩ | hnext
    · have := h.active g (hlast ▸ hg) (hkeep hact)
      omega
    · have := h.generation g (hlast ▸ hg)
      omega

theorem Inv.answer (h : Inv s) (bytes : List UInt8) : Inv (s.answer bytes) := by
  unfold Sys.answer
  split_ifs with hup
  · obtain ⟨scrub, hscrub⟩ := s.gate.disarmForOwner.2.armScrub_eq bytes
    have hact : s.gate.active := by
      unfold disarmForOwner at hup
      by_contra hnot
      rw [if_neg hnot] at hup
      cases hup
    have hgate : s.gate.disarmForOwner.2.armScrub bytes =
        { s.gate with answered := s.gate.pending, active := false, scrub := scrub } := by
      rw [hscrub]
      unfold disarmForOwner
      rw [if_pos hact]
      rfl
    rw [hgate]
    refine ⟨fun _ => rfl, fun g hg => ?_, nofun⟩
    cases hg
    exact Nat.le_refl _
  · exact h

def Unwrapped (s : Sys P) (_ : Action) : Prop := s.gate.generation < u64Max

theorem Inv.step {a : Action} (h : Inv s) (hG : Unwrapped s a)
    (hstep : Rearm.step lower vte s a = some s') : Inv s' := by
  unfold Rearm.step at hstep
  cases a with
  | chunk bytes =>
    simp only at hstep
    split_ifs at hstep
    cases hstep
    exact h.reader ⟨fun _ => rfl, .inl ⟨rfl, id⟩⟩ rfl
  | line nowMs =>
    simp only at hstep
    split at hstep
    · cases hstep
      exact h.reader (processLine_readerStep hG nowMs _) rfl
    · cases hstep
  | peek nowMs =>
    simp only at hstep
    split_ifs at hstep
    cases hstep
    exact h.reader (classifyPendingSecret_readerStep hG nowMs _) rfl
  | answer bytes =>
    cases hstep
    exact h.answer bytes
  | finish nowMs =>
    simp only at hstep
    split_ifs at hstep
    split at hstep
    · cases hstep
      exact h.reader (processLine_readerStep hG nowMs _) rfl
    · cases hstep
      exact h

/-! ## Prompts that are heard -/

theorem effectiveKind_answered (lower : Text → Text) (text : Text) :
    (effectiveKind lower text true).isSecret = false := by
  unfold effectiveKind
  by_cases h : (classify lower text).isSecret
  · simp only [h, Bool.and_self, if_true]
    rfl
  · simp [h]

theorem effectiveKind_unanswered (lower : Text → Text) (text : Text) :
    effectiveKind lower text false = classify lower text := by
  unfold effectiveKind
  simp

variable {generation : Nat}

theorem processLine_rearmed_iff (h : Inv s) (hG : s.gate.generation < u64Max)
    (hlast : s.lastAnswer = some generation) (nowMs : Nat) (line : Text) :
    ((processLine lower nowMs s.toReader line).gate.active ∧
        generation < (processLine lower nowMs s.toReader line).gate.generation) ↔
      HeardLine lower s.gate line := by
  obtain ⟨scrub, hgate⟩ := processLine_gate lower nowMs s.toReader line
  have hle := h.generation _ hlast
  rw [hgate]
  unfold HeardLine
  by_cases hans : s.gate.answered
  · -- the line is taken for the line of the answered prompt
    rw [hans, (settle_other (effectiveKind_answered lower _) nowMs).1]
    simp [h.answered hans]
  · rw [eq_false_of_ne_true hans, effectiveKind_unanswered]
    by_cases hs : (classify lower (scrubbed s.gate line)).isSecret
    · rw [(settle_secret hs nowMs).1, (settle_secret hs nowMs).2]
      refine iff_of_true ⟨rfl, ?_⟩ ⟨rfl, .inl hs⟩
      by_cases hact : s.gate.active
      · rw [if_pos hact]
        exact h.active _ hlast hact
      · rw [if_neg hact, wrapAdd_of_le hG]
        exact Nat.lt_succ_of_le hle
    · rw [(settle_other (eq_false_of_ne_true hs) nowMs).1,
        (settle_other (eq_false_of_ne_true hs) nowMs).2]
      constructor
      · rintro ⟨hact, -⟩
        obtain ⟨hact, hr⟩ := and_eq_true_iff.mp hact
        exact ⟨rfl, .inr ⟨hact, (not_eq_true' _).mp hr⟩⟩
      · rintro ⟨-, hs' | ⟨hact, hr⟩⟩
        · exact absurd hs' hs
        · refine ⟨?_, h.active _ hlast hact⟩
          rw [hr]
          exact and_eq_true_iff.mpr ⟨hact, rfl⟩

theorem classifyPendingSecret_rearmed_iff (h : Inv s) (hG : s.gate.generation < u64Max)
    (hlast : s.lastAnswer = some generation) (nowMs : Nat) {candidates : List Text}
    (hc : ∃ c ∈ candidates, c.isEmpty = false ∧ (classify lower c).isSecret) :
    ((classifyPendingSecret lower nowMs candidates s.toReader).gate.active ∧
        generation < (classifyPendingSecret lower nowMs candidates s.toReader).gate.generation) ↔
      s.gate.answered = false := by
  have hle := h.generation _ hlast
  unfold classifyPendingSecret
  by_cases hans : s.gate.answered
  · rw [if_pos hans, hans, h.answered hans]
    simp
  · rw [if_neg hans]
    refine iff_of_true ?_ (eq_false_of_ne_true hans)
    by_cases hact : s.gate.active
    · rw [peekCandidates_active lower nowMs hact]
      exact ⟨hact, h.active _ hlast hact⟩
    · obtain ⟨hup, hnext⟩ :=
        peekCandidates_secret lower nowMs (r := s.toReader) (eq_false_of_ne_true hact) hc
      rw [hnext, wrapAdd_of_le hG]
      exact ⟨hup, Nat.lt_succ_of_le hle⟩

theorem Inv.rearmed_iff {a : Action} (h : Inv s) (hG : Unwrapped s a)
    (hstep : Rearm.step lower vte s a = some s')
    (hlast : s.lastAnswer = some generation) (hprompt : PromptSinceAnswer lower s a) :
    Rearmed generation s' ↔ Heard lower s a := by
  unfold Rearm.step at hstep
  unfold PromptSinceAnswer at hprompt
  unfold Heard
  cases a with
  | line nowMs =>
    simp only [consumed] at hstep hprompt ⊢
    split at hstep
    · rename_i line todo htodo
      cases hstep
      simp only [List.forall_mem_singleton]
      exact processLine_rearmed_iff h hG hlast nowMs line
    · cases hstep
  | peek nowMs =>
    simp only at hstep ⊢
    split_ifs at hstep
    cases hstep
    obtain ⟨t, ht, hne, hsec, -⟩ := hprompt
    refine classifyPendingSecret_rearmed_iff h hG hlast nowMs ⟨t.1, ?_, hne, hsec⟩
    exact List.mem_map_of_mem (f := Prod.fst) ht
  | finish nowMs =>
    simp only [consumed] at hstep hprompt ⊢
    split_ifs at hstep
    split at hstep
    · rename_i line hline
      cases hstep
      simp only [List.forall_mem_singleton]
      exact processLine_rearmed_iff h hG hlast nowMs line
    · rename_i hline
      simp [hline] at hprompt
  | _ => exact absurd hprompt (by simp [consumed])

/-- **Prompts after an answer.** In every run of the reader and the owner, a step that consumes a
secret prompt printed after the last answer leaves the gate active in a later generation exactly if
the prompt is heard: no answer is waiting for the line of its own prompt to complete, and, for a
completed line, the mask of the owner's secret does not hide the prompt. -/
theorem later_prompt_rearms_iff {P : Type} (lower : Text → Text) (vte : VteParser P)
    (as bs : List Action) (a : Action) (s s' : Sys P) (generation : Nat)
    (hG : Transition.Meets (step lower vte) Unwrapped (init vte) (as ++ a :: bs))
    (hrun : Transition.run (step lower vte) (init vte) as = some s)
    (ha : step lower vte s a = some s') (hlast : s.lastAnswer = some generation)
    (hprompt : PromptSinceAnswer lower s a) :
    Rearmed generation s' ↔ Heard lower s a := by
  have hstep : ∀ s a s', Inv s → Unwrapped s a → step lower vte s a = some s' → Inv s' :=
    fun _ _ _ h hG hs => h.step hG hs
  obtain ⟨hpre, hlastG⟩ := hG.of_append hrun
  have hinv := Transition.run_invariant hstep (init_inv vte) hpre hrun
  exact hinv.rearmed_iff hlastG ha hlast hprompt

/-! ## Two runs -/

instance (s : Sys P) (a : Action) : Decidable (Unwrapped s a) :=
  inferInstanceAs (Decidable (_ < _))

instance (lower : Text → Text) (s : Sys P) (a : Action) : Decidable (PromptSinceAnswer lower s a) :=
  inferInstanceAs (Decidable (∃ t ∈ consumed s a, _))

instance (generation : Nat) (s : Sys P) : Decidable (Rearmed generation s) :=
  inferInstanceAs (Decidable (_ ∧ _))

def answeredPrompt : List Action :=
  [.chunk (Pty.bytesOf "Password: "), .peek 1, .answer (Pty.bytesOf "hunter2\n")]

def nextLine : List Action :=
  answeredPrompt ++ [.chunk (Pty.bytesOf "\r\nPassword: "), .line 2]

theorem next_line_rearmed : ∃ s s',
    Transition.run (step Pty.asciiLower Pty.asciiVte) (init Pty.asciiVte) nextLine = some s ∧
      step Pty.asciiLower Pty.asciiVte s (.peek 3) = some s' ∧
      PromptSinceAnswer Pty.asciiLower s (.peek 3) ∧ s.lastAnswer = some 1 ∧ Rearmed 1 s' := by
  have hrun : ∃ s ∈ Transition.run (step asciiLower asciiVte) (init asciiVte) nextLine,
      ∃ s' ∈ step asciiLower asciiVte s (.peek 3),
        PromptSinceAnswer asciiLower s (.peek 3) ∧ s.lastAnswer = some 1 ∧
          s.gate.answered = false := by
    decide +kernel
  have hG : Transition.Meets (step asciiLower asciiVte) Unwrapped (init asciiVte)
      (nextLine ++ .peek 3 :: []) := by
    decide +kernel
  obtain ⟨s, hs, s', hs', hprompt, hlast, hheard⟩ := hrun
  exact ⟨s, s', hs, hs', hprompt, hlast, (later_prompt_rearms_iff asciiLower asciiVte
    nextLine [] (.peek 3) s s' 1 hG hs hs' hlast hprompt).mpr hheard⟩

def sameLine : List Action := answeredPrompt ++ [.chunk (Pty.bytesOf "Password: ")]

def overwrittenLine : List Action := answeredPrompt ++ [.chunk (Pty.bytesOf "\rPassword: ")]

def Missed (as : List Action) : Prop :=
  ∃ s₁ ∈ Transition.run (step Pty.asciiLower Pty.asciiVte) (init Pty.asciiVte) as,
  ∃ s₂ ∈ step Pty.asciiLower Pty.asciiVte s₁ (.peek 2),
  ∃ s₃ ∈ step Pty.asciiLower Pty.asciiVte s₂ (.chunk (Pty.bytesOf "\n")),
  ∃ s₄ ∈ step Pty.asciiLower Pty.asciiVte s₃ (.line 3),
    PromptSinceAnswer Pty.asciiLower s₁ (.peek 2) ∧ s₁.lastAnswer = some 1 ∧ ¬ Rearmed 1 s₂ ∧
      PromptSinceAnswer Pty.asciiLower s₃ (.line 3) ∧ s₃.lastAnswer = some 1 ∧ ¬ Rearmed 1 s₄

theorem same_line_not_rearmed : Missed sameLine ∧ Missed overwrittenLine := by
  unfold Missed
  decide +kernel

end Rearm

end TerminalCommander
