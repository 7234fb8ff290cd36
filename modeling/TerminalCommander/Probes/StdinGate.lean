import TerminalCommander.Probes.PtyStream

/-!
# No model input under a secret prompt

A `write_stdin` call looks at the gate once, when it is called; the streaming task writes what is
queued without looking again. So the bytes stay off a secret prompt as long as the gate is never
armed over a call that has passed its look and whose bytes are still to be written.
-/

namespace TerminalCommander

namespace Pty

open List Transition

variable {P : Type} {lower : Text → Text} {vte : VteParser P} {s s' : Sys P}

def Call.passed (call : Call) : Bool :=
  match call.pc with
  | .ready => true
  | _ => false

def StreamPc.writesModel : StreamPc → Bool
  | .writing msg _ => !msg.owner
  | _ => false

def Sys.ModelInFlight (s : Sys P) : Prop :=
  (∃ call ∈ s.calls, call.passed = true) ∨ (∃ msg ∈ s.queue, msg.owner = false) ∨
    s.stream.writesModel = true

instance (s : Sys P) : Decidable s.ModelInFlight :=
  inferInstanceAs (Decidable (_ ∨ _))

def Arms (lower : Text → Text) (s : Sys P) : Action → Bool
  | .advance _ =>
    match s.stream with
    | .settling _ kind _ _ => kind.isSecret
    | .peeking (candidate :: _) => !candidate.isEmpty && (classify lower candidate).isSecret
    | _ => false
  | .call k =>
    match s.calls[k]? with
    | some ⟨_, _, .unanswered _⟩ => true
    | _ => false
  | _ => false

def QuietArm (lower : Text → Text) (s : Sys P) (a : Action) : Prop :=
  Arms lower s a = true → ¬ s.ModelInFlight

instance (s : Sys P) (a : Action) : Decidable (QuietArm lower s a) :=
  inferInstanceAs (Decidable (_ → _))

def GatedOutput (s s' : Sys P) : Prop :=
  ∀ bytes, s'.terminal = s.terminal ++ [(false, bytes)] → s.gate.active = false

/-! ## What a step does -/

structure Effect (arms : Prop) (s s' : Sys P) : Prop where
  flight : s'.gate.active = true → s'.ModelInFlight → s.ModelInFlight
  active : s'.gate.active = true → s.gate.active = true ∨ arms
  output : ∀ bytes, s'.terminal = s.terminal ++ [(false, bytes)] → s.stream.writesModel = true

theorem no_output {α : Type} {l l' : List α} {a : α} (h : l' = l) : l' ≠ l ++ [a] := by
  intro h'
  have := congrArg List.length (h.symm.trans h')
  simp at this

variable {call : Call} {k : Nat} {arms : Prop}

theorem Effect.setPc {pc : CallPc}
    (hcalls : s'.calls = (s.setPc k call pc).calls) (hpc : pc ≠ .ready)
    (hqueue : s'.queue = s.queue) (hstr : s'.stream = s.stream) (hterm : s'.terminal = s.terminal)
    (hact : s'.gate.active → s.gate.active ∨ arms) : Effect arms s s' where
  flight := by
    rintro - (⟨call', hcall', hpass⟩ | hqueued | hwrite)
    · rw [hcalls] at hcall'
      rcases mem_or_eq_of_mem_set hcall' with hold | rfl
      · exact .inl ⟨call', hold, hpass⟩
      · unfold Call.passed at hpass
        split at hpass
        · next hready => exact absurd hready hpc
        · cases hpass
    · rw [hqueue] at hqueued
      exact .inr (.inl hqueued)
    · rw [hstr] at hwrite
      exact .inr (.inr hwrite)
  active := hact
  output := fun _ h => absurd h (no_output hterm)

theorem Effect.stream (hcalls : s'.calls = s.calls) (hqueue : s'.queue = s.queue)
    (hstr : s'.stream.writesModel = false) (hterm : s'.terminal = s.terminal)
    (hact : s'.gate.active → s.gate.active ∨ arms) : Effect arms s s' where
  flight := by
    rintro - (hpass | hqueued | hwrite)
    · rw [hcalls] at hpass
      exact .inl hpass
    · rw [hqueue] at hqueued
      exact .inr (.inl hqueued)
    · rw [hstr] at hwrite
      cases hwrite
  active := hact
  output := fun _ h => absurd h (no_output hterm)

theorem send_effect {owner : Bool} (h : s.send k call owner = some s') (hcall : call ∈ s.calls)
    (howner : owner = false → call.pc = .ready) : Effect arms s s' := by
  unfold Sys.send at h
  split_ifs at h
  · cases h
    exact .setPc rfl nofun rfl rfl rfl .inl
  · cases h
    have hset : Effect arms s (s.setPc k call .queued) := .setPc rfl nofun rfl rfl rfl .inl
    refine { hset with flight := ?_ }
    rintro hact (hpass | ⟨msg, hmsg, hmodel⟩ | hwrite)
    · exact hset.flight hact (.inl hpass)
    · rcases mem_append.mp hmsg with hold | hnew
      · exact .inr (.inl ⟨msg, hold, hmodel⟩)
      · -- the message is the one of a call that had passed its look
        rw [mem_singleton.mp hnew] at hmodel
        refine .inl ⟨call, hcall, ?_⟩
        rw [Call.passed, howner hmodel]
    · exact .inr (.inr hwrite)

theorem callNext_effect (hcall : call ∈ s.calls)
    (harms : ∀ e, call.pc = .unanswered e → arms) (h : s.callNext k call = some s') :
    Effect arms s s' := by
  unfold Sys.callNext at h
  split at h
  case h_1 =>
    split_ifs at h with hlong howner hup hact <;> cases h
    · exact .setPc rfl nofun rfl rfl rfl .inl
    · exact .setPc rfl nofun rfl rfl rfl .inl
    · exact .setPc rfl nofun rfl rfl rfl .inl
    · exact .setPc rfl nofun rfl rfl rfl .inl
    · -- a call passes its look: the gate is not active
      exact ⟨fun ha => absurd ha hact, .inl, fun _ h => absurd h (no_output rfl)⟩
  case h_6 => exact send_effect h hcall nofun
  case h_7 hpc => exact send_effect h hcall fun _ => hpc
  any_goals cases h
  case h_4 => exact .setPc rfl nofun rfl rfl rfl nofun
  case h_5 => exact .setPc rfl nofun rfl rfl rfl fun ha => .inl (by simpa using ha)
  case h_9 =>
    refine .setPc rfl ?_ rfl rfl rfl .inl
    unfold CallPc.settle
    split <;> [nofun; split_ifs <;> nofun]
  case h_10 =>
    refine .setPc rfl ?_ rfl rfl rfl .inl
    unfold CallPc.settle
    split_ifs <;> nofun
  case h_12 e hpc => exact .setPc rfl nofun rfl rfl rfl fun _ => .inr (harms e hpc)
  all_goals exact .setPc rfl nofun rfl rfl rfl .inl

theorem end_effect : Effect arms s
    { s with stream := .ended, queue := [], calls := s.calls.map Call.hangUp } := by
  refine ⟨?_, .inl, fun _ h => absurd h (no_output rfl)⟩
  rintro - (⟨call, hcall, hpass⟩ | ⟨msg, hmsg, -⟩ | hwrite)
  · obtain ⟨call', hcall', rfl⟩ := List.mem_map.mp hcall
    refine .inl ⟨call', hcall', ?_⟩
    unfold Call.hangUp at hpass
    split at hpass
    · cases hpass
    · exact hpass
  · cases hmsg
  · cases hwrite

theorem advance_effect {nowMs : Nat} (h : s.advance lower nowMs = some s') :
    Effect (Arms lower s (.advance nowMs)) s s' := by
  unfold Sys.advance at h
  split at h
  case h_4 text kind todo last hstr =>
    have harms : kind.isSecret → Arms lower s (.advance nowMs) := by
      intro hsec
      simpa only [Arms, hstr] using hsec
    split_ifs at h with hsec <;> cases h
    · exact .stream rfl rfl rfl rfl .inl
    · exact .stream rfl rfl rfl rfl fun _ => .inr (harms hsec)
    · exact .stream rfl rfl rfl rfl nofun
    · exact .stream rfl rfl rfl rfl .inl
  case h_8 candidate rest hstr =>
    have harms : candidate.isEmpty = false ∧ (classify lower candidate).isSecret →
        Arms lower s (.advance nowMs) := by
      rintro ⟨hempty, hsec⟩
      simp only [Arms, hstr, hempty, hsec]
      rfl
    simp only at h
    split_ifs at h with hprompt <;> cases h
    · exact .stream rfl rfl rfl rfl .inl
    · exact .stream rfl rfl rfl rfl fun _ => .inr (harms hprompt)
    · exact .stream rfl rfl rfl rfl .inl
  all_goals cases h
  case h_1 line _ _ _ =>
    refine .stream rfl rfl rfl rfl fun ha => .inl ?_
    rwa [← s.gate.scrubLine_active line]
  case h_7 =>
    refine .stream rfl rfl ?_ rfl .inl
    split_ifs <;> rfl
  case h_13 => exact end_effect
  all_goals exact .stream rfl rfl rfl rfl .inl

theorem reply_effect (k : Nat) (reply : WriterReply) :
    Effect arms s { s.reply k reply with stream := .draining } := by
  unfold Sys.reply
  split
  · next call hcall =>
    have hset : Effect arms s (s.setPc k call (.replied reply)) :=
      .setPc rfl nofun rfl rfl rfl .inl
    refine { hset with flight := fun ha hf => hset.flight ha ?_ }
    rcases hf with hpass | hqueued | hwrite
    · exact .inl hpass
    · exact .inr (.inl hqueued)
    · cases hwrite
  · exact .stream rfl rfl rfl rfl .inl

theorem recv_effect {msg : StdinMsg} {queue : List StdinMsg} (hqueue : s.queue = msg :: queue) :
    Effect arms s { s with queue := queue, stream := .writing msg msg.bytes } := by
  refine ⟨?_, .inl, fun _ h => absurd h (no_output rfl)⟩
  rintro - (hpass | ⟨msg', hmsg', hmodel⟩ | hwrite)
  · exact .inl hpass
  · exact .inr (.inl ⟨msg', hqueue ▸ mem_cons_of_mem msg hmsg', hmodel⟩)
  · refine .inr (.inl ⟨msg, hqueue ▸ mem_cons_self, ?_⟩)
    simpa [StreamPc.writesModel] using hwrite

theorem write_effect {msg : StdinMsg} {rest : List UInt8} (n : Nat)
    (hstr : s.stream = .writing msg rest) : Effect arms s { s with
      terminal := s.terminal ++ [(msg.owner, rest.take n)]
      stream := .writing msg (rest.drop n) } := by
  refine ⟨?_, .inl, ?_⟩
  · rintro - (hpass | hqueued | hwrite)
    · exact .inl hpass
    · exact .inr (.inl hqueued)
    · refine .inr (.inr ?_)
      rw [hstr]
      exact hwrite
  · intro bytes hout
    have hlast := append_cancel_left hout
    have howner : msg.owner = false := by
      simpa using congrArg (fun l => l.map Prod.fst) hlast
    rw [hstr, StreamPc.writesModel, howner]
    rfl

variable {a : Action}

theorem turn_effect (h : s.turn vte a = some s') : Effect arms s s' := by
  unfold Sys.turn at h
  split at h
  case h_4 =>
    split at h
    · next msg rest hstr =>
      split_ifs at h
      cases h
      exact write_effect _ hstr
    · cases h
  all_goals repeat' split at h
  all_goals cases h
  any_goals exact .stream rfl rfl rfl rfl .inl
  · next msg queue hstr hqueue => exact recv_effect hqueue
  all_goals exact reply_effect _ _

theorem called_effect (owner : Bool) (bytes : List UInt8) :
    Effect arms s { s with calls := s.calls ++ [⟨owner, bytes, .called⟩] } := by
  refine ⟨?_, .inl, fun _ h => absurd h (no_output rfl)⟩
  rintro - (⟨call, hcall, hpass⟩ | hqueued | hwrite)
  · rcases mem_append.mp hcall with hold | hnew
    · exact .inl ⟨call, hold, hpass⟩
    · rw [mem_singleton.mp hnew] at hpass
      cases hpass
  · exact .inr (.inl hqueued)
  · exact .inr (.inr hwrite)

theorem step_effect (h : step lower vte s a = some s') : Effect (Arms lower s a) s s' := by
  unfold step at h
  split at h
  · cases h; exact called_effect false _
  · cases h; exact called_effect true _
  · next k =>
    split at h
    · next call hcall =>
      refine callNext_effect (mem_of_getElem? hcall) (fun e hpc => ?_) h
      obtain ⟨owner, bytes, pc⟩ := call
      cases hpc
      simp only [Arms, hcall]
    · cases h
  · exact advance_effect h
  · exact turn_effect h

/-! ## Runs -/

def Quiet (s : Sys P) : Prop := s.gate.active = true → ¬ s.ModelInFlight

theorem Quiet.step (h : Quiet s) (hG : QuietArm lower s a)
    (hstep : step lower vte s a = some s') : Quiet s' := by
  intro hact hflight
  have heffect := step_effect hstep
  have hbefore := heffect.flight hact hflight
  rcases heffect.active hact with hold | harms
  · exact h hold hbefore
  · exact hG harms hbefore

theorem Quiet.gatedOutput (h : Quiet s) (hstep : Pty.step lower vte s a = some s') :
    GatedOutput s s' := by
  intro bytes hout
  by_contra hact
  exact h (Bool.not_eq_false _ ▸ hact) (.inr (.inr ((step_effect hstep).output bytes hout)))

/-- **No model input under a secret prompt.** In every schedule of the streaming task, of
`write_stdin` calls and of answers by the owner in which the gate is not armed over a call in
flight. -/
theorem model_input_gated {P : Type} (lower : Text → Text) (vte : VteParser P)
    (as bs : List Action) (a : Action) (s s' : Sys P)
    (hG : Transition.Meets (step lower vte) (QuietArm lower) (init vte) (as ++ a :: bs))
    (hrun : Transition.run (step lower vte) (init vte) as = some s)
    (ha : step lower vte s a = some s') : GatedOutput s s' :=
  run_step (I := Quiet) (P := fun s _ s' => GatedOutput s s')
    (fun _ _ _ hI hG hs => hI.step hG hs) (fun _ _ _ hI _ hs => hI.gatedOutput hs)
    (fun hact => by cases hact) hG hrun ha

def asciiVte : VteParser Unit where
  init := ()
  advance := fun _ bytes => ((), bytes.map fun byte =>
    if byte < 32 then .execute byte else .print (Char.ofNat byte.toNat))

def asciiLower (t : Text) : Text := t.map Char.toLower

def bytesOf (t : String) : List UInt8 := t.toList.map fun c => c.toNat.toUInt8

def readPrompt : List Action :=
  [.chunk (bytesOf "Password:"), .advance 1, .advance 1, .advance 1, .advance 1, .advance 1]

def answeredSchedule : List Action :=
  [.writeStdin (bytesOf "ls"), .call 0, .call 0, .resume, .recv, .write 2, .flushed, .call 0, .recv] ++
    readPrompt ++
    [.writeStdin (bytesOf "x"), .call 1, .writeOwnerSecret (bytesOf "s"), .call 2, .call 2, .call 2,
      .call 2, .call 2, .call 2, .resume, .recv, .write 1, .flushed, .call 2, .recv, .timeout,
      .writeStdin (bytesOf "y"), .call 3, .call 3, .resume, .recv]

theorem answered_prompt_gated : ∃ s s',
    Transition.run (step asciiLower asciiVte) (init asciiVte) answeredSchedule = some s ∧
      step asciiLower asciiVte s (.write 1) = some s' ∧
      s'.terminal = [(false, bytesOf "ls"), (true, bytesOf "s"), (false, bytesOf "y")] ∧
      s'.metrics.stdinWritesDeniedSecret = 1 ∧ GatedOutput s s' := by
  have hrun : ∃ s ∈ run (step asciiLower asciiVte) (init asciiVte) answeredSchedule,
      ∃ s' ∈ step asciiLower asciiVte s (.write 1),
        s'.terminal = [(false, bytesOf "ls"), (true, bytesOf "s"), (false, bytesOf "y")] ∧
        s'.metrics.stdinWritesDeniedSecret = 1 := by
    decide +kernel
  have hG : Transition.Meets (step asciiLower asciiVte) (QuietArm asciiLower) (init asciiVte)
      (answeredSchedule ++ .write 1 :: []) := by
    decide +kernel
  obtain ⟨s, hs, s', hs', hterm, hdenied⟩ := hrun
  exact ⟨s, s', hs, hs', hterm, hdenied,
    model_input_gated asciiLower asciiVte answeredSchedule [] (.write 1) s s' hG hs hs'⟩

def overtakenSchedule : List Action :=
  [.resume, .recv, .writeStdin (bytesOf "y"), .call 0, .call 0] ++ readPrompt ++ [.resume, .recv]

/-- The queued byte is written under the prompt. -/
theorem queued_input_reaches_prompt : ∃ s s',
    Transition.run (step asciiLower asciiVte) (init asciiVte) overtakenSchedule = some s ∧
      step asciiLower asciiVte s (.write 1) = some s' ∧
      s'.terminal = [(false, bytesOf "y")] ∧ s.gate.active = true ∧ ¬ GatedOutput s s' := by
  have hrun : ∃ s ∈ run (step asciiLower asciiVte) (init asciiVte) overtakenSchedule,
      ∃ s' ∈ step asciiLower asciiVte s (.write 1),
        s'.terminal = s.terminal ++ [(false, bytesOf "y")] ∧ s.terminal = [] ∧
          s.gate.active = true := by
    decide +kernel
  obtain ⟨s, hs, s', hs', hout, hnil, hact⟩ := hrun
  refine ⟨s, s', hs, hs', by rw [hout, hnil]; rfl, hact, fun hgated => ?_⟩
  rw [hgated _ hout] at hact
  cases hact

theorem reads_password : let s := { init asciiVte with stream := .reading }
    ∃ s₁ s₂, step asciiLower asciiVte s (.chunk (bytesOf "Password:")) = some s₁ ∧
      Reads asciiLower 1 s₁ s₂ ∧ s₂.gate.active := by
  intro s
  obtain ⟨s₁, hs, h⟩ := reads_chunk (s := s) rfl (bytesOf "Password:")
  exact ⟨s₁, _, hs, h, by decide +kernel⟩

end Pty

end TerminalCommander
