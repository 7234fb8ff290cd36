import TerminalCommander.Probes.PtyStream

/-!
# What a step does to the calls of a probe

A step of the streaming task leaves the calls and the messages in flight as they are, gives one
message its reply, or ends and hangs every call up (`advance_move`, `turn_move`). A step of a call
moves that call on, and only the disarm and the re-arm change the flag of the gate
(`callNext_move`).
-/

namespace TerminalCommander

namespace Pty

variable {P : Type} {lower : Text → Text} {vte : VteParser P} {s s' : Sys P}

/-! ## The streaming task -/

def StreamPc.taken : StreamPc → Option StdinMsg
  | .writing msg _ => some msg
  | _ => none

def Sys.inFlight (s : Sys P) : List StdinMsg := s.stream.taken.toList ++ s.queue

inductive StreamMove (s s' : Sys P) : Prop
  | quiet (calls : s'.calls = s.calls) (msgs : s'.inFlight = s.inFlight)
  | reply (msg : StdinMsg) (reply : WriterReply) (calls : s'.calls = (s.reply msg.caller reply).calls)
      (msgs : s.inFlight = msg :: s'.inFlight)
  | ended (calls : s'.calls = s.calls.map Call.hangUp) (msgs : s'.inFlight = [])

theorem StreamMove.untaken (hcalls : s'.calls = s.calls) (hqueue : s'.queue = s.queue)
    (hbef : s.stream.taken = none) (hafter : s'.stream.taken = none) : StreamMove s s' := by
  refine .quiet hcalls ?_
  unfold Sys.inFlight
  rw [hqueue, hbef, hafter]

theorem advance_move {nowMs : Nat} (h : s.advance lower nowMs = some s') : StreamMove s s' := by
  unfold Sys.advance at h
  split at h
  case h_13 => cases h; exact .ended rfl rfl
  case h_14 => cases h
  -- in every other state nothing is taken from the queue
  all_goals
    next hs =>
    try dsimp only at h
    try split_ifs at h
    all_goals
      cases h
      exact .untaken rfl rfl (by rw [hs]; rfl) rfl

theorem reply_move {msg : StdinMsg} {rest : List UInt8} (hs : s.stream = .writing msg rest)
    (reply : WriterReply) : StreamMove s { s.reply msg.caller reply with stream := .draining } := by
  refine .reply msg reply rfl ?_
  have hqueue : (s.reply msg.caller reply).queue = s.queue := by
    unfold Sys.reply
    split <;> rfl
  unfold Sys.inFlight
  rw [hs, hqueue]
  rfl

theorem turn_move {a : Action} (h : s.turn vte a = some s') :
    StreamMove s s' ∧ s'.gate = s.gate := by
  have hreply (k : Nat) (reply : WriterReply) : (s.reply k reply).gate = s.gate := by
    unfold Sys.reply
    split <;> rfl
  unfold Sys.turn at h
  split at h
  case h_3 =>
    split at h
    · next hs hqueue => cases h; exact ⟨.quiet rfl (by simp [Sys.inFlight, hs, hqueue]; rfl), rfl⟩
    · next hs hqueue => cases h; exact ⟨.untaken rfl rfl (by rw [hs]; rfl) rfl, rfl⟩
    · cases h
  case h_4 =>
    split at h
    · next hs =>
      split_ifs at h
      cases h
      exact ⟨.quiet rfl (by simp [Sys.inFlight, hs]; rfl), rfl⟩
    · cases h
  case h_5 | h_6 =>
    split at h
    · next hs => cases h; exact ⟨reply_move hs _, hreply _ _⟩
    · cases h
  case h_10 => cases h
  all_goals
    split_ifs at h with hs
    cases h
    exact ⟨.untaken rfl rfl (by rw [hs]; rfl) rfl, rfl⟩

/-! ## The calls -/

inductive CallPc.Goes (owner active ended : Bool) : CallPc → CallPc → Bool → Prop
  | refused (e : WriteStdinError) : Goes owner active ended .called (.returned (.error e)) active
  | load (h : active = true) : Goes owner active ended .called .loaded active
  | pass (h : owner = false) : Goes owner active ended .called .ready active
  | pending (p : Bool) : Goes owner active ended .loaded (.pendingRead p) active
  | mark (p : Bool) : Goes owner active ended (.pendingRead p) .marked active
  | disarm : Goes owner active ended .marked .disarmed false
  | scrub : Goes owner active ended .disarmed .scrubArmed active
  | sendOwner (h : ended = false) : Goes owner active ended .scrubArmed .queued active
  | sendModel (h : ended = false) : Goes owner active ended .ready .queued active
  | hangOwner (h : ended = true) : Goes owner active ended .scrubArmed .hungUp active
  | hangModel (h : ended = true) : Goes owner active ended .ready .hungUp active
  | written (reply : WriterReply) :
      Goes owner active ended (.replied reply) (.settle owner (mapWriterReply reply)) active
  | closed : Goes owner active ended .hungUp (.settle owner (.error .closed)) active
  | unanswer (e : WriteStdinError) : Goes owner active ended (.failed e) (.unanswered e) active
  | reactivate (e : WriteStdinError) :
      Goes owner active ended (.unanswered e) (.reactivated e) true
  | drop (e : WriteStdinError) :
      Goes owner active ended (.reactivated e) (.returned (.error e)) active

structure CallMove (s : Sys P) (k : Nat) (call : Call) (pc : CallPc) (s' : Sys P) : Prop where
  goes : call.pc.Goes call.owner s.gate.active (decide (s.stream = .ended)) pc s'.gate.active
  calls : s'.calls = s.calls.set k { call with pc := pc }
  stream : s'.stream = s.stream
  generation : s'.gate.generation = s.gate.generation
  queue : s'.queue = s.queue ∧ pc ≠ .queued ∨
    pc = .queued ∧ ∃ msg : StdinMsg, msg.caller = k ∧ s'.queue = s.queue ++ [msg]

theorem send_move {k : Nat} {call : Call} {owner : Bool}
    (hpc : call.pc = .scrubArmed ∨ call.pc = .ready) (h : s.send k call owner = some s') :
    ∃ pc, CallMove s k call pc s' := by
  unfold Sys.send at h
  split_ifs at h with hended hroom
  · cases h
    refine ⟨.hungUp, ?_, rfl, rfl, rfl, .inl ⟨rfl, CallPc.noConfusion⟩⟩
    rcases hpc with hpc | hpc
    · rw [hpc]; exact .hangOwner (decide_eq_true hended)
    · rw [hpc]; exact .hangModel (decide_eq_true hended)
  · cases h
    refine ⟨.queued, ?_, rfl, rfl, rfl, .inr ⟨rfl, _, rfl, rfl⟩⟩
    rcases hpc with hpc | hpc
    · rw [hpc]; exact .sendOwner (decide_eq_false hended)
    · rw [hpc]; exact .sendModel (decide_eq_false hended)

theorem settle_ne_queued (owner : Bool) (res : Except WriteStdinError Nat) :
    CallPc.settle owner res ≠ .queued := by
  intro h
  unfold CallPc.settle at h
  split at h
  · cases h
  · split_ifs at h

theorem callNext_move {k : Nat} {call : Call} (h : s.callNext k call = some s') :
    ∃ pc, CallMove s k call pc s' := by
  unfold Sys.callNext at h
  split at h
  case h_5 hpc =>
    cases h
    have hgen : (s.gate.armScrub call.bytes).generation = s.gate.generation := by
      unfold SecretGate.armScrub
      split_ifs <;> rfl
    refine ⟨.scrubArmed, ?_, rfl, rfl, hgen, .inl ⟨rfl, CallPc.noConfusion⟩⟩
    rw [hpc]
    show CallPc.Goes _ _ _ _ _ (s.gate.armScrub call.bytes).active
    rw [SecretGate.armScrub_active]
    exact .scrub
  case h_6 hpc => exact send_move (.inl hpc) h
  case h_7 hpc => exact send_move (.inr hpc) h
  case h_9 | h_10 =>
    next hpc =>
    cases h
    exact ⟨_, by rw [hpc]; constructor, rfl, rfl, rfl, .inl ⟨rfl, settle_ne_queued _ _⟩⟩
  -- the other steps of a call, each with its constructor
  all_goals
    next hpc =>
    try split_ifs at h
    all_goals
      cases h <;> refine ⟨_, ?_, rfl, rfl, rfl, .inl ⟨rfl, CallPc.noConfusion⟩⟩ <;> rw [hpc] <;>
        constructor <;> simp_all

end Pty

end TerminalCommander
