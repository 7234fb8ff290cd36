import TerminalCommander.Daemon.Pty.Credential
import TerminalCommander.Probes.PtyMoves

/-!
# The requests and their messages

The invariant of `Credential`: one request has the probe locked, at most one message is in flight
and its request waits for the reply, and what is noted of a request fits the position of its call.
So nothing is typed for a request whose bytes are not queued, and a delivery that queues its bytes
has disarmed the gate.
-/

namespace TerminalCommander

namespace Credential

open List Request Table Option

open Pty (CallPc Call StdinMsg)

variable {P : Type} {lower : Text → Text} {vte : VteParser P} {s s' : Sys P} {r : Request} {i : Nat}

/-! ## The invariant -/

def RequestPc.holds : RequestPc → Bool
  | .locked => true
  | .read _ => true
  | .awaited _ => true
  | .writing _ => true
  | _ => false

def RequestPc.early : RequestPc → Bool
  | .writing _ => false
  | .returned _ => false
  | _ => true

def fits (owner disarmed queued : Bool) : CallPc → Bool
  | .called => !disarmed && !queued
  | .loaded => !disarmed && !queued
  | .pendingRead _ => !disarmed && !queued
  | .marked => !disarmed && !queued
  | .disarmed => disarmed && !queued
  | .scrubArmed => disarmed && !queued
  | .ready => !owner && !queued
  | .queued => queued && (disarmed || !owner)
  | .replied _ => queued && (disarmed || !owner)
  | .returned (.ok _) => queued && (disarmed || !owner)
  | _ => !queued || disarmed || !owner

variable {owner disarmed queued : Bool}

theorem fits_order {pc : CallPc}
    (h : fits owner disarmed queued pc) : (!queued || disarmed || !owner) := by
  revert h
  unfold fits
  cases owner <;> cases disarmed <;> cases queued <;> split <;> simp

theorem fits_settle {res : Except WriteStdinError Nat}
    (h : (!queued || disarmed || !owner)) (hok : ∀ n, res = .ok n → queued) :
    fits owner disarmed queued (.settle owner res) := by
  unfold CallPc.settle
  split
  · next n =>
    rw [hok n rfl] at h ⊢
    exact h
  · split_ifs <;> exact h

variable {pty : Pty.Sys P}

theorem fits_note {pc pc' : CallPc} {active' : Bool}
    (hgoes : pc.Goes owner pty.gate.active (decide (pty.stream = .ended)) pc' active')
    (h : fits owner r.disarmedAt.isSome r.queued pc) :
    fits owner (r.note pty pc).disarmedAt.isSome (r.note pty pc).queued pc' := by
  cases hgoes with
  | written reply =>
    refine fits_settle (fits_order h) fun n _ => ?_
    rw [fits, Bool.and_eq_true] at h
    exact h.1
  | closed => exact fits_settle (fits_order h) fun n hn => by cases hn
  | _ => simp_all [fits, note]

structure Request.Ok (pty : Pty.Sys P) (r : Request) : Prop where
  order : (!r.queued || r.disarmedAt.isSome || !r.kind.owner) = true
  typed : r.queued = false → r.typed = []
  early : r.pc.early = true → r.call = none ∧ r.disarmedAt = none ∧ r.queued = false
  writing : ∀ current, r.pc = .writing current → ∃ k call, r.call = some k ∧
    pty.calls[k]? = some call ∧ call.owner = r.kind.owner ∧
      fits r.kind.owner r.disarmedAt.isSome r.queued call.pc = true
  returned : ∀ n, r.pc = .returned (.ok n) → r.queued = true
  bound : ∀ k, r.call = some k → k < pty.calls.length

def Request.Awaits (pty : Pty.Sys P) (r : Request) (msg : StdinMsg) : Prop :=
  (∃ current, r.pc = .writing current) ∧ r.call = some msg.caller ∧
    ∃ call, pty.calls[msg.caller]? = some call ∧ call.pc = .queued

variable {msg : StdinMsg}

theorem Request.Ok.not_awaits (h : r.Ok pty) (hearly : r.pc.early) : ¬ r.Awaits pty msg := by
  intro hwait
  have hcall := hwait.2.1
  rw [(h.early hearly).1] at hcall
  cases hcall

variable {k : Nat} {call : Call}

theorem Request.Awaits.pc_eq (h : r.Awaits pty msg)
    (hk : r.call = some k) (hcall : pty.calls[k]? = some call) : call.pc = .queued := by
  obtain ⟨-, hcaller, call', hcall', hqueued⟩ := h
  simp_all

theorem Request.Ok.fits (h : r.Ok pty) {current : Option Nat}
    (hpc : r.pc = .writing current) (hk : r.call = some k)
    (hcall : pty.calls[k]? = some call) : call.owner = r.kind.owner ∧
      Credential.fits r.kind.owner r.disarmedAt.isSome r.queued call.pc := by
  obtain ⟨k', call', hk', hcall', hrest⟩ := h.writing current hpc
  simp_all

structure Inv (s : Sys P) : Prop where
  holder : ∀ i, s.holder = some i ↔ ∃ r, s.requests[i]? = some r ∧ r.pc.holds = true
  ok : ∀ r ∈ s.requests, r.Ok s.pty
  unique : ∀ (i j : Nat) (r r' : Request) (k : Nat), s.requests[i]? = some r →
    s.requests[j]? = some r' → r.call = some k →
    r'.call = some k → i = j
  messages : ∀ msg ∈ s.pty.inFlight, ∃ r ∈ s.requests, r.Awaits s.pty msg
  single : s.pty.inFlight.length ≤ 1

theorem init_inv (vte : VteParser P) : Inv (init vte) := by
  constructor <;> simp [init, Pty.init, Pty.Sys.inFlight, Pty.StreamPc.taken]

theorem Request.Ok.kept {pty' : Pty.Sys P} (h : r.Ok pty)
    (hcalls : ∀ k call, r.call = some k → pty.calls[k]? = some call → ∃ call',
      pty'.calls[k]? = some call' ∧ call'.owner = call.owner ∧
        ∀ owner disarmed queued, Credential.fits owner disarmed queued call.pc →
          Credential.fits owner disarmed queued call'.pc) : r.Ok pty' :=
  { h with
    writing := fun current hpc => by
      obtain ⟨k, call, hk, hcall, howner, hfits⟩ := h.writing current hpc
      obtain ⟨call', hcall', howner', hfits'⟩ := hcalls k call hk hcall
      exact ⟨k, call', hk, hcall', howner'.trans howner, hfits' _ _ _ hfits⟩
    bound := fun k hk => by
      obtain ⟨call', hcall', -⟩ := hcalls k _ hk (getElem?_eq_getElem (h.bound k hk))
      exact (List.getElem?_eq_some_iff.1 hcall').1 }

theorem Inv.holds_unique (h : Inv s) (hr : s.requests[i]? = some r) (hholds : r.pc.holds)
    {j : Nat} {q : Request} (hq : s.requests[j]? = some q) (hqholds : q.pc.holds) : i = j := by
  have hi := (h.holder i).2 ⟨r, hr, hholds⟩
  rw [(h.holder j).2 ⟨q, hq, hqholds⟩, some.injEq] at hi
  exact hi.symm

theorem Inv.inFlight_nil (h : Inv s) (hr : s.requests[i]? = some r) (hholds : r.pc.holds)
    (hwait : ∀ msg, ¬ r.Awaits s.pty msg) : s.pty.inFlight = [] := by
  refine eq_nil_iff_forall_not_mem.2 fun msg hmsg => ?_
  obtain ⟨q, hq, hqawaits⟩ := h.messages msg hmsg
  obtain ⟨j, hj⟩ := mem_iff_getElem?.1 hq
  obtain ⟨current, hwriting⟩ := hqawaits.1
  obtain rfl := h.holds_unique hr hholds hj (by rw [hwriting]; rfl)
  rw [hr, some.injEq] at hj
  exact hwait msg (hj ▸ hqawaits)

/-! ## The steps of a request -/

variable {r' : Request}

section

variable (h : Inv s) (hr : s.requests[i]? = some r)

include h hr

theorem Inv.holder_set {holder : Option Nat} (hself : holder = some i ↔ r'.pc.holds)
    (hother : ∀ j, j ≠ i → (holder = some j ↔ s.holder = some j)) (j : Nat) :
    holder = some j ↔ ∃ q, (s.requests.set i r')[j]? = some q ∧ q.pc.holds := by
  by_cases hj : j = i
  · subst hj
    rw [getElem?_set_of_some hr, hself]
    simp
  · rw [getElem?_set_ne (Ne.symm hj), hother j hj]
    exact h.holder j

theorem Inv.unique_set
    (hcall : ∀ k, r'.call = some k → r.call = some k ∨ ∀ q ∈ s.requests, q.call ≠ some k)
    (j j' : Nat) (q q' : Request) (k : Nat) (hq : (s.requests.set i r')[j]? = some q)
    (hq' : (s.requests.set i r')[j']? = some q') (hk : q.call = some k) (hk' : q'.call = some k) :
    j = j' := by
  rcases set_cases hq with ⟨rfl, rfl⟩ | ⟨hj, hqold⟩
  · rcases set_cases hq' with ⟨rfl, rfl⟩ | ⟨hj', hq'⟩
    · rfl
    · rcases hcall k hk with hold | hfresh
      · exact h.unique j j' r q' k hr hq' hold hk'
      · exact absurd hk' (hfresh q' (mem_of_getElem? hq'))
  · rcases set_cases hq' with ⟨rfl, rfl⟩ | ⟨hj', hq'⟩
    · rcases hcall k hk' with hold | hfresh
      · exact h.unique j j' q r k hqold hr hk hold
      · exact absurd hk (hfresh q (mem_of_getElem? hqold))
    · exact h.unique j j' q q' k hqold hq' hk hk'

theorem Inv.replace {holder : Option Nat} (hok : r'.Ok s.pty) (hcall : r'.call = r.call)
    (hself : holder = some i ↔ r'.pc.holds)
    (hother : ∀ j, j ≠ i → (holder = some j ↔ s.holder = some j))
    (hwait : ∀ msg, ¬ r.Awaits s.pty msg) : Inv { s.set i r' with holder := holder } where
  holder := h.holder_set hr hself hother
  ok q hq := by
    rcases mem_or_eq_of_mem_set hq with hq | rfl
    · exact h.ok q hq
    · exact hok
  unique := h.unique_set hr fun k hk => .inl (hcall ▸ hk)
  messages msg hmsg := by
    obtain ⟨q, hq, hqawaits⟩ := h.messages msg hmsg
    rcases mem_set_or_eq hr hq with rfl | hq
    · exact absurd hqawaits (hwait msg)
    · exact ⟨q, hq, hqawaits⟩
  single := h.single

theorem Inv.write (hholds : r.pc.holds)
    (hearly : r.pc.early) (current : Option Nat) : Inv (s.write i r current) := by
  have hok := h.ok r (mem_of_getElem? hr)
  obtain ⟨hcall, hdis, hqueued⟩ := hok.early hearly
  have hnil := h.inFlight_nil hr hholds fun msg => hok.not_awaits hearly
  refine ⟨h.holder_set hr ?_ fun j hj => Iff.rfl, ?_, h.unique_set hr fun k hk => .inr ?_, ?_, h.single⟩
  · exact ⟨fun _ => rfl, fun _ => (h.holder i).2 ⟨r, hr, hholds⟩⟩
  · intro q hq
    rcases mem_or_eq_of_mem_set hq with hq | rfl
    · exact (h.ok q hq).kept fun k call _ hcalls =>
        ⟨call, getElem?_concat.2 (.inl hcalls), rfl, fun _ _ _ hfits => hfits⟩
    · refine ⟨hok.order, hok.typed, nofun, fun _ _ => ?_, nofun, by simp [Sys.write]⟩
      exact ⟨_, _, rfl, getElem?_concat_length, rfl, by simp [fits, hdis, hqueued]⟩
  · cases hk
    intro q hq hqcall
    exact Nat.lt_irrefl _ ((h.ok q hq).bound _ hqcall)
  · intro msg hmsg
    rw [show (s.write i r current).pty.inFlight = s.pty.inFlight from rfl, hnil] at hmsg
    cases hmsg

end

section

variable (pty : Pty.Sys P) (pc : CallPc)

@[simp] theorem note_kind : (r.note pty pc).kind = r.kind := by
  unfold note
  split <;> rfl

@[simp] theorem note_pc : (r.note pty pc).pc = r.pc := by
  unfold note
  split <;> rfl

@[simp] theorem note_call : (r.note pty pc).call = r.call := by
  unfold note
  split <;> rfl

@[simp] theorem note_typed : (r.note pty pc).typed = r.typed := by
  unfold note
  split <;> rfl

end

theorem queued_of_note {pc : CallPc}
    (hfits : fits owner disarmed r.queued pc) (h : (r.note pty pc).queued = false) :
    r.queued = false := by
  unfold note at h
  split at h <;> simp_all [fits]

theorem Inv.callNext (h : Inv s) (hr : s.requests[i]? = some r) {current : Option Nat}
    (hpc : r.pc = .writing current) (hk : r.call = some k) (hcall : s.pty.calls[k]? = some call)
    (hnext : s.pty.callNext k call = some pty) :
    Inv { s.set i (r.note s.pty call.pc) with pty := pty } := by
  have hok := h.ok r (mem_of_getElem? hr)
  have hholds : r.pc.holds := by rw [hpc]; rfl
  obtain ⟨pc, hmove⟩ := Pty.callNext_move hnext
  have hnil := h.inFlight_nil hr hholds fun msg hwait => by
    rw [Pty.Sys.callNext, hwait.pc_eq hk hcall] at hnext
    cases hnext
  obtain ⟨howner, hfits⟩ := hok.fits hpc hk hcall
  have hfits' := fits_note (howner ▸ hmove.goes) hfits
  have hself : pty.calls[k]? = some { call with pc := pc } := by
    rw [hmove.calls]
    exact getElem?_set_of_some hcall _
  have hqueue : pty.inFlight = [] ∨
      pc = .queued ∧ ∃ msg : StdinMsg, msg.caller = k ∧ pty.inFlight = [msg] := by
    have hflight : pty.inFlight = s.pty.stream.taken.toList ++ pty.queue := by
      rw [Pty.Sys.inFlight, hmove.stream]
    rcases hmove.queue with ⟨hqueue, -⟩ | ⟨hpc', msg, hcaller, hqueue⟩
    · rw [hqueue] at hflight
      exact .inl (hflight.trans hnil)
    · rw [hqueue, ← append_assoc, ← Pty.Sys.inFlight, hnil] at hflight
      exact .inr ⟨hpc', msg, hcaller, hflight⟩
  refine ⟨h.holder_set hr ?_ fun j hj => Iff.rfl, ?_, h.unique_set hr fun k' hk' => .inl ?_, ?_, ?_⟩
  · rw [note_pc]
    exact ⟨fun _ => hholds, fun _ => (h.holder i).2 ⟨r, hr, hholds⟩⟩
  · intro q hq
    obtain ⟨j, hj⟩ := mem_iff_getElem?.1 hq
    rcases set_cases hj with ⟨rfl, rfl⟩ | ⟨hji, hj⟩
    · refine ⟨by simpa using fits_order hfits', fun hq => ?_, by simp [hpc, RequestPc.early],
        fun _ _ => ⟨k, _, by simpa using hk, hself, by simpa using howner, by simpa using hfits'⟩,
        by simp [hpc], by simpa [hmove.calls] using hok.bound⟩
      rw [note_typed]
      exact hok.typed (queued_of_note hfits hq)
    · refine (h.ok q (mem_of_getElem? hj)).kept fun k' call' hk' hcall' => ?_
      have hne : k ≠ k' := fun heq => hji (h.unique j i q r k' hj hr hk' (heq ▸ hk))
      exact ⟨call', by rwa [hmove.calls, getElem?_set_ne hne], rfl, fun _ _ _ hfits => hfits⟩
  · rwa [note_call] at hk'
  · intro msg hmsg
    rcases hqueue with hqueue | ⟨rfl, msg', hcaller, hqueue⟩
    · rw [hqueue] at hmsg
      cases hmsg
    · rw [hqueue, mem_singleton] at hmsg
      subst hmsg
      refine ⟨_, mem_set_self hr _, ⟨current, ?_⟩, ?_, ?_⟩
      · rw [note_pc, hpc]
      · rw [note_call, hk, hcaller]
      · exact ⟨_, hcaller ▸ hself, rfl⟩
  · rcases hqueue with hqueue | ⟨-, msg', -, hqueue⟩ <;> simp [hqueue]

/-! ## The steps of the streaming task -/

section

variable (pty : Pty.Sys P) (a : Pty.Action)

@[simp] theorem hear_kind : (r.hear pty a).kind = r.kind := by
  unfold hear
  split <;> [split_ifs <;> rfl; rfl]

@[simp] theorem hear_pc : (r.hear pty a).pc = r.pc := by
  unfold hear
  split <;> [split_ifs <;> rfl; rfl]

@[simp] theorem hear_call : (r.hear pty a).call = r.call := by
  unfold hear
  split <;> [split_ifs <;> rfl; rfl]

@[simp] theorem hear_disarmedAt : (r.hear pty a).disarmedAt = r.disarmedAt := by
  unfold hear
  split <;> [split_ifs <;> rfl; rfl]

@[simp] theorem hear_queued : (r.hear pty a).queued = r.queued := by
  unfold hear
  split <;> [split_ifs <;> rfl; rfl]

end

inductive Heard (call call' : Call) : Prop
  | same (h : call' = call)
  | answered (before : call.pc = .queued) (owner : call'.owner = call.owner)
      (after : (∃ reply, call'.pc = .replied reply) ∨ call'.pc = .hungUp)

theorem Heard.fits {call' : Call} (h : Heard call call')
    (hfits : fits owner disarmed queued call.pc) : fits owner disarmed queued call'.pc := by
  cases h with
  | same h => rwa [h]
  | answered before _ after =>
    rw [before] at hfits
    rcases after with ⟨reply, h⟩ | h
    · rwa [h]
    · rw [h]
      exact fits_order hfits

theorem Heard.owner_eq {call' : Call} (h : Heard call call') : call'.owner = call.owner := by
  cases h with
  | same h => rw [h]
  | answered _ owner _ => exact owner

theorem hangUp_heard (call : Call) : Heard call call.hangUp := by
  unfold Call.hangUp
  split
  · next h => exact .answered h rfl (.inr rfl)
  · exact .same rfl

theorem Inv.heard (h : Inv s) (hmove : Pty.StreamMove s.pty pty)
    (hcall : s.pty.calls[k]? = some call) :
    ∃ call', pty.calls[k]? = some call' ∧ Heard call call' := by
  cases hmove with
  | quiet calls msgs => exact ⟨call, by rwa [calls], .same rfl⟩
  | ended calls msgs =>
    refine ⟨call.hangUp, ?_, hangUp_heard call⟩
    rw [calls, getElem?_map, hcall]
    rfl
  | reply msg reply calls msgs =>
    obtain ⟨q, hq, -, -, call', hcall', hqueued⟩ :=
      h.messages msg (by rw [msgs]; exact mem_cons_self)
    have hreply : (s.pty.reply msg.caller reply).calls =
        s.pty.calls.set msg.caller { call' with pc := .replied reply } := by
      rw [Pty.Sys.reply, hcall']
      rfl
    rw [calls, hreply]
    by_cases hk : msg.caller = k
    · subst hk
      rw [hcall, some.injEq] at hcall'
      subst hcall'
      exact ⟨_, getElem?_set_of_some hcall _, .answered hqueued rfl (.inl ⟨reply, rfl⟩)⟩
    · exact ⟨call, by rwa [getElem?_set_ne hk], .same rfl⟩



theorem Inv.queued_of_awaits (h : Inv s) (hr : r ∈ s.requests)
    (hwait : r.Awaits s.pty msg) : r.queued := by
  obtain ⟨⟨current, hpc⟩, hcaller, call, hcall, hqueued⟩ := hwait
  have hfits := ((h.ok r hr).fits hpc hcaller hcall).2
  rw [hqueued, fits, Bool.and_eq_true] at hfits
  exact hfits.1

theorem Inv.hear_typed (h : Inv s) (hr : r ∈ s.requests) (hqueued : r.queued = false)
    (a : Pty.Action) : (r.hear s.pty a).typed = r.typed := by
  unfold hear
  split
  · next n msg rest hstr =>
    split_ifs with hcall
    · exfalso
      have hmsg : msg ∈ s.pty.inFlight := by
        unfold Pty.Sys.inFlight
        rw [hstr]
        exact mem_cons_self
      obtain ⟨q, hq, hwait⟩ := h.messages msg hmsg
      obtain ⟨i, hi⟩ := mem_iff_getElem?.1 hr
      obtain ⟨j, hj⟩ := mem_iff_getElem?.1 hq
      have hij := h.unique i j r q msg.caller hi hj hcall hwait.2.1
      rw [hij, hj, some.injEq] at hi
      rw [← hi, h.queued_of_awaits hq hwait] at hqueued
      cases hqueued
    · rfl
  · rfl

theorem Inv.stream (h : Inv s) {a : Pty.Action} (hmove : Pty.StreamMove s.pty pty) :
    Inv { s with pty := pty, requests := s.requests.map (hear s.pty a) } where
  holder i := by
    rw [h.holder i]
    simp [getElem?_map]
  ok q hq := by
    obtain ⟨r, hr, rfl⟩ := List.mem_map.1 hq
    have hok : r.Ok pty := (h.ok r hr).kept fun k call _ hcall => by
      obtain ⟨call', hcall', hheard⟩ := h.heard hmove hcall
      exact ⟨call', hcall', hheard.owner_eq, fun _ _ _ => hheard.fits⟩
    refine ⟨by simpa using hok.order, fun hqueued => ?_, by simpa using hok.early,
      by simpa using hok.writing, by simpa using hok.returned, by simpa using hok.bound⟩
    rw [hear_queued] at hqueued
    rw [h.hear_typed hr hqueued]
    exact hok.typed hqueued
  unique i j r r' k hr hr' hk hk' := by
    rw [getElem?_map, map_eq_some_iff] at hr hr'
    obtain ⟨q, hq, rfl⟩ := hr
    obtain ⟨q', hq', rfl⟩ := hr'
    rw [hear_call] at hk hk'
    exact h.unique i j q q' k hq hq' hk hk'
  messages msg hmsg := by
    cases hmove with
    | quiet calls msgs =>
      obtain ⟨r, hr, hpc, hcall, hqueued⟩ := h.messages msg (msgs ▸ hmsg)
      exact ⟨_, List.mem_map_of_mem hr, by rwa [hear_pc], by rwa [hear_call],
        by simpa only [calls] using hqueued⟩
    | ended calls msgs => simp [msgs] at hmsg
    | reply msg' reply calls msgs =>
      have hsingle := h.single
      rw [msgs, length_cons, Nat.succ_le_succ_iff, Nat.le_zero, length_eq_zero_iff]
        at hsingle
      simp [hsingle] at hmsg
  single := by
    have hsingle := h.single
    cases hmove with
    | quiet calls msgs => simpa [msgs] using hsingle
    | ended calls msgs => simp [msgs]
    | reply msg reply calls msgs =>
      rw [msgs, length_cons] at hsingle
      exact Nat.le_of_succ_le hsingle

theorem streamStep_move {pty' : Pty.Sys P} {a : Pty.Action}
    (h : streamStep lower vte pty a = some pty') : Pty.StreamMove pty pty' := by
  unfold streamStep at h
  split at h
  · exact Pty.advance_move h
  · exact (Pty.turn_move h).1

/-! ## Every step -/

inductive Proceeds (s : Sys P) (i : Nat) (r : Request) : Sys P → Prop
  | found (pc : r.pc = .called) : Proceeds s i r
      (s.set i { r with pc := if s.live then .waiting else .returned (.error .unknownJob) })
  | locks (pc : r.pc = .waiting) (free : s.holder = none) :
      Proceeds s i r { s.set i { r with pc := .locked } with holder := some i }
  | reads (pc : r.pc = .locked) (owner : r.kind.owner = true) :
      Proceeds s i r (s.set i { r with pc := .read s.pty.gate.generation })
  | passes (pc : r.pc = .locked) (owner : r.kind.owner = false) : Proceeds s i r (s.write i r none)
  | awaits (current : Nat) (pc : r.pc = .read current) (active : s.pty.gate.active = true) :
      Proceeds s i r (s.set i { r with pc := .awaited current })
  | unawaited (current : Nat) (pc : r.pc = .read current) :
      Proceeds s i r (s.finish i r (.error .notAwaitingCredential))
  | stale (current : Nat) (pc : r.pc = .awaited current) :
      Proceeds s i r (s.finish i r (.error .notAwaitingCredential))
  | meets (current : Nat) (pc : r.pc = .awaited current)
      (same : ∀ g, r.kind.generation = some g → g = current) :
      Proceeds s i r (s.write i r (some current))
  | returns (current : Option Nat) (pc : r.pc = .writing current) (k : Nat) (call : Call)
      (hk : r.call = some k) (hcall : s.pty.calls[k]? = some call)
      (res : Except WriteStdinError Nat) (returned : call.pc = .returned res) :
      Proceeds s i r (s.finish i r (result current res))
  | calls (current : Option Nat) (pc : r.pc = .writing current) (k : Nat) (call : Call)
      (hk : r.call = some k) (hcall : s.pty.calls[k]? = some call) (pty : Pty.Sys P)
      (next : s.pty.callNext k call = some pty) :
      Proceeds s i r { s.set i (r.note s.pty call.pc) with pty := pty }

theorem Proceeds.of_proceed (h : s.proceed i r = some s') : Proceeds s i r s' := by
  unfold Sys.proceed at h
  split at h
  · next hpc => cases h; exact .found hpc
  · next hpc =>
    split_ifs at h with hfree
    cases h
    exact .locks hpc hfree
  · next hpc =>
    split_ifs at h with howner <;> cases h
    · exact .reads hpc howner
    · exact .passes hpc (Bool.eq_false_iff.2 howner)
  · next current hpc =>
    split_ifs at h with hact <;> cases h
    · exact .awaits current hpc hact
    · exact .unawaited current hpc
  · next current hpc =>
    split_ifs at h with hother <;> cases h
    · exact .stale current hpc
    · exact .meets current hpc fun g hg => by simpa [hg] using hother
  · next current hpc =>
    repeat' split at h
    any_goals cases h
    · exact .returns current hpc _ _ (by assumption) (by assumption) _ (by assumption)
    · obtain ⟨pty, hnext, rfl⟩ := map_eq_some_iff.1 h
      exact .calls current hpc _ _ (by assumption) (by assumption) pty hnext
  · cases h

theorem Inv.keep (h : Inv s) (hr : s.requests[i]? = some r) (hok : r'.Ok s.pty)
    (hcall : r'.call = r.call) (hholds : r'.pc.holds = r.pc.holds)
    (hwait : ∀ msg, ¬ r.Awaits s.pty msg) : Inv (s.set i r') := by
  refine h.replace hr hok hcall ?_ (fun j _ => Iff.rfl) hwait
  rw [hholds, h.holder i, hr]
  simp

theorem Inv.finish (h : Inv s) (hr : s.requests[i]? = some r) (hholds : r.pc.holds)
    (hwait : ∀ msg, ¬ r.Awaits s.pty msg) {res : Except PtyRuntimeError Nat}
    (hres : ∀ n, res = .ok n → r.queued) : Inv (s.finish i r res) := by
  have hok := h.ok r (mem_of_getElem? hr)
  refine h.replace hr ?_ rfl ⟨nofun, nofun⟩ (fun j hj => ?_) hwait
  · exact ⟨hok.order, hok.typed, nofun, nofun, fun n hn => hres n (by injection hn), hok.bound⟩
  · simp [(h.holder i).2 ⟨r, hr, hholds⟩, Ne.symm hj]

theorem Request.Ok.early_pc (h : r.Ok pty) (hearly : r.pc.early)
    {pc : RequestPc} (hpc : pc.early) : { r with pc := pc }.Ok pty :=
  { h with
    early := fun _ => h.early hearly
    writing := by rintro current rfl; cases hpc
    returned := by rintro n rfl; cases hpc }

theorem Inv.proceed (h : Inv s) (hr : s.requests[i]? = some r) (hp : Proceeds s i r s') :
    Inv s' := by
  have hok := h.ok r (mem_of_getElem? hr)
  have hwait : r.pc.early → ∀ msg, ¬ r.Awaits s.pty msg := fun he msg => hok.not_awaits he
  have hearly {pc : RequestPc} (hpc : r.pc.early) (hholds : pc.holds = r.pc.holds)
      (he : pc.early) : Inv (s.set i { r with pc := pc }) :=
    h.keep hr (hok.early_pc hpc he) rfl hholds (hwait hpc)
  cases hp with
  | found hpc =>
    cases s.live with
    | true => exact hearly (by rw [hpc]; rfl) (by rw [hpc]; rfl) rfl
    | false =>
      refine h.keep hr ?_ rfl (by rw [hpc]; rfl) (hwait (by rw [hpc]; rfl))
      exact ⟨hok.order, hok.typed, nofun, nofun, nofun, hok.bound⟩
  | locks hpc hfree =>
    have he : r.pc.early := by rw [hpc]; rfl
    refine h.replace hr (hok.early_pc he rfl) rfl ⟨fun _ => rfl, fun _ => rfl⟩ (fun j hj => ?_)
      (hwait he)
    simp [hfree, Ne.symm hj]
  | reads hpc _ | awaits current hpc _ => exact hearly (by rw [hpc]; rfl) (by rw [hpc]; rfl) rfl
  | passes hpc _ => exact h.write hr (by rw [hpc]; rfl) (by rw [hpc]; rfl) none
  | unawaited current hpc | stale current hpc =>
    exact h.finish hr (by rw [hpc]; rfl) (hwait (by rw [hpc]; rfl)) nofun
  | meets current hpc _ => exact h.write hr (by rw [hpc]; rfl) (by rw [hpc]; rfl) (some current)
  | returns current hpc k call hk hcall res hres =>
    refine h.finish hr (by rw [hpc]; rfl) (fun msg hwait => ?_) fun n hn => ?_
    · rw [hwait.pc_eq hk hcall] at hres
      cases hres
    · have hfits := (hok.fits hpc hk hcall).2
      cases res with
      | error e => cases hn
      | ok m =>
        rw [hres, fits, Bool.and_eq_true] at hfits
        exact hfits.1
  | calls current hpc k call hk hcall pty hnext => exact h.callNext hr hpc hk hcall hnext

theorem Inv.request (h : Inv s) (kind : RequestKind) :
    Inv { s with requests := s.requests ++ [.new kind] } where
  holder i := by
    rw [h.holder i]
    simp only [getElem?_concat, or_and_right, exists_or]
    simp [new, RequestPc.holds]
  ok r hr := by
    rcases mem_append.1 hr with hr | hr
    · exact h.ok r hr
    · rw [mem_singleton.1 hr]
      exact ⟨rfl, fun _ => rfl, fun _ => ⟨rfl, rfl, rfl⟩, nofun, nofun, nofun⟩
  unique i j r r' k hr hr' hk hk' := by
    rcases getElem?_concat.1 hr with hr | ⟨-, rfl⟩
    · rcases getElem?_concat.1 hr' with hr' | ⟨-, rfl⟩
      · exact h.unique i j r r' k hr hr' hk hk'
      · cases hk'
    · cases hk
  messages msg hmsg := by
    obtain ⟨r, hr, hwait⟩ := h.messages msg hmsg
    exact ⟨r, mem_append_left _ hr, hwait⟩
  single := h.single

theorem Inv.step {a : Action} (h : Inv s) (hstep : Credential.step lower vte s a = some s') :
    Inv s' := by
  cases a with
  | request kind =>
    cases hstep
    exact h.request kind
  | proceed i =>
    rw [Credential.step] at hstep
    split at hstep
    · next r hr => exact h.proceed hr (.of_proceed hstep)
    · cases hstep
  | remove =>
    cases hstep
    exact ⟨h.holder, h.ok, h.unique, h.messages, h.single⟩
  | stream a =>
    obtain ⟨pty, hpty, rfl⟩ := map_eq_some_iff.1 hstep
    exact h.stream (streamStep_move hpty)

end Credential

end TerminalCommander
