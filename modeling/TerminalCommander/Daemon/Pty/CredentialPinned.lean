import TerminalCommander.Daemon.Pty.CredentialCalls

/-!
# The prompt that a secret answers

`owner_secret_pinned`: a delivery for one prompt disarms the gate at that prompt in every schedule in
which the streaming task leaves the generation alone between the delivery's look at it and its
disarm, and the gate alone between the look of the disarm and its store. Whatever the schedule, a
delivery that does not disarm the gate and queue the secret types nothing and returns no success.
-/

namespace TerminalCommander

namespace Credential

open List Option Request Pty Transition RequestKind RequestPc

open Pty (CallPc Call StdinMsg)

variable {P : Type} {lower : Text → Text} {vte : VteParser P} {s s' : Sys P} {r : Request} {i : Nat}

/-! ## The generation at the disarm -/

def looking : CallPc → Bool
  | .called => true
  | .loaded => true
  | .pendingRead _ => true
  | .marked => true
  | _ => false

def loading : CallPc → Bool
  | .called => false
  | pc => looking pc

def Request.callPc (pty : Pty.Sys P) (r : Request) : Option CallPc :=
  match r.pc with
  | .writing _ => (r.call.bind fun k => pty.calls[k]?).map Call.pc
  | _ => none

def Request.looking (pty : Pty.Sys P) (r : Request) : Bool :=
  r.kind.generation.isSome &&
    match r.pc with
    | .read _ => true
    | .awaited _ => true
    | _ => (r.callPc pty).any Credential.looking

def Request.loading (pty : Pty.Sys P) (r : Request) : Bool :=
  r.kind.generation.isSome && (r.callPc pty).any Credential.loading

def Undisturbed (lower : Text → Text) (vte : VteParser P) (s : Sys P) : Action → Prop
  | .stream a => ∀ pty ∈ streamStep lower vte s.pty a,
      (s.requests.any (Request.looking s.pty) = true →
        pty.gate.generation = s.pty.gate.generation) ∧
      (s.requests.any (Request.loading s.pty) = true → s.pty.gate.active = true →
        pty.gate.active = true)
  | _ => True

instance (s : Sys P) : ∀ a : Action, Decidable (Undisturbed lower vte s a)
  | .stream a => inferInstanceAs (Decidable (∀ pty ∈ streamStep lower vte s.pty a, _))
  | .request _ => isTrue trivial
  | .proceed _ => isTrue trivial
  | .remove => isTrue trivial

structure Pins (pty : Pty.Sys P) (g : Nat) (r : Request) : Prop where
  looked : ∀ current, r.pc = .read current ∨ r.pc = .awaited current →
    pty.gate.generation = current
  writing : ∀ current, r.pc = .writing current → current = some g
  before : ∀ pc, r.callPc pty = some pc → looking pc = true → pty.gate.generation = g
  loaded : ∀ pc, r.callPc pty = some pc → loading pc = true → pty.gate.active = true
  disarmed : ∀ seen, r.disarmedAt = some seen → seen = (true, g)

def Pinned (s : Sys P) : Prop :=
  ∀ r ∈ s.requests, ∀ g, r.kind.generation = some g → Pins s.pty g r

variable {pty : Pty.Sys P}

theorem callPc_of_not_holds (h : r.pc.holds = false) : r.callPc pty = none := by
  unfold callPc
  split
  · next hpc =>
    rw [hpc] at h
    cases h
  · rfl

variable {g : Nat}

theorem Pins.idle (h : r.pc.holds = false)
    (hdis : ∀ seen, r.disarmedAt = some seen → seen = (true, g)) : Pins pty g r where
  looked current hpc := by rcases hpc with hpc | hpc <;> simp [hpc, holds] at h
  writing current hpc := by simp [hpc, holds] at h
  before pc hpc := by simp [callPc_of_not_holds h] at hpc
  loaded pc hpc := by simp [callPc_of_not_holds h] at hpc
  disarmed := hdis

theorem Pins.standing {pc : RequestPc} (hwriting : ∀ current, pc ≠ .writing current)
    (hlooked : ∀ current, pc = .read current ∨ pc = .awaited current →
      pty.gate.generation = current) (hdis : ∀ seen, r.disarmedAt = some seen → seen = (true, g)) :
    Pins pty g { r with pc := pc } where
  looked := hlooked
  writing current hpc := absurd hpc (hwriting current)
  before := by cases pc <;> simp_all [callPc]
  loaded := by cases pc <;> simp_all [callPc]
  disarmed := hdis

theorem settle_not_looking (owner : Bool) (res : Except WriteStdinError Nat) :
    looking (.settle owner res) = false := by
  unfold CallPc.settle
  split
  · rfl
  · split_ifs <;> rfl

theorem looking_of_goes {owner active ended active' : Bool} {pc pc' : CallPc}
    (h : pc.Goes owner active ended pc' active') (hl : looking pc') : looking pc := by
  cases h with
  | written reply | closed => simp [settle_not_looking] at hl
  | _ => first | rfl | cases hl

theorem looking_of_loading {pc : CallPc} (h : loading pc) : looking pc := by
  unfold loading at h
  split at h
  · cases h
  · exact h

theorem loading_of_goes {owner active ended active' : Bool} {pc pc' : CallPc}
    (h : pc.Goes owner active ended pc' active') (hl : loading pc') :
    (active ∨ loading pc) ∧ active' = active := by
  have hlook := looking_of_loading hl
  cases h with
  | load hact => exact ⟨.inl hact, rfl⟩
  | pending p => exact ⟨.inr rfl, rfl⟩
  | mark p => exact ⟨.inr rfl, rfl⟩
  | written reply | closed => simp [settle_not_looking] at hlook
  | _ => cases hl

theorem callPc_writing {current : Option Nat} (hpc : r.pc = .writing current)
    {k : Nat} (hk : r.call = some k) {call : Call} (hcall : pty.calls[k]? = some call) :
    r.callPc pty = some call.pc := by
  unfold callPc
  rw [hpc, hk]
  dsimp only
  rw [bind_some, hcall]
  rfl

theorem Pins.proceed (h : Pins s.pty g r) (hg : r.kind.generation = some g)
    (hr : s.requests[i]? = some r) (hp : Proceeds s i r s') {r' : Request}
    (hr' : s'.requests[i]? = some r') : Pins s'.pty g r' := by
  have hset : ∀ q, (s.requests.set i q)[i]? = some r' → q = r' := by
    intro q hq
    rwa [Table.getElem?_set_of_some hr, some.injEq] at hq
  cases hp with
  | found hpc =>
    obtain rfl := hset _ hr'
    refine .idle ?_ h.disarmed
    dsimp only
    split_ifs <;> rfl
  | locks hpc hfree =>
    obtain rfl := hset _ hr'
    exact .standing nofun nofun h.disarmed
  | reads hpc howner =>
    obtain rfl := hset _ hr'
    exact .standing nofun (by simp [Sys.set]) h.disarmed
  | passes hpc howner =>
    -- only a delivery is for one prompt
    cases hkind : r.kind <;> simp_all [owner, generation]
  | awaits current hpc hact =>
    obtain rfl := hset _ hr'
    exact .standing nofun (by simpa [Sys.set] using h.looked current (.inl hpc)) h.disarmed
  | meets current hpc hsame =>
    obtain rfl := hset _ hr'
    have hcalls : (s.write i r (some current)).pty.calls[s.pty.calls.length]? =
        some ⟨r.kind.owner, r.kind.bytes, .called⟩ := getElem?_concat_length
    have hcurrent := hsame g hg
    refine ⟨nofun, fun c hc => ?_, fun pc hpc' _ => ?_, fun pc hpc' hl => ?_, h.disarmed⟩
    · cases hc
      rw [hcurrent]
    · rw [hcurrent]
      exact h.looked current (.inr hpc)
    · rw [callPc_writing rfl rfl hcalls, some.injEq] at hpc'
      rw [← hpc'] at hl
      cases hl
  | calls current hpc k call hk hcall pty hnext =>
    obtain rfl := hset _ hr'
    obtain ⟨pc', hmove⟩ := callNext_move hnext
    have hbefore := callPc_writing hpc hk hcall
    have hself : pty.calls[k]? = some { call with pc := pc' } := by
      rw [hmove.calls]
      exact Table.getElem?_set_of_some hcall _
    have hafter : (r.note s.pty call.pc).callPc pty = some pc' :=
      callPc_writing ((note_pc _ _).trans hpc) ((note_call _ _).trans hk) hself
    refine ⟨by simp [hpc], by simpa using h.writing, fun pc hpc' hl => ?_, fun pc hpc' hl => ?_,
      fun seen hs => ?_⟩
    · obtain rfl := some.inj (hafter.symm.trans hpc')
      exact hmove.generation.trans (h.before _ hbefore (looking_of_goes hmove.goes hl))
    · obtain rfl := some.inj (hafter.symm.trans hpc')
      obtain ⟨hload, hact⟩ := loading_of_goes hmove.goes hl
      exact hact.trans (hload.elim id (h.loaded _ hbefore))
    · -- the disarm itself: the call stands before its store
      unfold note at hs
      split at hs
      · next hmarked =>
        rw [← some.inj hs, h.before _ hbefore (by rw [hmarked]; rfl),
          h.loaded _ hbefore (by rw [hmarked]; rfl)]
      all_goals exact h.disarmed seen hs
  | _ =>
    obtain rfl := hset _ hr'
    exact .idle rfl h.disarmed

theorem Inv.bystander (h : Inv s) (hr : s.requests[i]? = some r) (hp : Proceeds s i r s') {j : Nat}
    (hj : j ≠ i) {q : Request} (hq : s'.requests[j]? = some q) :
    s.requests[j]? = some q ∧ (q.pc.holds = false ∨ s'.pty = s.pty) := by
  have hset : ∀ q', (s.requests.set i q')[j]? = some q → s.requests[j]? = some q := by
    intro q' hq
    rwa [getElem?_set_ne (Ne.symm hj)] at hq
  have hidle : r.pc.holds → s.requests[j]? = some q → q.pc.holds = false := fun hholds hq =>
    Bool.eq_false_iff.2 fun hqholds => hj (h.holds_unique hr hholds hq hqholds).symm
  cases hp with
  | passes hpc howner | meets current hpc hsame =>
    exact ⟨hset _ hq, .inl (hidle (by rw [hpc]; rfl) (hset _ hq))⟩
  | calls current hpc k call hk hcall pty hnext =>
    exact ⟨hset _ hq, .inl (hidle (by rw [hpc]; rfl) (hset _ hq))⟩
  | _ => exact ⟨hset _ hq, .inr rfl⟩

theorem Pinned.proceed (hI : Inv s) (h : Pinned s) (hr : s.requests[i]? = some r)
    (hp : Proceeds s i r s') (hkind : ∀ r', s'.requests[i]? = some r' → r'.kind = r.kind) :
    Pinned s' := by
  intro q hq g hg
  obtain ⟨j, hj⟩ := mem_iff_getElem?.1 hq
  by_cases hji : j = i
  · subst hji
    rw [hkind q hj] at hg
    exact (h r (mem_of_getElem? hr) g hg).proceed hg hr hp hj
  · obtain ⟨hold, hidle | hpty⟩ := hI.bystander hr hp hji hj
    · exact .idle hidle (h q (mem_of_getElem? hold) g hg).disarmed
    · rw [hpty]
      exact h q (mem_of_getElem? hold) g hg

theorem Proceeds.kind (hr : s.requests[i]? = some r) (hp : Proceeds s i r s') {r' : Request}
    (hr' : s'.requests[i]? = some r') : r'.kind = r.kind := by
  have hset : ∀ q, (s.requests.set i q)[i]? = some r' → q.kind = r.kind → r'.kind = r.kind := by
    intro q hq hkind
    rw [Table.getElem?_set_of_some hr, some.injEq] at hq
    rw [← hq, hkind]
  cases hp with
  | calls => exact hset _ hr' (note_kind _ _)
  | _ => exact hset _ hr' rfl

theorem Inv.callPc_stream (h : Inv s) (hmove : Pty.StreamMove s.pty pty)
    (hr : r ∈ s.requests) {a : Pty.Action} {pc : CallPc}
    (hpc : (r.hear s.pty a).callPc pty = some pc) (hl : looking pc) : r.callPc s.pty = some pc := by
  unfold callPc at hpc
  rw [hear_pc, hear_call] at hpc
  split at hpc
  · next current hwriting =>
    obtain ⟨k, call, hk, hcall, -, -⟩ := (h.ok r hr).writing current hwriting
    obtain ⟨call', hcall', hheard⟩ := h.heard hmove hcall
    rw [hk, bind_some, hcall', map_some, some.injEq] at hpc
    subst hpc
    rw [callPc_writing hwriting hk hcall]
    cases hheard with
    | same heq => rw [heq]
    | answered _ _ hafter => rcases hafter with ⟨reply, hpc'⟩ | hpc' <;> simp [hpc', looking] at hl
  · cases hpc

theorem Pinned.stream (hI : Inv s) (h : Pinned s) {a : Pty.Action}
    (hmove : Pty.StreamMove s.pty pty) (hgen : s.requests.any (Request.looking s.pty) →
      pty.gate.generation = s.pty.gate.generation)
    (hact : s.requests.any (Request.loading s.pty) → s.pty.gate.active →
      pty.gate.active) :
    Pinned { s with pty := pty, requests := s.requests.map (Request.hear s.pty a) } := by
  intro q hq g hg
  obtain ⟨r, hr, rfl⟩ := List.mem_map.1 hq
  rw [hear_kind] at hg
  have hpins := h r hr g hg
  have hlooks : r.looking s.pty → pty.gate.generation = s.pty.gate.generation :=
    fun hl => hgen (List.any_eq_true.2 ⟨r, hr, hl⟩)
  refine ⟨fun c hc => ?_, by simpa using hpins.writing, fun pc hpc hl => ?_, fun pc hpc hl => ?_,
    by simpa using hpins.disarmed⟩
  · rw [hear_pc] at hc
    refine (hlooks ?_).trans (hpins.looked c hc)
    rcases hc with hc | hc <;> simp [Request.looking, hg, hc]
  · have hold := hI.callPc_stream hmove hr hpc hl
    refine (hlooks ?_).trans (hpins.before pc hold hl)
    simp only [Request.looking, hg, hold, isSome_some, any_some, hl]
    split <;> rfl
  · have hold := hI.callPc_stream hmove hr hpc (looking_of_loading hl)
    refine hact (List.any_eq_true.2 ⟨r, hr, ?_⟩) (hpins.loaded pc hold hl)
    simp [Request.loading, hg, hold, hl]

theorem Pinned.step {a : Action} (hI : Inv s) (h : Pinned s) (hG : Undisturbed lower vte s a)
    (hstep : Credential.step lower vte s a = some s') : Pinned s' := by
  cases a with
  | request kind =>
    cases hstep
    intro r hr g hg
    rcases mem_append.1 hr with hr | hr
    · exact h r hr g hg
    · rw [mem_singleton.1 hr]
      exact .idle rfl fun seen hs => by cases hs
  | proceed i =>
    rw [Credential.step] at hstep
    split at hstep
    · next r hr =>
      exact h.proceed hI hr (.of_proceed hstep) fun r' hr' => Proceeds.kind hr (.of_proceed hstep) hr'
    · cases hstep
  | remove =>
    cases hstep
    exact h
  | stream a =>
    obtain ⟨pty, hpty, rfl⟩ := map_eq_some_iff.1 hstep
    obtain ⟨hgen, hact⟩ := hG pty hpty
    exact h.stream hI (streamStep_move hpty) hgen hact

/-! ## Runs -/

theorem callNext_enabled (k : Nat) {call : Call} (hqueue : pty.queue = [])
    (hqueued : call.pc ≠ .queued) (hret : ∀ res, call.pc ≠ .returned res) :
    ∃ pty', pty.callNext k call = some pty' := by
  have hsend : ∀ owner, ∃ pty', pty.send k call owner = some pty' := by
    intro owner
    unfold Pty.Sys.send
    rw [hqueue]
    split_ifs with hended hroom
    · exact ⟨_, rfl⟩
    · exact ⟨_, rfl⟩
    · exact absurd (by decide) hroom
  unfold Pty.Sys.callNext
  split
  case h_1 => split_ifs <;> exact ⟨_, rfl⟩
  all_goals first | exact ⟨_, rfl⟩ | exact hsend _ | simp_all

theorem Inv.enabled (h : Inv s) (hr : s.requests[i]? = some r) (hholder : s.holder = some i)
    (hqueued : r.queued = false) : ∃ s', Credential.step lower vte s (.proceed i) = some s' := by
  obtain ⟨r', hr', hholds⟩ := (h.holder i).1 hholder
  obtain rfl := Option.some.inj (hr.symm.trans hr')
  rw [Credential.step, hr]
  dsimp only
  unfold Sys.proceed
  split
  case h_6 current hpc =>
    obtain ⟨k, call, hk, hcall, -, hfits⟩ := (h.ok r (mem_of_getElem? hr)).writing current hpc
    have hne : call.pc ≠ .queued := fun heq => by simp [heq, fits, hqueued] at hfits
    have hnil := h.inFlight_nil hr hholds fun msg hwait => hne (hwait.pc_eq hk hcall)
    have hqueue : s.pty.queue = [] := (append_eq_nil_iff.1 hnil).2
    simp only [hk, hcall]
    split
    · exact ⟨_, rfl⟩
    · next hret =>
      obtain ⟨pty, hpty⟩ := callNext_enabled k hqueue hne hret
      exact ⟨_, congrArg (Option.map _) hpty⟩
  all_goals first
    | simp_all [holds]; done
    | split_ifs <;> exact ⟨_, rfl⟩

/-- **The prompt that a secret answers.** In every schedule of the requests and the streaming task, a
delivery for the prompt `g` that disarms the gate and queues the secret finds the gate active with
generation `g` at its disarm, if the deliveries are undisturbed. One that does not do both has nothing
typed and does not return a success, and it is not held up once it has the probe. -/
theorem owner_secret_pinned {P : Type} (lower : Text → Text) (vte : VteParser P)
    (as : List Action) (s : Sys P)
    (hrun : Transition.run (step lower vte) (init vte) as = some s) (i : Nat) (r : Request)
    (hr : s.requests[i]? = some r) (secret : List UInt8) (g : Nat)
    (hkind : r.kind = .deliverCredential secret (some g)) :
    (Transition.Meets (step lower vte) (Undisturbed lower vte) (init vte) as →
      ∀ seen, r.disarmedAt = some seen → r.queued = true → seen = (true, g)) ∧
    (r.disarmedAt = none ∨ r.queued = false →
      r.typed = [] ∧ (∀ n, r.pc ≠ .returned (.ok n)) ∧
        (s.holder = some i → ∃ s', step lower vte s (.proceed i) = some s')) := by
  have hmem := mem_of_getElem? hr
  have hinv : Inv s := run_invariant (fun _ _ _ hI _ hs => hI.step hs) (init_inv vte)
    (meets_true _ _) hrun
  have hok := hinv.ok r hmem
  refine ⟨fun hG seen hseen _ => ?_, fun hnot => ?_⟩
  · have hpinned : Inv s ∧ Pinned s := run_invariant (I := fun s => Inv s ∧ Pinned s)
      (fun _ _ _ hI hG hs => ⟨hI.1.step hs, hI.2.step hI.1 hG hs⟩)
      ⟨init_inv vte, fun r hr => by cases hr⟩ hG hrun
    exact (hpinned.2 r hmem g (by rw [hkind]; rfl)).disarmed seen hseen
  · have hqueued : r.queued = false := by
      rcases hnot with hdis | hqueued
      · have horder := hok.order
        rw [hdis, hkind] at horder
        simpa [owner] using horder
      · exact hqueued
    refine ⟨hok.typed hqueued, fun n hn => ?_, fun hholder => hinv.enabled hr hholder hqueued⟩
    rw [hok.returned n hn] at hqueued
    cases hqueued

def comparedSchedule : List Action :=
  (Pty.Action.resume :: .recv :: Pty.readPrompt).map .stream ++
    .request (.deliverCredential (Pty.bytesOf "s") (some 1)) :: List.replicate 5 (.proceed 0)

def deliveredSchedule : List Action :=
  List.replicate 6 (.proceed 0) ++ [.resume, .recv, .write 2, .flushed].map .stream ++
    List.replicate 2 (.proceed 0)

def nextPrompt : List Action :=
  (Pty.Action.resume :: .recv :: .chunk (Pty.bytesOf "\n$ \nPassword:") ::
    List.replicate 13 (.advance 2)).map .stream

theorem secret_answers_its_prompt : ∃ s r,
    Transition.run (step Pty.asciiLower Pty.asciiVte) (init Pty.asciiVte)
        (comparedSchedule ++ deliveredSchedule) = some s ∧ s.requests[0]? = some r ∧
      r.typed = Pty.bytesOf "s\r" ∧ r.disarmedAt = some (true, 1) := by
  have hrun : ∃ s ∈ run (step asciiLower asciiVte) (init asciiVte)
      (comparedSchedule ++ deliveredSchedule), ∃ r ∈ s.requests[0]?,
        r.kind = .deliverCredential (bytesOf "s") (some 1) ∧ r.typed = bytesOf "s\r" ∧
          r.disarmedAt.isSome = true ∧ r.queued = true := by
    decide +kernel
  have hG : Transition.Meets (step asciiLower asciiVte)
      (Undisturbed asciiLower asciiVte) (init asciiVte)
      (comparedSchedule ++ deliveredSchedule) := by
    decide +kernel
  obtain ⟨s, hs, r, hr, hkind, htyped, hdis, hqueued⟩ := hrun
  obtain ⟨seen, hseen⟩ := isSome_iff_exists.1 hdis
  have hpinned := (owner_secret_pinned asciiLower asciiVte _ s hs 0 r hr _ 1 hkind).1 hG seen
    hseen hqueued
  exact ⟨s, r, hs, hr, htyped, by rw [hseen, hpinned]⟩

/-- The next prompt is counted between the comparison and the disarm: it gets the secret. -/
theorem secret_answers_next_prompt : ∃ s r,
    Transition.run (step Pty.asciiLower Pty.asciiVte) (init Pty.asciiVte)
        (comparedSchedule ++ nextPrompt ++ deliveredSchedule) = some s ∧
      s.requests[0]? = some r ∧ r.kind = .deliverCredential (Pty.bytesOf "s") (some 1) ∧
      r.disarmedAt = some (true, 2) ∧ r.queued = true ∧ r.typed = Pty.bytesOf "s\r" := by
  have hrun : ∃ s ∈ run (step asciiLower asciiVte) (init asciiVte)
      (comparedSchedule ++ nextPrompt ++ deliveredSchedule), ∃ r ∈ s.requests[0]?,
        r.kind = .deliverCredential (bytesOf "s") (some 1) ∧
          r.disarmedAt = some (true, 2) ∧ r.queued = true ∧ r.typed = bytesOf "s\r" := by
    decide +kernel
  obtain ⟨s, hs, r, hr, hrest⟩ := hrun
  exact ⟨s, r, hs, hr, hrest⟩

end Credential

end TerminalCommander
