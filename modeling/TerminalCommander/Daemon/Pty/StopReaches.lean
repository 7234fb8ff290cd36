import TerminalCommander.Daemon.Pty.Stop

/-!
# A stop reaches the child

A stop only tries the mutex of the probe, and does without the cancel signal when it fails. The
mutex can be taken by a `list` or `status` call no longer by then, since these keep the live map
read-locked; it can be taken by the lifecycle waiter, which comes when the child has ended; and by
the calls that have cloned the handle of the probe. So a stop reaches the child unless such a call
has the probe.
-/

namespace TerminalCommander.PtyStop

open List Party Table PtyStop Bool StopPc Inv

/-! ## The probe mutex -/

def CallPc.mayHold : CallPc → Bool
  | .queued _ => true
  | .holding _ => true
  | .writing _ => true
  | _ => false

def CallPc.waits : CallPc → Bool
  | .queued _ => true
  | _ => false

def WaiterPc.waits : WaiterPc → Bool
  | .queued _ => true
  | _ => false

def callAt (calls : List CallPc) (test : CallPc → Bool) (i : Nat) : Prop :=
  ∃ pc, calls[i]? = some pc ∧ test pc = true

def roles (calls : List CallPc) (waiter : WaiterPc) (stops : List StopPc) :
    FairMutex.Roles Party where
  has
    | .call i => callAt calls CallPc.hasProbe i
    | .waiter => waiter = .measuring true
    | .stop k => stops[k]? = some .locked
  may
    | .call i => callAt calls CallPc.mayHold i
    | .waiter => waiter.mayHold = true
    | .stop k => stops[k]? = some .locked
  waits
    | .call i => callAt calls CallPc.waits i
    | .waiter => waiter.waits = true
    | .stop _ => False

variable {calls : List CallPc} {waiter : WaiterPc} {stops : List StopPc}

variable {pc : CallPc} {i : Nat} {test : CallPc → Bool}

theorem callAt_iff (h : calls[i]? = some pc) : callAt calls test i ↔ test pc := by
  constructor
  · rintro ⟨pc', h', htest⟩
    rw [h, Option.some.injEq] at h'
    exact h' ▸ htest
  · exact fun htest => ⟨pc, h, htest⟩

theorem callAt_set_self (h : calls[i]? = some pc)
    (pc' : CallPc) : callAt (calls.set i pc') test i ↔ test pc' :=
  callAt_iff (getElem?_set_of_some h pc')

theorem callAt_set_of_ne {j : Nat} (hij : j ≠ i) (pc : CallPc) :
    callAt (calls.set i pc) test j ↔ callAt calls test j := by
  unfold callAt
  rw [getElem?_set_ne hij.symm]

theorem exceptFor_call (i : Nat) (pc : CallPc) :
    (roles calls waiter stops).ExceptFor (.call i) (roles (calls.set i pc) waiter stops) := by
  intro q hq
  cases q with
  | call j =>
    have hji : j ≠ i := fun heq => hq (congrArg call heq)
    exact ⟨(callAt_set_of_ne hji pc).mp, (callAt_set_of_ne hji pc).mpr,
      (callAt_set_of_ne hji pc).mpr⟩
  | _ => exact ⟨id, id, id⟩

theorem exceptFor_waiter (waiter' : WaiterPc) :
    (roles calls waiter stops).ExceptFor .waiter (roles calls waiter' stops) := by
  intro q hq
  cases q with
  | waiter => exact absurd rfl hq
  | _ => exact ⟨id, id, id⟩

theorem exceptFor_stop (k : Nat) (pc : StopPc) :
    (roles calls waiter stops).ExceptFor (.stop k) (roles calls waiter (stops.set k pc)) := by
  intro q hq
  cases q with
  | stop j =>
    have hjk : k ≠ j := fun heq => hq (congrArg stop heq.symm)
    have hget : (stops.set k pc)[j]? = stops[j]? := getElem?_set_ne hjk
    exact ⟨fun h => hget.symm.trans h, fun h => hget.trans h, id⟩
  | _ => exact ⟨id, id, id⟩

theorem may_of_waits (q : Party) (h : (roles calls waiter stops).waits q) :
    (roles calls waiter stops).may q := by
  cases q with
  | call i =>
    obtain ⟨pc, hpc, hwaits⟩ := h
    refine ⟨pc, hpc, ?_⟩
    cases pc <;> first | rfl | cases hwaits
  | waiter =>
    have hwaits : waiter.waits := h
    show waiter.mayHold
    cases waiter <;> first | rfl | cases hwaits
  | stop k => exact h.elim

def Locking (s : Sys) : Prop := s.probe.Owned (roles s.calls s.waiter s.stops)

variable {s : Sys}

theorem Locking.notMem (h : Locking s) {p : Party}
    (hp : ¬(roles s.calls s.waiter s.stops).may p) : p ∉ s.probe.members :=
  FairMutex.Owned.notMem_members h hp fun hwaits => hp (may_of_waits p hwaits)

theorem Locking.call_notMem (h : Locking s)
    (hi : s.calls[i]? = some pc) (hpc : pc.mayHold = false) : call i ∉ s.probe.members :=
  h.notMem fun hmay => false_ne_true (hpc.symm.trans ((callAt_iff hi).mp hmay))

variable {k : Nat}

theorem Locking.stop_notMem (h : Locking s) {pc : StopPc}
    (hk : s.stops[k]? = some pc) (hpc : pc ≠ .locked) : stop k ∉ s.probe.members :=
  h.notMem fun hmay => hpc (Option.some.inj (hk.symm.trans hmay))

theorem Locking.setCall (h : Locking s) {pc' : CallPc}
    (hi : s.calls[i]? = some pc) (hpc : pc.mayHold = false) (hpc' : pc'.hasProbe = false) :
    s.probe.Owned (roles (s.calls.set i pc') s.waiter s.stops) := by
  refine FairMutex.Owned.stranger h (h.call_notMem hi hpc) (exceptFor_call i pc') fun hhas => ?_
  exact false_ne_true (hpc'.symm.trans ((callAt_set_self hi pc').mp hhas))

theorem Locking.setStop (h : Locking s) {pc pc' : StopPc}
    (hk : s.stops[k]? = some pc) (hpc : pc ≠ .locked) (hpc' : pc' ≠ .locked) :
    s.probe.Owned (roles s.calls s.waiter (s.stops.set k pc')) := by
  refine FairMutex.Owned.stranger h (h.stop_notMem hk hpc) (exceptFor_stop k pc') fun hhas => ?_
  exact hpc' (Option.some.inj ((getElem?_set_of_some hk pc').symm.trans hhas))

theorem Locking.setWaiter (h : Locking s) (hw : s.waiter.mayHold = false)
    {waiter : WaiterPc} (hw' : waiter.mayHold = false) :
    s.probe.Owned (roles s.calls waiter s.stops) := by
  have hnot : Party.waiter ∉ s.probe.members :=
    h.notMem fun hmay => false_ne_true (hw.symm.trans hmay)
  refine FairMutex.Owned.stranger h hnot (exceptFor_waiter waiter) fun hhas => ?_
  have heq : waiter = .measuring true := hhas
  rw [heq] at hw'
  cases hw'

theorem callAt_concat {calls : List CallPc} :
    callAt (calls ++ [pc]) test i ↔ callAt calls test i ∨ i = calls.length ∧ test pc := by
  unfold callAt
  simp only [getElem?_concat]
  constructor
  · rintro ⟨pc', hpc' | ⟨hi, rfl⟩, htest⟩
    · exact .inl ⟨pc', hpc', htest⟩
    · exact .inr ⟨hi, htest⟩
  · rintro (⟨pc', hpc', htest⟩ | ⟨hi, htest⟩)
    · exact ⟨pc', .inl hpc', htest⟩
    · exact ⟨pc, .inr ⟨hi, rfl⟩, htest⟩

theorem Locking.addCall (h : Locking s) (hpc : pc.hasProbe = false) :
    s.probe.Owned (roles (s.calls ++ [pc]) s.waiter s.stops) := by
  have hnew : call s.calls.length ∉ s.probe.members := by
    refine h.notMem ?_
    rintro ⟨pc', hpc', -⟩
    cases (getElem?_eq_none (Nat.le_refl s.calls.length)).symm.trans hpc'
  refine FairMutex.Owned.stranger h hnew (fun q hq => ?_) fun hhas => ?_
  · cases q with
    | call i =>
      have hi : ∀ test, callAt (s.calls ++ [pc]) test i ↔ callAt s.calls test i := fun test =>
        callAt_concat.trans (or_iff_left fun hlast => hq (congrArg call hlast.1))
      exact ⟨(hi _).mp, (hi _).mpr, (hi _).mpr⟩
    | _ => exact ⟨id, id, id⟩
  · rcases callAt_concat.mp hhas with ⟨pc', hpc', -⟩ | ⟨-, htest⟩
    · cases (getElem?_eq_none (Nat.le_refl s.calls.length)).symm.trans hpc'
    · exact false_ne_true (hpc.symm.trans htest)

theorem Locking.addStop (h : Locking s) :
    s.probe.Owned (roles s.calls s.waiter (s.stops ++ [.called])) := by
  have hlocked : ∀ k : Nat, (s.stops ++ [called])[k]? = some locked ↔
      s.stops[k]? = some locked := fun k =>
    getElem?_concat.trans (or_iff_left fun hlast => nomatch hlast.2)
  have hnew : stop s.stops.length ∉ s.probe.members := by
    refine h.notMem fun hmay => ?_
    cases (getElem?_eq_none (Nat.le_refl s.stops.length)).symm.trans hmay
  refine FairMutex.Owned.stranger h hnew (fun q hq => ?_) fun hhas => ?_
  · cases q with
    | stop k => exact ⟨(hlocked k).mp, (hlocked k).mpr, id⟩
    | _ => exact ⟨id, id, id⟩
  · cases (getElem?_eq_none (Nat.le_refl s.stops.length)).symm.trans ((hlocked _).mp hhas)

variable {a : Action} {s' : Sys}

theorem Locking.step (h : Locking s) (hstep : step s a = some s') : Locking s' := by
  cases Step.of_step hstep with
  | call kind =>
    refine h.addCall ?_
    split_ifs <;> rfl
  | callLock i kind hi hwaits =>
    exact FairMutex.Owned.lock h (h.call_notMem hi rfl) (exceptFor_call i _)
      (fun hhas => false_ne_true ((callAt_set_self hi _).mp hhas))
      ((callAt_set_self hi _).mpr rfl) ((callAt_set_self hi _).mpr rfl)
  | callTry i kind probe hi hprobe =>
    exact FairMutex.Owned.tryLock h hprobe (h.call_notMem hi rfl) (exceptFor_call i _)
      ((callAt_set_self hi _).mpr rfl)
  | callBusy i kind hi => exact h.setCall hi rfl rfl
  | callGranted i kind hi hprobe =>
    exact FairMutex.Owned.keep h (exceptFor_call i _) (fun _ => hprobe)
      (fun _ => (callAt_set_self hi _).mpr rfl)
      fun hmem => absurd hmem (FairMutex.Owned.notMem_queue h hprobe)
  | callWrite i kind hi hwrite =>
    have hholder : s.probe.holder = some (.call i) :=
      FairMutex.Owned.has h (.call i) ((callAt_iff hi).mpr rfl)
    exact FairMutex.Owned.keep h (exceptFor_call i _) (fun _ => hholder)
      (fun _ => (callAt_set_self hi _).mpr rfl)
      fun hmem => absurd hmem (FairMutex.Owned.notMem_queue h hholder)
  | callReturn i pc hi hpc =>
    have hholder : s.probe.holder = some (.call i) :=
      FairMutex.Owned.has h (.call i) ((callAt_iff hi).mpr hpc)
    exact FairMutex.Owned.unlock h hholder (exceptFor_call i _)
      (fun hhas => false_ne_true ((callAt_set_self hi _).mp hhas)) may_of_waits
  | childEnds outcome => exact h
  | waiterLock outcome hw hend =>
    have hnot : waiter ∉ s.probe.members := by
      refine h.notMem fun hmay => ?_
      rw [hw] at hmay
      cases hmay
    exact FairMutex.Owned.lock h hnot (exceptFor_waiter _) nofun rfl rfl
  | waiterReport outcome hw hprobe =>
    exact FairMutex.Owned.unlock h hprobe (exceptFor_waiter _) nofun may_of_waits
  | waiterMoves waiter appended hw hbef hafter => exact h.setWaiter hbef hafter
  | waiterFinish outcome now hw => exact h.setWaiter (by rw [hw]; rfl) rfl
  | waiterTry probe hw hprobe =>
    have hnot : waiter ∉ s.probe.members := by
      refine h.notMem fun hmay => ?_
      rw [hw] at hmay
      cases hmay
    exact FairMutex.Owned.tryLock h hprobe hnot (exceptFor_waiter _) rfl
  | waiterPersist hw =>
    exact FairMutex.Owned.unlock h (FairMutex.Owned.has h .waiter hw) (exceptFor_waiter _) nofun
      may_of_waits
  | stop => exact h.addStop
  | stopRemove k hk hlive hreads | stopUnknown k hk hlive | stopBusy k hk hprobe
  | stopRecord k now hk | stopReturn k hk => exact h.setStop hk nofun nofun
  | stopTry k probe hk hprobe =>
    exact FairMutex.Owned.tryLock h hprobe (h.stop_notMem hk nofun) (exceptFor_stop k _)
      (getElem?_set_of_some hk _)
  | stopSignal k hk =>
    refine FairMutex.Owned.unlock h (FairMutex.Owned.has h (.stop k) hk) (exceptFor_stop k _)
      (fun hhas => ?_) may_of_waits
    cases (getElem?_set_of_some hk .tried).symm.trans hhas

/-! ## The live map -/

def CallPc.Allowed (live : Bool) : CallPc → Prop
  | .found kind => kind.underLive = true → live = true
  | .queued kind => kind.underLive = false
  | .holding kind => kind.underLive = true → live = true
  | .writing kind => kind.underLive = false
  | .returned => True

def Readers (s : Sys) : Prop := ∀ pc ∈ s.calls, pc.Allowed s.live

theorem Readers.setCall (h : Readers s)
    (hpc : pc.Allowed s.live) : ∀ p ∈ s.calls.set i pc, p.Allowed s.live := by
  intro p hp
  rcases mem_or_eq_of_mem_set hp with hp | rfl
  · exact h p hp
  · exact hpc

theorem Readers.step (h : Readers s) (hstep : step s a = some s') : Readers s' := by
  cases Step.of_step hstep with
  | call kind =>
    intro pc hpc
    rcases mem_append.mp hpc with hpc | hpc
    · exact h pc hpc
    · rw [mem_singleton.mp hpc]
      split_ifs with hlive
      · exact fun _ => hlive
      · trivial
  | callLock i kind hi hwaits | callWrite i kind hi hwaits =>
    exact h.setCall (by cases kind <;> first | rfl | cases hwaits)
  | callTry i kind probe hi hprobe =>
    have hfound : CallPc.Allowed s.live (.found kind) := h _ (mem_of_getElem? hi)
    have hholding : CallPc.Allowed s.live (.holding kind) := hfound
    exact h.setCall hholding
  | callBusy i kind hi | callReturn i pc hi hpc =>
    have hret : CallPc.Allowed s.live .returned := trivial
    exact h.setCall hret
  | callGranted i kind hi hprobe =>
    have hkind : kind.underLive = false := h _ (mem_of_getElem? hi)
    have hholding : CallPc.Allowed s.live (.holding kind) := fun hunder =>
      absurd (hkind.symm.trans hunder) false_ne_true
    exact h.setCall hholding
  | stopRemove k hk hlive hreads =>
    intro pc hpc
    have hread := hreads pc hpc
    have hbefore := h pc hpc
    cases pc with
    | queued kind => exact hbefore
    | writing kind => exact hbefore
    | returned => trivial
    | _ => exact fun hunder => absurd (hread.symm.trans hunder) false_ne_true
  | stopUnknown k hk hlive =>
    intro pc hpc
    rw [← hlive]
    exact h pc hpc
  | _ => exact h

/-! ## One stop gets the binding -/

def StopPc.past : StopPc → Bool
  | .called => false
  | .unknownJob => false
  | _ => true

structure Removal (s : Sys) : Prop where
  gone : ∀ pc ∈ s.stops, pc.past = true → s.live = false
  one : ∀ (k j : Nat) (pc pc' : StopPc), s.stops[k]? = some pc → s.stops[j]? = some pc' →
    pc.past = true → pc'.past = true → k = j

theorem Removal.setStop (h : Removal s) {pc pc' : StopPc}
    (hk : s.stops[k]? = some pc) (hpast : pc'.past → pc.past)
    (hlive : s'.live = s.live) (hstops : s'.stops = s.stops.set k pc') : Removal s' := by
  have hbef : ∀ (j : Nat) (q : StopPc), s'.stops[j]? = some q → q.past →
      ∃ q', s.stops[j]? = some q' ∧ q'.past := by
    intro j q hj hq
    rw [hstops] at hj
    rcases set_cases hj with ⟨rfl, rfl⟩ | ⟨-, hj⟩
    · exact ⟨pc, hk, hpast hq⟩
    · exact ⟨q, hj, hq⟩
  constructor
  · intro q hq hqpast
    obtain ⟨j, hj⟩ := mem_iff_getElem?.mp hq
    obtain ⟨q', hq', hpast'⟩ := hbef j q hj hqpast
    rw [hlive]
    exact h.gone q' (mem_of_getElem? hq') hpast'
  · intro i j q q' hi hj hq hq'
    obtain ⟨p, hp, hppast⟩ := hbef i q hi hq
    obtain ⟨p', hp', hppast'⟩ := hbef j q' hj hq'
    exact h.one i j p p' hp hp' hppast hppast'

theorem Removal.step (h : Removal s) (hstep : step s a = some s') : Removal s' := by
  cases Step.of_step hstep with
  | stop =>
    have hold : ∀ (j : Nat) (q : StopPc), (s.stops ++ [called])[j]? = some q →
        q.past → s.stops[j]? = some q := by
      intro j q hj hq
      refine (getElem?_concat.mp hj).resolve_right fun hlast => ?_
      rw [← hlast.2] at hq
      cases hq
    constructor
    · intro q hq hpast
      obtain ⟨j, hj⟩ := mem_iff_getElem?.mp hq
      exact h.gone q (mem_of_getElem? (hold j q hj hpast)) hpast
    · exact fun i j q q' hi hj hq hq' => h.one i j q q' (hold i q hi hq) (hold j q' hj hq') hq hq'
  | stopRemove k hk hlive hreads =>
    -- while the binding is there, no stop has taken it
    have hnone : ∀ (j : Nat) (q : StopPc), (s.stops.set k .removed)[j]? = some q →
        q.past → j = k := by
      intro j q hj hq
      rcases set_cases hj with ⟨rfl, -⟩ | ⟨-, hj⟩
      · rfl
      · cases hlive.symm.trans (h.gone q (mem_of_getElem? hj) hq)
    exact ⟨fun _ _ _ => rfl, fun i j q q' hi hj hq hq' =>
      (hnone i q hi hq).trans (hnone j q' hj hq').symm⟩
  | stopUnknown k hk hlive =>
    have hpast : unknownJob.past → called.past := nofun
    exact h.setStop hk hpast hlive.symm rfl
  | stopTry k probe hk hprobe | stopBusy k hk hprobe | stopSignal k hk | stopRecord k now hk
  | stopReturn k hk => exact h.setStop hk (fun _ => rfl) rfl rfl
  | _ => exact ⟨h.gone, h.one⟩

/-! ## Reaching the child -/

def Awaited (s : Sys) : Prop := s.waiter ≠ .waiting → s.childEnd.isSome = true

theorem Awaited.step (h : Awaited s) (hstep : step s a = some s') : Awaited s' := by
  cases Step.of_step hstep with
  | childEnds outcome => exact fun _ => rfl
  | waiterLock outcome hw hend => exact fun _ => by rw [hend]; rfl
  | waiterReport outcome hw hprobe | waiterFinish outcome now hw | waiterTry probe hw hprobe
  | waiterPersist hw => exact fun _ => h (by rw [hw]; nofun)
  | waiterMoves waiter appended hw hbef hafter => exact fun _ => h hw
  | _ => exact h

def Sys.reached (s : Sys) : Prop := s.cancelSent = true ∨ s.childEnd.isSome = true

def StopPc.pastTry : StopPc → Bool
  | .tried => true
  | .recorded => true
  | .ok => true
  | _ => false

structure Inv (s : Sys) : Prop where
  locking : Locking s
  readers : Readers s
  removal : Removal s
  awaited : Awaited s
  stops : ∀ pc ∈ s.stops, pc.pastTry = true → s.reached
  ledger : s.job.state = .cancelled → s.reached

def CallPc.detached : CallPc → Bool
  | .queued _ => true
  | .holding kind => !kind.underLive
  | .writing _ => true
  | _ => false

def Sys.holdingCall (s : Sys) : Option CallPc :=
  match s.probe.holder with
  | some (.call i) => s.calls[i]?
  | _ => none

def Undisturbed (s : Sys) : Action → Prop
  | .stopTry _ => s.childEnd.isSome = true ∨ ∀ pc ∈ s.holdingCall, pc.detached = false
  | _ => True

theorem Inv.busy (h : Inv s) (hk : s.stops[k]? = some .removed)
    (hbusy : s.probe.tryLock (.stop k) = none) (hfree : Undisturbed s (.stopTry k)) :
    s.childEnd.isSome := by
  refine hfree.elim id fun hcalls => ?_
  obtain ⟨q, hq⟩ := FairMutex.tryLock_eq_none hbusy
  have hmay := FairMutex.Owned.holder h.locking q hq
  have hgone : s.live = false := h.removal.gone _ (mem_of_getElem? hk) rfl
  cases q with
  | call i =>
    obtain ⟨pc, hpc, hhold⟩ := hmay
    have hholding : s.holdingCall = some pc := by
      unfold Sys.holdingCall
      rw [hq]
      exact hpc
    have hattached := hcalls pc hholding
    have hallowed := h.readers pc (mem_of_getElem? hpc)
    cases pc with
    | found kind => cases hhold
    | holding kind =>
      -- a `list` or `status` call would keep the binding in the live map
      have hunder : kind.underLive := by simpa [CallPc.detached] using hattached
      have hlive : s.live := hallowed hunder
      exact absurd (hgone.symm.trans hlive) false_ne_true
    | returned => cases hhold
    | _ => cases hattached
  | waiter =>
    refine h.awaited fun hw => ?_
    rw [hw] at hmay
    cases hmay
  | stop j =>
    have hsame := h.removal.one k j _ _ hk hmay rfl rfl
    subst hsame
    cases hk.symm.trans hmay

theorem Inv.reach_keep (h : Inv s) (hreached : s.reached → s'.reached)
    (hstops : ∀ pc ∈ s'.stops, pc.pastTry → pc ∈ s.stops ∨ s'.reached)
    (hledger : s'.job.state = .cancelled → s.job.state = .cancelled ∨ s'.reached) :
    (∀ pc ∈ s'.stops, pc.pastTry → s'.reached) ∧
      (s'.job.state = .cancelled → s'.reached) :=
  ⟨fun pc hpc hpast => (hstops pc hpc hpast).elim (fun hold => hreached (h.stops pc hold hpast)) id,
    fun hcanc => (hledger hcanc).elim (fun hold => hreached (h.ledger hold)) id⟩

theorem Inv.setStop {pc : StopPc} (hstops : s'.stops = s.stops.set k pc)
    (hpc : pc.pastTry → s'.reached) : ∀ q ∈ s'.stops, q.pastTry → q ∈ s.stops ∨ s'.reached := by
  intro q hq hpast
  rw [hstops] at hq
  rcases mem_or_eq_of_mem_set hq with hq | rfl
  · exact .inl hq
  · exact .inr (hpc hpast)

theorem Inv.reach (h : Inv s) (hfree : Undisturbed s a) (hstep : step s a = some s') :
    (∀ pc ∈ s'.stops, pc.pastTry → s'.reached) ∧
      (s'.job.state = .cancelled → s'.reached) := by
  cases Step.of_step hstep with
  | childEnds outcome =>
    exact h.reach_keep (fun _ => .inr rfl) (fun _ hpc _ => .inl hpc) .inl
  | waiterFinish outcome now hw =>
    -- the waiter comes when the child has ended
    have hended : s.childEnd.isSome := h.awaited (by rw [hw]; nofun)
    exact h.reach_keep id (fun _ hpc _ => .inl hpc) fun _ => .inr (.inr hended)
  | stop =>
    refine h.reach_keep id (fun pc hpc hpast => ?_) .inl
    rcases mem_append.mp hpc with hpc | hpc
    · exact .inl hpc
    · rw [mem_singleton.mp hpc] at hpast
      cases hpast
  | stopRemove k hk hlive hreads | stopUnknown k hk hlive | stopTry k probe hk hprobe =>
    exact h.reach_keep id (setStop rfl nofun) .inl
  | stopBusy k hk hprobe =>
    exact h.reach_keep id (setStop rfl fun _ => .inr (h.busy hk hprobe hfree)) .inl
  | stopSignal k hk =>
    exact h.reach_keep (fun _ => .inl rfl) (setStop rfl fun _ => .inl rfl) .inl
  | stopRecord k now hk =>
    have hreached : s.reached := h.stops _ (mem_of_getElem? hk) rfl
    exact h.reach_keep id (setStop rfl fun _ => hreached) fun _ => .inr hreached
  | stopReturn k hk =>
    have hreached : s.reached := h.stops _ (mem_of_getElem? hk) rfl
    exact h.reach_keep id (setStop rfl fun _ => hreached) .inl
  | _ => exact h.reach_keep id (fun _ hpc _ => .inl hpc) .inl

theorem Inv.step (h : Inv s) (hfree : Undisturbed s a) (hstep : step s a = some s') : Inv s' := by
  obtain ⟨hstops, hledger⟩ := h.reach hfree hstep
  exact ⟨h.locking.step hstep, h.readers.step hstep, h.removal.step hstep, h.awaited.step hstep,
    hstops, hledger⟩

theorem inv_start (config : JobConfig) (startedAt : Time) : Inv (start config startedAt) where
  locking := by
    refine FairMutex.owned_free fun p hp => ?_
    cases p with
    | call i => exact nomatch hp.choose_spec.1
    | _ => cases hp
  readers := fun _ h => (not_mem_nil h).elim
  removal := ⟨fun _ h => (not_mem_nil h).elim, fun _ _ _ _ h => nomatch h⟩
  awaited := fun h => absurd rfl h
  stops := fun _ h => (not_mem_nil h).elim
  ledger := nofun

/-- **Stops reach the child.** In every run in which no call has the probe by a handle of its own
when a stop tries it, unless the child has ended: behind every stop that has returned `Ok`, and
under every job recorded as cancelled, the cancel signal has been sent or the child has ended. -/
theorem stop_reaches_child (config : JobConfig) (startedAt : Time) (acts : List Action) (s : Sys)
    (hfree : Transition.Meets step Undisturbed (start config startedAt) acts)
    (hrun : Transition.run step (start config startedAt) acts = some s) :
    (∀ pc ∈ s.stops, pc = .ok → s.cancelSent = true ∨ s.childEnd.isSome = true) ∧
      (s.job.state = .cancelled → s.cancelSent = true ∨ s.childEnd.isSome = true) := by
  have hinv : Inv s := Transition.run_invariant (fun _ _ _ h hg hs => h.step hg hs)
    (inv_start config startedAt) hfree hrun
  refine ⟨?_, hinv.ledger⟩
  rintro pc hpc rfl
  exact hinv.stops _ hpc rfl

/-! ## A shell that does not read -/

instance Undisturbed.decidable (s : Sys) : ∀ a, Decidable (Undisturbed s a)
  | .stopTry _ => inferInstanceAs (Decidable (_ ∨ _))
  | .call _ => isTrue trivial
  | .callLock _ => isTrue trivial
  | .callGranted _ => isTrue trivial
  | .callWrite _ => isTrue trivial
  | .callReturn _ => isTrue trivial
  | .childEnds _ => isTrue trivial
  | .childKilled => isTrue trivial
  | .waiterLock => isTrue trivial
  | .waiterReport => isTrue trivial
  | .waiterGuard => isTrue trivial
  | .waiterFinish _ => isTrue trivial
  | .waiterAppend _ => isTrue trivial
  | .waiterTry => isTrue trivial
  | .waiterPersist => isTrue trivial
  | .stop => isTrue trivial
  | .stopRemove _ => isTrue trivial
  | .stopSignal _ => isTrue trivial
  | .stopRecord _ _ => isTrue trivial
  | .stopReturn _ => isTrue trivial

def shellJob : JobConfig := ⟨1, "sh".toList, 2, 3, .terminal⟩

/-- A `write_stdin` call waits for its bytes to be written while a stop runs: the stop answers `Ok`
and the job is recorded as cancelled, but the child runs on and was sent nothing. -/
theorem stop_misses_busy_probe :
    ∃ s ∈ Transition.run step (start shellJob 0)
        [.call .writeStdin, .callLock 0, .callGranted 0, .callWrite 0, .stop, .stopRemove 0,
          .stopTry 0, .stopRecord 0 1000000, .stopReturn 0],
      s.stops = [.ok] ∧ s.job.state = .cancelled ∧ s.cancelSent = false ∧ s.childEnd = none := by
  decide +kernel

/-- The same call, when it has returned before the stop. -/
theorem stop_after_write_reaches :
    ∃ s ∈ Transition.run step (start shellJob 0)
        [.call .writeStdin, .callLock 0, .callGranted 0, .callWrite 0, .callReturn 0, .stop,
          .stopRemove 0, .stopTry 0, .stopSignal 0, .stopRecord 0 1000000, .stopReturn 0],
      (s.stops = [.ok] ∧ s.job.state = .cancelled) ∧
      (∀ pc ∈ s.stops, pc = .ok → s.cancelSent = true ∨ s.childEnd.isSome = true) ∧
        (s.job.state = .cancelled → s.cancelSent = true ∨ s.childEnd.isSome = true) := by
  have hend : ∃ s ∈ Transition.run step (start shellJob 0)
        [.call .writeStdin, .callLock 0, .callGranted 0, .callWrite 0, .callReturn 0, .stop,
          .stopRemove 0, .stopTry 0, .stopSignal 0, .stopRecord 0 1000000, .stopReturn 0],
      s.stops = [.ok] ∧ s.job.state = .cancelled := by
    decide +kernel
  obtain ⟨s, hrun, hok⟩ := hend
  exact ⟨s, hrun, hok, stop_reaches_child shellJob 0 _ s (by decide +kernel) hrun⟩

end TerminalCommander.PtyStop
