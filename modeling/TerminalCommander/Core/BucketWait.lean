import TerminalCommander.Core.BucketRead
import TerminalCommander.Lib.Transition

/-!
# Waiting on a bucket

`bucket_wait` as a transition system: the waiter's own steps, and between them any call of any
other task on the manager. The flag `woken` is the bucket's `Notify` from the creation of the
`notified` future on. A matching event that arrives between the read that finds nothing and the
creation of the future, or between the timeout and the read of the tail, is passed over by the
heartbeat; outside these gaps nothing is lost.
-/

namespace TerminalCommander

open BucketManager Option Transition

structure BucketWaitRequest where
  cursor : Nat
  severityMin : Option Severity
  kindFilter : Option Text
  limit : Option Nat
  deriving DecidableEq, Repr

structure BucketWaitResponse where
  bucketId : BucketId
  cursorIn : Nat
  nextCursor : Nat
  heartbeat : Bool
  events : List SignalEvent
  droppedCount : Nat
  deriving DecidableEq, Repr

def BucketWaitRequest.readReq (req : BucketWaitRequest) : BucketReadRequest :=
  ⟨req.cursor, req.severityMin, req.kindFilter, req.limit⟩

namespace BucketWait

inductive Pc where
  | start
  /-- It holds the `Notify` of the bucket. -/
  | snapped
  /-- The first read found nothing. -/
  | readEmpty
  /-- The `notified` future exists; `woken` once a notification came after that. -/
  | enrolled (woken : Bool)
  | woke
  /-- The timeout came first. -/
  | elapsed
  | done (resp : Except BucketError BucketWaitResponse)

structure Sys where
  buckets : BucketManager
  pc : Pc

inductive Action where
  | other (c : BucketCall)
  | snapshot
  | firstRead (now : Time)
  | enroll
  | wake
  | elapse
  | secondRead (now : Time)
  | readState

def notifies (m : BucketManager) (id : BucketId) (c : BucketCall) : Bool :=
  decide (c.bucket = id) && match c.op with
    | .append ev => (m.append c.bucket ev).1.isOk
    | .patchEventAggregation seq count firstSeen lastSeen =>
      (m.patchEventAggregation c.bucket seq count firstSeen lastSeen).1.isOk
    | _ => false

def notified (hit : Bool) : Pc → Pc
  | .enrolled woken => .enrolled (woken || hit)
  | pc => pc

def ofRead (id : BucketId) (req : BucketWaitRequest) (heartbeat : Bool)
    (resp : BucketReadResponse) : BucketWaitResponse where
  bucketId := id
  cursorIn := req.cursor
  nextCursor := resp.nextCursor
  heartbeat := heartbeat
  events := resp.events
  droppedCount := resp.droppedCount

def ofState (id : BucketId) (req : BucketWaitRequest) (state : BucketState) :
    BucketWaitResponse where
  bucketId := id
  cursorIn := req.cursor
  nextCursor := max state.tailSeq req.cursor
  heartbeat := true
  events := []
  droppedCount := state.droppedCount

def afterFirst (id : BucketId) (req : BucketWaitRequest) :
    Except BucketError BucketReadResponse → Pc
  | .error e => .done (.error e)
  | .ok resp => if resp.events.isEmpty then .readEmpty else .done (.ok (ofRead id req false resp))

def afterSecond (id : BucketId) (req : BucketWaitRequest) :
    Except BucketError BucketReadResponse → Pc
  | .error e => .done (.error e)
  | .ok resp => .done (.ok (ofRead id req resp.events.isEmpty resp))

def afterState (id : BucketId) (req : BucketWaitRequest) : Except BucketError BucketState → Pc
  | .error e => .done (.error e)
  | .ok state => .done (.ok (ofState id req state))

def step (id : BucketId) (req : BucketWaitRequest) (s : Sys) : Action → Option Sys
  | .other c => some ⟨s.buckets.call c, notified (notifies s.buckets id c) s.pc⟩
  | .snapshot =>
    match s.pc, s.buckets.state id with
    | .start, .ok _ => some { s with pc := .snapped }
    | .start, .error e => some { s with pc := .done (.error e) }
    | _, _ => none
  | .firstRead now =>
    match s.pc with
    | .snapped =>
      let r := s.buckets.eventsSince id req.readReq now
      some ⟨r.2, afterFirst id req r.1⟩
    | _ => none
  | .enroll =>
    match s.pc with
    | .readEmpty => some { s with pc := .enrolled false }
    | _ => none
  | .wake =>
    match s.pc with
    | .enrolled true => some { s with pc := .woke }
    | _ => none
  | .elapse =>
    match s.pc with
    | .enrolled false => some { s with pc := .elapsed }
    | _ => none
  | .secondRead now =>
    match s.pc with
    | .woke =>
      let r := s.buckets.eventsSince id req.readReq now
      some ⟨r.2, afterSecond id req r.1⟩
    | _ => none
  | .readState =>
    match s.pc with
    | .elapsed => some { s with pc := afterState id req (s.buckets.state id) }
    | _ => none

def NoMatch (id : BucketId) (req : BucketWaitRequest) (m : BucketManager) : Prop :=
  ∀ b, m.inner id = some b → ∀ e ∈ b.events, BucketInner.passes req.readReq e = false

def Complete (id : BucketId) (req : BucketWaitRequest) (m : BucketManager)
    (resp : BucketWaitResponse) : Prop :=
  ∀ b, m.inner id = some b → ∀ e ∈ b.events, BucketInner.passes req.readReq e = true →
    e.seq ≤ resp.nextCursor → ∃ e' ∈ resp.events, e'.core = e.core

instance (id : BucketId) (req : BucketWaitRequest) (m : BucketManager)
    (resp : BucketWaitResponse) : Decidable (Complete id req m resp) :=
  inferInstanceAs (Decidable (∀ b ∈ m.inner id, _))

def Pc.response : Pc → Option BucketWaitResponse
  | .done (.ok resp) => some resp
  | _ => none

def Lossless (id : BucketId) (req : BucketWaitRequest) (s : Sys) : Prop :=
  ∀ resp ∈ s.pc.response, Complete id req s.buckets resp

instance (id : BucketId) (req : BucketWaitRequest) (s : Sys) : Decidable (Lossless id req s) :=
  inferInstanceAs (Decidable (∀ resp ∈ s.pc.response, _))

def Pc.inGap : Pc → Bool
  | .readEmpty => true
  | .elapsed => true
  | _ => false

def arrivals (id : BucketId) (s : Sys) : Action → List EventCore
  | .other c => s.buckets.accepts c id
  | _ => []

def Quiet (id : BucketId) (req : BucketWaitRequest) (s : Sys) (a : Action) : Prop :=
  s.pc.inGap = true → ∀ e ∈ arrivals id s a, e.passes req.readReq = false

instance (id : BucketId) (req : BucketWaitRequest) (s : Sys) (a : Action) :
    Decidable (Quiet id req s a) :=
  inferInstanceAs (Decidable (_ → _))

/-! ## The calls of other tasks -/

variable {c : BucketCall} {m : BucketManager} {req : BucketWaitRequest} {id : BucketId}

theorem NoMatch.call (hok : m.Ok) (h : NoMatch id req m)
    (hq : ∀ e ∈ m.accepts c id, e.passes req.readReq = false) : NoMatch id req (m.call c) := by
  intro b' hb' e he
  rcases call_inner_cases hb' with ⟨config, now, -, rfl⟩ | ⟨b, hb⟩
  · cases he
  · obtain ⟨b'', hb'', -, hs⟩ := m.call_steps c hb (hok id b hb)
    rw [hb', some.injEq] at hb''
    subst hb''
    rw [← BucketInner.passes_core]
    rcases hs.mem he with ⟨e0, he0, hcore⟩ | hnew
    · rw [← hcore]
      exact h b hb e0 he0
    · exact hq _ hnew

def Behind (id : BucketId) (req : BucketWaitRequest) (m : BucketManager)
    (resp : BucketWaitResponse) : Prop :=
  ∃ b, m.inner id = some b ∧ resp.nextCursor ≤ max req.cursor b.state.tailSeq

theorem Complete.call {resp : BucketWaitResponse} (hok : m.Ok) (h : Complete id req m resp)
    (hbehind : Behind id req m resp) (c : BucketCall) :
    Complete id req (m.call c) resp ∧ Behind id req (m.call c) resp := by
  obtain ⟨b, hb, hcur⟩ := hbehind
  obtain ⟨b', hb', -, hs⟩ := m.call_steps c hb (hok id b hb)
  have htail := hs.tail_le
  refine ⟨?_, b', hb', by omega⟩
  intro b'' hb'' e he hp hle
  rw [hb', some.injEq] at hb''
  subst hb''
  rcases hs.mem he with ⟨e0, he0, hcore⟩ | hnew
  · rw [← hcore]
    refine h b hb e0 he0 ?_ ?_
    · rw [← BucketInner.passes_core, hcore]
      exact hp
    · rw [show e0.seq = e.seq from congrArg EventCore.seq hcore]
      exact hle
  · have hfresh : b.state.tailSeq < e.seq := hs.fresh _ hnew
    have hpast : req.cursor < e.seq := BucketInner.cursor_lt_of_passes hp
    omega

/-! ## The waiter's own reads -/

variable {now : Time} {m' : BucketManager}

theorem read_spec {resp : BucketReadResponse} (hok : m.Ok)
    (h : m.eventsSince id req.readReq now = (.ok resp, m')) (heartbeat : Bool) :
    m'.Ok ∧ Complete id req m' (ofRead id req heartbeat resp) ∧
      Behind id req m' (ofRead id req heartbeat resp) ∧
      (resp.events = [] → NoMatch id req m') := by
  have hm' : m'.Ok := by
    have hcall : m.call ⟨id, .eventsSince req.readReq now⟩ = m' := congrArg Prod.snd h
    exact hcall ▸ hok.call _
  rcases m.eventsSince_cases id req.readReq now with ⟨-, hr⟩ | ⟨b, hb, hr⟩
  · rw [hr] at h
    cases h
  · rw [hr] at h
    cases h
    obtain ⟨gone, -, hbok, -⟩ := (hok id b hb).evictExpired now
    have hspec := hbok.toSound.readSince id req.readReq
    refine ⟨hm', ?_, ⟨_, m.set_inner_self id _, hspec.next_le⟩, ?_⟩
    · intro b' hb' e he hp hle
      rw [set_inner_self, some.injEq] at hb'
      subst hb'
      exact ⟨e, hspec.complete e he hp hle, rfl⟩
    · intro hnil b' hb' e he
      rw [set_inner_self, some.injEq] at hb'
      subst hb'
      exact (hspec.empty hnil).2 e he

theorem state_spec {state : BucketState} (hno : NoMatch id req m) (h : m.state id = .ok state) :
    Complete id req m (ofState id req state) ∧ Behind id req m (ofState id req state) := by
  unfold BucketManager.state at h
  rcases hb : m.inner id with _ | b
  · rw [hb] at h
    cases h
  · rw [hb] at h
    cases h
    refine ⟨?_, b, hb, Nat.le_of_eq (Nat.max_comm _ _)⟩
    intro b' hb' e he hp
    rw [hno b' hb' e he] at hp
    cases hp

/-! ## The invariant -/

def Pc.unseen : Pc → Bool
  | .readEmpty => true
  | .enrolled woken => !woken
  | .elapsed => true
  | _ => false

structure Inv (id : BucketId) (req : BucketWaitRequest) (s : Sys) : Prop where
  ok : s.buckets.Ok
  noMatch : s.pc.unseen = true → NoMatch id req s.buckets
  returned : ∀ resp, s.pc = .done (.ok resp) →
    Complete id req s.buckets resp ∧ Behind id req s.buckets resp

theorem accepts_of_not_notifies (h : notifies m id c = false) : m.accepts c id = [] := by
  by_cases hid : c.bucket = id
  · rcases c with ⟨id', op⟩
    cases op with
    | append ev =>
      rcases ha : (m.append id' ev).1 with e | seq
      · simp only [accepts, ha]
      · rw [notifies, decide_eq_true hid, Bool.true_and] at h
        simp only [ha] at h
        cases h
    | _ => rfl
  · exact m.accepts_of_ne c hid

theorem inv_other {s : Sys} (h : Inv id req s) (hq : Quiet id req s (.other c)) :
    Inv id req ⟨s.buckets.call c, notified (notifies s.buckets id c) s.pc⟩ := by
  refine ⟨h.ok.call c, ?_, ?_⟩
  · intro hun
    rcases hpc : s.pc with _ | _ | _ | woken | _ | _ | resp <;> rw [hpc] at hun
    case readEmpty =>
      exact (h.noMatch (by rw [hpc]; rfl)).call h.ok (hq (by rw [hpc]; rfl))
    case elapsed =>
      exact (h.noMatch (by rw [hpc]; rfl)).call h.ok (hq (by rw [hpc]; rfl))
    case enrolled =>
      -- still not notified, so the call stored nothing
      have hun' : woken = false ∧ notifies s.buckets id c = false := by
        simpa [notified, Pc.unseen] using hun
      refine (h.noMatch (by rw [hpc, hun'.1]; rfl)).call h.ok ?_
      rw [accepts_of_not_notifies hun'.2]
      exact fun e he => by cases he
    all_goals cases hun
  · intro resp hdone
    have hpc : s.pc = .done (.ok resp) := by
      rcases hpc : s.pc with _ | _ | _ | woken | _ | _ | r <;> rw [hpc] at hdone <;>
        first | exact hdone | cases hdone
    obtain ⟨hc, hb⟩ := h.returned resp hpc
    exact hc.call h.ok hb c

theorem Inv.neutral {pc : Pc}
    (hok : m.Ok) (hun : pc.unseen = false) (hd : ∀ resp, pc ≠ .done (.ok resp)) :
    Inv id req ⟨m, pc⟩ :=
  ⟨hok, fun h => absurd (hun.symm.trans h) Bool.false_ne_true, fun resp h => absurd h (hd resp)⟩

theorem Inv.waiting {pc : Pc}
    (hok : m.Ok) (hno : NoMatch id req m) (hd : ∀ resp, pc ≠ .done (.ok resp)) :
    Inv id req ⟨m, pc⟩ :=
  ⟨hok, fun _ => hno, fun resp h => absurd h (hd resp)⟩

theorem Inv.done {resp : BucketWaitResponse} (hok : m.Ok) (hc : Complete id req m resp)
    (hb : Behind id req m resp) : Inv id req ⟨m, .done (.ok resp)⟩ := by
  refine ⟨hok, fun h => absurd h Bool.false_ne_true, ?_⟩
  rintro r ⟨⟩
  exact ⟨hc, hb⟩

theorem inv_afterFirst {r : Except BucketError BucketReadResponse} (hok : m.Ok)
    (h : m.eventsSince id req.readReq now = (r, m')) : Inv id req ⟨m', afterFirst id req r⟩ := by
  rcases r with e | resp
  · have hm' : m.call ⟨id, .eventsSince req.readReq now⟩ = m' := congrArg Prod.snd h
    exact .neutral (hm' ▸ hok.call _) rfl nofun
  · obtain ⟨hok', hcomp, hbehind, hno⟩ := read_spec hok h false
    unfold afterFirst
    dsimp only
    split_ifs with hnil
    · exact .waiting hok' (hno (List.isEmpty_iff.mp hnil)) nofun
    · exact .done hok' hcomp hbehind

theorem inv_afterSecond {r : Except BucketError BucketReadResponse} (hok : m.Ok)
    (h : m.eventsSince id req.readReq now = (r, m')) : Inv id req ⟨m', afterSecond id req r⟩ := by
  rcases r with e | resp
  · have hm' : m.call ⟨id, .eventsSince req.readReq now⟩ = m' := congrArg Prod.snd h
    exact .neutral (hm' ▸ hok.call _) rfl nofun
  · obtain ⟨hok', hcomp, hbehind, -⟩ := read_spec hok h resp.events.isEmpty
    exact .done hok' hcomp hbehind

theorem inv_afterState
    (hok : m.Ok) (hno : NoMatch id req m) : Inv id req ⟨m, afterState id req (m.state id)⟩ := by
  rcases hs : m.state id with e | state
  · exact .neutral hok rfl nofun
  · obtain ⟨hcomp, hbehind⟩ := state_spec hno hs
    exact .done hok hcomp hbehind

theorem step_inv (s : Sys) (a : Action) (s' : Sys)
    (h : Inv id req s) (hq : Quiet id req s a) (hs : step id req s a = some s') :
    Inv id req s' := by
  rcases s with ⟨m, pc⟩
  cases a with
  | other c =>
    cases hs
    exact inv_other h hq
  | snapshot =>
    simp only [step] at hs
    split at hs <;> cases hs
    · exact .neutral h.ok rfl nofun
    · exact .neutral h.ok rfl nofun
  | firstRead now =>
    simp only [step] at hs
    split at hs <;> cases hs
    exact inv_afterFirst h.ok rfl
  | wake =>
    simp only [step] at hs
    split at hs <;> cases hs
    exact .neutral h.ok rfl nofun
  | secondRead now =>
    simp only [step] at hs
    split at hs <;> cases hs
    exact inv_afterSecond h.ok rfl
  | readState =>
    simp only [step] at hs
    split at hs <;> cases hs
    exact inv_afterState h.ok (h.noMatch rfl)
  | _ =>
    simp only [step] at hs
    split at hs <;> cases hs
    exact .waiting h.ok (h.noMatch rfl) nofun

def init : Sys := ⟨.new, .start⟩

theorem init_inv (id : BucketId) (req : BucketWaitRequest) : Inv id req init :=
  .neutral new_ok rfl nofun

/-- **No lost event.** In every schedule in which no matching event arrives in a gap, the wait
loses no event. -/
theorem wait_lossless_of_quiet (id : BucketId) (req : BucketWaitRequest) (as : List Action)
    (s : Sys) (hq : Transition.Meets (step id req) (Quiet id req) init as)
    (hs : Transition.run (step id req) init as = some s) : Lossless id req s := by
  intro resp hresp
  have hinv := run_invariant step_inv (init_inv id req) hq hs
  refine (hinv.returned resp ?_).1
  rcases hpc : s.pc with _ | _ | _ | _ | _ | _ | e | r <;> rw [hpc] at hresp <;> cases hresp
  rfl

def allReq : BucketWaitRequest := ⟨0, none, none, none⟩

def createOne : Action := .other ⟨1, .createBucket ⟨10, 3600⟩ 0⟩

def arrive : Action := .other ⟨1, .append (.bare 1 0 "note".toList)⟩

def wokenSchedule : List Action :=
  [createOne, .snapshot, .firstRead 0, .enroll, arrive, .wake, .secondRead 0]

theorem wait_lossless_woken :
    ∃ s, Transition.run (step 1 allReq) init wokenSchedule = some s ∧ Lossless 1 allReq s := by
  have hrun : (run (step 1 allReq) init wokenSchedule).isSome = true := by
    decide +kernel
  obtain ⟨s, hs⟩ := isSome_iff_exists.mp hrun
  have hquiet : Transition.Meets (step 1 allReq) (Quiet 1 allReq) init wokenSchedule := by
    decide +kernel
  exact ⟨s, hs, wait_lossless_of_quiet 1 allReq wokenSchedule s hquiet hs⟩

def gapSchedule : List Action :=
  [createOne, .snapshot, .firstRead 0, arrive, .enroll, .elapse, .readState]

theorem wait_loses_event :
    ∃ s, Transition.run (step 1 allReq) init gapSchedule = some s ∧ ¬ Lossless 1 allReq s := by
  have hrun : ∃ s ∈ run (step 1 allReq) init gapSchedule, ¬ Lossless 1 allReq s := by
    decide +kernel
  obtain ⟨s, hs, hloss⟩ := hrun
  exact ⟨s, hs, hloss⟩

end BucketWait

end TerminalCommander
