import TerminalCommander.Daemon.Command.Lifecycle
import TerminalCommander.Lib.FairMutex

/-!
# Stopping a PTY job

The tasks around one PTY job, after `daemon/src/pty_command.rs` and `probes/src/pty.rs`: the
streaming task, the lifecycle waiter, any number of stops, and the calls that lock the probe.
`write_stdin`, `deliver_credential` and `credential_prompt` wait for the mutex of the probe;
`awaiting_credential`, `list`, `status` and a stop only try it. A stop sends the cancel signal if it
got the mutex, and records the job as cancelled in any case.
-/

namespace TerminalCommander

namespace PtyStop

inductive CallKind where
  | writeStdin | deliverCredential | credentialPrompt | awaitingCredential | list | status
  deriving DecidableEq, Repr

namespace CallKind

def waitsForProbe : CallKind → Bool
  | writeStdin => true
  | deliverCredential => true
  | credentialPrompt => true
  | _ => false

def writes : CallKind → Bool
  | writeStdin => true
  | deliverCredential => true
  | _ => false

def underLive : CallKind → Bool
  | list => true
  | status => true
  | _ => false

end CallKind

inductive CallPc where
  | found (kind : CallKind)
  | queued (kind : CallKind)
  | holding (kind : CallKind)
  | writing (kind : CallKind)
  | returned
  deriving DecidableEq, Repr

inductive WaiterPc where
  | waiting
  | queued (outcome : ProbeOutcome)
  | reported (outcome : ProbeOutcome)
  | guarded (outcome : ProbeOutcome)
  | finished (draft : EventDraft)
  | appended
  | measuring (locked : Bool)
  | done
  deriving DecidableEq

inductive StopPc where
  | called
  | removed
  | locked
  | tried
  | recorded
  | unknownJob
  | ok
  deriving DecidableEq, Repr

inductive Party where
  | call (i : Nat)
  | waiter
  | stop (k : Nat)
  deriving DecidableEq

structure Sys where
  job : JobRecord
  live : Bool
  probe : FairMutex Party
  /-- The cancel signal has been sent to the streaming task. -/
  cancelSent : Bool
  /-- How the child has ended, as the streaming task reports it. -/
  childEnd : Option ProbeOutcome
  waiter : WaiterPc
  calls : List CallPc
  stops : List StopPc
  appended : List EventDraft

inductive Action where
  | call (kind : CallKind)
  | callLock (i : Nat)
  | callGranted (i : Nat)
  | callWrite (i : Nat)
  | callReturn (i : Nat)
  | childEnds (outcome : ProbeOutcome)
  | childKilled
  | waiterLock
  | waiterReport
  | waiterGuard
  | waiterFinish (now : Time)
  | waiterAppend (ok : Bool)
  | waiterTry
  | waiterPersist
  | stop
  | stopRemove (k : Nat)
  | stopTry (k : Nat)
  | stopSignal (k : Nat)
  | stopRecord (k : Nat) (now : Time)
  | stopReturn (k : Nat)

def CallPc.readsLive : CallPc → Bool
  | .found kind => kind.underLive
  | .holding kind => kind.underLive
  | _ => false

def step (s : Sys) : Action → Option Sys
  | .call kind => some { s with calls := s.calls ++ [if s.live then .found kind else .returned] }
  | .callLock i =>
    match s.calls[i]? with
    | some (.found kind) =>
      if kind.waitsForProbe then some { s with
        probe := s.probe.lock (.call i)
        calls := s.calls.set i (.queued kind) }
      else
        match s.probe.tryLock (.call i) with
        | some probe => some { s with probe := probe, calls := s.calls.set i (.holding kind) }
        | none => some { s with calls := s.calls.set i .returned }
    | _ => none
  | .callGranted i =>
    match s.calls[i]? with
    | some (.queued kind) =>
      if s.probe.holder = some (.call i) then
        some { s with calls := s.calls.set i (.holding kind) }
      else none
    | _ => none
  | .callWrite i =>
    match s.calls[i]? with
    | some (.holding kind) =>
      if kind.writes then some { s with calls := s.calls.set i (.writing kind) } else none
    | _ => none
  | .callReturn i =>
    match s.calls[i]? with
    | some (.holding _) => some { s with
        probe := s.probe.unlock
        calls := s.calls.set i .returned }
    | some (.writing _) => some { s with
        probe := s.probe.unlock
        calls := s.calls.set i .returned }
    | _ => none
  | .childEnds outcome =>
    if s.childEnd.isNone then some { s with childEnd := some outcome } else none
  | .childKilled =>
    if s.childEnd.isNone && s.cancelSent then some { s with childEnd := some .cancelled } else none
  | .waiterLock =>
    match s.waiter, s.childEnd with
    | .waiting, some outcome => some { s with
        probe := s.probe.lock .waiter
        waiter := .queued outcome }
    | _, _ => none
  | .waiterReport =>
    match s.waiter with
    | .queued outcome =>
      if s.probe.holder = some .waiter then some { s with
        probe := s.probe.unlock
        waiter := .reported outcome }
      else none
    | _ => none
  | .waiterGuard =>
    match s.waiter with
    | .reported outcome =>
      some { s with waiter := if s.job.state.terminal then .done else .guarded outcome }
    | _ => none
  | .waiterFinish now =>
    match s.waiter with
    | .guarded outcome =>
      let written := Lifecycle.finishJob s.job outcome now
      some { s with job := written.1, waiter := .finished written.2 }
    | _ => none
  | .waiterAppend ok =>
    match s.waiter with
    | .finished draft => some { s with
        appended := if ok then s.appended ++ [draft] else s.appended
        waiter := .appended }
    | _ => none
  | .waiterTry =>
    match s.waiter with
    | .appended =>
      match s.probe.tryLock .waiter with
      | some probe => some { s with probe := probe, waiter := .measuring true }
      | none => some { s with waiter := .measuring false }
    | _ => none
  | .waiterPersist =>
    match s.waiter with
    | .measuring true => some { s with probe := s.probe.unlock, waiter := .done }
    | .measuring false => some { s with waiter := .done }
    | _ => none
  | .stop => some { s with stops := s.stops ++ [.called] }
  | .stopRemove k =>
    match s.stops[k]? with
    | some .called =>
      -- the write lock waits for the readers of the live map
      if s.calls.any CallPc.readsLive then none
      else some { s with
        live := false
        stops := s.stops.set k (if s.live then .removed else .unknownJob) }
    | _ => none
  | .stopTry k =>
    match s.stops[k]? with
    | some .removed =>
      match s.probe.tryLock (.stop k) with
      | some probe => some { s with probe := probe, stops := s.stops.set k .locked }
      | none => some { s with stops := s.stops.set k .tried }
    | _ => none
  | .stopSignal k =>
    match s.stops[k]? with
    | some .locked => some { s with
        cancelSent := true
        probe := s.probe.unlock
        stops := s.stops.set k .tried }
    | _ => none
  | .stopRecord k now =>
    match s.stops[k]? with
    | some .tried => some { s with
        job := (s.job.cancel now).1
        stops := s.stops.set k .recorded }
    | _ => none
  | .stopReturn k =>
    match s.stops[k]? with
    | some .recorded => some { s with stops := s.stops.set k .ok }
    | _ => none

def start (config : JobConfig) (startedAt : Time) : Sys where
  job := (JobRecord.new config startedAt).markRunning
  live := true
  probe := .free
  cancelSent := false
  childEnd := none
  waiter := .waiting
  calls := []
  stops := []
  appended := []

/-! ## Inversion -/

def CallPc.hasProbe : CallPc → Bool
  | .holding _ => true
  | .writing _ => true
  | _ => false

def WaiterPc.mayHold : WaiterPc → Bool
  | .queued _ => true
  | .measuring locked => locked
  | _ => false

inductive Step (s : Sys) : Action → Sys → Prop
  | call (kind : CallKind) : Step s (.call kind)
      { s with calls := s.calls ++ [if s.live then .found kind else .returned] }
  | callLock (i : Nat) (kind : CallKind) (h : s.calls[i]? = some (.found kind))
      (hwaits : kind.waitsForProbe = true) : Step s (.callLock i)
      { s with probe := s.probe.lock (.call i), calls := s.calls.set i (.queued kind) }
  | callTry (i : Nat) (kind : CallKind) (probe : FairMutex Party)
      (h : s.calls[i]? = some (.found kind)) (hprobe : s.probe.tryLock (.call i) = some probe) :
      Step s (.callLock i) { s with probe := probe, calls := s.calls.set i (.holding kind) }
  | callBusy (i : Nat) (kind : CallKind) (h : s.calls[i]? = some (.found kind)) :
      Step s (.callLock i) { s with calls := s.calls.set i .returned }
  | callGranted (i : Nat) (kind : CallKind) (h : s.calls[i]? = some (.queued kind))
      (hprobe : s.probe.holder = some (.call i)) :
      Step s (.callGranted i) { s with calls := s.calls.set i (.holding kind) }
  | callWrite (i : Nat) (kind : CallKind) (h : s.calls[i]? = some (.holding kind))
      (hwrites : kind.writes = true) :
      Step s (.callWrite i) { s with calls := s.calls.set i (.writing kind) }
  | callReturn (i : Nat) (pc : CallPc) (h : s.calls[i]? = some pc) (hpc : pc.hasProbe = true) :
      Step s (.callReturn i) { s with probe := s.probe.unlock, calls := s.calls.set i .returned }
  | childEnds {a : Action} (outcome : ProbeOutcome) : Step s a { s with childEnd := some outcome }
  | waiterLock (outcome : ProbeOutcome) (h : s.waiter = .waiting)
      (hend : s.childEnd = some outcome) : Step s .waiterLock
      { s with probe := s.probe.lock .waiter, waiter := .queued outcome }
  | waiterReport (outcome : ProbeOutcome) (h : s.waiter = .queued outcome)
      (hprobe : s.probe.holder = some .waiter) : Step s .waiterReport
      { s with probe := s.probe.unlock, waiter := .reported outcome }
  | waiterMoves {a : Action} (waiter : WaiterPc) (appended : List EventDraft)
      (h : s.waiter ≠ .waiting) (hbefore : s.waiter.mayHold = false)
      (hafter : waiter.mayHold = false) : Step s a
      { s with waiter := waiter, appended := appended }
  | waiterFinish (outcome : ProbeOutcome) (now : Time) (h : s.waiter = .guarded outcome) :
      Step s (.waiterFinish now) { s with
        job := (Lifecycle.finishJob s.job outcome now).1
        waiter := .finished (Lifecycle.finishJob s.job outcome now).2 }
  | waiterTry (probe : FairMutex Party) (h : s.waiter = .appended)
      (hprobe : s.probe.tryLock .waiter = some probe) :
      Step s .waiterTry { s with probe := probe, waiter := .measuring true }
  | waiterPersist (h : s.waiter = .measuring true) :
      Step s .waiterPersist { s with probe := s.probe.unlock, waiter := .done }
  | stop : Step s .stop { s with stops := s.stops ++ [.called] }
  | stopRemove (k : Nat) (h : s.stops[k]? = some .called) (hlive : s.live = true)
      (hreads : ∀ pc ∈ s.calls, pc.readsLive = false) :
      Step s (.stopRemove k) { s with live := false, stops := s.stops.set k .removed }
  | stopUnknown (k : Nat) (h : s.stops[k]? = some .called) (hlive : s.live = false) :
      Step s (.stopRemove k) { s with live := false, stops := s.stops.set k .unknownJob }
  | stopTry (k : Nat) (probe : FairMutex Party) (h : s.stops[k]? = some .removed)
      (hprobe : s.probe.tryLock (.stop k) = some probe) :
      Step s (.stopTry k) { s with probe := probe, stops := s.stops.set k .locked }
  | stopBusy (k : Nat) (h : s.stops[k]? = some .removed)
      (hprobe : s.probe.tryLock (.stop k) = none) :
      Step s (.stopTry k) { s with stops := s.stops.set k .tried }
  | stopSignal (k : Nat) (h : s.stops[k]? = some .locked) :
      Step s (.stopSignal k) { s with
        cancelSent := true
        probe := s.probe.unlock
        stops := s.stops.set k .tried }
  | stopRecord (k : Nat) (now : Time) (h : s.stops[k]? = some .tried) :
      Step s (.stopRecord k now) { s with
        job := (s.job.cancel now).1
        stops := s.stops.set k .recorded }
  | stopReturn (k : Nat) (h : s.stops[k]? = some .recorded) :
      Step s (.stopReturn k) { s with stops := s.stops.set k .ok }

theorem Step.of_step {s s' : Sys} {a : Action} (h : step s a = some s') : Step s a s' := by
  cases a
  case call kind => cases h; exact .call kind
  case waiterGuard =>
    simp only [step] at h
    split at h
    · next hw =>
      cases h
      refine .waiterMoves _ s.appended (by rw [hw]; nofun) (by rw [hw]; rfl) ?_
      split_ifs <;> rfl
    · cases h
  case stopRemove k =>
    simp only [step] at h
    split at h
    · next hk =>
      split_ifs at h with hreads hlive
      · cases h
        exact .stopRemove k hk hlive fun pc hpc =>
          Bool.eq_false_iff.mpr fun hr => hreads (List.any_eq_true.mpr ⟨pc, hpc, hr⟩)
      · cases h; exact .stopUnknown k hk (Bool.eq_false_iff.mpr hlive)
    · cases h
  -- every other branch of `step` is a constructor, with the conditions of the branch
  all_goals
    simp only [step] at h
    repeat' split at h
    all_goals
      cases h <;> constructor <;> first | assumption | simp_all [CallPc.hasProbe, WaiterPc.mayHold]

end PtyStop

end TerminalCommander
