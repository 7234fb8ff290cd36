import TerminalCommander.Core.Job
import TerminalCommander.Lib.Table
import TerminalCommander.Lib.Transition

/-!
# The end of a combed job

The tasks that can end one combed job, after `daemon/src/command.rs`: its lifecycle waiter, any
number of `stop` calls and any number of `status` calls. The waiter looks whether a stop has made
the job terminal, and otherwise finishes the job; a stop looks at the ledger and cancels the job.
Each of the two can fall between the look and the write of the other. `reports` logs what status
calls have answered and is not part of the source.
-/

namespace TerminalCommander

inductive ProbeOutcome where
  | exited (code : Option Int) (signal : Option Text)
  | cancelled
  deriving DecidableEq, Repr

namespace Lifecycle

inductive WaiterPc where
  | driving
  | reaped (outcome : ProbeOutcome)
  | published (outcome : ProbeOutcome)
  | guarded (outcome : ProbeOutcome)
  | finished (draft : EventDraft)
  | skipped
  | evicted (draft : EventDraft)
  | settled
  | done
  deriving DecidableEq

inductive StopOutcome where
  | denied | alreadyTerminal | stopped
  deriving DecidableEq

inductive StopPc where
  | called
  | holding
  | cancelled
  | returned (outcome : StopOutcome)
  deriving DecidableEq

structure Report where
  mark : Nat
  state : JobState
  exitCode : Option Int
  deriving DecidableEq

inductive StatusPc where
  | read (rec : JobRecord) (mark : Nat)
  | returned (report : Report)
  deriving DecidableEq

structure Sys where
  job : JobRecord
  /-- The fields of the live binding. -/
  receipt : Bool
  cancelHandle : Bool
  completionCommitted : Bool
  waiter : WaiterPc
  stops : List StopPc
  statuses : List StatusPc
  appended : List EventDraft
  reports : List Report

def Sys.liveFree (s : Sys) : Bool := decide (StopPc.holding ∉ s.stops)

def visible (rec : JobRecord) (committed : Bool) : JobState × Option Int :=
  if (rec.state = .exited ∨ rec.state = .failed) ∧ committed = false then (.running, none)
  else (rec.state, rec.exitCode)

inductive Action where
  | exit (outcome : ProbeOutcome)
  | publish
  | guard
  | finish (now : Time)
  | evict
  | append (ok : Bool)
  | commit
  | stop (allowed : Bool)
  | stopCheck (k : Nat)
  | stopCancel (k : Nat) (now : Time)
  | stopReturn (k : Nat)
  | statusRead
  | statusReturn (k : Nat)

def finishJob (rec : JobRecord) (outcome : ProbeOutcome) (now : Time) : JobRecord × EventDraft :=
  match outcome with
  | .exited code signal => rec.finish code signal now
  | .cancelled => rec.cancel now

def step (s : Sys) : Action → Option Sys
  | .exit outcome =>
    match s.waiter with
    | .driving => some { s with waiter := .reaped outcome }
    | _ => none
  | .publish =>
    match s.waiter with
    | .reaped outcome =>
      if s.liveFree then some { s with receipt := true, waiter := .published outcome } else none
    | _ => none
  | .guard =>
    match s.waiter with
    | .published outcome =>
      some { s with waiter := if s.job.state.terminal then .skipped else .guarded outcome }
    | _ => none
  | .finish now =>
    match s.waiter with
    | .guarded outcome =>
      let ended := finishJob s.job outcome now
      some { s with job := ended.1, waiter := .finished ended.2 }
    | _ => none
  | .evict =>
    match s.waiter with
    | .finished draft => some { s with waiter := .evicted draft }
    | .skipped => some { s with waiter := .settled }
    | _ => none
  | .append ok =>
    match s.waiter with
    | .evicted draft =>
      if ok then some { s with
        job := s.job.recordEvent
        appended := s.appended ++ [draft]
        waiter := .settled }
      else some { s with waiter := .settled }
    | _ => none
  | .commit =>
    match s.waiter with
    | .settled =>
      if s.liveFree then some { s with completionCommitted := true, waiter := .done } else none
    | _ => none
  | .stop allowed =>
    some { s with stops := s.stops ++ [if allowed then .called else .returned .denied] }
  | .stopCheck k =>
    match s.stops[k]? with
    | some .called =>
      if s.liveFree then
        let pc := if s.job.state.terminal then .returned .alreadyTerminal else .holding
        some { s with stops := s.stops.set k pc }
      else none
    | _ => none
  | .stopCancel k now =>
    match s.stops[k]? with
    | some .holding => some { s with
        job := (s.job.cancel now).1
        cancelHandle := false
        stops := s.stops.set k .cancelled }
    | _ => none
  | .stopReturn k =>
    match s.stops[k]? with
    | some .cancelled => some { s with stops := s.stops.set k (.returned .stopped) }
    | _ => none
  | .statusRead => some { s with statuses := s.statuses ++ [.read s.job s.reports.length] }
  | .statusReturn k =>
    match s.statuses[k]? with
    | some (.read rec mark) =>
      if s.liveFree then
        let seen := visible rec s.completionCommitted
        let report : Report := ⟨mark, seen.1, seen.2⟩
        some { s with
          statuses := s.statuses.set k (.returned report)
          reports := s.reports ++ [report] }
      else none
    | _ => none

def start (config : JobConfig) (startedAt : Time) : Sys where
  job := (JobRecord.new config startedAt).markRunning
  receipt := false
  cancelHandle := true
  completionCommitted := false
  waiter := .driving
  stops := []
  statuses := []
  appended := []
  reports := []

/-! ## Inversion -/

inductive Step (s : Sys) : Action → Sys → Prop
  | exit (outcome : ProbeOutcome) (h : s.waiter = .driving) :
      Step s (.exit outcome) { s with waiter := .reaped outcome }
  | publish (outcome : ProbeOutcome) (h : s.waiter = .reaped outcome) :
      Step s .publish { s with receipt := true, waiter := .published outcome }
  | skip (outcome : ProbeOutcome) (h : s.waiter = .published outcome)
      (ht : s.job.state.terminal = true) : Step s .guard { s with waiter := .skipped }
  | pass (outcome : ProbeOutcome) (h : s.waiter = .published outcome)
      (ht : s.job.state.terminal = false) : Step s .guard { s with waiter := .guarded outcome }
  | finish (outcome : ProbeOutcome) (now : Time) (h : s.waiter = .guarded outcome) :
      Step s (.finish now) { s with
        job := (finishJob s.job outcome now).1
        waiter := .finished (finishJob s.job outcome now).2 }
  | evict (draft : EventDraft) (h : s.waiter = .finished draft) :
      Step s .evict { s with waiter := .evicted draft }
  | evictSkipped (h : s.waiter = .skipped) : Step s .evict { s with waiter := .settled }
  | append (draft : EventDraft) (h : s.waiter = .evicted draft) :
      Step s (.append true) { s with
        job := s.job.recordEvent
        appended := s.appended ++ [draft]
        waiter := .settled }
  | appendFails (draft : EventDraft) (h : s.waiter = .evicted draft) :
      Step s (.append false) { s with waiter := .settled }
  | commit (h : s.waiter = .settled) (hfree : StopPc.holding ∉ s.stops) :
      Step s .commit { s with completionCommitted := true, waiter := .done }
  | stop (allowed : Bool) : Step s (.stop allowed)
      { s with stops := s.stops ++ [if allowed then .called else .returned .denied] }
  | stopLate (k : Nat) (h : s.stops[k]? = some .called) (ht : s.job.state.terminal = true) :
      Step s (.stopCheck k) { s with stops := s.stops.set k (.returned .alreadyTerminal) }
  | stopCheck (k : Nat) (h : s.stops[k]? = some .called) (hfree : StopPc.holding ∉ s.stops)
      (ht : s.job.state.terminal = false) :
      Step s (.stopCheck k) { s with stops := s.stops.set k .holding }
  | stopCancel (k : Nat) (now : Time) (h : s.stops[k]? = some .holding) :
      Step s (.stopCancel k now) { s with
        job := (s.job.cancel now).1
        cancelHandle := false
        stops := s.stops.set k .cancelled }
  | stopReturn (k : Nat) (h : s.stops[k]? = some .cancelled) :
      Step s (.stopReturn k) { s with stops := s.stops.set k (.returned .stopped) }
  | statusRead : Step s .statusRead
      { s with statuses := s.statuses ++ [.read s.job s.reports.length] }
  | statusReturn (k : Nat) (rec : JobRecord) (mark : Nat) (report : Report)
      (h : s.statuses[k]? = some (.read rec mark)) (hfree : StopPc.holding ∉ s.stops)
      (hreport : report = ⟨mark, (visible rec s.completionCommitted).1,
        (visible rec s.completionCommitted).2⟩) :
      Step s (.statusReturn k) { s with
        statuses := s.statuses.set k (.returned report)
        reports := s.reports ++ [report] }

theorem Step.of_step {s s' : Sys} {a : Action} (h : step s a = some s') : Step s a s' := by
  have hfree : s.liveFree → StopPc.holding ∉ s.stops := of_decide_eq_true
  cases a
  case stop allowed => cases h; exact .stop allowed
  case append ok =>
    simp only [step] at h
    split at h
    · next draft hw => cases ok <;> cases h <;> constructor <;> assumption
    · cases h
  -- every other branch of `step` is a constructor, with the conditions of the branch
  all_goals
    simp only [step] at h
    repeat' split at h
    all_goals
      cases h <;> constructor <;> first | assumption | exact hfree ‹_› | simp_all

end Lifecycle

end TerminalCommander
