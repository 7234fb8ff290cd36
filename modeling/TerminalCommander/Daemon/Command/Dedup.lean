import TerminalCommander.Daemon.Command.Lifecycle
import TerminalCommander.Daemon.Governor

/-!
# In-flight deduplication

Concurrent `start_combed` calls and the jobs they create, after `start_combed_inner` and `dedup_key`
of `daemon/src/command.rs`. A call looks its key up in the dedup map, and on a miss goes on without
the lock and writes an entry for a fresh job, whatever the map holds by then. A spawn failure and
the waiter remove the entry of the key, whosever it is. The end of a job is the system of
`Lifecycle`. The digest of `DefaultHasher` is a parameter.
-/

namespace TerminalCommander

structure JobLimitsSpec where
  memory : Option Text
  priority : Option JobPriority
  deriving DecidableEq, Repr

structure CommandStartRequest where
  argv : List Text
  cwd : Option Text
  env : List (Text × Text)
  tag : Option Text
  dedupNonce : Option Text
  peerDiscriminator : Option Nat
  limits : Option JobLimitsSpec
  deriving DecidableEq, Repr

inductive DedupInput where
  | nonce (nonce : Text)
  | fallback (peer : Option Nat) (argv : List Text) (cwd tag : Option Text)
      (limits : Option JobLimitsSpec)
  | isolated (key : Nat) (argv : List Text) (cwd : Option Text) (env : List (Text × Text))
  deriving DecidableEq, Repr

def dedupKey (hash : DedupInput → Nat) (req : CommandStartRequest) : Nat × Bool :=
  match req.dedupNonce with
  | some (c :: cs) => (hash (.nonce (c :: cs)), false)
  | _ => (hash (.fallback req.peerDiscriminator req.argv req.cwd req.tag req.limits), true)

def startKey (hash : DedupInput → Nat) (req : CommandStartRequest) (clear : Bool) : Nat × Bool :=
  let (key, gated) := dedupKey hash req
  (if clear then hash (.isolated key req.argv req.cwd req.env) else key, gated)

def CommandStartRequest.hasNonce (req : CommandStartRequest) : Bool :=
  match req.dedupNonce with
  | some (_ :: _) => true
  | _ => false

theorem startKey_gated (hash : DedupInput → Nat) (req : CommandStartRequest) (clear : Bool) :
    (startKey hash req clear).2 = !req.hasNonce := by
  unfold startKey dedupKey CommandStartRequest.hasNonce
  rcases req.dedupNonce with _ | _ | _ <;> rfl

def DEDUP_TTL : Time := 3000000000

namespace Dedup

structure DedupEntry where
  job : Nat
  inserted : Time
  deriving DecidableEq

inductive Phase where
  | registered
  | spawnFailed
  | dropped
  | spawned
  | launched (life : Lifecycle.Sys)

structure Job where
  key : Nat
  phase : Phase

inductive StartOutcome where
  | ok (job : Nat)
  | rejected
  | spawnError
  deriving DecidableEq

inductive StartPc where
  | called
  | missed
  | registered (job : Nat)
  | answering (job : Nat)
  | returned (outcome : StartOutcome)
  deriving DecidableEq

structure StartCall where
  key : Nat
  gated : Bool
  pc : StartPc
  deriving DecidableEq

structure Sys where
  dedup : Nat → Option DedupEntry
  jobs : List Job
  calls : List StartCall

def init : Sys := ⟨fun _ => none, [], []⟩

inductive Action where
  | start (req : CommandStartRequest) (clear : Bool)
  | lookup (c : Nat) (now : Time)
  | reject (c : Nat)
  | insert (c : Nat) (now : Time)
  | spawnFails (c : Nat)
  | evictFailed (c : Nat)
  | spawn (c : Nat)
  | launch (c : Nat) (config : JobConfig) (startedAt : Time)
  | reply (c : Nat)
  | life (j : Nat) (a : Lifecycle.Action)

def Sys.setPc (s : Sys) (c : Nat) (call : StartCall) (pc : StartPc) : Sys :=
  { s with calls := s.calls.set c { call with pc := pc } }

def Sys.setPhase (s : Sys) (j : Nat) (job : Job) (phase : Phase) : Sys :=
  { s with jobs := s.jobs.set j { job with phase := phase } }

def Sys.remove (s : Sys) (key : Nat) : Sys :=
  { s with dedup := Function.update s.dedup key none }

def Sys.lookup (s : Sys) (c : Nat) (call : StartCall) (now : Time) : Sys :=
  match s.dedup call.key with
  | some entry =>
    if !call.gated || decide (now - entry.inserted < DEDUP_TTL) then
      s.setPc c call (.answering entry.job)
    else (s.remove call.key).setPc c call .missed
  | none => s.setPc c call .missed

def Sys.insert (s : Sys) (c : Nat) (call : StartCall) (now : Time) : Sys :=
  let j := s.jobs.length
  { s.setPc c call (.registered j) with
    dedup := Function.update s.dedup call.key (some ⟨j, now⟩)
    jobs := s.jobs ++ [⟨call.key, .registered⟩] }

def Sys.registeredJob (s : Sys) (c : Nat) : Option (StartCall × Nat × Job) :=
  match s.calls[c]? with
  | some call =>
    match call.pc with
    | .registered j => (s.jobs[j]?).map fun job => (call, j, job)
    | _ => none
  | none => none

variable (hash : DedupInput → Nat)

def step (s : Sys) : Action → Option Sys
  | .start req clear =>
    let (key, gated) := startKey hash req clear
    some { s with calls := s.calls ++ [⟨key, gated, .called⟩] }
  | .lookup c now =>
    match s.calls[c]? with
    | some ⟨key, gated, .called⟩ => some (s.lookup c ⟨key, gated, .called⟩ now)
    | _ => none
  | .reject c =>
    match s.calls[c]? with
    | some ⟨key, gated, .missed⟩ =>
      some (s.setPc c ⟨key, gated, .missed⟩ (.returned .rejected))
    | _ => none
  | .insert c now =>
    match s.calls[c]? with
    | some ⟨key, gated, .missed⟩ => some (s.insert c ⟨key, gated, .missed⟩ now)
    | _ => none
  | .spawnFails c =>
    match s.registeredJob c with
    | some (_, j, ⟨key, .registered⟩) => some (s.setPhase j ⟨key, .registered⟩ .spawnFailed)
    | _ => none
  | .evictFailed c =>
    match s.registeredJob c with
    | some (call, j, ⟨key, .spawnFailed⟩) =>
      some (((s.remove key).setPhase j ⟨key, .spawnFailed⟩ .dropped).setPc c call
        (.returned .spawnError))
    | _ => none
  | .spawn c =>
    match s.registeredJob c with
    | some (_, j, ⟨key, .registered⟩) => some (s.setPhase j ⟨key, .registered⟩ .spawned)
    | _ => none
  | .launch c config startedAt =>
    match s.registeredJob c with
    | some (call, j, ⟨key, .spawned⟩) =>
      some ((s.setPhase j ⟨key, .spawned⟩ (.launched (Lifecycle.start config startedAt))).setPc c
        call (.answering j))
    | _ => none
  | .reply c =>
    match s.calls[c]? with
    | some ⟨key, gated, .answering j⟩ =>
      some (s.setPc c ⟨key, gated, .answering j⟩ (.returned (.ok j)))
    | _ => none
  | .life j a =>
    match s.jobs[j]? with
    | some ⟨key, .launched life⟩ =>
      (Lifecycle.step life a).map fun life' =>
        let s' := s.setPhase j ⟨key, .launched life⟩ (.launched life')
        match a with
        | .evict => s'.remove key
        | _ => s'
    | _ => none

/-! ## Inversion -/

theorem Sys.registeredJob_eq_some {s : Sys} {c j : Nat} {call : StartCall} {job : Job}
    (h : s.registeredJob c = some (call, j, job)) :
    s.calls[c]? = some call ∧ call.pc = .registered j ∧ s.jobs[j]? = some job := by
  unfold registeredJob at h
  split at h
  · next call' hc =>
    split at h
    · next j' hpc =>
      obtain ⟨job', hj, heq⟩ := Option.map_eq_some_iff.mp h
      cases heq
      exact ⟨hc, hpc, hj⟩
    · cases h
  · cases h

inductive Step (s : Sys) : Action → Sys → Prop
  | start (req : CommandStartRequest) (clear : Bool) : Step s (.start req clear)
      { s with calls := s.calls ++
        [⟨(startKey hash req clear).1, (startKey hash req clear).2, .called⟩] }
  | hit (c : Nat) (now : Time) (call : StartCall) (entry : DedupEntry)
      (hc : s.calls[c]? = some call) (hpc : call.pc = .called)
      (he : s.dedup call.key = some entry) :
      Step s (.lookup c now) (s.setPc c call (.answering entry.job))
  | stale (c : Nat) (now : Time) (call : StartCall) (hc : s.calls[c]? = some call)
      (hpc : call.pc = .called) (hgated : call.gated = true) :
      Step s (.lookup c now) ((s.remove call.key).setPc c call .missed)
  | miss (c : Nat) (now : Time) (call : StartCall) (hc : s.calls[c]? = some call)
      (hpc : call.pc = .called) : Step s (.lookup c now) (s.setPc c call .missed)
  | reject (c : Nat) (call : StartCall) (hc : s.calls[c]? = some call) (hpc : call.pc = .missed) :
      Step s (.reject c) (s.setPc c call (.returned .rejected))
  | insert (c : Nat) (now : Time) (call : StartCall) (hc : s.calls[c]? = some call)
      (hpc : call.pc = .missed) : Step s (.insert c now) (s.insert c call now)
  | spawnFails (c j : Nat) (call : StartCall) (key : Nat) (hc : s.calls[c]? = some call)
      (hpc : call.pc = .registered j) (hj : s.jobs[j]? = some ⟨key, .registered⟩) :
      Step s (.spawnFails c) (s.setPhase j ⟨key, .registered⟩ .spawnFailed)
  | evictFailed (c j : Nat) (call : StartCall) (key : Nat) (hc : s.calls[c]? = some call)
      (hpc : call.pc = .registered j) (hj : s.jobs[j]? = some ⟨key, .spawnFailed⟩) :
      Step s (.evictFailed c) (((s.remove key).setPhase j ⟨key, .spawnFailed⟩ .dropped).setPc c
        call (.returned .spawnError))
  | spawn (c j : Nat) (call : StartCall) (key : Nat) (hc : s.calls[c]? = some call)
      (hpc : call.pc = .registered j) (hj : s.jobs[j]? = some ⟨key, .registered⟩) :
      Step s (.spawn c) (s.setPhase j ⟨key, .registered⟩ .spawned)
  | launch (c j : Nat) (config : JobConfig) (startedAt : Time) (call : StartCall) (key : Nat)
      (hc : s.calls[c]? = some call) (hpc : call.pc = .registered j)
      (hj : s.jobs[j]? = some ⟨key, .spawned⟩) :
      Step s (.launch c config startedAt)
        ((s.setPhase j ⟨key, .spawned⟩ (.launched (Lifecycle.start config startedAt))).setPc c
          call (.answering j))
  | reply (c j : Nat) (call : StartCall) (hc : s.calls[c]? = some call)
      (hpc : call.pc = .answering j) :
      Step s (.reply c) (s.setPc c call (.returned (.ok j)))
  | life (j : Nat) (a : Lifecycle.Action) (key : Nat) (life life' : Lifecycle.Sys)
      (hj : s.jobs[j]? = some ⟨key, .launched life⟩) (hl : Lifecycle.step life a = some life')
      (ha : a ≠ .evict) :
      Step s (.life j a) (s.setPhase j ⟨key, .launched life⟩ (.launched life'))
  | evict (j key : Nat) (life life' : Lifecycle.Sys)
      (hj : s.jobs[j]? = some ⟨key, .launched life⟩)
      (hl : Lifecycle.step life .evict = some life') :
      Step s (.life j .evict)
        ((s.setPhase j ⟨key, .launched life⟩ (.launched life')).remove key)

theorem Step.of_step {s s' : Sys} {a : Action} (h : step hash s a = some s') :
    Step hash s a s' := by
  cases a
  case lookup c now =>
    simp only [step] at h
    split at h
    · next key gated hc =>
      cases h
      unfold Sys.lookup
      split
      · next entry he =>
        split_ifs with hfresh
        · exact .hit c now _ entry hc rfl he
        · refine .stale c now _ hc rfl ?_
          simp only [Bool.or_eq_true, not_or, Bool.not_eq_true', Bool.not_eq_false] at hfresh
          exact hfresh.1
      · exact .miss c now _ hc rfl
    · cases h
  case life j a =>
    simp only [step] at h
    split at h
    · next key life hj =>
      obtain ⟨life', hl, heq⟩ := Option.map_eq_some_iff.mp h
      subst heq
      split
      · exact .evict j key life life' hj hl
      · next ha => exact .life j a key life life' hj hl ha
    · cases h
  case spawnFails | evictFailed | spawn | launch =>
    simp only [step] at h
    split at h
    · next hr =>
      obtain ⟨hc, hpc, hj⟩ := Sys.registeredJob_eq_some hr
      cases h
      constructor <;> assumption
    · cases h
  -- every other branch of `step` is a constructor, with the conditions of the branch
  all_goals
    simp only [step] at h
    repeat' split at h
    all_goals
      cases h <;> constructor <;> first | assumption | rfl

end Dedup

end TerminalCommander
