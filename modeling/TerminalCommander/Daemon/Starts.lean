import TerminalCommander.Daemon.Command.Dedup
import TerminalCommander.Daemon.Registry.LiveRules
import TerminalCommander.Daemon.Subscriptions.Model
import TerminalCommander.Lib.Handler
import TerminalCommander.Sifters.Keywords

/-!
# Starts with rules that do not compile

The four ways to start a job: `start_combed_inner` of `daemon/src/command.rs`, `start` and
`start_session` of `pty_command.rs`, and `start` of `file_watch.rs`. A command compiles its rules
before it creates its bucket; the others create the bucket and record its source first, and neither
is taken back when the rules do not compile. The checks of a request and all that follows once the
rules have compiled are left open.
-/

namespace TerminalCommander

open Handler

namespace Starts

inductive StartError where
  | refused (reason : Text)
  | bucket (e : BucketError)
  | sifter (e : SifterError)
  deriving DecidableEq, Repr

structure StartRequest where
  command : CommandStartRequest
  rules : List RuleDefinition
  bucketConfig : BucketConfig
  clear : Bool
  reuseBucket : Option BucketId

structure DedupEntry where
  ids : JobTriple
  inserted : Time
  deriving DecidableEq, Repr

structure State (x : Externals) where
  buckets : BucketManager
  sources : BucketSourceTable
  jobs : JobId → Option JobRecord
  live : JobId → Option (JobSifter x)
  dedup : Nat → Option DedupEntry

inductive Lane where
  | command | pty | session | watch
  deriving DecidableEq, Repr

structure Daemon (x : Externals) where
  hash : DedupInput → Nat
  universalExtractors : Bool
  activation : ActivationRegistry
  validateArgv : StartRequest → Except StartError Unit
  resolveLimits : StartRequest → Except StartError Unit
  /-- The checks of a lane: of the arguments, the shell and WSL gates, the verdicts of the policy,
  and for a watch that the file is there. -/
  gates : Lane → StartRequest → Except StartError Unit
  launch : Lane → StartRequest → JobTriple → JobSifter x → Handler StartError (State x) JobTriple

variable {x : Externals} (d : Daemon x)

def allocate (ids : JobTriple) (config : BucketConfig) (tag : Option Text) (now : Time) :
    Handler StartError (State x) Unit := fun s =>
  match s.buckets.createBucket ids.bucketId config now with
  | (.error e, _) => (.error (.bucket e), s)
  | (.ok (), buckets) =>
    (.ok (), { s with
      buckets := buckets
      sources := (s.sources.insert ids.bucketId ⟨some ids.jobId, some ids.probeId, tag⟩).bump })

def startRules (lane : Lane) (req : StartRequest) (ids : JobTriple) : RuleSources :=
  startSources (decide (lane = .command) && d.universalExtractors) (d.activation.snapshotForJob ids)
    req.rules

def compile (lane : Lane) (req : StartRequest) (ids : JobTriple) :
    Except StartError (JobSifter x) :=
  (JobSifter.build x (startRules d lane req ids)).mapError .sifter

def lookupDedup (req : StartRequest) (now : Time) :
    Handler StartError (State x) (Option JobTriple) := fun s =>
  let (key, gated) := startKey d.hash req.command req.clear
  match s.dedup key with
  | none => (.ok none, s)
  | some entry =>
    if !gated || decide (now - entry.inserted < DEDUP_TTL) then (.ok (some entry.ids), s)
    else (.ok none, { s with dedup := Function.update s.dedup key none })

def startFresh (req : StartRequest) (ids : JobTriple) (now : Time) :
    Handler StartError (State x) JobTriple := do
  let ids := { ids with bucketId := req.reuseBucket.getD ids.bucketId }
  Handler.ofExcept (d.gates .command req)
  let sifter ← Handler.ofExcept (compile d .command req ids)
  if req.reuseBucket.isNone then allocate ids req.bucketConfig req.command.tag now
  d.launch .command req ids sifter

def startCombedInner (req : StartRequest) (ids : JobTriple) (now : Time) :
    Handler StartError (State x) JobTriple := do
  Handler.ofExcept (d.validateArgv req)
  Handler.ofExcept (d.resolveLimits req)
  match ← lookupDedup d req now with
  | some existing => pure existing
  | none => startFresh d req ids now

def allocateAndCompile (lane : Lane) (req : StartRequest) (ids : JobTriple) (now : Time) :
    Handler StartError (State x) JobTriple := do
  allocate ids req.bucketConfig req.command.tag now
  let sifter ← Handler.ofExcept (compile d lane req ids)
  d.launch lane req ids sifter

def spawnPtyJob (lane : Lane) (req : StartRequest) (ids : JobTriple) (now : Time) :
    Handler StartError (State x) JobTriple := do
  Handler.ofExcept (d.resolveLimits req)
  allocateAndCompile d lane req ids now

def ptyStart (req : StartRequest) (ids : JobTriple) (now : Time) :
    Handler StartError (State x) JobTriple := do
  Handler.ofExcept (d.gates .pty req)
  spawnPtyJob d .pty req ids now

def startSession (req : StartRequest) (ids : JobTriple) (now : Time) :
    Handler StartError (State x) JobTriple := do
  Handler.ofExcept (d.gates .session req)
  spawnPtyJob d .session req ids now

def watchStart (req : StartRequest) (ids : JobTriple) (now : Time) :
    Handler StartError (State x) JobTriple := do
  Handler.ofExcept (d.gates .watch req)
  allocateAndCompile d .watch req ids now

def start : Lane → StartRequest → JobTriple → Time → Handler StartError (State x) JobTriple
  | .command => startCombedInner d
  | .pty => ptyStart d
  | .session => startSession d
  | .watch => watchStart d

/-! ## Rules that do not compile -/

def idsOf (lane : Lane) (req : StartRequest) (ids : JobTriple) : JobTriple :=
  if lane = .command then { ids with bucketId := req.reuseBucket.getD ids.bucketId } else ids

def Entry (s : State x) (req : StartRequest) (now : Time) (honoured : Bool) (entry : DedupEntry) :
    Prop :=
  s.dedup (startKey d.hash req.command req.clear).1 = some entry ∧
    honoured = (!(startKey d.hash req.command req.clear).2 ||
      decide (now - entry.inserted < DEDUP_TTL))

inductive Leaves (s : State x) (req : StartRequest) (now : Time) :
    Lane → Except StartError JobTriple × State x → Prop
  | nothing {lane : Lane} (e : StartError) : Leaves s req now lane (.error e, s)
  | existing {entry : DedupEntry} (h : Entry d s req now true entry) :
      Leaves s req now .command (.ok entry.ids, s)
  | stale {entry : DedupEntry} (h : Entry d s req now false entry) (e : StartError) :
      Leaves s req now .command (.error e, { s with
        dedup := Function.update s.dedup (startKey d.hash req.command req.clear).1 none })
  | bucket {lane : Lane} (h : lane ≠ .command) (e : StartError) (buckets : BucketManager)
      (sources : BucketSourceTable) :
      Leaves s req now lane (.error e, { s with buckets := buckets, sources := sources })

variable {d} {s : State x} {req : StartRequest} {ids : JobTriple} {now : Time} {lane : Lane}

theorem compile_error (h : builds x (startRules d lane req ids).list = false) :
    ∃ e, compile d lane req ids = .error e := by
  unfold builds at h
  unfold compile JobSifter.build
  split
  · next runtime hok =>
    rw [hok] at h
    cases h
  · next e _ => exact ⟨.sifter e, rfl⟩

theorem leaves_check {r : Except StartError Unit} {m : Handler StartError (State x) JobTriple}
    (h : Leaves d s req now lane (m s)) :
    Leaves d s req now lane ((ofExcept r >>= fun _ => m) s) := by
  cases r with
  | error e => exact .nothing e
  | ok _ => exact h

theorem allocate_error {b : BucketInner} (hinner : s.buckets.inner ids.bucketId = some b) :
    allocate ids req.bucketConfig req.command.tag now s =
      (.error (.bucket (.alreadyExists ids.bucketId)), s) := by
  unfold allocate BucketManager.createBucket
  rw [hinner]

theorem allocate_ok (hinner : s.buckets.inner ids.bucketId = none) :
    allocate ids req.bucketConfig req.command.tag now s = (.ok (), { s with
      buckets := { s.buckets.set ids.bucketId (.new ids.bucketId req.bucketConfig now) with
        keys := s.buckets.keys ++ [ids.bucketId] }
      sources := (s.sources.insert ids.bucketId
        ⟨some ids.jobId, some ids.probeId, req.command.tag⟩).bump }) := by
  unfold allocate BucketManager.createBucket
  rw [hinner]

theorem leaves_allocateAndCompile (hlane : lane ≠ .command)
    (h : builds x (startRules d lane req ids).list = false) :
    Leaves d s req now lane (allocateAndCompile d lane req ids now s) := by
  obtain ⟨e, he⟩ := compile_error h
  unfold allocateAndCompile
  cases hinner : s.buckets.inner ids.bucketId with
  | some b =>
    rw [bind_of_error (allocate_error hinner)]
    exact .nothing _
  | none =>
    rw [bind_of_ok (allocate_ok hinner), he]
    exact .bucket hlane e _ _

theorem startFresh_error (s : State x) (now : Time)
    (h : builds x (startRules d .command req (idsOf .command req ids)).list = false) :
    ∃ e, startFresh d req ids now s = (.error e, s) := by
  obtain ⟨e, he⟩ := compile_error h
  have hids : idsOf .command req ids =
      { ids with bucketId := req.reuseBucket.getD ids.bucketId } := if_pos rfl
  unfold startFresh
  rw [← hids, he]
  cases d.gates .command req with
  | error e => exact ⟨e, rfl⟩
  | ok _ => exact ⟨e, rfl⟩

theorem lookupDedup_cases (d : Daemon x) (s : State x) (req : StartRequest) (now : Time) :
    lookupDedup d req now s = (.ok none, s) ∨
    (∃ entry, Entry d s req now true entry ∧
      lookupDedup d req now s = (.ok (some entry.ids), s)) ∨
    (∃ entry, Entry d s req now false entry ∧ lookupDedup d req now s = (.ok none, { s with
      dedup := Function.update s.dedup (startKey d.hash req.command req.clear).1 none })) := by
  unfold lookupDedup Entry
  dsimp only
  split
  · exact .inl rfl
  · next entry hentry =>
    split
    · next honoured => exact .inr (.inl ⟨entry, ⟨hentry, honoured.symm⟩, rfl⟩)
    · next honoured =>
      exact .inr (.inr ⟨entry, ⟨hentry, (Bool.eq_false_iff.mpr honoured).symm⟩, rfl⟩)

theorem leaves_startCombedInner
    (h : builds x (startRules d .command req (idsOf .command req ids)).list = false) :
    Leaves d s req now .command (startCombedInner d req ids now s) := by
  refine leaves_check (leaves_check ?_)
  obtain hlookup | ⟨entry, hentry, hlookup⟩ | ⟨entry, hentry, hlookup⟩ :=
    lookupDedup_cases d s req now
  · obtain ⟨e, he⟩ := startFresh_error s now h
    rw [bind_of_ok hlookup]
    dsimp only
    rw [he]
    exact .nothing e
  · rw [bind_of_ok hlookup]
    exact .existing hentry
  · obtain ⟨e, he⟩ := startFresh_error { s with
      dedup := Function.update s.dedup (startKey d.hash req.command req.clear).1 none } now h
    rw [bind_of_ok hlookup]
    dsimp only
    rw [he]
    exact .stale hentry e

/-- **Starts with bad rules.** A start whose rules do not compile fails and leaves the job ledger,
the live map and the dedup map as they were, a command the buckets and their sources too. The
exception is a command with an entry under its key: the job of an entry that is honoured is the
answer, and a stale one is removed. -/
theorem bad_rules_leave (d : Daemon x) (s : State x) (lane : Lane) (req : StartRequest)
    (ids : JobTriple) (now : Time)
    (hbad : builds x (startRules d lane req (idsOf lane req ids)).list = false) :
    Leaves d s req now lane (start d lane req ids now s) := by
  cases lane with
  | command => exact leaves_startCombedInner hbad
  | watch => exact leaves_check (leaves_allocateAndCompile (by decide) hbad)
  | _ => exact leaves_check (leaves_check (leaves_allocateAndCompile (by decide) hbad))

/-! ## A rule without keywords -/

def emptyRuleRequest : StartRequest where
  command := ⟨["top".toList], none, [], none, none, none, none⟩
  rules := [keywordRule "r".toList []]
  bucketConfig := ⟨16, 60⟩
  clear := false
  reuseBucket := none

def openDaemon : Daemon scanExternals where
  hash _ := 0
  universalExtractors := false
  activation := .new
  validateArgv _ := .ok ()
  resolveLimits _ := .ok ()
  gates _ _ := .ok ()
  launch _ _ ids _ := pure ids

def oneInFlight : State scanExternals where
  buckets := .new
  sources := ⟨fun _ => none, 0⟩
  jobs _ := none
  live _ := none
  dedup := Function.update (fun _ => none) 0 (some ⟨⟨7, 7, 7⟩, 0⟩)

theorem bad_rules_leave_empty_rule :
    builds scanExternals (startRules openDaemon .watch emptyRuleRequest ⟨1, 1, 1⟩).list = false ∧
      Leaves openDaemon oneInFlight emptyRuleRequest 0 .watch
        (start openDaemon .watch emptyRuleRequest ⟨1, 1, 1⟩ 0 oneInFlight) := by
  have hbad : builds scanExternals
      (startRules openDaemon .watch emptyRuleRequest ⟨1, 1, 1⟩).list = false := by decide +kernel
  exact ⟨hbad, bad_rules_leave openDaemon oneInFlight .watch emptyRuleRequest ⟨1, 1, 1⟩ 0 hbad⟩

/-- The command in flight is the answer to a start of the same key with the rule. -/
theorem bad_rule_is_answered :
    builds scanExternals (startRules openDaemon .command emptyRuleRequest ⟨1, 1, 1⟩).list = false ∧
      (start openDaemon .command emptyRuleRequest ⟨1, 1, 1⟩ 0 oneInFlight).1 = .ok ⟨7, 7, 7⟩ := by
  decide +kernel

end Starts

end TerminalCommander
