import Mathlib.Data.List.Nodup
import Mathlib.Data.List.Perm.Subperm
import TerminalCommander.Core.Job
import TerminalCommander.Lib.Transition

/-!
# The session cap

`ShellSessionRuntime` of `daemon/src/shell_session.rs`: the table of sessions with its count of
reserved slots, and the starts, stops and exits that work on it. A step is one critical section of
the table, of the PTY runtime's live map or of the job ledger. The slots reserved are those of the
starts under way (`Inv.slots`), and a shell that is alive is on the table or belongs to a start or
a stop under way (`Inv.placed`). The shells of such stops are not counted by the cap (`Roomy`).
-/

namespace TerminalCommander

open List Option Transition

namespace SessionCap

abbrev SessionId := Nat

inductive SessionState where
  | starting | live | exited | failed
  deriving DecidableEq, Repr

def ptyStateOf (jobs : List JobState) (job : JobId) : SessionState :=
  match jobs[job]? with
  | some .starting => .starting
  | some .running => .live
  | some .failed => .failed
  | some .exited | some .cancelled | none => .exited

def SessionState.alive : SessionState → Bool
  | .starting | .live => true
  | .exited | .failed => false

structure SessionTable where
  entries : List (SessionId × JobId)
  pending : Nat
  deriving DecidableEq

namespace SessionTable

def tryReserve (t : SessionTable) (live max : Nat) : Except (Nat × Nat) SessionTable :=
  let occupied := live + t.pending
  if occupied ≥ max then .error (occupied, max) else .ok { t with pending := t.pending + 1 }

def releaseReservation (t : SessionTable) : SessionTable := { t with pending := t.pending - 1 }

def liveEntries (t : SessionTable) (jobs : List JobState) : Nat :=
  t.entries.countP fun entry => (ptyStateOf jobs entry.2).alive

def reapTerminal (t : SessionTable) (jobs : List JobState) : SessionTable :=
  { t with entries := t.entries.filter fun entry => (ptyStateOf jobs entry.2).alive }

end SessionTable

structure State where
  table : SessionTable
  jobs : List JobState
  /-- The live map of the PTY runtime. -/
  bindings : List JobId
  /-- Starts that have reaped and not yet asked for a slot. -/
  reaped : Nat
  /-- Starts that hold a slot and have not spawned. -/
  reserved : Nat
  /-- Starts whose spawn has failed and that still hold their slot. -/
  failed : Nat
  /-- Starts that have spawned a shell and not yet put it on the table. -/
  spawned : List JobId
  /-- Stops that have taken an entry off the table and not yet stopped its job. -/
  removed : List JobId
  deriving DecidableEq

def State.init : State := ⟨⟨[], 0⟩, [], [], 0, 0, 0, [], []⟩

inductive Action where
  | reapTerminal
  | reserveSlot
  | spawn
  | markRunning (job : JobId)
  | bind (job : JobId)
  | spawnFails
  | release
  | insert (session : SessionId) (job : JobId)
  | stopRemove (session : SessionId)
  | stopPty (job : JobId)
  | exits (job : JobId) (state : JobState)
  deriving DecidableEq

def step (max : Nat) (s : State) : Action → Option State
  | .reapTerminal => some { s with table := s.table.reapTerminal s.jobs, reaped := s.reaped + 1 }
  | .reserveSlot =>
    if s.reaped = 0 then none
    else
      match s.table.tryReserve (s.table.liveEntries s.jobs) max with
      | .error _ => some { s with reaped := s.reaped - 1 }
      | .ok table =>
        some { s with table := table, reaped := s.reaped - 1, reserved := s.reserved + 1 }
  | .spawn =>
    if s.reserved = 0 then none
    else
      some { s with
        reserved := s.reserved - 1
        jobs := s.jobs ++ [.starting], spawned := s.jobs.length :: s.spawned }
  | .markRunning job =>
    if s.jobs[job]? = some .starting then some { s with jobs := s.jobs.set job .running } else none
  | .bind job =>
    if job ∈ s.spawned ∧ job ∉ s.bindings then some { s with bindings := job :: s.bindings }
    else none
  | .spawnFails =>
    if s.reserved = 0 then none
    else some { s with reserved := s.reserved - 1, failed := s.failed + 1 }
  | .release =>
    if s.failed = 0 then none
    else some { s with table := s.table.releaseReservation, failed := s.failed - 1 }
  | .insert session job =>
    -- the identifier is new
    if job ∈ s.spawned ∧ job ∈ s.bindings ∧ session ∉ s.table.entries.map Prod.fst then
      some { s with
        table := SessionTable.releaseReservation
          { s.table with entries := (session, job) :: s.table.entries }
        spawned := s.spawned.erase job }
    else none
  | .stopRemove session =>
    match s.table.entries.find? fun entry => entry.1 = session with
    | none => some s
    | some entry =>
      some { s with
        table := { s.table with entries := s.table.entries.erase entry }
        removed := entry.2 :: s.removed }
  | .stopPty job =>
    if job ∈ s.removed then
      if job ∈ s.bindings then
        some { s with
          removed := s.removed.erase job, bindings := s.bindings.erase job
          jobs := s.jobs.set job .cancelled }
      else some { s with removed := s.removed.erase job }
    else none
  | .exits job state =>
    -- the lifecycle waiter records how the shell has ended
    if state.terminal = true then some { s with jobs := s.jobs.set job state } else none

def State.liveShells (s : State) : Nat :=
  ((List.range s.jobs.length).filter fun job => (ptyStateOf s.jobs job).alive).length

def State.unspawned (s : State) : Nat := s.reserved + s.failed

def State.stopping (s : State) : Nat :=
  s.removed.countP fun job => (ptyStateOf s.jobs job).alive

def Roomy (max : Nat) (s : State) : Action → Prop
  | .reserveSlot =>
    s.table.liveEntries s.jobs + s.table.pending < max →
      s.table.liveEntries s.jobs + s.table.pending + s.stopping < max
  | _ => True

instance (max : Nat) (s : State) (a : Action) : Decidable (Roomy max s a) := by
  cases a <;> unfold Roomy <;> infer_instance

/-! ## Jobs -/

variable {job : JobId} {jobs : List JobState}

theorem ptyStateOf_append (h : job < jobs.length)
    (more : List JobState) : ptyStateOf (jobs ++ more) job = ptyStateOf jobs job := by
  unfold ptyStateOf
  rw [getElem?_append_left h]

theorem lt_length_of_alive (h : (ptyStateOf jobs job).alive) : job < jobs.length := by
  by_contra hge
  unfold ptyStateOf at h
  rw [getElem?_eq_none (Nat.le_of_not_lt hge)] at h
  cases h

theorem alive_set_terminal {other : JobId} {state : JobState}
    (hstate : state.terminal) (h : (ptyStateOf (jobs.set job state) other).alive) :
    (ptyStateOf jobs other).alive ∧ other ≠ job := by
  by_cases heq : job = other
  · subst heq
    have hlt := lt_length_of_alive h
    rw [length_set] at hlt
    unfold ptyStateOf at h
    rw [getElem?_set_self hlt] at h
    cases state <;> cases hstate <;> cases h
  · unfold ptyStateOf at h ⊢
    rw [getElem?_set_ne heq] at h
    exact ⟨h, Ne.symm heq⟩

theorem alive_set_running (h : jobs[job]? = some .starting) (other : JobId) :
    (ptyStateOf (jobs.set job .running) other).alive = (ptyStateOf jobs other).alive := by
  unfold ptyStateOf
  by_cases heq : job = other
  · subst heq
    have hlt : job < jobs.length := (List.getElem?_eq_some_iff.mp h).1
    rw [getElem?_set_self hlt, h]
    rfl
  · rw [getElem?_set_ne heq]

/-! ## The invariant -/

def State.places (s : State) : List JobId :=
  s.table.entries.map Prod.snd ++ s.spawned ++ s.removed

structure Inv (s : State) : Prop where
  slots : s.table.pending = s.reserved + s.failed + s.spawned.length
  nodup : s.places.Nodup
  known : ∀ job ∈ s.places, job < s.jobs.length
  bound : ∀ job ∈ s.table.entries.map Prod.snd ++ s.removed, job ∈ s.bindings
  placed : ∀ job, (ptyStateOf s.jobs job).alive = true → job ∈ s.places

theorem inv_init : Inv State.init where
  slots := rfl
  nodup := nodup_nil
  known := fun _ h => absurd h not_mem_nil
  bound := fun _ h => absurd h not_mem_nil
  placed := fun job h => absurd (lt_length_of_alive h) (Nat.not_lt_zero job)

theorem Inv.liveShells_le {s : State} (h : Inv s) :
    s.liveShells ≤ s.table.liveEntries s.jobs + s.spawned.length + s.stopping := by
  have hsubset : ((List.range s.jobs.length).filter fun job => (ptyStateOf s.jobs job).alive) ⊆
      s.places.filter fun job => (ptyStateOf s.jobs job).alive := by
    intro job hjob
    rw [List.mem_filter] at hjob ⊢
    exact ⟨h.placed job hjob.2, hjob.2⟩
  have hle := (subperm_of_subset (nodup_range.filter _) hsubset).length_le
  have hplaces : (s.places.filter fun job => (ptyStateOf s.jobs job).alive).length =
      s.table.liveEntries s.jobs + (s.spawned.countP fun job => (ptyStateOf s.jobs job).alive) +
        s.stopping := by
    rw [← countP_eq_length_filter, State.places, countP_append, countP_append, countP_map]
    rfl
  have hspawned := countP_le_length (p := fun job => (ptyStateOf s.jobs job).alive)
    (l := s.spawned)
  unfold State.liveShells
  omega

def Capped (max : Nat) (s : State) : Prop :=
  s.table.liveEntries s.jobs + s.table.pending + s.stopping ≤ max

theorem Inv.bounded {max : Nat} {s : State} (h : Inv s) (hcap : Capped max s) :
    s.liveShells + s.unspawned ≤ max := by
  have hlive := h.liveShells_le
  have hslots := h.slots
  unfold Capped at hcap
  unfold State.unspawned
  omega

/-! ## Steps -/

structure Keeps (max : Nat) (s : State) (a : Action) (t : State) : Prop where
  inv : Inv t
  capped : Roomy max s a → Capped max s → Capped max t

variable {max : Nat} {s t : State}

theorem capped_of_alive
    (h : ∀ job ∈ s.places, (ptyStateOf jobs job).alive →
      (ptyStateOf s.jobs job).alive) (hcap : Capped max s) :
    Capped max { s with jobs := jobs } := by
  have hent : s.table.liveEntries jobs ≤ s.table.liveEntries s.jobs := by
    refine countP_mono_left fun entry hentry halive => h entry.2 ?_ halive
    exact mem_append_left _ (mem_append_left _ (List.mem_map_of_mem hentry))
  have hremoved : (s.removed.countP fun job => (ptyStateOf jobs job).alive) ≤ s.stopping :=
    countP_mono_left fun job hjob halive => h job (mem_append_right _ hjob) halive
  unfold Capped at hcap ⊢
  have hsame : ({ s with jobs := jobs } : State).stopping =
      s.removed.countP fun job => (ptyStateOf jobs job).alive := rfl
  rw [hsame]
  dsimp only
  omega

theorem keeps_reapTerminal (h : Inv s) (hs : step max s .reapTerminal = some t) :
    Keeps max s .reapTerminal t := by
  obtain rfl := some.inj hs
  have hsub : (s.table.reapTerminal s.jobs).entries.Sublist s.table.entries :=
    filter_sublist
  have hplaces : ((s.table.reapTerminal s.jobs).entries.map Prod.snd ++ s.spawned ++
      s.removed).Sublist s.places :=
    ((hsub.map Prod.snd).append_right _).append_right _
  constructor
  · refine ⟨h.slots, h.nodup.sublist hplaces, fun job hjob => h.known job (hplaces.subset hjob),
      fun job hjob => h.bound job (((hsub.map Prod.snd).append_right _).subset hjob), ?_⟩
    -- only entries whose job has ended are dropped
    intro job halive
    have hmem := h.placed job halive
    unfold State.places at hmem ⊢
    rw [mem_append, mem_append] at hmem ⊢
    refine hmem.imp_left fun hleft => hleft.imp_left fun hlisted => ?_
    obtain ⟨entry, hentry, rfl⟩ := List.mem_map.mp hlisted
    exact List.mem_map_of_mem (List.mem_filter.mpr ⟨hentry, halive⟩)
  · intro _ hcap
    have hle : (s.table.reapTerminal s.jobs).liveEntries s.jobs ≤ s.table.liveEntries s.jobs :=
      hsub.countP_le
    unfold Capped at hcap ⊢
    exact Nat.le_trans (Nat.add_le_add_right (Nat.add_le_add_right hle _) _) hcap

theorem keeps_reserveSlot (h : Inv s) (hs : step max s .reserveSlot = some t) :
    Keeps max s .reserveSlot t := by
  unfold step at hs
  dsimp only at hs
  split_ifs at hs
  unfold SessionTable.tryReserve at hs
  by_cases hfull : s.table.liveEntries s.jobs + s.table.pending ≥ max
  · rw [if_pos hfull] at hs
    obtain rfl := some.inj hs
    exact ⟨⟨h.slots, h.nodup, h.known, h.bound, h.placed⟩, fun _ hcap => hcap⟩
  · rw [if_neg hfull] at hs
    obtain rfl := some.inj hs
    refine ⟨⟨?_, h.nodup, h.known, h.bound, h.placed⟩, fun hroom _ => ?_⟩
    · have hslots := h.slots
      dsimp only
      omega
    · have hlt := hroom (Nat.lt_of_not_ge hfull)
      show s.table.liveEntries s.jobs + (s.table.pending + 1) + s.stopping ≤ max
      omega

theorem keeps_spawn (h : Inv s) (hs : step max s .spawn = some t) : Keeps max s .spawn t := by
  unfold step at hs
  dsimp only at hs
  split_ifs at hs with hreserved
  obtain rfl := some.inj hs
  have hnew : s.jobs.length ∉ s.places := fun hmem => Nat.lt_irrefl _ (h.known _ hmem)
  have hmem : ∀ job, job ∈ s.table.entries.map Prod.snd ++ s.jobs.length :: s.spawned ++ s.removed ↔
      job = s.jobs.length ∨ job ∈ s.places := by
    intro job
    unfold State.places
    simp only [mem_append, mem_cons]
    tauto
  constructor
  · refine ⟨?_, ?_, ?_, h.bound, ?_⟩
    · have hslots := h.slots
      show s.table.pending = s.reserved - 1 + s.failed + (s.spawned.length + 1)
      omega
    · have hperm : (s.table.entries.map Prod.snd ++ s.jobs.length :: s.spawned ++ s.removed).Perm
          (s.jobs.length :: s.places) := by
        unfold State.places
        rw [append_assoc, append_assoc, cons_append]
        exact perm_middle
      exact hperm.nodup_iff.mpr (nodup_cons.mpr ⟨hnew, h.nodup⟩)
    · intro job hjob
      dsimp only
      rw [length_append, length_singleton]
      rcases (hmem job).mp hjob with rfl | hold
      · exact Nat.lt_succ_self _
      · exact Nat.lt_succ_of_lt (h.known job hold)
    · intro job halive
      refine (hmem job).mpr ?_
      by_cases hlt : job < s.jobs.length
      · rw [ptyStateOf_append hlt] at halive
        exact Or.inr (h.placed job halive)
      · have hle := lt_length_of_alive halive
        rw [length_append, length_singleton] at hle
        exact Or.inl (Nat.le_antisymm (Nat.lt_succ_iff.mp hle) (Nat.le_of_not_lt hlt))
  · intro _ hcap
    refine capped_of_alive (s := s) (fun job hjob halive => ?_) hcap
    rwa [ptyStateOf_append (h.known job hjob)] at halive

theorem keeps_jobs {a : Action} (h : Inv s) (hlen : jobs.length = s.jobs.length)
    (halive : ∀ other, (ptyStateOf jobs other).alive →
      (ptyStateOf s.jobs other).alive) : Keeps max s a { s with jobs := jobs } := by
  constructor
  · exact ⟨h.slots, h.nodup, fun other hmem => hlen.symm ▸ h.known other hmem, h.bound,
      fun other hmem => h.placed other (halive other hmem)⟩
  · exact fun _ hcap => capped_of_alive (fun other _ => halive other) hcap

theorem keeps_markRunning (h : Inv s)
    (hs : step max s (.markRunning job) = some t) : Keeps max s (.markRunning job) t := by
  unfold step at hs
  dsimp only at hs
  split_ifs at hs with hstarting
  obtain rfl := some.inj hs
  refine keeps_jobs h length_set fun other halive => ?_
  rwa [alive_set_running hstarting] at halive

theorem keeps_bind (h : Inv s) (hs : step max s (.bind job) = some t) :
    Keeps max s (.bind job) t := by
  unfold step at hs
  dsimp only at hs
  split_ifs at hs
  obtain rfl := some.inj hs
  exact ⟨⟨h.slots, h.nodup, h.known, fun other hother =>
    mem_cons_of_mem job (h.bound other hother), h.placed⟩, fun _ hcap => hcap⟩

theorem keeps_spawnFails (h : Inv s) (hs : step max s .spawnFails = some t) :
    Keeps max s .spawnFails t := by
  unfold step at hs
  dsimp only at hs
  split_ifs at hs
  obtain rfl := some.inj hs
  refine ⟨⟨?_, h.nodup, h.known, h.bound, h.placed⟩, fun _ hcap => hcap⟩
  have hslots := h.slots
  show s.table.pending = s.reserved - 1 + (s.failed + 1) + s.spawned.length
  omega

theorem keeps_release (h : Inv s) (hs : step max s .release = some t) : Keeps max s .release t := by
  unfold step at hs
  dsimp only at hs
  split_ifs at hs
  obtain rfl := some.inj hs
  refine ⟨⟨?_, h.nodup, h.known, h.bound, h.placed⟩, fun _ hcap => ?_⟩
  · have hslots := h.slots
    show s.table.pending - 1 = s.reserved + (s.failed - 1) + s.spawned.length
    omega
  · unfold Capped at hcap
    show s.table.liveEntries s.jobs + (s.table.pending - 1) + s.stopping ≤ max
    omega

theorem keeps_insert {session : SessionId} (h : Inv s)
    (hs : step max s (.insert session job) = some t) : Keeps max s (.insert session job) t := by
  unfold step at hs
  dsimp only at hs
  split_ifs at hs with henabled
  obtain rfl := some.inj hs
  obtain ⟨hspawned, hbound, -⟩ := henabled
  have hperm : (job :: s.table.entries.map Prod.snd ++ s.spawned.erase job ++ s.removed).Perm
      s.places := by
    have hfront : (job :: (s.table.entries.map Prod.snd ++ s.spawned.erase job)).Perm
        (s.table.entries.map Prod.snd ++ job :: s.spawned.erase job) := perm_middle.symm
    exact (hfront.trans ((perm_cons_erase hspawned).symm.append_left _)).append_right _
  have hpos : 0 < s.spawned.length := length_pos_of_mem hspawned
  have hslots := h.slots
  constructor
  · refine ⟨?_, hperm.nodup_iff.mpr h.nodup, fun other hother =>
      h.known other (hperm.mem_iff.mp hother), fun other hother => ?_,
      fun other halive => hperm.mem_iff.mpr (h.placed other halive)⟩
    · show s.table.pending - 1 = s.reserved + s.failed + (s.spawned.erase job).length
      rw [length_erase_of_mem hspawned]
      omega
    · rcases mem_cons.mp hother with rfl | hold
      · exact hbound
      · exact h.bound other hold
  · intro _ hcap
    have hcons : ({ s.table with entries := (session, job) :: s.table.entries } :
        SessionTable).liveEntries s.jobs ≤ s.table.liveEntries s.jobs + 1 := by
      unfold SessionTable.liveEntries
      rw [countP_cons]
      split_ifs <;> omega
    unfold Capped at hcap
    show ({ s.table with entries := (session, job) :: s.table.entries } :
        SessionTable).liveEntries s.jobs + (s.table.pending - 1) + s.stopping ≤ max
    omega

theorem keeps_stopRemove {session : SessionId} (h : Inv s)
    (hs : step max s (.stopRemove session) = some t) : Keeps max s (.stopRemove session) t := by
  unfold step at hs
  dsimp only at hs
  cases hfind : s.table.entries.find? fun entry => entry.1 = session with
  | none =>
    rw [hfind] at hs
    obtain rfl := some.inj hs
    exact ⟨h, fun _ hcap => hcap⟩
  | some entry =>
    rw [hfind] at hs
    obtain rfl := some.inj hs
    have hentry : entry ∈ s.table.entries := mem_of_find?_eq_some hfind
    have hcons := perm_cons_erase hentry
    -- the shell goes from the table to the stop
    have hmoved : (s.table.entries.map Prod.snd ++ s.removed).Perm
        ((s.table.entries.erase entry).map Prod.snd ++ entry.2 :: s.removed) :=
      ((hcons.map Prod.snd).append_right s.removed).trans perm_middle.symm
    have hperm : ((s.table.entries.erase entry).map Prod.snd ++ s.spawned ++
        entry.2 :: s.removed).Perm s.places := by
      have hswap (listed off : List JobId) :
          (listed ++ s.spawned ++ off).Perm (s.spawned ++ (listed ++ off)) := by
        rw [← append_assoc]
        exact perm_append_comm.append_right off
      exact (hswap _ _).trans ((hmoved.symm.append_left _).trans (hswap _ _).symm)
    constructor
    · exact ⟨h.slots, hperm.nodup_iff.mpr h.nodup, fun other hother =>
        h.known other (hperm.mem_iff.mp hother), fun other hother =>
        h.bound other (hmoved.mem_iff.mpr hother),
        fun other halive => hperm.mem_iff.mpr (h.placed other halive)⟩
    · intro _ hcap
      have hcount := hmoved.countP_eq fun job => (ptyStateOf s.jobs job).alive
      rw [countP_append, countP_append, countP_map, countP_map] at hcount
      unfold Capped State.stopping SessionTable.liveEntries at hcap ⊢
      dsimp only [Function.comp_def] at hcount hcap ⊢
      omega

theorem keeps_stopPty (h : Inv s) (hs : step max s (.stopPty job) = some t) :
    Keeps max s (.stopPty job) t := by
  unfold step at hs
  dsimp only at hs
  split_ifs at hs with hremoved hbound
  · obtain rfl := some.inj hs
    have hsub : (s.removed.erase job).Sublist s.removed := erase_sublist
    have hplaces : (s.table.entries.map Prod.snd ++ s.spawned ++ s.removed.erase job).Sublist
        s.places := hsub.append_left _
    have hnodup : (s.table.entries.map Prod.snd ++ s.spawned ++ s.removed).Nodup := h.nodup
    obtain ⟨-, hoff, hapart⟩ := nodup_append.mp hnodup
    -- the job itself is in no other place
    have hother : ∀ other ∈ s.table.entries.map Prod.snd ++ s.removed.erase job,
        other ∈ s.table.entries.map Prod.snd ++ s.removed ∧ other ≠ job := by
      intro other hmem
      rcases mem_append.mp hmem with hlisted | hleft
      · refine ⟨mem_append_left _ hlisted, ?_⟩
        exact hapart other (mem_append_left _ hlisted) job hremoved
      · refine ⟨mem_append_right _ (hsub.subset hleft), ?_⟩
        exact ((hoff.mem_erase_iff).mp hleft).1
    have halive : ∀ other, (ptyStateOf (s.jobs.set job .cancelled) other).alive →
        (ptyStateOf s.jobs other).alive ∧ other ≠ job := fun _ hmem =>
      alive_set_terminal rfl hmem
    constructor
    · refine ⟨h.slots, hnodup.sublist hplaces, fun other hmem => ?_, fun other hmem => ?_,
        fun other hmem => ?_⟩
      · dsimp only
        rw [length_set]
        exact h.known other (hplaces.subset hmem)
      · obtain ⟨hold, hne⟩ := hother other hmem
        exact (mem_erase_of_ne hne).mpr (h.bound other hold)
      · obtain ⟨hold, hne⟩ := halive other hmem
        rcases mem_append.mp (h.placed other hold) with hfront | hleft
        · exact mem_append_left _ hfront
        · exact mem_append_right _ ((mem_erase_of_ne hne).mpr hleft)
    · intro _ hcap
      have hjobs : Capped max { s with jobs := s.jobs.set job .cancelled } :=
        capped_of_alive (fun other _ hmem => (halive other hmem).1) hcap
      have hle : ((s.removed.erase job).countP fun other =>
          (ptyStateOf (s.jobs.set job .cancelled) other).alive) ≤
          s.removed.countP fun other =>
            (ptyStateOf (s.jobs.set job .cancelled) other).alive := hsub.countP_le
      unfold Capped State.stopping at hjobs ⊢
      dsimp only at hjobs ⊢
      omega
  · -- the job of an entry taken off the table is in the live map
    exact absurd (h.bound job (mem_append_right _ hremoved)) hbound

theorem keeps_exits {state : JobState} (h : Inv s)
    (hs : step max s (.exits job state) = some t) : Keeps max s (.exits job state) t := by
  unfold step at hs
  dsimp only at hs
  split_ifs at hs with hterm
  obtain rfl := some.inj hs
  exact keeps_jobs h length_set fun other halive => (alive_set_terminal hterm halive).1

theorem keeps_step {a : Action} (h : Inv s) (hs : step max s a = some t) : Keeps max s a t := by
  cases a with
  | reapTerminal => exact keeps_reapTerminal h hs
  | reserveSlot => exact keeps_reserveSlot h hs
  | spawn => exact keeps_spawn h hs
  | markRunning job => exact keeps_markRunning h hs
  | bind job => exact keeps_bind h hs
  | spawnFails => exact keeps_spawnFails h hs
  | release => exact keeps_release h hs
  | insert session job => exact keeps_insert h hs
  | stopRemove session => exact keeps_stopRemove h hs
  | stopPty job => exact keeps_stopPty h hs
  | exits job state => exact keeps_exits h hs

/-! ## Runs -/

theorem inv_run {actions : List Action}
    (hrun : run (step max) State.init actions = some t) : Inv t :=
  run_invariant (fun _ _ _ h _ hs => (keeps_step h hs).inv) inv_init
    (meets_true _ _) hrun

theorem capped_run {actions : List Action}
    (hmeets : Transition.Meets (step max) (Roomy max) State.init actions)
    (hrun : run (step max) State.init actions = some t) : Inv t ∧ Capped max t :=
  run_invariant (I := fun s => Inv s ∧ Capped max s)
    (fun _ _ _ h hroom hs =>
      ⟨(keeps_step h.1 hs).inv, (keeps_step h.1 hs).capped hroom h.2⟩)
    ⟨inv_init, Nat.zero_le max⟩ hmeets hrun

/-- **The session cap.** In every state that is reached the slots reserved are those of the starts
under way. If every slot was reserved with room for the shells of stops under way, the shells alive
and the starts that have not spawned are within the cap. -/
theorem live_sessions_capped (max : Nat) (actions : List Action) (t : State)
    (hrun : Transition.run (step max) State.init actions = some t) :
    t.table.pending = t.unspawned + t.spawned.length ∧
      (Transition.Meets (step max) (Roomy max) State.init actions →
        t.liveShells + t.unspawned ≤ max) := by
  refine ⟨(inv_run hrun).slots, fun hmeets => ?_⟩
  obtain ⟨hinv, hcap⟩ := capped_run hmeets hrun
  exact hinv.bounded hcap

def stoppedFirst : List Action :=
  [.reapTerminal, .reserveSlot, .spawn, .markRunning 0, .bind 0, .insert 7 0, .stopRemove 7,
    .stopPty 0, .reapTerminal, .reserveSlot, .spawn, .markRunning 1]

theorem stopped_first_capped :
    ∃ t, Transition.run (step 1) State.init stoppedFirst = some t ∧ t.liveShells = 1 ∧
      t.liveShells + t.unspawned ≤ 1 := by
  have hrun : run (step 1) State.init stoppedFirst = some
      ⟨⟨[], 1⟩, [.cancelled, .running], [], 0, 0, 0, [1], []⟩ := by decide
  exact ⟨_, hrun, by decide, (live_sessions_capped 1 stoppedFirst _ hrun).2 (by decide)⟩

/-- The next start reserves the slot while the stop has the entry and not yet the job: two shells
run under a cap of one. -/
theorem two_shells_under_one :
    ∃ t, Transition.run (step 1) State.init
        [.reapTerminal, .reserveSlot, .spawn, .markRunning 0, .bind 0, .insert 7 0, .stopRemove 7,
          .reapTerminal, .reserveSlot, .spawn, .markRunning 1] = some t ∧
      t.liveShells + t.unspawned = 2 := by
  have hrun : run (step 1) State.init
      [.reapTerminal, .reserveSlot, .spawn, .markRunning 0, .bind 0, .insert 7 0, .stopRemove 7,
        .reapTerminal, .reserveSlot, .spawn, .markRunning 1] = some
      ⟨⟨[], 1⟩, [.running, .running], [0], 0, 0, 0, [1], [0]⟩ := by decide
  exact ⟨_, hrun, by decide⟩

end SessionCap

end TerminalCommander
