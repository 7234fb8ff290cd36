import TerminalCommander.Daemon.Command.Dedup
import TerminalCommander.Daemon.Command.Finality

/-!
# One process for each nonce

A job holds the entry of its key from its registration until its spawn has failed or its waiter has
evicted it. As long as a start writes its entry only into a free slot, the one job that holds a key
is the one its entry names: at most one process of the key is in flight, every start answers with
it, and the entry that the end of a job removes is its own.
-/

namespace TerminalCommander

open List Function Transition Table

namespace Lifecycle

def WaiterPc.released : WaiterPc → Bool
  | .evicted _ => true
  | .settled => true
  | .done => true
  | _ => false

theorem released_mono {s s' : Sys} {a : Action} (h : step s a = some s')
    (hr : s.waiter.released) : s'.waiter.released := by
  cases Step.of_step h with
  | exit _ hw | publish _ hw | skip _ hw | pass _ hw | finish _ _ hw | evict _ hw
  | evictSkipped hw => rw [hw] at hr; cases hr
  | append | appendFails | commit => rfl
  | stop | stopLate | stopCheck | stopCancel | stopReturn | statusRead | statusReturn => exact hr

theorem released_of_evict {s s' : Sys} (h : step s .evict = some s') :
    s.waiter.released = false ∧ s'.waiter.released := by
  cases Step.of_step h with
  | evict _ hw | evictSkipped hw => exact ⟨by rw [hw]; rfl, rfl⟩

end Lifecycle

namespace Dedup

def Phase.inFlight : Phase → Bool
  | .spawned => true
  | .launched life => !life.job.state.terminal
  | _ => false

def Phase.holds : Phase → Bool
  | .dropped => false
  | .launched life => !life.waiter.released
  | _ => true

def Phase.Ended : Phase → Prop
  | .launched life => life.EndedTerminal
  | _ => True

theorem Phase.holds_of_inFlight {p : Phase} (he : p.Ended) (h : p.inFlight) : p.holds := by
  cases p with
  | launched life =>
    have hrunning : life.job.state.terminal = false := by simpa [inFlight] using h
    have hended : life.waiter.ended = false := by
      by_contra hne
      rw [he (Bool.not_eq_false _ ▸ hne)] at hrunning
      cases hrunning
    have hrel : life.waiter.released = false := by
      revert hended
      cases life.waiter <;> simp [Lifecycle.WaiterPc.ended, Lifecycle.WaiterPc.released]
    simp [holds, hrel]
  | dropped => cases h
  | registered | spawnFailed | spawned => rfl

theorem Phase.holds_of_life {life life' : Lifecycle.Sys} {a : Lifecycle.Action}
    (hl : Lifecycle.step life a = some life') (h : (launched life').holds) :
    (launched life).holds := by
  have h' : life'.waiter.released = false := by simpa [holds] using h
  have hlife : life.waiter.released = false := by
    by_contra hne
    rw [Lifecycle.released_mono hl (Bool.not_eq_false _ ▸ hne)] at h'
    cases h'
  simp [holds, hlife]

def Sys.InFlight (s : Sys) (key j : Nat) : Prop :=
  ∃ job, s.jobs[j]? = some job ∧ job.key = key ∧ job.phase.inFlight = true

def Sys.Holds (s : Sys) (key j : Nat) : Prop :=
  ∃ job, s.jobs[j]? = some job ∧ job.key = key ∧ job.phase.holds = true

def StartPc.isAnswering : StartPc → Bool
  | .answering _ => true
  | _ => false

structure OneProcess (key : Nat) (s s' : Sys) : Prop where
  single : ∀ j j', s'.InFlight key j → s'.InFlight key j' → j = j'
  answered : ∀ (c id : Nat) (call : StartCall), s'.calls[c]? = some call →
    call.pc = .returned (.ok id) → s.calls[c]? ≠ some call → call.key = key →
    ∀ j, s'.InFlight key j → id = j
  own : ∀ e, s.dedup key = some e → s'.dedup key ≠ some e →
    s.Holds key e.job ∧ ¬ s'.Holds key e.job

def Nonced (hash : DedupInput → Nat) (key : Nat) : Action → Prop
  | .start req clear => (startKey hash req clear).1 = key → req.hasNonce = true
  | _ => True

def FreshInsert (key : Nat) (s : Sys) : Action → Prop
  | .insert c _ => ∀ call ∈ s.calls[c]?, call.key = key → s.dedup key = none ∧
      ∀ other ∈ s.calls, other.key = key → other.pc.isAnswering = false
  | _ => True

instance Nonced.decidable (hash : DedupInput → Nat) (key : Nat) :
    ∀ a, Decidable (Nonced hash key a)
  | .start req clear =>
    inferInstanceAs (Decidable (_ → _))
  | .lookup _ _ => isTrue trivial
  | .reject _ => isTrue trivial
  | .insert _ _ => isTrue trivial
  | .spawnFails _ => isTrue trivial
  | .evictFailed _ => isTrue trivial
  | .spawn _ => isTrue trivial
  | .launch _ _ _ => isTrue trivial
  | .reply _ => isTrue trivial
  | .life _ _ => isTrue trivial

instance FreshInsert.decidable (key : Nat) (s : Sys) : ∀ a, Decidable (FreshInsert key s a)
  | .insert c _ => inferInstanceAs (Decidable (∀ call ∈ s.calls[c]?, _))
  | .start _ _ => isTrue trivial
  | .lookup _ _ => isTrue trivial
  | .reject _ => isTrue trivial
  | .spawnFails _ => isTrue trivial
  | .evictFailed _ => isTrue trivial
  | .spawn _ => isTrue trivial
  | .launch _ _ _ => isTrue trivial
  | .reply _ => isTrue trivial
  | .life _ _ => isTrue trivial

/-! ## The invariant -/

variable {hash : DedupInput → Nat} {key : Nat} {s : Sys}

structure Inv (key : Nat) (s : Sys) : Prop where
  holder : ∀ j, s.Holds key j → ∃ e, s.dedup key = some e ∧ e.job = j
  answer : ∀ call ∈ s.calls, call.key = key → ∀ j, call.pc = .answering j →
    ∀ j', s.Holds key j' → j = j'
  nonced : ∀ call ∈ s.calls, call.key = key → call.gated = false
  registered : ∀ call ∈ s.calls, ∀ j, call.pc = .registered j →
    ∃ job, s.jobs[j]? = some job ∧ job.key = call.key
  ended : ∀ job ∈ s.jobs, job.phase.Ended

theorem init_inv (key : Nat) : Inv key init where
  holder := fun _ ⟨_, h, _⟩ => by cases h
  answer := fun _ h => by cases h
  nonced := fun _ h => by cases h
  registered := fun _ h => by cases h
  ended := fun _ h => by cases h

variable {j : Nat}

theorem Inv.holds_of_inFlight (h : Inv key s) (hj : s.InFlight key j) : s.Holds key j := by
  obtain ⟨job, hjob, hkey, hfly⟩ := hj
  exact ⟨job, hjob, hkey, Phase.holds_of_inFlight (h.ended job (mem_of_getElem? hjob)) hfly⟩

theorem Inv.holds_unique (h : Inv key s) {j' : Nat} (hj : s.Holds key j)
    (hj' : s.Holds key j') : j = j' := by
  obtain ⟨e, he, rfl⟩ := h.holder j hj
  obtain ⟨e', he', rfl⟩ := h.holder j' hj'
  rw [he] at he'
  cases he'
  rfl

/-! ## Steps -/

variable {phase : Phase} {job : Job} {i : Nat}

theorem Sys.getElem?_setPhase {job' : Job} (h : (s.setPhase j job phase).jobs[i]? = some job') :
    (i = j ∧ job' = { job with phase := phase }) ∨ (i ≠ j ∧ s.jobs[i]? = some job') := by
  unfold setPhase at h
  exact set_cases h

theorem Sys.Holds.of_setPhase
    (hj : s.jobs[j]? = some job) (hmono : phase.holds → job.phase.holds)
    (h : (s.setPhase j job phase).Holds key i) : s.Holds key i := by
  obtain ⟨job', hjob', hkey, hholds⟩ := h
  rcases Sys.getElem?_setPhase hjob' with ⟨rfl, rfl⟩ | ⟨-, hold⟩
  · exact ⟨job, hj, hkey, hmono hholds⟩
  · exact ⟨job', hold, hkey, hholds⟩

theorem Inv.setPhase (h : Inv key s) (hj : s.jobs[j]? = some job)
    (phase : Phase) (hmono : phase.holds → job.phase.holds)
    (hended : phase.Ended) : Inv key (s.setPhase j job phase) where
  holder := fun i hi => h.holder i (hi.of_setPhase hj hmono)
  answer := fun call hcall hkey i hpc i' hi' =>
    h.answer call hcall hkey i hpc i' (hi'.of_setPhase hj hmono)
  nonced := h.nonced
  registered := fun call hcall i hpc => by
    obtain ⟨job', hjob', hkey⟩ := h.registered call hcall i hpc
    by_cases hij : i = j
    · subst hij
      rw [hj, Option.some.injEq] at hjob'
      subst hjob'
      exact ⟨{ job with phase := phase }, getElem?_set_of_some hj _, hkey⟩
    · exact ⟨job', (getElem?_set_ne (Ne.symm hij)).trans hjob', hkey⟩
  ended := fun job' hjob' => by
    rcases mem_or_eq_of_mem_set hjob' with hold | rfl
    · exact h.ended job' hold
    · exact hended

variable {call : StartCall}

theorem Inv.setPc (h : Inv key s) {c : Nat} {pc : StartPc} (hc : s.calls[c]? = some call)
    (hanswer : call.key = key → ∀ j, pc = .answering j → ∀ j', s.Holds key j' → j = j')
    (hregistered : ∀ j, pc ≠ .registered j) : Inv key (s.setPc c call pc) where
  holder := h.holder
  answer := fun call' hcall' hkey j hpc => by
    rcases mem_or_eq_of_mem_set hcall' with hold | rfl
    · exact h.answer call' hold hkey j hpc
    · exact hanswer hkey j hpc
  nonced := fun call' hcall' hkey => by
    rcases mem_or_eq_of_mem_set hcall' with hold | rfl
    · exact h.nonced call' hold hkey
    · exact h.nonced call (mem_of_getElem? hc) hkey
  registered := fun call' hcall' j hpc => by
    rcases mem_or_eq_of_mem_set hcall' with hold | rfl
    · exact h.registered call' hold j hpc
    · exact absurd hpc (hregistered j)
  ended := h.ended

theorem Inv.remove (h : Inv key s) {key' : Nat} (hfree : key' = key → ∀ j, ¬ s.Holds key j) :
    Inv key (s.remove key') := by
  refine { h with holder := fun j hj => ?_ }
  have hne : key ≠ key' := fun heq => hfree heq.symm j hj
  obtain ⟨e, he, hje⟩ := h.holder j hj
  exact ⟨e, (update_of_ne hne _ _).trans he, hje⟩

theorem Inv.free_of_setPhase (h : Inv key s)
    (hj : s.jobs[j]? = some job) (hkey : job.key = key) (hbef : job.phase.holds)
    (hafter : phase.holds = false) (i : Nat) : ¬ (s.setPhase j job phase).Holds key i := by
  intro hi
  have hij : i = j := h.holds_unique (hi.of_setPhase hj fun _ => hbef) ⟨job, hj, hkey, hbef⟩
  obtain ⟨job', hjob', -, hholds⟩ := hi
  rcases Sys.getElem?_setPhase hjob' with ⟨-, rfl⟩ | ⟨hne, -⟩
  · rw [show phase.holds from hholds] at hafter
    cases hafter
  · exact hne hij

theorem Inv.start (h : Inv key s) (hpc : call.pc = .called)
    (hnonced : call.key = key → call.gated = false) :
    Inv key { s with calls := s.calls ++ [call] } := by
  have hcalls : ∀ call' ∈ s.calls ++ [call], call' ∈ s.calls ∨ call' = call :=
    fun _ hcall' => (mem_append.mp hcall').imp_right mem_singleton.mp
  refine { h with answer := ?_, nonced := ?_, registered := ?_ }
  · intro call' hcall' hkey j hpc'
    rcases hcalls call' hcall' with hold | rfl
    · exact h.answer call' hold hkey j hpc'
    · rw [hpc] at hpc'
      cases hpc'
  · intro call' hcall' hkey
    rcases hcalls call' hcall' with hold | rfl
    · exact h.nonced call' hold hkey
    · exact hnonced hkey
  · intro call' hcall' j hpc'
    rcases hcalls call' hcall' with hold | rfl
    · exact h.registered call' hold j hpc'
    · rw [hpc] at hpc'
      cases hpc'

theorem Inv.insert (h : Inv key s) {c : Nat} {now : Time} (hc : s.calls[c]? = some call)
    (hfree : call.key = key → s.dedup key = none ∧
      ∀ other ∈ s.calls, other.key = key → other.pc.isAnswering = false) :
    Inv key (s.insert c call now) := by
  have hjobs : ∀ {i : Nat} {job : Job}, (s.insert c call now).jobs[i]? = some job →
      s.jobs[i]? = some job ∨ (i = s.jobs.length ∧ ⟨call.key, .registered⟩ = job) :=
    fun hi => getElem?_concat.mp hi
  have hcalls : ∀ call' ∈ (s.insert c call now).calls,
      call' ∈ s.calls ∨ call' = { call with pc := .registered s.jobs.length } :=
    fun _ hcall' => mem_or_eq_of_mem_set hcall'
  -- before the insertion no job holds a slot that is free
  have hnone : call.key = key → ∀ i, ¬ s.Holds key i := by
    intro hkey i hi
    obtain ⟨e, he, -⟩ := h.holder i hi
    rw [(hfree hkey).1] at he
    cases he
  constructor
  · rintro i ⟨job, hi, hkey, hholds⟩
    rcases hjobs hi with hold | ⟨rfl, rfl⟩
    · have hne : key ≠ call.key := fun heq => hnone heq.symm i ⟨job, hold, hkey, hholds⟩
      obtain ⟨e, he, hei⟩ := h.holder i ⟨job, hold, hkey, hholds⟩
      exact ⟨e, (update_of_ne hne _ _).trans he, hei⟩
    · have hkey : call.key = key := hkey
      subst hkey
      exact ⟨⟨s.jobs.length, now⟩, update_self _ _ _, rfl⟩
  · intro call' hcall' hkey j hpc i hi
    rcases hcalls call' hcall' with hold | rfl
    · obtain ⟨job, hi, hjobkey, hholds⟩ := hi
      rcases hjobs hi with hi | ⟨-, rfl⟩
      · exact h.answer call' hold hkey j hpc i ⟨job, hi, hjobkey, hholds⟩
      · -- nobody is answering under the key when its slot is taken
        have hno := (hfree hjobkey).2 call' hold hkey
        rw [hpc] at hno
        cases hno
    · cases hpc
  · intro call' hcall' hkey
    rcases hcalls call' hcall' with hold | rfl
    · exact h.nonced call' hold hkey
    · exact h.nonced call (mem_of_getElem? hc) hkey
  · intro call' hcall' j hpc
    rcases hcalls call' hcall' with hold | rfl
    · obtain ⟨job, hj, hkey⟩ := h.registered call' hold j hpc
      exact ⟨job, (getElem?_append_left (List.getElem?_eq_some_iff.mp hj).1).trans hj, hkey⟩
    · cases hpc
      exact ⟨⟨call.key, .registered⟩, getElem?_concat_length, rfl⟩
  · intro job hjob
    rcases mem_append.mp hjob with hold | hnew
    · exact h.ended job hold
    · rw [mem_singleton.mp hnew]
      trivial

variable {a : Action} {s' : Sys}

theorem Inv.step (h : Inv key s) (hnonce : Nonced hash key a)
    (hfresh : FreshInsert key s a) (hstep : step hash s a = some s') : Inv key s' := by
  have hended : ∀ (j key' : Nat) (life life' : Lifecycle.Sys) {b : Lifecycle.Action},
      s.jobs[j]? = some ⟨key', .launched life⟩ → Lifecycle.step life b = some life' →
      life'.EndedTerminal := fun j key' life life' b hj hl =>
    Lifecycle.Sys.EndedTerminal.step (h.ended _ (mem_of_getElem? hj)) hl
  cases Step.of_step hash hstep with
  | start req clear =>
    refine h.start rfl fun hkey => ?_
    show (startKey hash req clear).2 = false
    rw [startKey_gated, hnonce hkey]
    rfl
  | hit c now call entry hc hpc he =>
    refine h.setPc hc (fun hkey j hj j' hj' => ?_) nofun
    obtain ⟨e, he', rfl⟩ := h.holder j' hj'
    rw [← hkey, he] at he'
    cases he'
    cases hj
    rfl
  | stale c now call hc hpc hgated =>
    have hne : call.key ≠ key := by
      intro hkey
      rw [h.nonced call (mem_of_getElem? hc) hkey] at hgated
      cases hgated
    exact (h.remove fun hkey => absurd hkey hne).setPc hc (fun _ _ hj => by cases hj) nofun
  | miss c now call hc hpc | reject c call hc hpc | reply c j call hc hpc =>
    exact h.setPc hc (fun _ _ hj => by cases hj) nofun
  | insert c now call hc hpc => exact h.insert hc (hfresh call hc)
  | spawnFails c j call key' hc hpc hj => exact h.setPhase hj .spawnFailed (fun _ => rfl) trivial
  | evictFailed c j call key' hc hpc hj =>
    have h' : Inv key ((s.setPhase j ⟨key', .spawnFailed⟩ .dropped).remove key') :=
      (h.setPhase hj .dropped (fun _ => rfl) trivial).remove
        fun hkey => h.free_of_setPhase hj hkey rfl rfl
    exact h'.setPc hc (fun _ _ hj => by cases hj) nofun
  | spawn c j call key' hc hpc hj => exact h.setPhase hj .spawned (fun _ => rfl) trivial
  | launch c j config startedAt call key' hc hpc hj =>
    have h' := h.setPhase hj (.launched (Lifecycle.start config startedAt)) (fun _ => rfl)
      fun hended => by cases hended
    refine h'.setPc hc (fun hkey i hi i' hi' => ?_) nofun
    obtain ⟨job, hjob, hjobkey⟩ := h.registered call (mem_of_getElem? hc) j hpc
    rw [hj, Option.some.injEq] at hjob
    subst hjob
    cases hi
    exact h.holds_unique ⟨_, hj, hjobkey.trans hkey, rfl⟩ (hi'.of_setPhase hj fun _ => rfl)
  | life j a key' life life' hj hl ha =>
    exact h.setPhase hj (.launched life') (Phase.holds_of_life hl) (hended j key' life life' hj hl)
  | evict j key' life life' hj hl =>
    obtain ⟨hbef, hafter⟩ := Lifecycle.released_of_evict hl
    refine (h.setPhase hj (.launched life') (Phase.holds_of_life hl)
      (hended j key' life life' hj hl)).remove fun hkey => ?_
    exact h.free_of_setPhase hj hkey (by simp [Phase.holds, hbef])
      (by simp [Phase.holds, hafter])

/-! ## What a step does to the calls and to the entries -/

theorem Step.calls_cases (h : Step hash s a s') :
    (∃ call : StartCall, call.pc = .called ∧ s'.calls = s.calls ++ [call]) ∨
      s'.calls = s.calls ∨
      ∃ c call pc, s.calls[c]? = some call ∧
        s'.calls = s.calls.set c { call with pc := pc } ∧
        ∀ id, pc = .returned (.ok id) → call.pc = .answering id ∧ s'.jobs = s.jobs := by
  cases h with
  | start req clear => exact .inl ⟨_, rfl, rfl⟩
  | hit c now call entry hc | miss c now call hc | reject c call hc =>
    exact .inr (.inr ⟨c, call, _, hc, rfl, nofun⟩)
  | stale c now call hc | insert c now call hc =>
    exact .inr (.inr ⟨c, call, _, hc, rfl, nofun⟩)
  | evictFailed c j call key' hc => exact .inr (.inr ⟨c, call, _, hc, rfl, nofun⟩)
  | launch c j config startedAt call key' hc =>
    exact .inr (.inr ⟨c, call, _, hc, rfl, nofun⟩)
  | reply c j call hc hpc =>
    refine .inr (.inr ⟨c, call, _, hc, rfl, fun id hid => ⟨?_, rfl⟩⟩)
    cases hid
    exact hpc
  | spawnFails | spawn | life | evict => exact .inr (.inl rfl)

theorem Step.answering_of_returned (h : Step hash s a s') {id : Nat}
    (hcall : s'.calls[i]? = some call) (hpc : call.pc = .returned (.ok id))
    (hnew : s.calls[i]? ≠ some call) :
    (∃ call0 ∈ s.calls, call0.key = call.key ∧ call0.pc = .answering id) ∧ s'.jobs = s.jobs := by
  rcases h.calls_cases with ⟨call1, hcalled, heq⟩ | heq | ⟨c, call1, pc, hc, heq, hret⟩
  · rw [heq] at hcall
    rcases getElem?_concat.mp hcall with hold | ⟨-, rfl⟩
    · exact absurd hold hnew
    · rw [hcalled] at hpc
      cases hpc
  · rw [heq] at hcall
    exact absurd hcall hnew
  · rw [heq] at hcall
    rcases set_cases hcall with ⟨-, rfl⟩ | ⟨-, hold⟩
    · obtain ⟨hans, hjobs⟩ := hret id hpc
      exact ⟨⟨call1, mem_of_getElem? hc, rfl, hans⟩, hjobs⟩
    · exact absurd hold hnew

theorem Inv.own_of_setPhase (h : Inv key s) {e : DedupEntry}
    (hj : s.jobs[j]? = some job) (phase : Phase) (hkey : job.key = key) (hbef : job.phase.holds)
    (hafter : phase.holds = false) (he : s.dedup key = some e) :
    s.Holds key e.job ∧ ¬ (s.setPhase j job phase).Holds key e.job := by
  obtain ⟨e', he', rfl⟩ := h.holder j ⟨job, hj, hkey, hbef⟩
  rw [he, Option.some.injEq] at he'
  subst he'
  exact ⟨⟨job, hj, hkey, hbef⟩, h.free_of_setPhase hj hkey hbef hafter _⟩

theorem Sys.eq_of_remove {key' : Nat} {e : DedupEntry} (he : s.dedup key = some e)
    (hgone : (s.remove key').dedup key ≠ some e) : key' = key := by
  by_contra hne
  exact hgone ((update_of_ne (Ne.symm hne) _ _).trans he)

theorem Inv.own (h : Inv key s) (hfresh : FreshInsert key s a)
    (hstep : Step hash s a s') (e : DedupEntry) (he : s.dedup key = some e)
    (hgone : s'.dedup key ≠ some e) : s.Holds key e.job ∧ ¬ s'.Holds key e.job := by
  cases hstep with
  | start | hit | miss | reject | spawnFails | spawn | launch | reply | life =>
    exact absurd he hgone
  | stale c now call hc hpc hgated =>
    have hkey : call.key = key := Sys.eq_of_remove he hgone
    rw [h.nonced call (mem_of_getElem? hc) hkey] at hgated
    cases hgated
  | insert c now call hc hpc =>
    by_cases hkey : call.key = key
    · rw [(hfresh call hc hkey).1] at he
      cases he
    · exact absurd ((update_of_ne (Ne.symm hkey) _ _).trans he) hgone
  | evictFailed c j call key' hc hpc hj =>
    exact h.own_of_setPhase hj .dropped (Sys.eq_of_remove he hgone) rfl rfl he
  | evict j key' life life' hj hl =>
    obtain ⟨hbef, hafter⟩ := Lifecycle.released_of_evict hl
    exact h.own_of_setPhase hj (.launched life') (Sys.eq_of_remove he hgone)
      (by simp [Phase.holds, hbef]) (by simp [Phase.holds, hafter]) he

theorem Inv.oneProcess (h : Inv key s) (hnonce : Nonced hash key a)
    (hfresh : FreshInsert key s a) (hstep : Dedup.step hash s a = some s') :
    OneProcess key s s' where
  single := fun j j' hj hj' =>
    have h' := h.step hnonce hfresh hstep
    h'.holds_unique (h'.holds_of_inFlight hj) (h'.holds_of_inFlight hj')
  answered := fun c id call hcall hpc hnew hkey j hj => by
    obtain ⟨⟨call0, hcall0, hkey0, hans⟩, hjobs⟩ :=
      (Step.of_step hash hstep).answering_of_returned hcall hpc hnew
    have hfly : s.InFlight key j := by
      unfold Sys.InFlight at hj
      rwa [hjobs] at hj
    exact h.answer call0 hcall0 (hkey0.trans hkey) id hans j (h.holds_of_inFlight hfly)
  own := h.own hfresh (Step.of_step hash hstep)

/-- **One process for each nonce.** In every schedule of starts, of the ends of their jobs and of
the stops in which entries of the key are written into free slots only. -/
theorem one_process_per_nonce (hash : DedupInput → Nat) (key : Nat) (as bs : List Action)
    (a : Action) (s s' : Sys)
    (hG : Transition.Meets (step hash) (fun s a => Nonced hash key a ∧ FreshInsert key s a) init
      (as ++ a :: bs))
    (hrun : Transition.run (step hash) init as = some s) (ha : step hash s a = some s') :
    OneProcess key s s' :=
  run_step (I := Inv key) (P := fun s _ s' => OneProcess key s s')
    (fun _ _ _ hI hG hs => hI.step hG.1 hG.2 hs)
    (fun _ _ _ hI hG hs => hI.oneProcess hG.1 hG.2 hs) (init_inv key) hG hrun ha

def nonceLength : DedupInput → Nat
  | .nonce nonce => nonce.length
  | .fallback _ argv _ _ _ => argv.length + 1000
  | .isolated key _ _ _ => key + 2000

def buildRequest : CommandStartRequest :=
  ⟨["make".toList], none, [], none, some "n-17".toList, none, none⟩

def retrySchedule : List Action :=
  [.start buildRequest false, .lookup 0 0, .insert 0 0, .start buildRequest false, .lookup 1 1,
    .spawn 0, .launch 0 Lifecycle.jobOne 2, .reply 1, .reply 0,
    .life 0 (.exit (.exited (some 0) none)), .life 0 .publish, .life 0 .guard, .life 0 (.finish 3),
    .life 0 .evict, .start buildRequest false, .lookup 2 4, .insert 2 5,
    .start buildRequest false, .spawn 2, .lookup 3 6]

theorem retries_share_process : ∃ s s',
    Transition.run (step nonceLength) init retrySchedule = some s ∧
      step nonceLength s (.reply 3) = some s' ∧
      (s'.calls[3]?).map StartCall.pc = some (.returned (.ok 1)) ∧
      s'.jobs.map (fun job => (job.key, job.phase.inFlight)) = [(4, false), (4, true)] ∧
      OneProcess 4 s s' := by
  have hrun : ∃ s ∈ run (step nonceLength) init retrySchedule,
      ∃ s' ∈ step nonceLength s (.reply 3),
        (s'.calls[3]?).map StartCall.pc = some (.returned (.ok 1)) ∧
        s'.jobs.map (fun job => (job.key, job.phase.inFlight)) = [(4, false), (4, true)] := by
    decide +kernel
  have hG : Transition.Meets (step nonceLength)
      (fun s a => Nonced nonceLength 4 a ∧ FreshInsert 4 s a) init
      (retrySchedule ++ .reply 3 :: []) := by
    decide +kernel
  obtain ⟨s, hs, s', hs', hpc, hjobs⟩ := hrun
  exact ⟨s, s', hs, hs', hpc, hjobs,
    one_process_per_nonce nonceLength 4 retrySchedule [] (.reply 3) s s' hG hs hs'⟩

def raceSchedule : List Action :=
  [.start buildRequest false, .start buildRequest false, .lookup 0 0, .lookup 1 0, .insert 0 1,
    .insert 1 1, .spawn 0]

/-- Both starts spawn a process. -/
theorem race_spawns_twice : ∃ s s', Transition.run (step nonceLength) init raceSchedule = some s ∧
      step nonceLength s (.spawn 1) = some s' ∧
      s'.InFlight 4 0 ∧ s'.InFlight 4 1 ∧ ¬ OneProcess 4 s s' := by
  have hrun : ∃ s ∈ run (step nonceLength) init raceSchedule,
      ∃ s' ∈ step nonceLength s (.spawn 1), ∃ job ∈ s'.jobs[0]?, ∃ job' ∈ s'.jobs[1]?,
        (job.key = 4 ∧ job.phase.inFlight = true) ∧
          job'.key = 4 ∧ job'.phase.inFlight = true := by
    decide +kernel
  obtain ⟨s, hs, s', hs', job, hjob, job', hjob', hfly, hfly'⟩ := hrun
  have h0 : s'.InFlight 4 0 := ⟨job, hjob, hfly⟩
  have h1 : s'.InFlight 4 1 := ⟨job', hjob', hfly'⟩
  exact ⟨s, s', hs, hs', h0, h1, fun hone => absurd (hone.single 0 1 h0 h1) (by decide)⟩

end Dedup

end TerminalCommander
