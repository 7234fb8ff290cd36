import Mathlib.Data.List.Nodup

/-!
# A fair mutex

A mutex that is handed over in the order in which it was asked for: a release goes to the first
waiter, so that an attempt without waiting fails as long as anybody holds the mutex or waits for it.
`Owned` is the invariant that a system of parties keeps: their states agree with the mutex on who
has it and who waits. Its rules say what a party may do to its own state and to the mutex.
-/

structure FairMutex (ι : Type*) where
  holder : Option ι
  queue : List ι
  deriving DecidableEq

namespace FairMutex

open List Option

variable {ι : Type*} {m : FairMutex ι} {p : ι}

def free : FairMutex ι := ⟨none, []⟩

def lock (m : FairMutex ι) (p : ι) : FairMutex ι :=
  match m.holder with
  | none => { m with holder := some p }
  | some _ => { m with queue := m.queue ++ [p] }

def tryLock (m : FairMutex ι) (p : ι) : Option (FairMutex ι) :=
  match m.holder with
  | none => some { m with holder := some p }
  | some _ => none

def unlock (m : FairMutex ι) : FairMutex ι :=
  match m.queue with
  | [] => ⟨none, []⟩
  | p :: queue => ⟨some p, queue⟩

def members (m : FairMutex ι) : List ι := m.holder.toList ++ m.queue

/-! ## Parties -/

structure Roles (ι : Type*) where
  has : ι → Prop
  may : ι → Prop
  waits : ι → Prop

def Roles.ExceptFor (R : Roles ι) (p : ι) (R' : Roles ι) : Prop :=
  ∀ q, q ≠ p → (R'.has q → R.has q) ∧ (R.may q → R'.may q) ∧ (R.waits q → R'.waits q)

structure Owned (m : FairMutex ι) (R : Roles ι) : Prop where
  nodup : m.members.Nodup
  has : ∀ p, R.has p → m.holder = some p
  holder : ∀ p, m.holder = some p → R.may p
  queue : ∀ p ∈ m.queue, R.waits p

variable {R R' : Roles ι}

theorem owned_free (h : ∀ p, ¬R.has p) : Owned free R :=
  ⟨nodup_nil, fun p hp => absurd hp (h p), nofun, fun _ hp => (not_mem_nil hp).elim⟩

theorem tryLock_eq_none (h : m.tryLock p = none) : ∃ q, m.holder = some q := by
  unfold tryLock at h
  split at h
  · cases h
  · next q hq => exact ⟨q, hq⟩

theorem mem_members_of_holder (h : m.holder = some p) : p ∈ m.members := by
  unfold members
  rw [h]
  exact mem_append_left _ mem_cons_self

theorem mem_members_of_queue (h : p ∈ m.queue) : p ∈ m.members := mem_append_right _ h

theorem Owned.notMem_queue (h : m.Owned R) (hp : m.holder = some p) : p ∉ m.queue := by
  intro hmem
  have hnodup := h.nodup
  unfold members at hnodup
  rw [hp] at hnodup
  exact (nodup_cons.mp hnodup).1 hmem

theorem Owned.notMem_members (h : m.Owned R) (hmay : ¬R.may p) (hwaits : ¬R.waits p) :
    p ∉ m.members := by
  intro hmem
  rcases mem_append.mp hmem with hp | hp
  · exact hmay (h.holder p (mem_toList.mp hp))
  · exact hwaits (h.queue p hp)

/-! ## Rules -/

theorem Owned.keep (h : m.Owned R) (hR : R.ExceptFor p R') (hhas : R'.has p → m.holder = some p)
    (hholder : m.holder = some p → R'.may p) (hqueue : p ∈ m.queue → R'.waits p) : m.Owned R' := by
  refine ⟨h.nodup, fun q hq => ?_, fun q hq => ?_, fun q hq => ?_⟩
  · by_cases hqp : q = p
    · subst hqp
      exact hhas hq
    · exact h.has q ((hR q hqp).1 hq)
  · by_cases hqp : q = p
    · subst hqp
      exact hholder hq
    · exact (hR q hqp).2.1 (h.holder q hq)
  · by_cases hqp : q = p
    · subst hqp
      exact hqueue hq
    · exact (hR q hqp).2.2 (h.queue q hq)

theorem Owned.stranger (h : m.Owned R) (hp : p ∉ m.members) (hR : R.ExceptFor p R')
    (hhas : ¬R'.has p) : m.Owned R' :=
  h.keep hR (fun hp' => absurd hp' hhas)
    (fun hp' => absurd (mem_members_of_holder hp') hp)
    (fun hp' => absurd (mem_members_of_queue hp') hp)

theorem Owned.lock (h : m.Owned R) (hp : p ∉ m.members) (hR : R.ExceptFor p R') (hhas : ¬R'.has p)
    (hmay : R'.may p) (hwaits : R'.waits p) : (m.lock p).Owned R' := by
  have hkept := h.stranger hp hR hhas
  have hnodup := h.nodup
  unfold FairMutex.lock
  split
  · next hfree =>
    refine ⟨?_, fun q hq => ?_, fun q hq => some.inj hq ▸ hmay, hkept.queue⟩
    · unfold members at hnodup hp ⊢
      rw [hfree] at hnodup hp
      exact nodup_cons.mpr ⟨hp, hnodup⟩
    · cases hfree.symm.trans (hkept.has q hq)
  · next q hholder =>
    refine ⟨?_, hkept.has, hkept.holder, fun r hr => ?_⟩
    · unfold members at hnodup hp ⊢
      dsimp only
      rw [← append_assoc]
      exact hnodup.append (nodup_singleton p) (disjoint_singleton.mpr hp)
    · rcases mem_append.mp hr with hr | hr
      · exact hkept.queue r hr
      · rw [mem_singleton.mp hr]
        exact hwaits

theorem Owned.tryLock {m' : FairMutex ι} (h : m.Owned R) (htry : m.tryLock p = some m')
    (hp : p ∉ m.members) (hR : R.ExceptFor p R') (hmay : R'.may p) : m'.Owned R' := by
  have hnodup := h.nodup
  unfold FairMutex.tryLock at htry
  split at htry
  · next hfree =>
    cases htry
    refine ⟨?_, fun q hq => ?_, fun q hq => some.inj hq ▸ hmay, fun q hq => ?_⟩
    · unfold members at hnodup hp ⊢
      rw [hfree] at hnodup hp
      exact nodup_cons.mpr ⟨hp, hnodup⟩
    · by_cases hqp : q = p
      · rw [hqp]
      · cases hfree.symm.trans (h.has q ((hR q hqp).1 hq))
    · have hqp : q ≠ p := fun heq => hp (heq ▸ mem_members_of_queue hq)
      exact (hR q hqp).2.2 (h.queue q hq)
  · cases htry

theorem Owned.unlock (h : m.Owned R) (hp : m.holder = some p) (hR : R.ExceptFor p R')
    (hhas : ¬R'.has p) (hgrant : ∀ q, R'.waits q → R'.may q) : m.unlock.Owned R' := by
  have hnobody : ∀ q, ¬R'.has q := by
    intro q hq
    by_cases hqp : q = p
    · exact hhas (hqp ▸ hq)
    · exact hqp (some.inj ((h.has q ((hR q hqp).1 hq)).symm.trans hp))
  have hqueue : ∀ q ∈ m.queue, R'.waits q := fun q hq =>
    (hR q fun heq => h.notMem_queue hp (heq ▸ hq)).2.2 (h.queue q hq)
  have hnodup : m.queue.Nodup := (nodup_append.mp h.nodup).2.1
  unfold FairMutex.unlock
  split
  · exact owned_free hnobody
  · next q queue hq =>
    rw [hq] at hnodup hqueue
    exact ⟨hnodup, fun r hr => absurd hr (hnobody r),
      fun r hr => hgrant r (some.inj hr ▸ hqueue q mem_cons_self),
      fun r hr => hqueue r (mem_cons_of_mem q hr)⟩

end FairMutex
