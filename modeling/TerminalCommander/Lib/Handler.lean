import Mathlib.Data.List.Basic

/-!
# Programs on a state that may return early

A request handler changes a state step by step and returns early when a step fails; what it has
changed so far stays changed. `Handler` is the monad of such programs. `Spec P m Q E`: from a state
with `P`, a returning run of `m` ends with `Q`, and one that stops early ends with `E`. An
invariant of a handler that may stop anywhere is a `Spec I m (fun _ => I) I`.
-/

def Handler (ε σ α : Type) : Type := σ → Except ε α × σ

namespace Handler

variable {ε σ α β : Type}

instance : Monad (Handler ε σ) where
  pure a := fun s => (.ok a, s)
  bind m f := fun s =>
    match m s with
    | (.ok a, s') => f a s'
    | (.error e, s') => (.error e, s')

def fail (e : ε) : Handler ε σ α := fun s => (.error e, s)

def get : Handler ε σ σ := fun s => (.ok s, s)

def modify (f : σ → σ) : Handler ε σ Unit := fun s => (.ok (), f s)

def ofExcept : Except ε α → Handler ε σ α
  | .ok a => pure a
  | .error e => fail e

def attempt (m : Handler ε σ α) : Handler ε σ (Except ε α) := fun s => (.ok (m s).1, (m s).2)

def forEach (body : β → Handler ε σ Unit) : List β → Handler ε σ Unit
  | [] => pure ()
  | b :: bs => do
    body b
    forEach body bs

def mapEach (body : β → Handler ε σ α) : List β → Handler ε σ (List α)
  | [] => pure []
  | b :: bs => do
    let a ← body b
    let as ← mapEach body bs
    pure (a :: as)

/-! ## Runs -/

section

variable {m : Handler ε σ α} {f : α → Handler ε σ β}

theorem bind_of_ok {s s' : σ} {a : α} (h : m s = (.ok a, s')) : (m >>= f) s = f a s' := by
  show (match m s with
    | (.ok a, s') => f a s'
    | (.error e, s') => (.error e, s')) = _
  rw [h]

theorem bind_of_error {s s' : σ} {e : ε}
    (h : m s = (.error e, s')) : (m >>= f) s = (.error e, s') := by
  show (match m s with
    | (.ok a, s') => f a s'
    | (.error e, s') => (.error e, s')) = _
  rw [h]

theorem bind_state (hf : ∀ a s, (f a s).2 = s) (s : σ) : ((m >>= f) s).2 = (m s).2 := by
  rcases hm : m s with ⟨e | a, t⟩
  · rw [bind_of_error hm]
  · rw [bind_of_ok hm]
    exact hf a t

theorem bind_eq_ok {s s' : σ} {b : β}
    (h : (m >>= f) s = (.ok b, s')) : ∃ a t, m s = (.ok a, t) ∧ f a t = (.ok b, s') := by
  rcases hm : m s with ⟨e | a, t⟩
  · rw [bind_of_error hm] at h
    cases h
  · rw [bind_of_ok hm] at h
    exact ⟨a, t, rfl, h⟩

end

theorem ofExcept_eq_ok {r : Except ε α} {s s' : σ} {a : α}
    (h : (ofExcept r : Handler ε σ α) s = (.ok a, s')) : r = .ok a ∧ s' = s := by
  rcases r with e | a'
  · cases h
  · cases h
    exact ⟨rfl, rfl⟩

/-! ## Specifications -/

def Spec (P : σ → Prop) (m : Handler ε σ α) (Q : α → σ → Prop) (E : σ → Prop) : Prop :=
  ∀ s, P s → match m s with
    | (.ok a, s') => Q a s'
    | (.error _, s') => E s'

variable {P : σ → Prop} {Q : α → σ → Prop} {R : β → σ → Prop} {E : σ → Prop}

theorem spec_pure {a : α} (h : ∀ s, P s → Q a s) : Spec P (pure a : Handler ε σ α) Q E := h

theorem spec_fail {e : ε} (h : ∀ s, P s → E s) : Spec P (fail e : Handler ε σ α) Q E := h

theorem spec_bind {m : Handler ε σ α} {f : α → Handler ε σ β} (hm : Spec P m Q E)
    (hf : ∀ a, Spec (Q a) (f a) R E) : Spec P (m >>= f) R E := by
  intro s hs
  have h := hm s hs
  rcases hrun : m s with ⟨_ | a, s'⟩
  · rw [hrun] at h
    rw [bind_of_error hrun]
    exact h
  · rw [hrun] at h
    rw [bind_of_ok hrun]
    exact hf a s' h

theorem spec_ite {c : Prop} [Decidable c] {m n : Handler ε σ α} (hm : c → Spec P m Q E)
    (hn : ¬c → Spec P n Q E) : Spec P (if c then m else n) Q E := by
  by_cases h : c
  · rw [if_pos h]
    exact hm h
  · rw [if_neg h]
    exact hn h

theorem spec_ofExcept {r : Except ε α} (hok : ∀ a, r = .ok a → ∀ s, P s → Q a s)
    (herr : ∀ s, P s → E s) : Spec P (ofExcept r : Handler ε σ α) Q E := by
  rcases r with e | a
  · exact spec_fail herr
  · exact spec_pure (hok a rfl)

theorem spec_mapEach {body : β → Handler ε σ α} {bs : List β}
    (h : ∀ b ∈ bs, Spec P (body b) (fun _ => P) P) :
    Spec P (mapEach body bs) (fun _ => P) P := by
  induction bs with
  | nil => exact spec_pure fun _ hs => hs
  | cons b bs ih =>
    refine spec_bind (h b List.mem_cons_self) fun a => ?_
    refine spec_bind (ih fun b' hb' => h b' (List.mem_cons_of_mem b hb')) fun as => ?_
    exact spec_pure fun _ hs => hs

theorem Spec.state {m : Handler ε σ α} (h : Spec P m (fun _ => P) P) {s : σ} (hs : P s) :
    P (m s).2 := by
  have hrun := h s hs
  rcases hm : m s with ⟨_ | a, s'⟩
  · rw [hm] at hrun
    exact hrun
  · rw [hm] at hrun
    exact hrun

theorem spec_attempt {m : Handler ε σ α} (h : Spec P m (fun _ => P) P) :
    Spec P (attempt m) (fun _ => P) P := fun _ hs => h.state hs

end Handler
