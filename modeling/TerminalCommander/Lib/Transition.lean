import Mathlib.Data.List.Basic

/-!
# Schedules of a transition system

A system is a partial step function `step : σ → α → Option σ`; an action that is not enabled has
no successor. A schedule is a list of actions. The two rules used throughout: an invariant that
every guarded step keeps holds after every guarded schedule (`run_invariant`), and what every
guarded step from an invariant state satisfies is satisfied by every step of a guarded schedule
(`run_step`).
-/

namespace Transition

open Option

variable {σ α : Type*}

def run (step : σ → α → Option σ) : σ → List α → Option σ
  | s, [] => some s
  | s, a :: as => (step s a).bind fun s' => run step s' as

def Meets (step : σ → α → Option σ) (G : σ → α → Prop) : σ → List α → Prop
  | _, [] => True
  | s, a :: as => G s a ∧ ∀ s', step s a = some s' → Meets step G s' as

variable {step : σ → α → Option σ} {G : σ → α → Prop} {I : σ → Prop}

@[simp] theorem run_nil (s : σ) : run step s [] = some s := rfl

variable {a : α} {as : List α}

theorem run_cons_eq_some {s t : σ} :
    run step s (a :: as) = some t ↔ ∃ s', step s a = some s' ∧ run step s' as = some t := by
  rw [run, bind_eq_some_iff]

instance Meets.decidable [∀ s a, Decidable (G s a)] :
    ∀ (s : σ) (as : List α), Decidable (Meets step G s as)
  | _, [] => isTrue trivial
  | s, a :: as =>
    have : Decidable (∀ s', step s a = some s' → Meets step G s' as) :=
      match step s a with
      | none => isTrue nofun
      | some s' =>
        match Meets.decidable s' as with
        | isTrue hm => isTrue fun _ h' => Option.some.inj h' ▸ hm
        | isFalse hm => isFalse fun hall => hm (hall s' rfl)
    inferInstanceAs (Decidable (_ ∧ _))

theorem run_invariant (hstep : ∀ s a s', I s → G s a → step s a = some s' → I s') :
    ∀ {as : List α} {s t : σ}, I s → Meets step G s as → run step s as = some t → I t := by
  intro as
  induction as with
  | nil =>
    intro s t hI _ h
    rw [run_nil, some.injEq] at h
    exact h ▸ hI
  | cons a as ih =>
    intro s t hI hG h
    obtain ⟨s', h1, h⟩ := run_cons_eq_some.mp h
    exact ih (hstep s a s' hI hG.1 h1) (hG.2 s' h1) h

theorem meets_true (s : σ) (as : List α) : Meets step (fun _ _ => True) s as := by
  induction as generalizing s with
  | nil => trivial
  | cons a as ih => exact ⟨trivial, fun s' _ => ih s'⟩

theorem meets_of_mem {P : α → Prop} : ∀ {s : σ} {as : List α}, (∀ a ∈ as, P a) →
    Meets step (fun _ a => P a) s as
  | _, [], _ => trivial
  | _, a :: _, h =>
    ⟨h a List.mem_cons_self, fun _ _ => meets_of_mem fun b hb => h b (List.mem_cons_of_mem a hb)⟩

theorem Meets.of_append {bs : List α} : ∀ {s t : σ},
    Meets step G s (as ++ a :: bs) → run step s as = some t → Meets step G s as ∧ G t a := by
  induction as with
  | nil =>
    intro s t hG h
    rw [run_nil, some.injEq] at h
    exact ⟨trivial, h ▸ hG.1⟩
  | cons b as ih =>
    intro s t hG h
    obtain ⟨s', h1, h⟩ := run_cons_eq_some.mp h
    refine ⟨⟨hG.1, fun s'' h2 => ?_⟩, (ih (hG.2 s' h1) h).2⟩
    rw [h1, some.injEq] at h2
    exact h2 ▸ (ih (hG.2 s' h1) h).1

theorem run_step {P : σ → α → σ → Prop} (hstep : ∀ s a s', I s → G s a → step s a = some s' → I s')
    (hP : ∀ s a s', I s → G s a → step s a = some s' → P s a s')
    {bs : List α} {s t t' : σ} (hI : I s) (hG : Meets step G s (as ++ a :: bs))
    (hrun : run step s as = some t) (ha : step t a = some t') : P t a t' := by
  obtain ⟨hpre, hlast⟩ := hG.of_append hrun
  exact hP t a t' (run_invariant hstep hI hpre hrun) hlast ha

theorem Meets.imp {G' : σ → α → Prop} (h : ∀ s a, G s a → G' s a) :
    ∀ {as : List α} {s : σ}, Meets step G s as → Meets step G' s as := by
  intro as
  induction as with
  | nil => exact fun _ => trivial
  | cons a as ih => exact fun hG => ⟨h _ a hG.1, fun s' hs' => ih (hG.2 s' hs')⟩

end Transition
