import Mathlib.Data.List.Infix
import Mathlib.Data.List.Pairwise

/-!
# Scanning a text for several patterns at once

A non-overlapping scan (`StandardScan`) reports, from where the last match ended, an occurrence
that ends no later than any other, and goes on from its end. An owner whose pattern occurs may go
unreported because another owner's match covers it: exactly when two owners have patterns, each
minimal among its owner's, whose occurrences overlap in some text (`Clash`).
-/

namespace PatternScan

open List Nat

variable {α ι : Type*}

/-! ## Occurrences -/

def OccursAt (p t : List α) (i : Nat) : Prop := ∀ n, n < p.length → t[i + n]? = p[n]?

instance [DecidableEq α] (p t : List α) (i : Nat) : Decidable (OccursAt p t i) :=
  inferInstanceAs (Decidable (∀ n, n < p.length → t[i + n]? = p[n]?))

variable {p : List α} {i : Nat}

theorem OccursAt.add_length_le {t : List α} (h : OccursAt p t i) (hp : p ≠ []) :
    i + p.length ≤ t.length := by
  have hpos : 0 < p.length := length_pos_iff.mpr hp
  have hsome : p[p.length - 1]? = some p[p.length - 1] := getElem?_eq_getElem (by omega)
  have hlast := (h (p.length - 1) (by omega)).trans hsome
  obtain ⟨hlt, -⟩ := List.getElem?_eq_some_iff.mp hlast
  omega

variable {q : List α} {j : Nat}

section

variable {t : List α} (h : OccursAt p t i)

include h

theorem OccursAt.trans (hq : OccursAt q p j) :
    OccursAt q t (i + j) := by
  intro n hn
  have hle := hq.add_length_le (length_pos_iff.mp (by omega))
  rw [Nat.add_assoc, h (j + n) (by omega), hq n hn]

theorem OccursAt.within (hq : OccursAt q t j)
    (hle : i ≤ j) (hend : j + q.length ≤ i + p.length) : OccursAt q p (j - i) := by
  intro n hn
  rw [← h (j - i + n) (by omega), ← hq n hn]
  congr 1
  omega

theorem OccursAt.isInfix : p <:+: t := by
  have hp : p = (t.drop i).take p.length := by
    apply ext_getElem?
    intro n
    rw [getElem?_take]
    split_ifs with hn
    · rw [getElem?_drop, h n hn]
    · exact getElem?_eq_none (not_lt.mp hn)
  rw [hp]
  exact (List.take_prefix _ _).isInfix.trans (drop_suffix _ _).isInfix

end

theorem exists_occursAt_iff {t : List α} : (∃ i, OccursAt p t i) ↔ p <:+: t := by
  constructor
  · rintro ⟨i, h⟩
    exact h.isInfix
  · rintro ⟨pre, post, rfl⟩
    refine ⟨pre.length, fun n hn => ?_⟩
    rw [append_assoc, getElem?_append_right (Nat.le_add_right _ _),
      Nat.add_sub_cancel_left, getElem?_append_left hn]

def window (t : List α) (i n : Nat) : List α := (t.drop i).take n

theorem window_length {t : List α} {n : Nat} (h : i + n ≤ t.length) :
    (window t i n).length = n := by
  rw [window, length_take, length_drop]
  omega

theorem window_isInfix (t : List α) (i n : Nat) : window t i n <:+: t :=
  (List.take_prefix _ _).isInfix.trans (drop_suffix _ _).isInfix

theorem occursAt_window {t : List α} {n : Nat} (h : i + n ≤ t.length) :
    OccursAt (window t i n) t i := by
  intro k hk
  rw [window_length h] at hk
  rw [window, getElem?_take, if_pos hk, getElem?_drop]

/-! ## Owners and their minimal patterns -/

variable {r s : ι}

section Owners

variable (ps : List (List α)) (owner : Nat → ι)

def Owned (r : ι) (p : List α) : Prop := ∃ k, ps[k]? = some p ∧ owner k = r

structure Minimal (r : ι) (p : List α) : Prop where
  owned : Owned ps owner r p
  minimal : ∀ q, Owned ps owner r q → q <:+: p → q = p

structure Clash (t : List α) (r s : ι) (p q : List α) (i j : Nat) : Prop where
  ne : r ≠ s
  left : Minimal ps owner r p
  right : Minimal ps owner s q
  leftAt : OccursAt p t i
  rightAt : OccursAt q t j
  left_lt : i < j + q.length
  right_lt : j < i + p.length

variable {ps owner}

theorem exists_minimal (h : Owned ps owner r p) : ∃ q, Minimal ps owner r q ∧ q <:+: p := by
  induction hn : p.length using Nat.strong_induction_on generalizing p with
  | _ n ih =>
    by_cases hmin : ∀ q, Owned ps owner r q → q <:+: p → q = p
    · exact ⟨p, ⟨h, hmin⟩, infix_rfl⟩
    · push Not at hmin
      obtain ⟨q, hq, hqp, hne⟩ := hmin
      have hlt : q.length < n := by
        have hle := hqp.length_le
        have hlen : q.length ≠ p.length := fun he => hne (hqp.eq_of_length he)
        omega
      obtain ⟨q', hq', hqq'⟩ := ih _ hlt hq rfl
      exact ⟨q', hq', hqq'.trans hqp⟩

theorem Clash.symm {t : List α} (h : Clash ps owner t r s p q i j) : Clash ps owner t s r q p j i :=
  ⟨h.ne.symm, h.right, h.left, h.rightAt, h.leftAt, h.right_lt, h.left_lt⟩

theorem Owned.mem (h : Owned ps owner r p) : p ∈ ps := by
  obtain ⟨k, hk, -⟩ := h
  exact mem_of_getElem? hk

end Owners

/-! ## The scan -/

structure Match where
  pattern : Nat
  start : Nat
  stop : Nat
  deriving DecidableEq, Repr

structure Candidate (ps : List (List α)) (t : List α) (start : Nat) (m : Match) : Prop where
  le_start : start ≤ m.start
  occurs : ∃ p, ps[m.pattern]? = some p ∧ OccursAt p t m.start ∧ m.stop = m.start + p.length

inductive StandardScan (ps : List (List α)) (t : List α) : Nat → List Match → Prop where
  | done {start : Nat} : (∀ m, ¬ Candidate ps t start m) → StandardScan ps t start []
  | next {start : Nat} {m : Match} {ms : List Match} : Candidate ps t start m →
      (∀ m', Candidate ps t start m' → m.stop ≤ m'.stop) → StandardScan ps t m.stop ms →
      StandardScan ps t start (m :: ms)

variable {ps : List (List α)} {owner : Nat → ι} {t : List α}

variable {start : Nat} {m : Match}

variable {ms : List Match}

theorem StandardScan.candidate (h : StandardScan ps t start ms) :
    ∀ m ∈ ms, Candidate ps t start m := by
  induction h with
  | done _ => intro m hm; cases hm
  | next hc _ _ ih =>
    intro m' hm'
    rcases mem_cons.mp hm' with rfl | hm'
    · exact hc
    · obtain ⟨hstart, hocc⟩ := ih m' hm'
      obtain ⟨p, -, -, hstop⟩ := hc.occurs
      exact ⟨by have := hc.le_start; omega, hocc⟩

theorem StandardScan.pairwise (h : StandardScan ps t start ms) :
    ms.Pairwise fun m m' => m.stop ≤ m'.start := by
  induction h with
  | done _ => exact List.Pairwise.nil
  | next _ _ hs ih => exact List.Pairwise.cons (fun m' hm' => (hs.candidate m' hm').le_start) ih

theorem StandardScan.disjoint (h : StandardScan ps t start ms)
    {m' : Match} (hm : m ∈ ms) (hm' : m' ∈ ms) (hne : m ≠ m') :
    m.stop ≤ m'.start ∨ m'.stop ≤ m.start := by
  have hsymm : Std.Symm fun m m' : Match => m.stop ≤ m'.start ∨ m'.stop ≤ m.start :=
    ⟨fun _ _ h => h.symm⟩
  have hpair : ms.Pairwise fun m m' => m.stop ≤ m'.start ∨ m'.stop ≤ m.start :=
    h.pairwise.imp Or.inl
  exact hpair.forall hm hm' hne

/-! ## Without a clash every owner is reported -/

section Reports

variable (hne : ∀ p ∈ ps, p ≠ [])
include hne

theorem Owned.length_pos (h : Owned ps owner r p) : 0 < p.length :=
  length_pos_iff.mpr (hne p h.mem)

variable (owner) in
theorem Candidate.exists_minimal_end (hc : Candidate ps t start m)
    (hfirst : ∀ m', Candidate ps t start m' → m.stop ≤ m'.stop) :
    ∃ q j, Minimal ps owner (owner m.pattern) q ∧ OccursAt q t j ∧ j + q.length = m.stop := by
  obtain ⟨w, hw, hocc, hstop⟩ := hc.occurs
  have howned : Owned ps owner (owner m.pattern) w := ⟨_, hw, rfl⟩
  obtain ⟨q, hq, hqw⟩ := exists_minimal howned
  obtain ⟨j, hj⟩ := exists_occursAt_iff.mpr hqw
  have hle := hj.add_length_le (hne q hq.owned.mem)
  have hqt := hocc.trans hj
  obtain ⟨k, hk, -⟩ := hq.owned
  have hend : m.stop ≤ m.start + j + q.length := hfirst ⟨k, m.start + j, m.start + j + q.length⟩
    ⟨le_trans hc.le_start (le_add_right _ _), q, hk, hqt, rfl⟩
  exact ⟨q, m.start + j, hq, hqt, by omega⟩

theorem StandardScan.reports (h : StandardScan ps t start ms)
    (hclash : ∀ r s p q i j, ¬ Clash ps owner t r s p q i j)
    (hp : Minimal ps owner r p) (hocc : OccursAt p t i) (hle : start ≤ i) :
    ∃ m ∈ ms, owner m.pattern = r := by
  induction h with
  | done hnone =>
    obtain ⟨k, hk, -⟩ := hp.owned
    exact absurd ⟨hle, p, hk, hocc, rfl⟩ (hnone ⟨k, i, i + p.length⟩)
  | @next start m ms hc hfirst _ ih =>
    obtain ⟨k, hk, -⟩ := hp.owned
    have hstop : m.stop ≤ i + p.length :=
      hfirst ⟨k, i, i + p.length⟩ ⟨hle, p, hk, hocc, rfl⟩
    by_cases hafter : m.stop ≤ i
    · obtain ⟨m', hm', hr⟩ := ih hafter
      exact ⟨m', mem_cons_of_mem m hm', hr⟩
    · -- the match ends inside the occurrence, with a minimal pattern of its own owner
      obtain ⟨q, j, hq, hqt, hend⟩ := hc.exists_minimal_end owner hne hfirst
      have hpos := hq.owned.length_pos hne
      by_cases hr : owner m.pattern = r
      · exact ⟨m, mem_cons_self, hr⟩
      · exact absurd ⟨Ne.symm hr, hp, hq, hocc, hqt, by omega, by omega⟩
          (hclash r (owner m.pattern) p q i j)

/-! ## With a clash some owner is not -/

theorem StandardScan.exists_disjoint (h : StandardScan ps t 0 ms)
    (hrs : r ≠ s) (hr : ∃ m ∈ ms, owner m.pattern = r) (hs : ∃ m ∈ ms, owner m.pattern = s) :
    ∃ p q i j, Minimal ps owner r p ∧ Minimal ps owner s q ∧ OccursAt p t i ∧ OccursAt q t j ∧
      (i + p.length ≤ j ∨ j + q.length ≤ i) := by
  have hpick : ∀ m ∈ ms, ∃ p i, Minimal ps owner (owner m.pattern) p ∧ OccursAt p t i ∧
      m.start ≤ i ∧ i + p.length ≤ m.stop := by
    intro m hm
    obtain ⟨w, hw, hocc, hstop⟩ := (h.candidate m hm).occurs
    have howned : Owned ps owner (owner m.pattern) w := ⟨_, hw, rfl⟩
    obtain ⟨q, hq, hqw⟩ := exists_minimal howned
    obtain ⟨j, hj⟩ := exists_occursAt_iff.mpr hqw
    have hle := hj.add_length_le (hne q hq.owned.mem)
    exact ⟨q, m.start + j, hq, hocc.trans hj, by omega, by omega⟩
  obtain ⟨m, hm, rfl⟩ := hr
  obtain ⟨m', hm', rfl⟩ := hs
  obtain ⟨p, i, hp, hpt, hpi, hpe⟩ := hpick m hm
  obtain ⟨q, j, hq, hqt, hqi, hqe⟩ := hpick m' hm'
  have hmm : m ≠ m' := fun he => hrs (by rw [he])
  refine ⟨p, q, i, j, hp, hq, hpt, hqt, ?_⟩
  rcases h.disjoint hm hm' hmm with hd | hd
  · exact .inl (by omega)
  · exact .inr (by omega)

omit hne in
theorem Minimal.length_eq (hp : Minimal ps owner r p)
    (hq : Minimal ps owner r q) (hpt : OccursAt p t i) (hqt : OccursAt q t j) (hle : i ≤ j)
    (hend : j + q.length ≤ i + p.length) : q.length = p.length :=
  congrArg _ (hp.minimal q hq.owned (hpt.within hqt hle hend).isInfix)

theorem Clash.descend
    (hc : Clash ps owner t r s p q 0 j) (hspan : t.length = max p.length (j + q.length))
    (hscan : StandardScan ps t 0 ms) (hr : ∃ m ∈ ms, owner m.pattern = r)
    (hs : ∃ m ∈ ms, owner m.pattern = s) : ∃ p' i', Clash ps owner t r s p' q i' j ∧
      max (i' + p'.length) (j + q.length) - min i' j < t.length := by
  obtain ⟨p', q', i', j', hp', hq', hpt', hqt', hdis⟩ := hscan.exists_disjoint hne hc.ne hr hs
  have hp'pos := hp'.owned.length_pos hne
  have hq'pos := hq'.owned.length_pos hne
  have hp'le := hpt'.add_length_le (hne p' hp'.owned.mem)
  have hq'le := hqt'.add_length_le (hne q' hq'.owned.mem)
  have hjlt := hc.right_lt
  by_contra hno
  push Not at hno
  by_cases hin : j + q.length ≤ p.length
  · -- the first pattern is the whole text, so its owner's match is
    have hlen := hc.left.length_eq hp' hc.leftAt hpt' (zero_le _) (by omega)
    omega
  by_cases hj : j = 0
  · -- the second pattern is
    have hlen := hc.right.length_eq hq' hc.rightAt hqt' (by omega) (by omega)
    omega
  -- a proper overlap: the first owner's match is the first pattern in its place
  have hfirst : i' = 0 ∧ p'.length = p.length := by
    by_cases hover : i' < j + q.length ∧ j < i' + p'.length
    · have hge := hno p' i' ⟨hc.ne, hp', hc.right, hpt', hc.rightAt, hover.1, hover.2⟩
      have hi' : i' = 0 := by omega
      subst hi'
      refine ⟨rfl, ?_⟩
      rcases le_total p'.length p.length with hle | hle
      · exact hc.left.length_eq hp' hc.leftAt hpt' (le_refl 0) (by omega)
      · exact (hp'.length_eq hc.left hpt' hc.leftAt (le_refl 0) (by omega)).symm
    · have hlen := hc.left.length_eq hp' hc.leftAt hpt' (zero_le _) (by omega)
      omega
  -- so the second owner's match lies behind it, strictly inside the second pattern
  have hlen := hc.right.length_eq hq' hc.rightAt hqt' (by omega) (by omega)
  omega

theorem not_clash_of_reports {Small : List α → Prop} (hsmall : ∀ t u, Small t → u <:+: t → Small u)
    (hrep : ∀ t, Small t → ∃ ms, StandardScan ps t 0 ms ∧
      ∀ r p i, Owned ps owner r p → OccursAt p t i → ∃ m ∈ ms, owner m.pattern = r) :
    ∀ (n : Nat) {t : List α} {r s : ι} {p q : List α} {i j : Nat}, Small t →
      max (i + p.length) (j + q.length) - min i j = n → ¬ Clash ps owner t r s p q i j := by
  -- by descent on the length of the stretch the two occurrences span
  intro n
  induction n using Nat.strong_induction_on with
  | _ n ih =>
    -- the two owners are interchangeable, so the first may be taken to begin first
    have hleft : ∀ {t : List α} {r s : ι} {p q : List α} {i j : Nat}, Small t → i ≤ j →
        max (i + p.length) (j + q.length) - min i j = n → ¬ Clash ps owner t r s p q i j := by
      intro t r s p q i j ht hij hspan hc
      have hple := hc.leftAt.add_length_le (hne p hc.left.owned.mem)
      have hqle := hc.rightAt.add_length_le (hne q hc.right.owned.mem)
      have hwin : i + n ≤ t.length := by omega
      have hocc := occursAt_window hwin
      have hlen := window_length hwin
      have hw : Small (window t i n) := hsmall t _ ht (window_isInfix t i n)
      have hpw := hocc.within hc.leftAt (Nat.le_refl i) (by omega)
      rw [Nat.sub_self] at hpw
      have hqw := hocc.within hc.rightAt hij (by omega)
      obtain ⟨ms, hscan, hreport⟩ := hrep _ hw
      have hc' : Clash ps owner (window t i n) r s p q 0 (j - i) :=
        ⟨hc.ne, hc.left, hc.right, hpw, hqw, by have := hc.right.owned.length_pos hne; omega,
          by have := hc.right_lt; omega⟩
      obtain ⟨p', i', hsmaller, hlt⟩ := hc'.descend hne (by omega) hscan
        (hreport r p 0 hc.left.owned hpw) (hreport s q (j - i) hc.right.owned hqw)
      exact ih _ (hlen ▸ hlt) hw rfl hsmaller
    intro t r s p q i j ht hspan hc
    rcases Nat.le_total i j with hij | hij
    · exact hleft ht hij hspan hc
    · exact hleft ht hij (by omega) hc.symm

end Reports

/-! ## An executable scan -/

def firstFrom {β : Type*} (f : Nat → Option β) : Nat → Nat → Option β
  | 0, _ => none
  | n + 1, i => match f i with
    | some b => some b
    | none => firstFrom f n (i + 1)

theorem firstFrom_eq_none {β : Type*} {f : Nat → Option β} :
    ∀ {n i : Nat}, firstFrom f n i = none → ∀ k, i ≤ k → k < i + n → f k = none := by
  intro n
  induction n with
  | zero => intro i _ k h1 h2; omega
  | succ n ih =>
    intro i h k h1 h2
    rw [firstFrom] at h
    rcases hf : f i with _ | b
    · rw [hf] at h
      rcases eq_or_lt_of_le h1 with rfl | hlt
      · exact hf
      · exact ih h k hlt (by omega)
    · rw [hf] at h
      cases h

theorem firstFrom_eq_some {β : Type*} {f : Nat → Option β} {b : β} :
    ∀ {n i : Nat}, firstFrom f n i = some b →
      ∃ k, i ≤ k ∧ k < i + n ∧ f k = some b ∧ ∀ j, i ≤ j → j < k → f j = none := by
  intro n
  induction n with
  | zero => intro i h; cases h
  | succ n ih =>
    intro i h
    rw [firstFrom] at h
    rcases hf : f i with _ | c
    · rw [hf] at h
      obtain ⟨k, h1, h2, hk, hbef⟩ := ih h
      refine ⟨k, by omega, by omega, hk, fun j hj hjk => ?_⟩
      rcases eq_or_lt_of_le hj with rfl | hlt
      · exact hf
      · exact hbef j hlt hjk
    · rw [hf] at h
      cases h
      exact ⟨i, le_refl i, by omega, hf, fun j hj hji => by omega⟩

section Executable

variable [DecidableEq α]

def matchAt (ps : List (List α)) (t : List α) (stop start k : Nat) : Option Match :=
  match ps[k]? with
  | none => none
  | some p =>
    if OccursAt p t start ∧ stop = start + p.length then some ⟨k, start, stop⟩ else none

def endingAt (ps : List (List α)) (t : List α) (start stop : Nat) : Option Match :=
  firstFrom (fun i => firstFrom (matchAt ps t stop i) ps.length 0) (stop + 1 - start) start

def nextMatch (ps : List (List α)) (t : List α) (start : Nat) : Option Match :=
  firstFrom (endingAt ps t start) (t.length + 1) 0

def scanFrom (ps : List (List α)) (t : List α) : Nat → Nat → List Match
  | 0, _ => []
  | n + 1, start => match nextMatch ps t start with
    | none => []
    | some m => m :: scanFrom ps t n m.stop

def scan (ps : List (List α)) (t : List α) : List Match := scanFrom ps t (t.length + 1) 0

theorem matchAt_eq_some {stop k : Nat} : matchAt ps t stop start k = some m ↔
      m = ⟨k, start, stop⟩ ∧ ∃ p, ps[k]? = some p ∧ OccursAt p t start ∧
        stop = start + p.length := by
  unfold matchAt
  rcases ps[k]? with _ | p
  · simp
  · simp only [Option.some.injEq, exists_eq_left']
    split_ifs with h
    · simp only [Option.some.injEq, h, and_self, and_true, eq_comm]
    · simp only [h, and_false]

theorem endingAt_candidate {stop : Nat} (h : endingAt ps t start stop = some m) :
    Candidate ps t start m ∧ m.stop = stop := by
  obtain ⟨i, hi, -, hk, -⟩ := firstFrom_eq_some h
  obtain ⟨k, -, -, hm, -⟩ := firstFrom_eq_some hk
  obtain ⟨rfl, p, hp, hocc, hstop⟩ := matchAt_eq_some.mp hm
  exact ⟨⟨hi, p, hp, hocc, hstop⟩, rfl⟩

theorem endingAt_of_candidate (h : Candidate ps t start m) : endingAt ps t start m.stop ≠ none := by
  intro hnone
  obtain ⟨p, hp, hocc, hstop⟩ := h.occurs
  have hle := h.le_start
  have hi := firstFrom_eq_none hnone m.start hle (by omega)
  have hk := firstFrom_eq_none hi m.pattern (zero_le _)
    (by have := (List.getElem?_eq_some_iff.mp hp).1; omega)
  have hm := matchAt_eq_some.mpr ⟨rfl, p, hp, hocc, hstop⟩
  rw [hk] at hm
  cases hm

theorem nextMatch_eq_some (h : nextMatch ps t start = some m) :
    Candidate ps t start m ∧ ∀ m', Candidate ps t start m' → m.stop ≤ m'.stop := by
  obtain ⟨stop, -, -, hstop, hbef⟩ := firstFrom_eq_some h
  obtain ⟨hc, rfl⟩ := endingAt_candidate hstop
  refine ⟨hc, fun m' hm' => ?_⟩
  by_contra hlt
  exact endingAt_of_candidate hm' (hbef m'.stop (zero_le _) (by omega))

variable (hne : ∀ p ∈ ps, p ≠ [])
include hne

omit [DecidableEq α] in
theorem Candidate.bounds (h : Candidate ps t start m) : start < m.stop ∧ m.stop ≤ t.length := by
  obtain ⟨p, hp, hocc, hstop⟩ := h.occurs
  have hmem := hne p (mem_of_getElem? hp)
  have hpos := length_pos_iff.mpr hmem
  have hend := hocc.add_length_le hmem
  have hle := h.le_start
  omega

theorem nextMatch_eq_none (h : nextMatch ps t start = none) (m : Match) :
    ¬ Candidate ps t start m := by
  intro hc
  have hb := hc.bounds hne
  exact endingAt_of_candidate hc (firstFrom_eq_none h m.stop (zero_le _) (by omega))

theorem scanFrom_standard : ∀ (n start : Nat), t.length < start + n →
    StandardScan ps t start (scanFrom ps t n start) := by
  intro n
  induction n with
  | zero =>
    intro start hlen
    refine .done fun m hm => ?_
    have hb := hm.bounds hne
    omega
  | succ n ih =>
    intro start hlen
    rw [scanFrom]
    rcases hm : nextMatch ps t start with _ | m
    · exact .done (nextMatch_eq_none hne hm)
    · obtain ⟨hc, hfirst⟩ := nextMatch_eq_some hm
      have hb := hc.bounds hne
      exact .next hc hfirst (ih m.stop (by omega))

theorem scan_standard : StandardScan ps t 0 (scan ps t) :=
  scanFrom_standard hne (t.length + 1) 0 (by omega)

end Executable

end PatternScan
