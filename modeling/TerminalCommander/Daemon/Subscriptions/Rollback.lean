import TerminalCommander.Daemon.Subscriptions.Pull

/-!
# Stale copies

A pull writes its whole copy of the offsets back, however old the copy is. Against the writes
since its snapshot this is harmless as long as nobody writes a bucket of the copy of a pull in
flight to anything it has not reached itself: `Undisturbed` says so step by step, and then no
commit undoes what another pull or a seek has written since (`commit_keeps_later_writes`).
-/

namespace TerminalCommander

open List Transition

variable {scope : Scope} {r : DrainResult}

theorem drainFair_writes {m : BucketManager} (hm : m.Ok) {offsets : Offsets}
    {predicate : Predicate} {cap : Nat} {clock : Nat → Time}
    (h : drainFair m scope offsets predicate cap clock = .ok r) {id : BucketId}
    (hid : (r.offsets id).isSome) :
    (offsets id).isSome ∨ id ∈ scope.buckets.map ScopedBucket.bucketId := by
  refine (drainFair_induction (I := fun s => ∀ id, (s.offsets id).isSome →
    (offsets id).isSome ∨ id ∈ scope.buckets.map ScopedBucket.bucketId) hm
    (fun _ hid => .inl hid) ?_ (fun _ _ _ hI => hI) h).2 id hid
  intro shares i b inner s hb _ _ hI id hid
  by_cases heq : id = b.bucketId
  · exact .inr (List.mem_map.mpr ⟨b, mem_of_getElem? hb, heq.symm⟩)
  · rw [((drainCtx scope predicate cap clock shares).visited_of_ne _ s heq).2.1] at hid
    exact hI id hid

namespace Pulls

/-! ## Copies -/

def PullPc.mayWrite : PullPc → BucketId → Bool
  | .snapped scope _, id =>
    (scope.offsets id).isSome || decide (id ∈ scope.buckets.map ScopedBucket.bucketId)
  | .drained _ _ r _, id => (r.offsets id).isSome
  | _, _ => false

def PullPc.position : PullPc → BucketId → Nat
  | .snapped scope _, id => scope.offsets.pos id
  | .drained _ _ r _, id => r.offsets.pos id
  | _, _ => 0

def PullPc.since (log : List Write) : PullPc → List Write
  | .snapped _ mark => log.drop mark
  | .drained _ mark _ _ => log.drop mark
  | _ => []

def Write.committed (i : Nat) (id : BucketId) : Write → Option Nat
  | .commit j _ written _ _ _ => if j = i then none else written id
  | .seek _ _ => none

def Write.sought (id : BucketId) : Write → Bool
  | .commit .. => false
  | .seek bucket _ => decide (bucket = id)

def KeepsLaterWrites (s s' : Sys) (i : Nat) (since : List Write) : Prop :=
  ∀ w ∈ since, ∀ id,
    (∀ v ∈ w.committed i id, v ≤ s'.sub.offsets.pos id ∨ s'.sub.offsets id = s.sub.offsets id) ∧
    (w.sought id = true → s'.sub.offsets id = s.sub.offsets id)

/-! ## Undisturbed runs -/

def Undisturbed (s : Sys) : Action → Prop
  | .seekWrite k => ∀ bucket resp source, s.seeks[k]? = some (.read bucket resp source) →
      s.sub.routes bucket source = true → ∀ t ∈ s.pulls, t.pc.mayWrite bucket = false
  | .commit j => ∀ t scope mark r scan, s.pulls[j]? = some t → t.pc = .drained scope mark r scan →
      ∀ (i : Nat) (t' : PullTask), i ≠ j → s.pulls[i]? = some t' →
      ∀ id v, r.offsets id = some v → t'.pc.mayWrite id = true → v ≤ t'.pc.position id
  | _ => True

structure Ahead (log : List Write) (i : Nat) (pc : PullPc) : Prop where
  committed : ∀ w ∈ pc.since log, ∀ id, pc.mayWrite id = true → ∀ v ∈ w.committed i id,
    v ≤ pc.position id
  sought : ∀ w ∈ pc.since log, ∀ id, w.sought id = true → pc.mayWrite id = false

structure AheadInv (s : Sys) : Prop where
  ok : s.buckets.Ok
  ahead : ∀ (i : Nat) (t : PullTask), s.pulls[i]? = some t → Ahead s.log i t.pc

variable {log : List Write} {i : Nat} {pc : PullPc}

theorem Ahead.of_nil (h : pc.since log = []) : Ahead log i pc := by
  constructor <;>
  · intro w hw
    rw [h] at hw
    cases hw

theorem Ahead.concat (h : Ahead log i pc) {w : Write}
    (hcom : ∀ id, pc.mayWrite id → ∀ v ∈ w.committed i id, v ≤ pc.position id)
    (hsought : ∀ id, w.sought id → pc.mayWrite id = false) : Ahead (log ++ [w]) i pc := by
  have hsince : ∀ w' ∈ pc.since (log ++ [w]), w' ∈ pc.since log ∨ w' = w := by
    intro w' hw'
    have hdrop : ∀ mark, w' ∈ (log ++ [w]).drop mark → w' ∈ log.drop mark ∨ w' = w := by
      intro mark hmem
      rw [drop_append] at hmem
      rcases mem_append.mp hmem with hmem | hmem
      · exact .inl hmem
      · exact .inr (mem_singleton.mp (mem_of_mem_drop hmem))
    cases pc with
    | snapped scope mark => exact hdrop mark hw'
    | drained scope mark r scan => exact hdrop mark hw'
    | _ => cases hw'
  constructor
  · intro w' hw' id hmay v hv
    rcases hsince w' hw' with hold | rfl
    · exact h.committed w' hold id hmay v hv
    · exact hcom id hmay v hv
  · intro w' hw' id hseek
    rcases hsince w' hw' with hold | rfl
    · exact h.sought w' hold id hseek
    · exact hsought id hseek

theorem Ahead.drain {mark max : Nat} {m : BucketManager}
    (hm : m.Ok) {predicate : Predicate} {clock : Nat → Time}
    (hr : scanDrain m predicate (scope.retain m) max clock = .ok r)
    (h : Ahead log i (.snapped scope mark)) : Ahead log i (.drained (scope.retain m) mark r m) := by
  have hmay : ∀ id, (r.offsets id).isSome →
      (PullPc.snapped scope mark).mayWrite id := by
    intro id hid
    unfold PullPc.mayWrite
    rw [Bool.or_eq_true, decide_eq_true_eq]
    rcases drainFair_writes hm hr hid with htracked | hscope
    · exact .inl htracked
    · obtain ⟨b, hb, rfl⟩ := List.mem_map.mp hscope
      exact .inr (List.mem_map_of_mem (List.mem_filter.mp hb).1)
  have hpos : ∀ id, scope.offsets.pos id ≤ r.offsets.pos id := by
    intro id
    have hinv := drainFair_inv hm hr
    rcases hb : m.inner id with _ | b
    · exact (hinv.absent id hb).2.1.ge
    · obtain ⟨_, _, hd⟩ := hinv.present id b hb
      exact hd.mono
  constructor
  · intro w hw id hid v hv
    exact Nat.le_trans (h.committed w hw id (hmay id hid) v hv) (hpos id)
  · intro w hw id hseek
    by_contra hid
    have := h.sought w hw id hseek
    rw [hmay id (Bool.not_eq_false _ ▸ hid)] at this
    cases this

variable {s : Sys}

theorem AheadInv.setPc (h : AheadInv s) (t : PullTask)
    (hpc : Ahead s.log i pc) {j : Nat} {t' : PullTask}
    (ht' : (s.setPc i t pc).pulls[j]? = some t') : Ahead s.log j t'.pc := by
  rcases Sys.setPc_cases ht' with ⟨rfl, rfl⟩ | ⟨-, hold⟩
  · exact hpc
  · exact h.ahead j t' hold

theorem AheadInv.step {s' : Sys} {a : Action} (h : AheadInv s) (hG : Undisturbed s a)
    (hstep : step s a = some s') : AheadInv s' := by
  cases Step.of_step hstep with
  | bucketCall c =>
    refine ⟨h.ok.call c, fun i t ht => ?_⟩
    have ht : (s.pulls.map fun t => { t with begun := none : PullTask })[i]? = some t := ht
    rw [getElem?_map, Option.map_eq_some_iff] at ht
    obtain ⟨t0, ht0, rfl⟩ := ht
    exact h.ahead i t0 ht0
  | pull max =>
    refine ⟨h.ok, fun i t ht => ?_⟩
    have ht : (s.pulls ++ [⟨max, .start, some s.buckets⟩])[i]? = some t := ht
    rcases Table.getElem?_concat.mp ht with hold | ⟨-, rfl⟩
    · exact h.ahead i t hold
    · exact .of_nil rfl
  | snapshot i order horder t ht hpc =>
    have hnil : Ahead s.log i
        (.snapped (scopeSnapshot s.sources s.sub order horder).1 s.log.length) :=
      .of_nil drop_length
    exact ⟨h.ok, fun j t' ht' => h.setPc t hnil ht'⟩
  | sleep i clock rest t scope mark outcome ht hpc | wake i t scope mark r scan ht hpc =>
    exact ⟨h.ok, fun j t' ht' => h.setPc t (.of_nil rfl) ht'⟩
  | drain i clock rest t scope mark r ht hpc hr =>
    exact ⟨(drainFair_inv h.ok hr).ok,
      fun j t' ht' => h.setPc t ((hpc ▸ h.ahead i t ht).drain h.ok hr) ht'⟩
  | commit i t scope mark r scan ht hpc =>
    refine ⟨h.ok, fun j t' ht' => ?_⟩
    rcases Sys.setPc_cases ht' with ⟨rfl, rfl⟩ | ⟨hne, hold⟩
    · exact .of_nil rfl
    · refine (h.ahead j t' hold).concat (fun id hmay v hv => ?_) (fun id hseek => ?_)
      · -- what another pull in flight commits is behind this copy
        have hv : v ∈ (if i = j then none else r.offsets id) := hv
        rw [if_neg (Ne.symm hne)] at hv
        exact hG t scope mark r scan ht hpc j t' hne hold id v hv hmay
      · cases hseek
  | seekWrite k bucket resp source hk =>
    unfold Sys.seekWrite
    dsimp only
    split_ifs with hroutes
    · refine ⟨h.ok, fun i t ht => (h.ahead i t ht).concat (fun id hmay v hv => ?_) ?_⟩
      · cases hv
      · intro id hseek
        rw [← of_decide_eq_true hseek]
        exact hG bucket resp source hk hroutes t (mem_of_getElem? ht)
    · exact ⟨h.ok, h.ahead⟩
  | _ => exact ⟨h.ok, h.ahead⟩

theorem AheadInv.commit_keeps (h : AheadInv s) {mark : Nat} {t : PullTask} {scan : BucketManager}
    (ht : s.pulls[i]? = some t) (hpc : t.pc = .drained scope mark r scan) :
    KeepsLaterWrites s (s.commit i t scope r scan) i (t.pc.since s.log) := by
  have hahead := h.ahead i t ht
  rw [hpc] at hahead ⊢
  have hstored : ∀ id, (s.commit i t scope r scan).sub.offsets id =
      (r.offsets id).or (s.sub.offsets id) := fun id => rfl
  intro w hw id
  rcases hid : r.offsets id with _ | n
  · -- the copy does not track the bucket
    have hsame : (s.commit i t scope r scan).sub.offsets id = s.sub.offsets id := by
      rw [hstored, hid]
      rfl
    exact ⟨fun v _ => .inr hsame, fun _ => hsame⟩
  · have hmay : (PullPc.drained scope mark r scan).mayWrite id := by
      change (r.offsets id).isSome
      rw [hid]
      rfl
    refine ⟨fun v hv => .inl ?_, fun hseek => ?_⟩
    · have hle : v ≤ r.offsets.pos id := hahead.committed w hw id hmay v hv
      have hpos : (s.commit i t scope r scan).sub.offsets.pos id = r.offsets.pos id := by
        unfold Offsets.pos
        rw [hstored, hid]
        rfl
      exact hpos ▸ hle
    · rw [hahead.sought w hw id hseek] at hmay
      cases hmay

/-! ## Runs -/

def PullPc.holdsCopy : PullPc → Bool
  | .snapped .. => true
  | .drained .. => true
  | _ => false

theorem PullPc.mayWrite_eq_false (h : pc.holdsCopy = false) (id : BucketId) :
    pc.mayWrite id = false := by
  cases pc with
  | start => rfl
  | returned outcome => rfl
  | _ => cases h

def alone (s : Sys) : Action → Bool
  | .seekWrite _ => s.pulls.all fun t => !t.pc.holdsCopy
  | .commit j => s.pulls.zipIdx.all fun p => decide (p.2 = j) || !p.1.pc.holdsCopy
  | _ => true

theorem undisturbed_of_alone (s : Sys) (a : Action) (h : alone s a) : Undisturbed s a := by
  cases a with
  | seekWrite k =>
    intro bucket resp source _ _ t ht
    have hfree := List.all_eq_true.mp h t ht
    exact PullPc.mayWrite_eq_false (by simpa using hfree) bucket
  | commit j =>
    intro t scope mark r scan _ _ i t' hne ht' id v _ hmay
    have hfree := List.all_eq_true.mp h (t', i) (mem_zipIdx_iff_getElem?.mpr ht')
    have hidle : t'.pc.holdsCopy = false := by simpa [hne] using hfree
    rw [PullPc.mayWrite_eq_false hidle] at hmay
    cases hmay
  | _ => trivial

def serialSchedule : List Action :=
  [.pull 1, .snapshot 0 [1], .drain 0 [] 0, .commit 0, .seekRead 1 0, .seekWrite 0,
    .pull 1, .snapshot 1 [1], .drain 1 [] 0]

def seekInFlight : List Action :=
  [.pull 1, .snapshot 0 [1], .drain 0 [] 0, .seekRead 1 0, .seekWrite 0]

def pullInFlight : List Action :=
  [.pull 1, .snapshot 0 [1], .drain 0 [] 0, .bucketCall arriveOne, .pull 1, .snapshot 1 [1],
    .drain 1 [] 0, .commit 1]

def UndoesLaterWrite (cs : List BucketCall) (as : List Action) : Prop :=
  ∃ s s', Transition.run step (startOne cs) as = some s ∧ step s (.commit 0) = some s' ∧
    ∃ t, s.pulls[0]? = some t ∧ ¬ KeepsLaterWrites s s' 0 (t.pc.since s.log)

end Pulls

end TerminalCommander
