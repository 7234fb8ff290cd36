import TerminalCommander.Daemon.Subscriptions.Pull

/-!
# Exactly-once delivery to one consumer

One consumer pulls, one pull after the other, while other tasks call the bucket manager as they
like; nobody seeks, and no event expires under a scan. The invariant ties the stored offsets, the
delivered events and the histories of the buckets together: what the offsets have passed was
delivered, or was gone when the pull that passed it scanned the buckets.
-/

namespace TerminalCommander

open KeyedLog List BucketManager SignalEvent Nat

def BucketManager.NoneExpired (m : BucketManager) (now : Time) : Prop :=
  ∀ id ∈ m.keys, ∀ b ∈ m.inner id, ∀ e ∈ b.events, BucketInner.cutoff b.config now ≤ e.timestamp

instance (m : BucketManager) (now : Time) : Decidable (m.NoneExpired now) :=
  inferInstanceAs (Decidable (∀ id ∈ m.keys, _))

def BucketManager.retained (m : BucketManager) (id : BucketId) : List EventCore :=
  ((m.inner id).map fun b => b.events.map SignalEvent.core).getD []

variable {id : BucketId}

theorem BucketManager.retained_eq {m : BucketManager} {b : BucketInner}
    (h : m.inner id = some b) : m.retained id = b.events.map core := by
  unfold retained
  rw [h]
  rfl

/-! ## A drain without expiry -/

def Unexpiring (m : BucketManager) (s : DrainState) : Prop :=
  ∀ id b₀ b, m.inner id = some b₀ → s.buckets.inner id = some b → b.events = b₀.events

theorem Unexpiring.visited {ctx : DrainCtx} {m : BucketManager} {off0 : Offsets} {s : DrainState}
    (h : Unexpiring m s) (hinv : DrainInv ctx.predicate m off0 s)
    (hlisted : ∀ id b, m.inner id = some b → id ∈ m.keys)
    (hfresh : ∀ k, m.NoneExpired (ctx.clock k)) {b : ScopedBucket} {inner : BucketInner}
    (hinner : s.buckets.inner b.bucketId = some inner) (i : Nat) :
    Unexpiring m (ctx.visited b (ctx.readOf i b inner s) s) := by
  intro id b0 b' h0 hb'
  by_cases hid : id = b.bucketId
  · subst hid
    obtain ⟨b1, hb1, hd⟩ := hinv.exists_start hinner
    rw [h0] at hb1
    cases hb1
    rw [(ctx.visited_self b (ctx.readOf i b inner s) s).1] at hb'
    cases hb'
    obtain ⟨-, ⟨gone, hev, hstale⟩, -, -⟩ := (ctx.readOf_from i b inner s).spec hd.ok
    obtain ⟨gone0, hev0⟩ := hd.shrunk
    have hsame := h _ b0 inner h0 hinner
    -- whatever the read dropped was expired, and nothing was
    have hnil : gone = [] := by
      rw [eq_nil_iff_forall_not_mem]
      intro e he
      have hin : e ∈ b0.events := by
        rw [← hsame, hev.events]
        exact mem_append_left _ he
      have hle := hfresh s.reads.length _ (hlisted _ b0 h0) b0 h0 e hin
      have hlt := hstale e he
      rw [hev0.config] at hlt
      exact absurd hlt (not_lt.mpr hle)
    have hevents := hev.events
    rw [hnil, nil_append] at hevents
    rw [← hevents, hsame]
  · rw [(ctx.visited_of_ne (ctx.readOf i b inner s) s hid).1] at hb'
    exact h id b0 b' h0 hb'

variable {scope : Scope}

theorem drainFair_unexpiring {m : BucketManager} (hm : m.Ok)
    (hlisted : ∀ id b, m.inner id = some b → id ∈ m.keys) {offsets : Offsets}
    {predicate : Predicate} {cap : Nat} {clock : Nat → Time}
    (hfresh : ∀ k, m.NoneExpired (clock k)) {r : DrainResult}
    (h : drainFair m scope offsets predicate cap clock = .ok r) : Unexpiring m r.state := by
  refine (drainFair_induction (I := Unexpiring m) hm ?_ ?_ (fun _ _ _ hI => hI) h).2
  · intro id b0 b h0 hb
    rw [show (drainStart m offsets).buckets = m from rfl, h0] at hb
    cases hb
    rfl
  · intro shares i b inner s _ hinner hinv hI
    have hinv' : DrainInv (drainCtx scope predicate cap clock shares).predicate m offsets s := hinv
    exact hI.visited hinv' hlisted hfresh hinner i

theorem DrainInv.recorded {predicate : Predicate} {m : BucketManager} {off0 : Offsets}
    {s : DrainState} (h : DrainInv predicate m off0 s) {hist : BucketId → List EventCore}
    (hrec : m.Recorded hist) : s.buckets.Recorded hist where
  ok := h.ok
  listed := by
    intro id b hb
    obtain ⟨b0, hb0, -⟩ := h.exists_start hb
    rw [h.keys]
    exact hrec.listed id b0 hb0
  records := by
    intro id b hb
    obtain ⟨b0, hb0, hd⟩ := h.exists_start hb
    obtain ⟨gone, hev⟩ := hd.shrunk
    have := (hrec.records id b0 hb0).steps hev.steps
    rwa [append_nil] at this
  absent := by
    intro id hnone
    rcases hb0 : m.inner id with _ | b0
    · exact hrec.absent id hb0
    · obtain ⟨b, hb, -⟩ := h.present id b0 hb0
      rw [hnone] at hb
      cases hb

namespace Pulls

/-! ## What one consumer sees -/

def PullPc.active : PullPc → Bool
  | .returned _ => false
  | _ => true

def OneConsumer (s : Sys) : Action → Prop
  | .pull _ => ∀ t ∈ s.pulls, t.pc.active = false
  | .drain _ clock rest => ∀ now ∈ rest :: clock, s.buckets.NoneExpired now
  | .seekRead .. => False
  | .seekWrite _ => False
  | _ => True

instance OneConsumer.decidable (s : Sys) : ∀ a, Decidable (OneConsumer s a)
  | .pull _ => inferInstanceAs (Decidable (∀ t ∈ s.pulls, _))
  | .drain _ clock rest =>
    inferInstanceAs (Decidable (∀ now ∈ rest :: clock, _))
  | .seekRead .. => isFalse fun h => h
  | .seekWrite _ => isFalse fun h => h
  | .bucketCall _ => isTrue trivial
  | .insertSource .. => isTrue trivial
  | .bumpSources => isTrue trivial
  | .snapshot .. => isTrue trivial
  | .wake _ => isTrue trivial
  | .commit _ => isTrue trivial

def Write.events : Write → List SubEvent
  | .commit _ _ _ events _ _ => events
  | .seek _ _ => []

def deliveries (log : List Write) : List SubEvent := log.flatMap Write.events

def Write.PassesEvicted (id : BucketId) (e : EventCore) : Write → Prop
  | .commit _ before written _ scan begun =>
    before.pos id < e.seq ∧ e.seq ≤ written.pos id ∧ e ∉ scan.retained id ∧
      ∀ m ∈ begun, e ∉ m.retained id
  | .seek _ _ => False

structure ExactlyOnce (o₀ : Offsets) (s : Sys) : Prop where
  increasing : ∀ id, Increasing SignalEvent.seq (delivered (deliveries s.log) id)
  once : ((deliveries s.log).map fun e => (e.origin.bucketId, e.event.seq)).Nodup
  matching : ∀ id, ∀ e ∈ delivered (deliveries s.log) id,
    e.core ∈ s.hist id ∧ s.sub.predicate.accepts e.core = true ∧ o₀.pos id < e.seq ∧
      e.seq ≤ s.sub.offsets.pos id
  covered : ∀ id, ∀ e ∈ s.hist id, s.sub.predicate.accepts e = true → o₀.pos id < e.seq →
    e.seq ≤ s.sub.offsets.pos id →
    e ∈ (delivered (deliveries s.log) id).map SignalEvent.core ∨
      ∃ w ∈ s.log, w.PassesEvicted id e

/-! ## The invariant -/

structure Scanned (predicate : Predicate) (offsets : Offsets) (hist : BucketId → List EventCore)
    (m : BucketManager) (r : DrainResult) (scan : BucketManager) : Prop where
  drain : DrainInv predicate scan offsets r.state
  kept : Unexpiring scan r.state
  since : ∀ id b₀, scan.inner id = some b₀ → ∃ hist₀ added b, hist id = hist₀ ++ added ∧
    b₀.Records hist₀ ∧ m.inner id = some b ∧ b₀.Steps b added

def PullPc.Current (s : Sys) : PullPc → Prop
  | .snapped scope _ => scope.offsets = s.sub.offsets
  | .drained _ _ r scan => Scanned s.sub.predicate s.sub.offsets s.hist s.buckets r scan
  | _ => True

variable {s : Sys}

theorem PullPc.Current.congr {s' : Sys} {pc : PullPc} (h : pc.Current s)
    (hpred : s'.sub.predicate = s.sub.predicate) (hoff : s'.sub.offsets = s.sub.offsets)
    (hhist : s'.hist = s.hist) (hbuckets : s'.buckets = s.buckets) : pc.Current s' := by
  cases pc with
  | snapped scope mark => exact Eq.trans h hoff.symm
  | drained scope mark r scan =>
    unfold Current
    rw [hpred, hoff, hhist, hbuckets]
    exact h
  | _ => trivial

structure OnceInv (o₀ : Offsets) (s : Sys) : Prop where
  recorded : s.buckets.Recorded s.hist
  single : ∀ (i j : Nat) (t t' : PullTask), s.pulls[i]? = some t → s.pulls[j]? = some t' →
    t.pc.active = true → t'.pc.active = true → i = j
  current : ∀ t ∈ s.pulls, t.pc.Current s
  begun : ∀ t ∈ s.pulls, t.pc.active = true → ∀ m ∈ t.begun, ∀ id,
    m.retained id = s.buckets.retained id
  mono : ∀ id, o₀.pos id ≤ s.sub.offsets.pos id
  bound : ∀ id b, s.buckets.inner id = some b →
    s.sub.offsets.pos id ≤ max (o₀.pos id) b.state.tailSeq
  absent : ∀ id, s.buckets.inner id = none → s.sub.offsets.pos id = o₀.pos id
  increasing : ∀ id, Increasing SignalEvent.seq (delivered (deliveries s.log) id)
  matching : ∀ id, ∀ e ∈ delivered (deliveries s.log) id,
    e.core ∈ s.hist id ∧ s.sub.predicate.accepts e.core = true ∧ o₀.pos id < e.seq ∧
      e.seq ≤ s.sub.offsets.pos id
  covered : ∀ id, ∀ e ∈ s.hist id, s.sub.predicate.accepts e = true → o₀.pos id < e.seq →
    e.seq ≤ s.sub.offsets.pos id →
    e ∈ (delivered (deliveries s.log) id).map SignalEvent.core ∨
      ∃ w ∈ s.log, w.PassesEvicted id e

theorem OnceInv.start (cs : List BucketCall) (sources : BucketSourceTable) (sub : Subscription) :
    OnceInv sub.offsets (start cs sources sub) where
  recorded := calls_recorded cs
  single := fun _ _ _ _ h => by cases h
  current := fun _ h => by cases h
  begun := fun _ h => by cases h
  mono := fun _ => le_refl _
  bound := fun _ _ _ => le_max_left _ _
  absent := fun _ _ => rfl
  increasing := fun _ => List.Pairwise.nil
  matching := fun _ _ h => by cases h
  covered := fun _ _ _ _ hlt hle => absurd hlt (not_lt.mpr hle)

/-! ## Steps of the pulls -/

variable {t : PullTask} {i : Nat} {o₀ : Offsets}

theorem OnceInv.setPc (h : OnceInv o₀ s)
    (ht : s.pulls[i]? = some t) (hact : t.pc.active) {pc : PullPc}
    (hpc : pc.Current s) : OnceInv o₀ (s.setPc i t pc) := by
  have hmem : ∀ t' ∈ (s.setPc i t pc).pulls, t' = { t with pc := pc } ∨ t' ∈ s.pulls := by
    intro t' ht'
    obtain ⟨j, hj⟩ := getElem?_of_mem ht'
    rcases Sys.setPc_cases hj with ⟨-, rfl⟩ | ⟨-, hold⟩
    · exact .inl rfl
    · exact .inr (mem_of_getElem? hold)
  refine { h with single := ?_, current := ?_, begun := ?_ }
  · intro j k t1 t2 h1 h2 ha1 ha2
    rcases Sys.setPc_cases h1 with ⟨hj, -⟩ | ⟨-, h1⟩ <;>
      rcases Sys.setPc_cases h2 with ⟨hk, -⟩ | ⟨-, h2⟩
    · exact hj.trans hk.symm
    · exact hj.trans (h.single i k t t2 ht h2 hact ha2)
    · exact (h.single j i t1 t h1 ht ha1 hact).trans hk.symm
    · exact h.single j k t1 t2 h1 h2 ha1 ha2
  · intro t' ht'
    rcases hmem t' ht' with rfl | hold
    · exact hpc.congr rfl rfl rfl rfl
    · exact (h.current t' hold).congr rfl rfl rfl rfl
  · intro t' ht' ha m hm id
    rcases hmem t' ht' with rfl | hold
    · exact h.begun t (mem_of_getElem? ht) hact m hm id
    · exact h.begun t' hold ha m hm id

theorem OnceInv.others_idle (h : OnceInv o₀ s) {j : Nat}
    {t' : PullTask} (ht : s.pulls[i]? = some t) (hact : t.pc.active)
    (ht' : s.pulls[j]? = some t') (hne : j ≠ i) : ∃ outcome, t'.pc = .returned outcome := by
  have hidle : t'.pc.active = false := by
    by_contra ha
    exact hne (h.single j i t' t ht' ht (Bool.not_eq_false _ ▸ ha) hact)
  cases hpc : t'.pc with
  | returned outcome => exact ⟨outcome, rfl⟩
  | _ => rw [hpc] at hidle; cases hidle

theorem OnceInv.setSub (h : OnceInv o₀ s) {sub : Subscription}
    (hpred : sub.predicate = s.sub.predicate) (hoff : sub.offsets = s.sub.offsets) :
    OnceInv o₀ { s with sub := sub } where
  recorded := h.recorded
  single := h.single
  current := fun t ht => (h.current t ht).congr hpred hoff rfl rfl
  begun := h.begun
  mono := fun id => hoff ▸ h.mono id
  bound := fun id b hb => hoff ▸ h.bound id b hb
  absent := fun id hb => hoff ▸ h.absent id hb
  increasing := h.increasing
  matching := fun id e he => hpred ▸ hoff ▸ h.matching id e he
  covered := fun id e he => hpred ▸ hoff ▸ h.covered id e he

theorem OnceInv.pull (h : OnceInv o₀ s) (hidle : ∀ t ∈ s.pulls, t.pc.active = false) (max : Nat) :
    OnceInv o₀ { s with pulls := s.pulls ++ [⟨max, .start, some s.buckets⟩] } := by
  have hmem : ∀ t ∈ s.pulls ++ [(⟨max, .start, some s.buckets⟩ : PullTask)],
      t.pc.active → t = ⟨max, .start, some s.buckets⟩ := by
    intro t ht ha
    rcases mem_append.mp ht with hold | hnew
    · rw [hidle t hold] at ha
      cases ha
    · exact mem_singleton.mp hnew
  refine { h with single := ?_, current := ?_, begun := ?_ }
  · have hindex : ∀ (i : Nat) (t : PullTask),
        (s.pulls ++ [⟨max, .start, some s.buckets⟩])[i]? = some t → t.pc.active →
        i = s.pulls.length := by
      intro i t ht ha
      rcases Table.getElem?_concat.mp ht with hold | ⟨hlen, -⟩
      · rw [hidle t (mem_of_getElem? hold)] at ha
        cases ha
      · exact hlen
    exact fun i j t t' ht ht' ha ha' => (hindex i t ht ha).trans (hindex j t' ht' ha').symm
  · intro t ht
    rcases mem_append.mp ht with hold | hnew
    · exact (h.current t hold).congr rfl rfl rfl rfl
    · rw [mem_singleton.mp hnew]
      trivial
  · intro t ht ha m hm id
    rw [hmem t ht ha] at hm
    cases hm
    rfl

/-! ## Steps of other tasks -/

variable {scan m : BucketManager} {r : DrainResult} {hist : BucketId → List EventCore}
  {offsets : Offsets} {predicate : Predicate}

theorem Scanned.call (h : Scanned predicate offsets hist m r scan) (hm : m.Ok) (c : BucketCall) :
    Scanned predicate offsets (fun id => hist id ++ m.accepts c id) (m.call c) r scan := by
  refine ⟨h.drain, h.kept, fun id b0 hb0 => ?_⟩
  obtain ⟨hist0, added, b, hhist, hrec, hb, hsteps⟩ := h.since id b0 hb0
  obtain ⟨b', hb', -, hstep⟩ := m.call_steps c hb (hm id b hb)
  exact ⟨hist0, added ++ m.accepts c id, b', by rw [hhist, append_assoc], hrec, hb',
    hsteps.trans hstep⟩

theorem OnceInv.pos_lt_of_accepts (h : OnceInv o₀ s) {c : BucketCall} {e : EventCore}
    (he : e ∈ s.buckets.accepts c id) (hlt : o₀.pos id < e.seq) : s.sub.offsets.pos id < e.seq := by
  rcases hb : s.buckets.inner id with _ | b
  · rw [accepts_of_none hb] at he
    cases he
  · obtain ⟨b', -, -, hsteps⟩ := s.buckets.call_steps c hb (h.recorded.ok id b hb)
    have hfresh := hsteps.fresh e he
    have hbound := h.bound id b hb
    omega

theorem OnceInv.call (h : OnceInv o₀ s) (c : BucketCall) : OnceInv o₀ (s.call c) where
  recorded := h.recorded.call c
  single := by
    intro i j t t' ht ht' ha ha'
    unfold Sys.call at ht ht'
    rw [getElem?_map, Option.map_eq_some_iff] at ht ht'
    obtain ⟨t0, ht0, rfl⟩ := ht
    obtain ⟨t0', ht0', rfl⟩ := ht'
    exact h.single i j t0 t0' ht0 ht0' ha ha'
  current := by
    intro t ht
    obtain ⟨t0, ht0, rfl⟩ := List.mem_map.mp ht
    have hcur := h.current t0 ht0
    change t0.pc.Current (s.call c)
    cases hpc : t0.pc with
    | snapped scope mark => rw [hpc] at hcur; exact hcur
    | drained scope mark r scan => rw [hpc] at hcur; exact Scanned.call hcur h.recorded.ok c
    | _ => trivial
  begun := by
    intro t ht _ m hm
    obtain ⟨t0, ht0, rfl⟩ := List.mem_map.mp ht
    cases hm
  mono := h.mono
  bound := by
    intro id b' hb'
    rcases call_inner_cases hb' with ⟨config, now, hnone, -⟩ | ⟨b, hb⟩
    · exact (h.absent id hnone).le.trans (le_max_left _ _)
    · obtain ⟨b'', hb'', -, hsteps⟩ := s.buckets.call_steps c hb (h.recorded.ok id b hb)
      have htail := hsteps.tail_le
      rw [← Option.some.inj (hb'.symm.trans hb'')] at htail
      have hbound := h.bound id b hb
      change s.sub.offsets.pos id ≤ _
      omega
  absent := by
    intro id hnone'
    rcases hb : s.buckets.inner id with _ | b
    · exact h.absent id hb
    · obtain ⟨b', hb', -⟩ := s.buckets.call_steps c hb (h.recorded.ok id b hb)
      rw [show (s.call c).buckets = s.buckets.call c from rfl, hb'] at hnone'
      cases hnone'
  increasing := h.increasing
  matching := by
    intro id e he
    obtain ⟨hhist, hrest⟩ := h.matching id e he
    exact ⟨mem_append_left _ hhist, hrest⟩
  covered := by
    intro id e he hacc hlt hle
    rcases mem_append.mp he with hold | hnew
    · exact h.covered id e hold hacc hlt hle
    · exact absurd hle (not_le.mpr (h.pos_lt_of_accepts hnew hlt))

/-! ## Scans -/

theorem Scanned.of_drain (hrec : m.Recorded hist) (hinv : DrainInv predicate m offsets r.state)
    (hkept : Unexpiring m r.state) : Scanned predicate offsets hist m r m :=
  ⟨hinv, hkept, fun id b hb =>
    ⟨hist id, [], b, (append_nil _).symm, hrec.records id b hb, hb, .refl b⟩⟩

theorem Scanned.evict {predicate' : Predicate} {offsets' : Offsets} {r' : DrainResult}
    (h : Scanned predicate offsets hist m r scan) (hinv : DrainInv predicate' m offsets' r'.state) :
    Scanned predicate offsets hist r'.buckets r scan := by
  refine ⟨h.drain, h.kept, fun id b0 hb0 => ?_⟩
  obtain ⟨hist0, added, b, hhist, hrec, hb, hsteps⟩ := h.since id b0 hb0
  obtain ⟨b', hb', hd⟩ := hinv.present id b hb
  obtain ⟨gone, hev⟩ := hd.shrunk
  refine ⟨hist0, added, b', hhist, hrec, hb', ?_⟩
  have htrans := hsteps.trans hev.steps
  rwa [append_nil] at htrans

theorem OnceInv.evict (h : OnceInv o₀ s) (hinv : DrainInv predicate s.buckets offsets r.state)
    (hkept : Unexpiring s.buckets r.state) : OnceInv o₀ { s with buckets := r.buckets } where
  recorded := hinv.recorded h.recorded
  single := h.single
  current := by
    intro t ht
    have hcur := h.current t ht
    cases hpc : t.pc with
    | snapped scope mark => rw [hpc] at hcur; exact hcur
    | drained scope mark r' scan => rw [hpc] at hcur; exact Scanned.evict hcur hinv
    | _ => trivial
  begun := by
    intro t ht ha m hm id
    rw [h.begun t ht ha m hm id]
    rcases hb : s.buckets.inner id with _ | b
    · have hnone : r.buckets.inner id = none := (hinv.absent id hb).1
      unfold retained
      rw [hb, hnone]
    · obtain ⟨b', hb', -⟩ := hinv.present id b hb
      have hb' : r.buckets.inner id = some b' := hb'
      rw [retained_eq hb, retained_eq hb', hkept id b b' hb hb']
  mono := h.mono
  bound := by
    intro id b' hb'
    obtain ⟨b, hb, hd⟩ := hinv.exists_start hb'
    obtain ⟨gone, hev⟩ := hd.shrunk
    rw [hev.tail]
    exact h.bound id b hb
  absent := by
    intro id hnone
    rcases hb : s.buckets.inner id with _ | b
    · exact h.absent id hb
    · obtain ⟨b', hb', -⟩ := hinv.present id b hb
      rw [show r.state.buckets.inner id = none from hnone] at hb'
      cases hb'
  increasing := h.increasing
  matching := h.matching
  covered := h.covered

theorem clockOf_mem (clock : List Time) (rest : Time) (k : Nat) :
    clockOf clock rest k ∈ rest :: clock := by
  unfold clockOf
  rw [getD_eq_getElem?_getD]
  rcases hk : clock[k]? with _ | now
  · exact mem_cons_self
  · exact mem_cons_of_mem _ (mem_of_getElem? hk)

theorem OnceInv.drain (h : OnceInv o₀ s) {mark : Nat} {clock : List Time} {rest : Time}
    (ht : s.pulls[i]? = some t) (hpc : t.pc = .snapped scope mark)
    (hfresh : ∀ now ∈ rest :: clock, s.buckets.NoneExpired now)
    (hr : scanDrain s.buckets s.sub.predicate (scope.retain s.buckets) t.max
      (clockOf clock rest) = .ok r) :
    OnceInv o₀ { s.setPc i t (.drained (scope.retain s.buckets) mark r s.buckets) with
      buckets := r.buckets } := by
  have hcopy : scope.offsets = s.sub.offsets := by
    have hcur := h.current t (mem_of_getElem? ht)
    rwa [hpc] at hcur
  have hdrain : drainFair s.buckets (scope.retain s.buckets) s.sub.offsets s.sub.predicate
      (pullCap t.max) (clockOf clock rest) = .ok r := hcopy ▸ hr
  have hinv := drainFair_inv h.recorded.ok hdrain
  have hkept := drainFair_unexpiring h.recorded.ok h.recorded.listed
    (fun k => hfresh _ (clockOf_mem clock rest k)) hdrain
  have hscan : (PullPc.drained (scope.retain s.buckets) mark r s.buckets).Current s :=
    Scanned.of_drain h.recorded hinv hkept
  exact (h.setPc ht (by rw [hpc]; rfl) hscan).evict hinv hkept

/-! ## Commits -/

section Scanned

variable {predicate : Predicate} {offsets : Offsets} {hist : BucketId → List EventCore}
  {m scan : BucketManager} {r : DrainResult} (h : Scanned predicate offsets hist m r scan)
include h

theorem Scanned.mono (id : BucketId) : offsets.pos id ≤ r.offsets.pos id := by
  rcases hb : scan.inner id with _ | b0
  · exact (h.drain.absent id hb).2.1.ge
  · obtain ⟨_, _, hd⟩ := h.drain.present id b0 hb
    exact hd.mono

theorem Scanned.bound {b : BucketInner} (hb : m.inner id = some b) :
    r.offsets.pos id ≤ max (offsets.pos id) b.state.tailSeq := by
  rcases hb0 : scan.inner id with _ | b0
  · exact (h.drain.absent id hb0).2.1.le.trans (le_max_left _ _)
  · obtain ⟨b', -, hd⟩ := h.drain.present id b0 hb0
    obtain ⟨gone, hev⟩ := hd.shrunk
    obtain ⟨_, _, b1, _, _, hb1, hsteps⟩ := h.since id b0 hb0
    have hbound : r.offsets.pos id ≤ _ := hd.bound
    have htail := hsteps.tail_le
    rw [← Option.some.inj (hb.symm.trans hb1)] at htail
    rw [hev.tail] at hbound
    omega

theorem Scanned.absent (hnone : m.inner id = none) : r.offsets.pos id = offsets.pos id := by
  rcases hb0 : scan.inner id with _ | b0
  · exact (h.drain.absent id hb0).2.1
  · obtain ⟨_, _, b, _, _, hb, _⟩ := h.since id b0 hb0
    rw [hnone] at hb
    cases hb

theorem Scanned.increasing (id : BucketId) : Increasing seq (delivered r.drained.events id) := by
  rcases hb0 : scan.inner id with _ | b0
  · have hnil : delivered r.drained.events id = [] := (h.drain.absent id hb0).2.2
    rw [hnil]
    exact List.Pairwise.nil
  · obtain ⟨_, _, hd⟩ := h.drain.present id b0 hb0
    exact hd.sorted

theorem Scanned.matching {e : SignalEvent} (he : e ∈ delivered r.drained.events id) :
    e.core ∈ hist id ∧ predicate.accepts e.core ∧ offsets.pos id < e.seq ∧
      e.seq ≤ r.offsets.pos id := by
  rcases hb0 : scan.inner id with _ | b0
  · have hnil : delivered r.drained.events id = [] := (h.drain.absent id hb0).2.2
    rw [hnil] at he
    cases he
  · obtain ⟨_, _, hd⟩ := h.drain.present id b0 hb0
    obtain ⟨hist0, added, _, hhist, hrec, _, _⟩ := h.since id b0 hb0
    obtain ⟨gone, hgone, -⟩ := hrec.split
    obtain ⟨hin, hacc⟩ := hd.sound e he
    refine ⟨?_, hacc, hd.range e he⟩
    rw [hhist, hgone]
    exact mem_append_left _ (mem_append_right _ (List.mem_map_of_mem hin))

theorem Scanned.covered {e : EventCore} (he : e ∈ hist id)
    (hacc : predicate.accepts e) (hlt : offsets.pos id < e.seq) (hle : e.seq ≤ r.offsets.pos id) :
    e ∈ (delivered r.drained.events id).map core ∨
      e ∉ scan.retained id ∧ e ∉ m.retained id := by
  rcases hb0 : scan.inner id with _ | b0
  · have hpos : r.offsets.pos id = offsets.pos id := (h.drain.absent id hb0).2.1
    omega
  · obtain ⟨b', hb', hd⟩ := h.drain.present id b0 hb0
    obtain ⟨gone, hev⟩ := hd.shrunk
    obtain ⟨hist0, added, b, hhist, hrec, hb, hsteps⟩ := h.since id b0 hb0
    have hbound : r.offsets.pos id ≤ _ := hd.bound
    rw [hev.tail] at hbound
    -- what came in after the scan is past its tail
    have hold : ∀ e' ∈ added, e' ≠ e := fun e' he' heq => by
      have := hsteps.fresh e' he'
      rw [heq] at this
      omega
    by_cases hin : e ∈ b0.events.map core
    · obtain ⟨x, hx, rfl⟩ := List.mem_map.mp hin
      have hkept := h.kept id b0 b' hb0 hb'
      exact .inl (List.mem_map_of_mem (hd.complete x (hkept ▸ hx) hacc hlt hle))
    · refine .inr ⟨?_, ?_⟩
      · rw [retained_eq hb0]
        exact hin
      · rw [retained_eq hb]
        intro hmem
        obtain ⟨x, hx, rfl⟩ := List.mem_map.mp hmem
        rcases hsteps.mem hx with ⟨x0, hx0, hcore⟩ | hadded
        · exact hin (hcore ▸ List.mem_map_of_mem hx0)
        · exact hold _ hadded rfl

end Scanned

theorem deliveries_concat (log : List Write) (w : Write) :
    deliveries (log ++ [w]) = deliveries log ++ w.events := by
  unfold deliveries
  rw [flatMap_append, flatMap_singleton]

theorem OnceInv.commit (h : OnceInv o₀ s) {mark : Nat} (ht : s.pulls[i]? = some t)
    (hpc : t.pc = .drained scope mark r scan) : OnceInv o₀ (s.commit i t scope r scan) := by
  have hact : t.pc.active := by
    rw [hpc]
    rfl
  have hscan : Scanned s.sub.predicate s.sub.offsets s.hist s.buckets r scan := by
    have hcur := h.current t (mem_of_getElem? ht)
    rwa [hpc] at hcur
  have hpos : ∀ id, (s.commit i t scope r scan).sub.offsets.pos id = r.offsets.pos id :=
    fun id => Subscription.commit_pos (hscan.drain.tracked id) _
  have hidle : ∀ t' ∈ (s.commit i t scope r scan).pulls, ∃ outcome, t'.pc = .returned outcome := by
    intro t' ht'
    obtain ⟨j, hj⟩ := getElem?_of_mem ht'
    rcases Sys.setPc_cases hj with ⟨-, rfl⟩ | ⟨hne, hold⟩
    · exact ⟨_, rfl⟩
    · exact h.others_idle ht hact hold hne
  have hnone : ∀ t' ∈ (s.commit i t scope r scan).pulls, t'.pc.active → False := by
    intro t' ht' ha
    obtain ⟨outcome, hret⟩ := hidle t' ht'
    rw [hret] at ha
    cases ha
  have hout : ∀ id, delivered (deliveries (s.commit i t scope r scan).log) id =
      delivered (deliveries s.log) id ++ delivered r.drained.events id := by
    intro id
    unfold Sys.commit
    rw [deliveries_concat, delivered_append]
    rfl
  constructor
  case recorded => exact h.recorded
  case single =>
    exact fun j k t1 t2 h1 _ ha _ => (hnone t1 (mem_of_getElem? h1) ha).elim
  case current =>
    intro t' ht'
    obtain ⟨outcome, hret⟩ := hidle t' ht'
    rw [hret]
    trivial
  case begun => exact fun t' ht' ha => (hnone t' ht' ha).elim
  case mono => exact fun id => (h.mono id).trans ((hscan.mono id).trans (hpos id).ge)
  case bound =>
    intro id b hb
    have hr := hscan.bound hb
    have hs := h.bound id b hb
    rw [hpos]
    omega
  case absent =>
    intro id hb
    rw [hpos, hscan.absent hb]
    exact h.absent id hb
  case increasing =>
    intro id
    rw [hout]
    refine pairwise_append.mpr ⟨h.increasing id, hscan.increasing id, fun x hx y hy => ?_⟩
    have hx' := (h.matching id x hx).2.2.2
    have hy' := (hscan.matching hy).2.2.1
    omega
  case matching =>
    intro id e he
    rw [hout] at he
    rw [hpos]
    rcases mem_append.mp he with hold | hnew
    · obtain ⟨hhist, hacc, hlt, hle⟩ := h.matching id e hold
      exact ⟨hhist, hacc, hlt, hle.trans (hscan.mono id)⟩
    · obtain ⟨hhist, hacc, hlt, hle⟩ := hscan.matching hnew
      exact ⟨hhist, hacc, (h.mono id).trans_lt hlt, hle⟩
  case covered =>
    intro id e he hacc hlt hle
    rw [hpos] at hle
    rw [hout, map_append]
    by_cases hold : e.seq ≤ s.sub.offsets.pos id
    · rcases h.covered id e he hacc hlt hold with hmem | ⟨w, hw, hev⟩
      · exact .inl (mem_append_left _ hmem)
      · exact .inr ⟨w, mem_append_left _ hw, hev⟩
    · -- this commit moves the offset past the event
      rcases hscan.covered he hacc (not_le.mp hold) hle with hmem | ⟨hgone, hgone'⟩
      · exact .inl (mem_append_right _ hmem)
      · refine .inr ⟨_, mem_append_right _ mem_cons_self, not_le.mp hold, hle,
          hgone, fun m hm => ?_⟩
        rw [h.begun t (mem_of_getElem? ht) hact m hm id]
        exact hgone'

/-! ## Runs -/

theorem OnceInv.step {s' : Sys} {a : Action} (h : OnceInv o₀ s)
    (hG : OneConsumer s a) (hstep : step s a = some s') : OnceInv o₀ s' := by
  cases Step.of_step hstep with
  | bucketCall c => exact h.call c
  | insertSource id source =>
    exact { h with current := fun t ht => (h.current t ht).congr rfl rfl rfl rfl }
  | bumpSources => exact { h with current := fun t ht => (h.current t ht).congr rfl rfl rfl rfl }
  | pull max => exact h.pull hG max
  | snapshot i order horder t ht hpc =>
    obtain ⟨hcopy, hstored, hpred⟩ := scopeSnapshot_offsets s.sources s.sub order horder
    have hsnap : (PullPc.snapped (scopeSnapshot s.sources s.sub order horder).1
        s.log.length).Current s := hcopy
    exact (h.setPc ht (by rw [hpc]; rfl) hsnap).setSub hpred hstored
  | sleep i clock rest t scope mark outcome ht hpc =>
    exact h.setPc ht (by rw [hpc]; rfl) trivial
  | drain i clock rest t scope mark r ht hpc hr => exact h.drain ht hpc hG hr
  | wake i t scope mark r scan ht hpc => exact h.setPc ht (by rw [hpc]; rfl) trivial
  | commit i t scope mark r scan ht hpc => exact h.commit ht hpc
  | _ => exact hG.elim

theorem nodup_of_increasing : ∀ {events : List SubEvent},
    (∀ id, Increasing seq (delivered events id)) →
    (events.map fun e => (e.origin.bucketId, e.event.seq)).Nodup := by
  intro events
  induction events with
  | nil => exact fun _ => nodup_nil
  | cons e es ih =>
    intro h
    have hself : delivered (e :: es) e.origin.bucketId =
        e.event :: delivered es e.origin.bucketId := by
      unfold delivered
      rw [filter_cons, if_pos (decide_eq_true rfl), map_cons]
    have htail : ∀ id, (delivered es id).Sublist (delivered (e :: es) id) := fun id =>
      ((sublist_cons_self e es).filter _).map _
    refine nodup_cons.mpr ⟨fun hmem => ?_, ih fun id => (h id).sublist (htail id)⟩
    obtain ⟨e', he', heq⟩ := List.mem_map.mp hmem
    obtain ⟨hid, hseq⟩ := Prod.mk.inj heq
    have hin : e'.event ∈ delivered es e.origin.bucketId :=
      List.mem_map_of_mem (List.mem_filter.mpr ⟨he', decide_eq_true hid⟩)
    have hhead := h e.origin.bucketId
    rw [hself] at hhead
    have hlt := (pairwise_cons.mp hhead).1 _ hin
    omega

/-- **Exactly once.** In every run of pulls of one consumer, from any buckets and any offsets,
among any calls of other tasks: per bucket the delivered numbers increase over the whole run, no
event is delivered twice, and a matching event between the first offset and the stored one was
delivered or was gone before the pull that passed it. -/
theorem pulls_deliver_exactly_once (cs : List BucketCall) (sources : BucketSourceTable)
    (sub : Subscription) (as : List Action) (s : Sys)
    (hG : Transition.Meets step OneConsumer (start cs sources sub) as)
    (hrun : Transition.run step (start cs sources sub) as = some s) :
    ExactlyOnce sub.offsets s := by
  have h : OnceInv sub.offsets s :=
    Transition.run_invariant (fun s a s' hI hG hs => hI.step hG hs) (.start cs sources sub) hG hrun
  exact ⟨h.increasing, nodup_of_increasing h.increasing, h.matching, h.covered⟩

def twoPulls : List Action :=
  [.pull 1, .snapshot 0 [1], .drain 0 [] 0, .commit 0, .bucketCall arriveOne, .pull 0,
    .snapshot 1 [1], .drain 1 [0, 5] 7, .commit 1]

theorem two_pulls_deliver_once : ∃ s,
    Transition.run step (startOne [createOne, arriveOne]) twoPulls = some s ∧
      (deliveries s.log).length = 2 ∧ ExactlyOnce subToAll.offsets s := by
  have hrun : ∃ s ∈ Transition.run step (startOne [createOne, arriveOne]) twoPulls,
      (deliveries s.log).length = 2 := by
    decide +kernel
  have hG : Transition.Meets step OneConsumer (startOne [createOne, arriveOne]) twoPulls := by
    decide +kernel
  obtain ⟨s, hs, htwo⟩ := hrun
  exact ⟨s, hs, htwo, pulls_deliver_exactly_once _ _ _ twoPulls s hG hs⟩

end Pulls

end TerminalCommander
