import TerminalCommander.Daemon.Subscriptions.ScopeTable

/-!
# The cached scope is the recomputed one

`cached_scope_exact`: a snapshot that has read the epoch `e` returns the matching buckets whose
record was counted by `e`, and besides only matching buckets whose entry was there. So whatever was
recorded before the snapshot was called is in its scope: a scan begins after the epoch is read,
entries stay as they are, and no other epoch uses the cache.
-/

namespace TerminalCommander

namespace ScopeCache

open List Transition ScopeCache Resolving Option Nat ScopedBucket Sys

variable {s s' : Sys} {p : Predicate} {o : Offsets} {rr : Nat}

/-! ## What a snapshot knows -/

def Matching (p : Predicate) (s : Sys) (id : BucketId) (source : BucketSource) : Prop :=
  s.sources.get id = some source ∧ p.bucketInScope id source = true

def Complete (p : Predicate) (s : Sys) (epoch : Nat) (ids : List BucketId) : Prop :=
  ∀ r ∈ s.records, ∀ n, r.pc = .returned n → n ≤ epoch →
    p.bucketInScope r.id r.source = true → r.id ∈ ids

def Within (p : Predicate) (s : Sys) : Prop :=
  ∀ ids : List BucketId, ids.Nodup → (∀ id ∈ ids, ∃ source, Matching p s id source) →
    ids.length ≤ MAX_BUCKETS_PER_SUBSCRIPTION

structure CacheOk (p : Predicate) (s : Sys) (c : CachedScope) : Prop where
  le : c.dirtyEpoch ≤ s.sources.dirtyEpoch
  complete : Complete p s c.dirtyEpoch c.buckets
  sound : ∀ id ∈ c.buckets, ∃ source, Matching p s id source
  truncated : c.truncated = false

structure SubOk (p : Predicate) (o : Offsets) (rr : Nat) (s : Sys) (sub : Subscription) : Prop where
  predicate : sub.predicate = p
  offsets : sub.offsets = o
  rrStart : sub.rrStart = rr
  cached : ∀ c, sub.cachedScope = some c → CacheOk p s c

structure Reading (p : Predicate) (s : Sys) (observed : Option Nat) (e : Nat)
    (found : List ScopedBucket) (todo : List BucketId) : Prop where
  observed : observed = some e
  le : e ≤ s.sources.dirtyEpoch
  sound : ∀ b ∈ found, Matching p s b.bucketId b.source
  complete : Complete p s e (found.map ScopedBucket.bucketId ++ todo)

def SnapOk (p : Predicate) (o : Offsets) (rr : Nat) (s : Sys) (t : SnapTask) : Prop :=
  match t.pc with
  | .start => True
  | .copied sub => SubOk p o rr s sub
  | .fast sub c w => SubOk p o rr s sub ∧ Reading p s t.observed c.dirtyEpoch w.found w.todo ∧
      (∀ id ∈ w.todo, ∃ source, Matching p s id source) ∧ c.truncated = false
  | .list sub e => SubOk p o rr s sub ∧ t.observed = some e ∧ e ≤ s.sources.dirtyEpoch
  | .scan sub e w => SubOk p o rr s sub ∧ Reading p s t.observed e w.found w.todo
  | .store sub e w truncated => SubOk p o rr s sub ∧ Reading p s t.observed e w.found [] ∧
      truncated = false
  | .returned (.ok scope) => (∃ e, Reading p s t.observed e scope.buckets []) ∧
      scope.offsets = o ∧ scope.rrStart = rr ∧ scope.truncated = false
  | .returned (.error _) => True

structure Ok (p : Predicate) (o : Offsets) (rr : Nat) (s : Sys) : Prop where
  sub : ∀ sub, s.sub = some sub → SubOk p o rr s sub
  snaps : ∀ t ∈ s.snaps, SnapOk p o rr s t

/-! ## It stays so -/

variable {id : BucketId}

section

variable (hl : Later s s')

include hl

theorem Matching.later {source : BucketSource}
    (h : Matching p s id source) : Matching p s' id source := ⟨hl.map id source h.1, h.2⟩

theorem Complete.later {e : Nat} {ids : List BucketId} (h : Complete p s e ids)
    (he : e ≤ s.sources.dirtyEpoch) : Complete p s' e ids := fun r hr n hn hle hin =>
  h r (hl.counted r hr n hn (le_trans hle he)) n hn hle hin

theorem Within.of_later (h : Within p s') : Within p s :=
  fun ids hnodup hids => h ids hnodup fun id hid => by
    obtain ⟨source, hm⟩ := hids id hid
    exact ⟨source, hm.later hl⟩

theorem CacheOk.later {c : CachedScope} (h : CacheOk p s c) : CacheOk p s' c where
  le := le_trans h.le hl.dirty
  complete := h.complete.later hl h.le
  sound id hid := by
    obtain ⟨source, hm⟩ := h.sound id hid
    exact ⟨source, hm.later hl⟩
  truncated := h.truncated

theorem SubOk.later {sub : Subscription} (h : SubOk p o rr s sub) :
    SubOk p o rr s' sub :=
  ⟨h.predicate, h.offsets, h.rrStart, fun c hc => (h.cached c hc).later hl⟩

theorem Reading.later {observed : Option Nat} {e : Nat}
    {found : List ScopedBucket} {todo : List BucketId} (h : Reading p s observed e found todo) :
    Reading p s' observed e found todo :=
  ⟨h.observed, le_trans h.le hl.dirty, fun b hb => (h.sound b hb).later hl,
    h.complete.later hl h.le⟩

end

variable {t : SnapTask}

theorem SnapOk.later (hl : Later s s') (h : SnapOk p o rr s t) : SnapOk p o rr s' t := by
  obtain ⟨pc, observed⟩ := t
  cases pc with
  | start => trivial
  | copied sub => exact SubOk.later hl h
  | fast sub c w =>
    obtain ⟨hsub, hread, htodo, htrunc⟩ := h
    refine ⟨hsub.later hl, hread.later hl, fun id hid => ?_, htrunc⟩
    obtain ⟨source, hm⟩ := htodo id hid
    exact ⟨source, hm.later hl⟩
  | list sub e =>
    obtain ⟨hsub, hobs, hle⟩ := h
    exact ⟨hsub.later hl, hobs, le_trans hle hl.dirty⟩
  | scan sub e w => exact ⟨h.1.later hl, h.2.later hl⟩
  | store sub e w truncated => exact ⟨h.1.later hl, h.2.1.later hl, h.2.2⟩
  | returned result =>
    cases result with
    | error _ => trivial
    | ok scope =>
      obtain ⟨⟨e, hread⟩, hrest⟩ := h
      exact ⟨⟨e, hread.later hl⟩, hrest⟩

theorem Ok.later (hl : Later s s') (h : Ok p o rr s)
    (hsub : ∀ sub, s'.sub = some sub → s.sub = some sub)
    (hsnaps : ∀ t ∈ s'.snaps, t ∈ s.snaps ∨ t.pc = .start) : Ok p o rr s' where
  sub sub hs := (h.sub sub (hsub sub hs)).later hl
  snaps t ht := by
    rcases hsnaps t ht with ht | ht
    · exact (h.snaps t ht).later hl
    · unfold SnapOk
      rw [ht]
      trivial

/-! ## The steps of a snapshot -/

variable {r : RecordTask} {n i : Nat} {order : List BucketId}

section Steps

variable {sub : Subscription} {c : CachedScope} {w : Resolving} {e : Nat} {observed : Option Nat}

theorem later_setSnap (s : Sys) (i : Nat) (observed : Option Nat) (pc : SnapPc) :
    Later s (s.setSnap i observed pc) := later_of_eq rfl rfl

theorem later_cache (s : Sys) (c : CachedScope) : Later s (s.cache c) := later_of_eq rfl rfl

theorem Ok.setSnap (h : Ok p o rr s) (i : Nat) {pc : SnapPc}
    (hpc : SnapOk p o rr s ⟨pc, observed⟩) : Ok p o rr (s.setSnap i observed pc) where
  sub sub hs := (h.sub sub hs).later (later_setSnap s i observed pc)
  snaps t ht := by
    rcases mem_or_eq_of_mem_set ht with ht | rfl
    · exact (h.snaps t ht).later (later_setSnap s i observed pc)
    · exact hpc.later (later_setSnap s i observed pc)

theorem resolve_ok (h : SubOk p o rr s sub) :
    SnapOk p o rr s ⟨resolve sub s.sources.dirtyEpoch, some s.sources.dirtyEpoch⟩ := by
  unfold resolve
  split
  · next c hc =>
    have hcache := h.cached c hc
    split_ifs with heq
    · exact ⟨h, ⟨congrArg some heq.symm, hcache.le, fun b hb => (by cases hb), hcache.complete⟩,
        hcache.sound, hcache.truncated⟩
    · exact ⟨h, rfl, le_refl _⟩
  · exact ⟨h, rfl, le_refl _⟩

theorem Reading.take (h : Reading p s observed e w.found w.todo)
    {rest : List BucketId} (htodo : w.todo = id :: rest) {source : BucketSource}
    (hm : Matching p s id source) :
    Reading p s observed e (w.take source).found (w.take source).todo := by
  dsimp only [Resolving.take]
  rw [htodo]
  refine ⟨h.observed, h.le, fun b hb => ?_, ?_⟩
  · rcases mem_append.1 hb with hb | hb
    · exact h.sound b hb
    · rw [mem_singleton.1 hb]
      exact hm
  · have hcomplete := h.complete
    rw [htodo] at hcomplete
    rw [map_append, append_assoc]
    exact hcomplete

theorem Reading.skip (h : Reading p s observed e w.found w.todo)
    {rest : List BucketId} (htodo : w.todo = id :: rest)
    (hno : ∀ r ∈ s.records, ∀ n, r.pc = .returned n → r.id = id →
      p.bucketInScope r.id r.source = false) : Reading p s observed e w.skip.found w.skip.todo := by
  dsimp only [Resolving.skip]
  rw [htodo]
  refine ⟨h.observed, h.le, h.sound, fun r hr n hn hle hin => ?_⟩
  have hmem := h.complete r hr n hn hle hin
  rw [htodo] at hmem
  rcases mem_append.1 hmem with hmem | hmem
  · exact mem_append_left _ hmem
  · rcases mem_cons.1 hmem with heq | hmem
    · rw [hno r hr n hn heq] at hin
      cases hin
    · exact mem_append_right _ hmem

theorem Base.get_of_returned (h : Base s) (hr : r ∈ s.records)
    (hn : r.pc = .returned n) : s.sources.get r.id = some r.source := by
  refine (h.map _ _).2 ⟨r, hr, rfl, rfl, ?_⟩
  rw [hn]
  exact fun hins => by cases hins

theorem fastTurn_ok (hsub : SubOk p o rr s sub)
    (hread : Reading p s observed c.dirtyEpoch w.found w.todo)
    (htodo : ∀ id ∈ w.todo, ∃ source, Matching p s id source) (htrunc : c.truncated = false) :
    SnapOk p o rr s ⟨fastTurn s.sources sub c w, observed⟩ := by
  unfold fastTurn
  split
  · next hnil =>
    rw [hnil] at hread
    exact ⟨⟨_, hread⟩, hsub.offsets, hsub.rrStart, htrunc⟩
  · next id rest hcons =>
    obtain ⟨source, hm⟩ := htodo id (hcons ▸ mem_cons_self)
    rw [hm.1]
    refine ⟨hsub, hread.take hcons hm, fun id' hid' => htodo id' ?_, htrunc⟩
    exact mem_of_mem_tail hid'

theorem scanTurn_ok (hb : Base s) (hwithin : Within p s) (hsub : SubOk p o rr s sub)
    (hread : Reading p s observed e w.found w.todo) :
    SnapOk p o rr s ⟨scanTurn s.sources sub e w, observed⟩ := by
  unfold scanTurn
  split
  · next hnil =>
    rw [hnil] at hread
    exact ⟨hsub, hread, rfl⟩
  · next id rest hcons =>
    split
    · next hnone =>
      refine ⟨hsub, hread.skip hcons fun r hr n hn hid => ?_⟩
      have hget := hb.get_of_returned hr hn
      rw [hid, hnone] at hget
      cases hget
    · next source hsome =>
      rw [hsub.predicate]
      split_ifs with hin hfull
      · exfalso
        -- the buckets found and this one are more than can match
        have hnodup : (w.found.map bucketId ++ [id]).Nodup := by
          have hall := w.nodup
          rw [hcons] at hall
          exact hall.sublist ((Sublist.refl _).append (singleton_sublist.2
            mem_cons_self))
        have hlen := hwithin _ hnodup fun id' hid' => by
          rcases mem_append.1 hid' with hid' | hid'
          · obtain ⟨b, hbmem, rfl⟩ := List.mem_map.1 hid'
            exact ⟨b.source, hread.sound b hbmem⟩
          · rw [mem_singleton.1 hid']
            exact ⟨source, hsome, hin⟩
        rw [length_append, length_map, length_singleton] at hlen
        omega
      · exact ⟨hsub, hread.take hcons ⟨hsome, hin⟩⟩
      · refine ⟨hsub, hread.skip hcons fun r hr n hn hid => ?_⟩
        have hget := hb.get_of_returned hr hn
        rw [hid, hsome, some.injEq] at hget
        rw [hid, ← hget]
        exact Bool.eq_false_iff.2 hin

theorem list_ok (hb : Base s) (hnodup : order.Nodup)
    (hperm : order.Perm s.buckets.keys) (hobs : observed = some e) (hle : e ≤ s.sources.dirtyEpoch) :
    Reading p s observed e (start order hnodup).found
      (start order hnodup).todo :=
  ⟨hobs, hle, fun b hmem => (by cases hmem), fun r hr _ _ _ _ =>
    hperm.mem_iff.2 (hb.keys r hr)⟩

theorem Reading.sort (h : Reading p s observed e w.found []) :
    Reading p s observed e (sortScope w.found) [] := by
  have hperm : (sortScope w.found).Perm w.found := perm_insertionSort _ _
  refine ⟨h.observed, h.le, fun b hb => h.sound b (hperm.mem_iff.1 hb), ?_⟩
  intro r hr n hn hle hin
  have hmem := h.complete r hr n hn hle hin
  rw [append_nil] at hmem ⊢
  exact (hperm.map _).mem_iff.2 hmem

theorem Reading.cacheOk {buckets : List ScopedBucket} (h : Reading p s observed e buckets [])
    (hnodup : (buckets.map bucketId).Nodup) :
    CacheOk p s ⟨e, buckets.map bucketId, false, hnodup⟩ where
  le := h.le
  complete := by
    have hcomplete := h.complete
    rwa [append_nil] at hcomplete
  sound id hid := by
    obtain ⟨b, hb, rfl⟩ := List.mem_map.1 hid
    exact ⟨b.source, h.sound b hb⟩
  truncated := rfl

theorem Ok.cache (h : Ok p o rr s) (hc : CacheOk p s c) : Ok p o rr (s.cache c) where
  sub sub hs := by
    obtain ⟨sub0, hsub0, rfl⟩ := map_eq_some_iff.1 hs
    have h0 := h.sub sub0 hsub0
    refine ⟨h0.predicate, h0.offsets, h0.rrStart, fun c' hc' => ?_⟩
    rw [← some.inj hc']
    exact hc.later (later_cache s c)
  snaps t ht := (h.snaps t ht).later (later_cache s c)

theorem Ok.advance (h : Ok p o rr s) (hb : Base s) (hwithin : Within p s)
    (ht : s.snaps[i]? = some t) (hs : s.advance i t order = some s') : Ok p o rr s' := by
  have hok := h.snaps t (mem_of_getElem? ht)
  obtain ⟨pc, observed⟩ := t
  cases pc with
  | start =>
    unfold advance at hs
    dsimp only at hs
    split at hs
    · cases hs
      exact h.setSnap i trivial
    · next sub hsub =>
      cases hs
      exact h.setSnap i (h.sub sub hsub)
  | copied sub =>
    cases hs
    exact h.setSnap i (resolve_ok hok)
  | fast sub c w =>
    obtain ⟨hsub, hread, htodo, htrunc⟩ := hok
    cases hs
    exact h.setSnap i (fastTurn_ok hsub hread htodo htrunc)
  | list sub e =>
    obtain ⟨hsub, hobs, hle⟩ := hok
    unfold advance at hs
    dsimp only at hs
    split_ifs at hs with horder
    cases hs
    exact h.setSnap i ⟨hsub, list_ok hb horder.1 horder.2 hobs hle⟩
  | scan sub e w =>
    cases hs
    exact h.setSnap i (scanTurn_ok hb hwithin hok.1 hok.2)
  | store sub e w truncated =>
    obtain ⟨hsub, hread, rfl⟩ := hok
    cases hs
    have hcache := h.cache (hread.sort.cacheOk w.sorted_nodup)
    refine hcache.setSnap i ⟨⟨e, ?_⟩, hsub.offsets, hsub.rrStart, rfl⟩
    exact hread.sort.later (later_cache s _)
  | returned result => cases hs

theorem advance_same
    (hs : s.advance i t order = some s') :
    s'.buckets = s.buckets ∧ s'.sources = s.sources ∧ s'.records = s.records := by
  obtain ⟨pc, observed⟩ := t
  unfold advance at hs
  cases pc <;> dsimp only at hs
  all_goals repeat' split at hs
  all_goals cases hs
  all_goals exact ⟨rfl, rfl, rfl⟩

end Steps

/-! ## Runs -/

variable {k : Nat}

theorem Base.record (h : Base s) (hk : s.records[k]? = some r)
    (hs : s.record k r = some s') : Base s' ∧ Later s s' := by
  unfold Sys.record at hs
  split at hs
  · next hpc =>
    split_ifs at hs with hroom
    cases hs
    exact ⟨h.insert hk hpc hroom, h.later_insert hk hpc⟩
  · next hpc =>
    cases hs
    exact ⟨h.bump hk hpc, h.later_bump hk hpc⟩
  · cases hs

theorem createBucket_keys {m m' : BucketManager} {config : BucketConfig}
    {now : Time} (h : m.createBucket id config now = (.ok (), m')) : m'.keys = m.keys ++ [id] := by
  unfold BucketManager.createBucket at h
  split at h
  · cases h
  · cases h
    rfl

variable {a : Action}

theorem Base.step (h : Base s) (hs : step s a = some s') : Base s' ∧ Later s s' := by
  cases a with
  | bucketCall c =>
    cases hs
    exact ⟨h.congr (fun id hid => s.buckets.mem_keys_call c hid) rfl rfl, later_of_eq rfl rfl⟩
  | create id config now source =>
    unfold step at hs
    dsimp only at hs
    split at hs
    · cases hs
    · next m hm =>
      split_ifs at hs with hid
      cases hs
      exact ⟨h.create (createBucket_keys hm) hid, later_create⟩
  | record k =>
    unfold step at hs
    dsimp only at hs
    split at hs
    · next r hk => exact h.record hk hs
    · cases hs
  | advance i order =>
    unfold step at hs
    dsimp only at hs
    split at hs
    · obtain ⟨hbuckets, hsources, hrecs⟩ := advance_same hs
      exact ⟨h.congr (fun id hid => hbuckets ▸ hid) hsources hrecs, later_of_eq hsources hrecs⟩
    · cases hs
  | _ =>
    cases hs
    exact ⟨h.congr (fun _ hid => hid) rfl rfl, later_of_eq rfl rfl⟩

theorem record_same (hs : s.record k r = some s') : s'.sub = s.sub ∧ s'.snaps = s.snaps := by
  unfold record at hs
  split at hs
  · split_ifs at hs
    cases hs
    exact ⟨rfl, rfl⟩
  · cases hs
    exact ⟨rfl, rfl⟩
  · cases hs

theorem Ok.step (h : Ok p o rr s) (hb : Base s) (hwithin : Within p s)
    (hs : step s a = some s') : Ok p o rr s' := by
  have hl := (hb.step hs).2
  cases a with
  | bucketCall c =>
    cases hs
    exact h.later hl (fun _ hsub => hsub) fun _ ht => .inl ht
  | create id config now source =>
    unfold step at hs
    dsimp only at hs
    split at hs
    · cases hs
    · split_ifs at hs
      cases hs
      exact h.later hl (fun _ hsub => hsub) fun _ ht => .inl ht
  | record k =>
    unfold step at hs
    dsimp only at hs
    split at hs
    · obtain ⟨hsub, hsnaps⟩ := record_same hs
      exact h.later hl (fun _ h' => hsub ▸ h') fun _ ht => .inl (hsnaps ▸ ht)
    · cases hs
  | snapshot =>
    cases hs
    refine h.later hl (fun _ hsub => hsub) fun t ht => ?_
    rcases mem_append.1 ht with ht | ht
    · exact .inl ht
    · rw [mem_singleton.1 ht]
      exact .inr rfl
  | advance i order =>
    unfold step at hs
    dsimp only at hs
    split at hs
    · next t ht => exact h.advance hb hwithin ht hs
    · cases hs
  | close =>
    cases hs
    exact h.later hl (fun _ hsub => by cases hsub) fun _ ht => .inl ht

def Good (p : Predicate) (o : Offsets) (rr : Nat) (s : Sys) : Prop :=
  Base s ∧ (Within p s → Ok p o rr s)

theorem Good.step (h : Good p o rr s) (hs : step s a = some s') : Good p o rr s' := by
  obtain ⟨hb, hl⟩ := h.1.step hs
  refine ⟨hb, fun hwithin => ?_⟩
  have hwithin0 := hwithin.of_later hl
  exact (h.2 hwithin0).step h.1 hwithin0 hs

theorem init_good : Good p o rr (init (opened p o rr)) := by
  refine ⟨init_base _, fun _ => ⟨fun sub hs => ?_, fun t ht => by cases ht⟩⟩
  cases hs
  exact ⟨rfl, rfl, rfl, fun c hc => by cases hc⟩

structure Since (f m : Nat) (r : RecordTask) (s : Sys) : Prop where
  dirty : f ≤ s.sources.dirtyEpoch
  record : r ∈ s.records
  observed : ∀ (i : Nat) (t : SnapTask), m ≤ i → s.snaps[i]? = some t →
    ∀ e, t.observed = some e → f ≤ e

theorem record_mem {r' : RecordTask} (hk : s.records[k]? = some r)
    (hs : s.record k r = some s') (hr' : r' ∈ s.records) (hn : r'.pc = .returned n) :
    r' ∈ s'.records := by
  have hne : r' ≠ r ∨ s.record k r = none := by
    by_cases heq : r' = r
    · right
      unfold record
      rw [← heq, hn]
    · exact .inl heq
  rcases hne with hne | hnone
  · unfold record at hs
    split at hs
    · split_ifs at hs
      cases hs
      exact (Table.mem_set_or_eq hk hr').resolve_left hne
    · cases hs
      exact (Table.mem_set_or_eq hk hr').resolve_left hne
    · cases hs
  · rw [hnone] at hs
    cases hs

theorem advance_snaps
    (hs : s.advance i t order = some s') : ∃ t', s'.snaps = s.snaps.set i t' ∧
      (t'.observed = t.observed ∨ t'.observed = some s.sources.dirtyEpoch) := by
  obtain ⟨pc, observed⟩ := t
  cases pc with
  | start =>
    unfold advance at hs
    dsimp only at hs
    split at hs <;> cases hs <;> exact ⟨_, rfl, .inl rfl⟩
  | copied sub =>
    cases hs
    exact ⟨_, rfl, .inr rfl⟩
  | list sub e =>
    unfold advance at hs
    dsimp only at hs
    split_ifs at hs
    cases hs
    exact ⟨_, rfl, .inl rfl⟩
  | returned result => cases hs
  | _ =>
    cases hs
    exact ⟨_, rfl, .inl rfl⟩

theorem Since.step {f m : Nat} (hn : r.pc = .returned n) (hb : Base s)
    (h : Since f m r s) (hs : step s a = some s') : Since f m r s' := by
  have hdirty := le_trans h.dirty (hb.step hs).2.dirty
  cases a with
  | create id config now source =>
    unfold step at hs
    dsimp only at hs
    split at hs
    · cases hs
    · split_ifs at hs
      cases hs
      exact ⟨hdirty, mem_append_left _ h.record, h.observed⟩
  | record k =>
    unfold step at hs
    dsimp only at hs
    split at hs
    · next r' hk =>
      refine ⟨hdirty, record_mem hk hs h.record hn, ?_⟩
      rw [(record_same hs).2]
      exact h.observed
    · cases hs
  | snapshot =>
    cases hs
    refine ⟨hdirty, h.record, fun i t hi ht e he => ?_⟩
    rcases Table.getElem?_concat.1 ht with ht | ⟨-, rfl⟩
    · exact h.observed i t hi ht e he
    · cases he
  | advance i order =>
    unfold step at hs
    dsimp only at hs
    split at hs
    · next t ht =>
      refine ⟨hdirty, (advance_same hs).2.2 ▸ h.record, fun j t' hj ht' e he => ?_⟩
      obtain ⟨t'', hsnaps, hobs⟩ := advance_snaps hs
      rw [hsnaps] at ht'
      rcases Table.set_cases ht' with ⟨rfl, rfl⟩ | ⟨-, ht'⟩
      · rcases hobs with hobs | hobs
        · exact h.observed j t hj ht e (hobs ▸ he)
        · rw [hobs, some.injEq] at he
          exact he ▸ h.dirty
      · exact h.observed j t' hj ht' e he
    · cases hs
  | _ =>
    cases hs
    exact ⟨hdirty, h.record, h.observed⟩

/-! ## The scope of a snapshot -/

def Sys.matchingRecords (s : Sys) (p : Predicate) : List RecordTask :=
  s.records.filter fun r => decide (r.pc ≠ .insert) && p.bucketInScope r.id r.source

theorem Base.within (h : Base s)
    (hcap : (s.matchingRecords p).length ≤ MAX_BUCKETS_PER_SUBSCRIPTION) : Within p s := by
  intro ids hnodup hids
  have hsub : ids ⊆ (s.matchingRecords p).map RecordTask.id := by
    intro id hid
    obtain ⟨source, hget, hin⟩ := hids id hid
    obtain ⟨r, hr, rfl, rfl, hpc⟩ := (h.map id source).1 hget
    refine List.mem_map_of_mem (List.mem_filter.2 ⟨hr, ?_⟩)
    rw [hin, decide_eq_true hpc]
    rfl
  have hlen := (subperm_of_subset hnodup hsub).length_le
  rw [length_map] at hlen
  exact le_trans hlen hcap

def SnapPc.scope : SnapPc → Option Scope
  | .returned (.ok scope) => some scope
  | _ => none

theorem SnapPc.eq_of_scope {pc : SnapPc} {scope : Scope} (h : pc.scope = some scope) :
    pc = .returned (.ok scope) := by
  unfold SnapPc.scope at h
  split at h
  · rw [some.inj h]
  · cases h

theorem Reading.mem_of_id {observed : Option Nat} {e : Nat} {found : List ScopedBucket}
    (h : Reading p s observed e found []) (hb : Base s) (hr : r ∈ s.records)
    (hn : r.pc = .returned n) (hle : n ≤ e) (hin : p.bucketInScope r.id r.source) :
    ⟨r.id, r.source⟩ ∈ found := by
  have hmem := h.complete r hr n hn hle hin
  rw [append_nil] at hmem
  obtain ⟨b, hbmem, hid⟩ := List.mem_map.1 hmem
  have hget := (h.sound b hbmem).1
  rw [hid, hb.get_of_returned hr hn, some.injEq] at hget
  rw [← hid, hget]
  exact hbmem

/-- **The cached scope.** Records and snapshots run to `s₁` and on to `s₂`, and no more buckets match
than a subscription may have. A snapshot that has returned has read some epoch `e`. Its scope has the
matching buckets whose record `e` counts, and only matching buckets whose entry is there. If it was
called after `s₁`, it has every matching bucket whose record had returned by then. The offsets are
what they were. -/
theorem cached_scope_exact (predicate : Predicate) (offsets : Offsets) (rrStart : Nat)
    (as₁ as₂ : List Action) (s₁ s₂ : Sys)
    (hrun₁ : Transition.run step (init (opened predicate offsets rrStart)) as₁ = some s₁)
    (hrun₂ : Transition.run step s₁ as₂ = some s₂)
    (hcap : (s₂.matchingRecords predicate).length ≤ MAX_BUCKETS_PER_SUBSCRIPTION)
    (i : Nat) (t : SnapTask) (ht : s₂.snaps[i]? = some t) (scope : Scope)
    (hscope : t.pc.scope = some scope) :
    (∃ e, t.observed = some e ∧
      (∀ r ∈ s₂.records, ∀ n, r.pc = .returned n → n ≤ e →
        predicate.bucketInScope r.id r.source = true → ⟨r.id, r.source⟩ ∈ scope.buckets) ∧
      ∀ b ∈ scope.buckets, predicate.bucketInScope b.bucketId b.source = true ∧
        ∃ r ∈ s₂.records, r.id = b.bucketId ∧ r.source = b.source ∧ r.pc ≠ .insert) ∧
    (s₁.snaps.length ≤ i → ∀ r ∈ s₁.records, ∀ n, r.pc = .returned n →
      predicate.bucketInScope r.id r.source = true → ⟨r.id, r.source⟩ ∈ scope.buckets) ∧
    scope.offsets = offsets ∧ ∀ sub, s₂.sub = some sub → sub.offsets = offsets := by
  have hstep : ∀ s a s', Good predicate offsets rrStart s → True → step s a = some s' →
      Good predicate offsets rrStart s' := fun _ _ _ h _ hs => h.step hs
  have hgood1 : Good predicate offsets rrStart s₁ :=
    run_invariant hstep init_good (meets_true _ _) hrun₁
  have hgood2 : Good predicate offsets rrStart s₂ :=
    run_invariant hstep hgood1 (meets_true _ _) hrun₂
  have hok := hgood2.2 (hgood2.1.within hcap)
  have hsnap := hok.snaps t (mem_of_getElem? ht)
  unfold SnapOk at hsnap
  rw [SnapPc.eq_of_scope hscope] at hsnap
  obtain ⟨⟨e, hread⟩, hoffsets, -, -⟩ := hsnap
  refine ⟨⟨e, hread.observed, fun r hr n hn hle hin => hread.mem_of_id hgood2.1 hr hn hle hin,
    fun b hb => ?_⟩, fun hlater r hr n hn hin => ?_, hoffsets, fun sub hs => (hok.sub sub hs).offsets⟩
  · obtain ⟨hget, hin⟩ := hread.sound b hb
    exact ⟨hin, (hgood2.1.map _ _).1 hget⟩
  · -- the epoch had counted the record when the snapshot was called
    have hstart : Good predicate offsets rrStart s₁ ∧
        Since s₁.sources.dirtyEpoch s₁.snaps.length r s₁ := by
      refine ⟨hgood1, le_refl _, hr, fun j t' hj ht' => ?_⟩
      exact absurd (List.getElem?_eq_some_iff.1 ht').1 (not_lt.2 hj)
    have hsince := (run_invariant (G := fun _ _ => True)
      (I := fun s => Good predicate offsets rrStart s ∧
        Since s₁.sources.dirtyEpoch s₁.snaps.length r s)
      (fun _ _ _ h _ hs => ⟨h.1.step hs, h.2.step hn h.1.1 hs⟩) hstart
      (meets_true _ _) hrun₂).2
    have hle := hsince.observed i t hlater ht e hread.observed
    exact hread.mem_of_id hgood2.1 hsince.record hn
      (le_trans (hgood1.1.epochs r hr n hn) hle) hin

def scanned : List Action :=
  [.create 1 ⟨10, 60⟩ 0 ⟨none, none, none⟩, .record 0, .record 0, .snapshot, .advance 0 [],
    .advance 0 [], .advance 0 [1], .advance 0 [], .advance 0 [], .advance 0 []]

def reused : List Action :=
  [.snapshot, .advance 1 [], .advance 1 [], .advance 1 [], .advance 1 []]

theorem cached_bucket_in_scope : ∃ s₁ s₂ t scope,
    Transition.run step (init (opened ⟨none, none, .all, none⟩ (fun _ => none) 0)) scanned =
        some s₁ ∧
      Transition.run step s₁ reused = some s₂ ∧ s₂.snaps[1]? = some t ∧ t.pc.scope = some scope ∧
      ⟨1, none, none, none⟩ ∈ scope.buckets := by
  have hrun : ∃ s₁ ∈ run step
      (init (opened ⟨none, none, .all, none⟩ (fun _ => none) 0)) scanned,
      s₁.snaps.length ≤ 1 ∧ ⟨1, ⟨none, none, none⟩, .returned 1⟩ ∈ s₁.records ∧
      ∃ s₂ ∈ run step s₁ reused,
        (s₂.matchingRecords ⟨none, none, .all, none⟩).length ≤ MAX_BUCKETS_PER_SUBSCRIPTION ∧
        ∃ t ∈ s₂.snaps[1]?, t.pc.scope.isSome = true := by
    decide +kernel
  obtain ⟨s₁, hs1, hlen, hrecord, s₂, hs2, hcap, t, ht, hsome⟩ := hrun
  obtain ⟨scope, hscope⟩ := isSome_iff_exists.1 hsome
  have hexact := cached_scope_exact _ _ 0 scanned reused s₁ s₂ hs1 hs2 hcap 1 t ht scope hscope
  exact ⟨s₁, s₂, t, scope, hs1, hs2, ht, hscope, hexact.2.1 hlen _ hrecord 1 rfl rfl⟩

end ScopeCache

end TerminalCommander
