import TerminalCommander.Daemon.Subscriptions.Drain

/-!
# What a drain does

A visit in one equation (`visit_eq`), the induction over the visits of a drain
(`loop_invariant`), and the invariant every drain keeps (`DrainInv`): the buckets only lose
events off the front, the offsets only advance, and of the events a bucket still retains, exactly
the matching ones between its first offset and its current one have been delivered, in order.
-/

namespace TerminalCommander

open KeyedLog List Function BucketInner Offsets Nat BucketManager

/-! ## Shares are positive -/

variable {offsets : Offsets} {m : BucketManager}

theorem backlogs_length :
    ∀ {bs : List ScopedBucket} {backlog : List Nat}, backlogs m offsets bs = .ok backlog →
      backlog.length = bs.length := by
  intro bs
  induction bs with
  | nil =>
    intro backlog h
    cases h
    rfl
  | cons b bs ih =>
    intro backlog h
    rw [backlogs] at h
    rcases hst : m.state b.bucketId with e | st <;> rw [hst] at h
    · cases h
    · obtain ⟨tail, htail, h⟩ := bind_eq_ok.mp h
      cases h
      rw [length_cons, length_cons, ih htail]

variable {cap : Nat} {scope : Scope}

variable {i : Nat}

theorem lagWeightedShares_pos
    {shares : List Nat} (h : lagWeightedShares m scope offsets cap = .ok shares)
    (hi : i < scope.buckets.length) : 0 < shares.getD i 0 := by
  unfold lagWeightedShares at h
  obtain ⟨backlog, hb, h⟩ := bind_eq_ok.mp h
  have hlen := backlogs_length hb
  have hshare : ∀ f : Nat → Nat, (∀ n, 0 < f n) → 0 < (backlog.map f).getD i 0 := by
    intro f hf
    rw [getD_eq_getElem?_getD, getElem?_map, getElem?_eq_getElem (by omega)]
    exact hf _
  dsimp only at h
  split_ifs at h
  · cases h
    exact hshare _ fun n => le_max_left 1 _
  · cases h
    exact hshare _ fun n => le_max_left 1 _

/-! ## One visit -/

def cursorOf (off : Nat) (st : BucketState) : Nat :=
  if off < st.headSeq - 1 then st.headSeq - 1 else off

theorem le_cursorOf (off : Nat) (st : BucketState) : off ≤ cursorOf off st := by
  unfold cursorOf
  split_ifs with h
  · exact le_of_lt h
  · exact le_refl off

variable {b : BucketInner}

theorem BucketInner.Sound.cursorOf_lt (h : b.Sound) {off : Nat}
    {e : SignalEvent} (he : e ∈ b.events) (hlt : off < e.seq) : cursorOf off b.state < e.seq := by
  have hhead := h.head_le he
  unfold cursorOf
  split_ifs with hc
  · omega
  · exact hlt

theorem BucketInner.Sound.cursorOf_le (h : b.Sound) (off : Nat) :
    cursorOf off b.state ≤ max off b.state.tailSeq := by
  have hhead : b.state.headSeq ≤ b.state.tailSeq := by
    rw [h.head]
    rcases hev : b.events with _ | ⟨e, rest⟩
    · exact le_refl _
    · exact h.seq_le_tail (hev ▸ mem_cons_self)
  unfold cursorOf
  split_ifs with hc <;> omega

def DrainRead.after (r : DrainRead) : BucketInner := r.bucket.evictExpired r.now

def DrainRead.resp (r : DrainRead) : BucketReadResponse := r.after.readSince r.bucketId r.req

variable {inner : BucketInner} {s : DrainState} {order : List Nat}

namespace DrainCtx

variable (ctx : DrainCtx)

def readOf (i : Nat) (b : ScopedBucket) (inner : BucketInner) (s : DrainState) : DrainRead where
  bucketId := b.bucketId
  bucket := inner
  off := s.offsets.pos b.bucketId
  req := ctx.readReq (cursorOf (s.offsets.pos b.bucketId) inner.state)
    (min (ctx.shares.getD i 0) (ctx.cap - s.events.length))
  now := ctx.clock s.reads.length

def visited (b : ScopedBucket) (r : DrainRead) (s : DrainState) : DrainState where
  buckets := s.buckets.set b.bucketId r.after
  offsets := Function.update s.offsets b.bucketId (some r.resp.nextCursor)
  events := s.events ++ (r.resp.events.filter ctx.allows).map b.subEvent
  lagged := s.lagged || decide (r.off < r.bucket.state.headSeq - 1) ||
    decide (0 < r.bucket.state.droppedCount)
  progressed := s.progressed || r.resp.events.any ctx.allows
  stopped := s.stopped
  reads := s.reads ++ [r]

theorem pushEvents_eq (b : ScopedBucket) : ∀ (evs : List SignalEvent) (s : DrainState),
    s.events.length + evs.length ≤ ctx.cap →
    ctx.pushEvents b evs s = { s with
      events := s.events ++ (evs.filter ctx.allows).map b.subEvent
      progressed := s.progressed || evs.any ctx.allows } := by
  intro evs
  induction evs with
  | nil =>
    intro s _
    simp [pushEvents]
  | cons ev rest ih =>
    intro s hle
    rw [length_cons] at hle
    rw [pushEvents]
    split_ifs with hallow hfull
    · omega
    · rw [ih _ (by simp only [length_append, length_singleton]; omega)]
      simp [hallow]
    · rw [ih s (by omega)]
      simp [hallow]

theorem readLimit_readReq (cursor want : Nat) (h : 0 < want) :
    readLimit (ctx.readReq cursor want) ≤ want := by
  unfold readLimit readReq
  simp only [Option.getD_some]
  omega

variable {ctx}

theorem readBucket_eq {b : ScopedBucket} {off cursor want : Nat}
    (hinner : s.buckets.inner b.bucketId = some inner) (hok : inner.Ok)
    (hwant : 0 < want) (hle : want ≤ ctx.cap - s.events.length) (hcap : s.events.length < ctx.cap) :
    let r : DrainRead :=
      ⟨b.bucketId, inner, off, ctx.readReq cursor want, ctx.clock s.reads.length⟩
    ctx.readBucket b inner off cursor want s = .ok { s with
      buckets := s.buckets.set b.bucketId r.after
      offsets := update s.offsets b.bucketId (some r.resp.nextCursor)
      events := s.events ++ (r.resp.events.filter ctx.allows).map b.subEvent
      progressed := s.progressed || r.resp.events.any ctx.allows
      reads := s.reads ++ [r] } := by
  intro r
  obtain ⟨gone, -, hok', -⟩ := hok.evictExpired (ctx.clock s.reads.length)
  have hspec : BucketInner.ReadSpec r.after r.req r.resp :=
    hok'.toSound.readSince b.bucketId (ctx.readReq cursor want)
  have hlen := le_trans hspec.length_le (ctx.readLimit_readReq cursor want hwant)
  have hnext : (if cursor < r.resp.nextCursor then r.resp.nextCursor else cursor) =
      r.resp.nextCursor := by
    have hcur : cursor ≤ r.resp.nextCursor := hspec.cursor_le
    split_ifs with hlt
    · rfl
    · omega
  have hread : s.buckets.eventsSince b.bucketId (ctx.readReq cursor want)
      (ctx.clock s.reads.length) = (.ok r.resp, s.buckets.set b.bucketId r.after) := by
    unfold eventsSince
    rw [hinner]
    rfl
  unfold readBucket
  simp only [hread, hnext]
  rw [pushEvents_eq ctx b r.resp.events _ (by dsimp only; omega)]

theorem visit_eq {b : ScopedBucket}
    (hb : ctx.buckets[i]? = some b) (hinner : s.buckets.inner b.bucketId = some inner)
    (hok : inner.Ok) (hshare : 0 < ctx.shares.getD i 0) (hcap : s.events.length < ctx.cap) :
    ctx.visit i s = .ok (ctx.visited b (ctx.readOf i b inner s) s) := by
  have hwant : 0 < min (ctx.shares.getD i 0) (ctx.cap - s.events.length) := by omega
  unfold visit
  simp only [hb, hinner, if_neg (ne_of_gt hwant)]
  refine Eq.trans (readBucket_eq ?_ hok hwant (min_le_right _ _) ?_) ?_
  · exact hinner
  · exact hcap
  · simp only [update_idem]
    rfl

/-! ## The visits of a drain -/

section

variable {I : DrainState → Prop}
    (hvisit : ∀ i s s', i ∈ order → I s → s.stopped = false → s.events.length < ctx.cap →
    ctx.visit i s = .ok s' → I s') (hstop : ∀ s, I s → I { s with stopped := true })

include hvisit hstop

theorem round_invariant :
    ∀ {is : List Nat} {s s' : DrainState}, is ⊆ order → I s → ctx.round is s = .ok s' → I s' := by
  intro is
  induction is with
  | nil =>
    intro s s' _ hI h
    cases h
    exact hI
  | cons i is ih =>
    intro s s' hsub hI h
    rw [round] at h
    split_ifs at h with hs hfull
    · cases h
      exact hI
    · cases h
      exact hstop s hI
    · obtain ⟨s1, hv, h⟩ := bind_eq_ok.mp h
      have hI1 := hvisit i s s1 (hsub mem_cons_self) hI (Bool.eq_false_iff.mpr hs)
        (not_le.mp hfull) hv
      exact ih (fun j hj => hsub (mem_cons_of_mem i hj)) hI1 h

theorem loop_invariant (hstart : ∀ s, I s → I { s with progressed := false }) :
    ∀ {fuel : Nat} {s s' : DrainState}, I s → ctx.loop order fuel s = .ok s' → I s' := by
  intro fuel
  induction fuel with
  | zero =>
    intro s s' hI h
    cases h
    exact hI
  | succ fuel ih =>
    intro s s' hI h
    rw [loop] at h
    obtain ⟨s1, hround, h⟩ := bind_eq_ok.mp h
    have hI1 := round_invariant hvisit hstop (fun i hi => hi) (hstart s hI) hround
    split_ifs at h
    · cases h
      exact hI1
    · exact ih hI1 h

end

end DrainCtx

/-! ## The filters of a visit -/

theorem DrainCtx.passes_and_allows (ctx : DrainCtx) (cursor want : Nat) (e : SignalEvent) :
    (passes (ctx.readReq cursor want) e && ctx.allows e) =
      (decide (cursor < e.seq) && ctx.predicate.accepts e.core) := by
  unfold passes readReq allows Predicate.accepts kindFilterFor SignalEvent.core
  rcases ctx.predicate.kind with _ | _ | ⟨k, _ | ⟨k', ks⟩⟩ <;> simp [Bool.and_assoc]

theorem DrainCtx.passes_and_allows_iff (ctx : DrainCtx) (cursor want : Nat) (e : SignalEvent) :
    passes (ctx.readReq cursor want) e ∧ ctx.allows e ↔
      cursor < e.seq ∧ ctx.predicate.accepts e.core := by
  have h := ctx.passes_and_allows cursor want e
  rw [← Bool.and_eq_true, h, Bool.and_eq_true, decide_eq_true_eq]

/-! ## One bucket during a drain -/

structure BucketDrained (predicate : Predicate) (b₀ b : BucketInner) (o₀ o : Nat)
    (out : List SignalEvent) : Prop where
  ok : b.Ok
  shrunk : ∃ gone, BucketInner.Evicts b₀ b gone
  mono : o₀ ≤ o
  bound : o ≤ max o₀ b.state.tailSeq
  sorted : Increasing SignalEvent.seq out
  range : ∀ e ∈ out, o₀ < e.seq ∧ e.seq ≤ o
  sound : ∀ e ∈ out, e ∈ b₀.events ∧ predicate.accepts e.core = true
  complete : ∀ e ∈ b.events, predicate.accepts e.core = true → o₀ < e.seq → e.seq ≤ o → e ∈ out

theorem BucketDrained.start (predicate : Predicate) (hok : b.Ok) (o : Nat) :
    BucketDrained predicate b b o o [] where
  ok := hok
  shrunk := ⟨[], .refl b⟩
  mono := le_refl o
  bound := le_max_left _ _
  sorted := List.Pairwise.nil
  range := fun _ he => absurd he not_mem_nil
  sound := fun _ he => absurd he not_mem_nil
  complete := fun _ _ _ hlt hle => absurd hlt (not_lt.mpr hle)

structure DrainRead.From (r : DrainRead) (ctx : DrainCtx) (b : BucketInner) (o : Nat) : Prop where
  bucket : r.bucket = b
  off : r.off = o
  req : ∃ want, r.req = ctx.readReq (cursorOf o b.state) want

variable {o : Nat} {ctx : DrainCtx} {r : DrainRead}

theorem DrainRead.From.spec (h : r.From ctx b o) (hok : b.Ok) : r.after.Ok ∧
      (∃ gone, BucketInner.Evicts b r.after gone ∧
        ∀ e ∈ gone, e.timestamp < cutoff b.config r.now) ∧
      BucketInner.ReadSpec r.after r.req r.resp ∧ r.req.cursor = cursorOf o b.state := by
  obtain ⟨want, hreq⟩ := h.req
  obtain ⟨gone, hev, hok', hstale⟩ := hok.evictExpired r.now
  unfold DrainRead.resp DrainRead.after
  rw [h.bucket]
  exact ⟨hok', ⟨gone, hev, hstale⟩, hok'.toSound.readSince r.bucketId r.req, by rw [hreq]; rfl⟩

theorem DrainRead.From.mem_filter (h : r.From ctx b o) (hok : b.Ok) {e : SignalEvent} :
    e ∈ r.resp.events.filter ctx.allows ↔ e ∈ r.after.events ∧
      cursorOf o b.state < e.seq ∧ e.seq ≤ r.resp.nextCursor ∧
      ctx.predicate.accepts e.core := by
  obtain ⟨-, -, hspec, -⟩ := h.spec hok
  obtain ⟨want, hreq⟩ := h.req
  rw [List.mem_filter]
  constructor
  · rintro ⟨he, hallow⟩
    obtain ⟨hin, hpass⟩ := hspec.retained e he
    rw [hreq] at hpass
    obtain ⟨hlt, hacc⟩ := (ctx.passes_and_allows_iff _ _ _).mp ⟨hpass, hallow⟩
    exact ⟨hin, hlt, hspec.le_next e he, hacc⟩
  · rintro ⟨hin, hlt, hle, hacc⟩
    obtain ⟨hpass, hallow⟩ := (ctx.passes_and_allows_iff _ _ _).mpr ⟨hlt, hacc⟩
    exact ⟨hspec.complete e hin (by rw [hreq]; exact hpass) hle, hallow⟩

theorem BucketDrained.read {b0 : BucketInner} {o0 : Nat}
    {out : List SignalEvent} (h : BucketDrained ctx.predicate b0 b o0 o out) (hr : r.From ctx b o) :
    BucketDrained ctx.predicate b0 r.after o0 r.resp.nextCursor
      (out ++ r.resp.events.filter ctx.allows) := by
  obtain ⟨hok', ⟨gone, hev, -⟩, hspec, hcursor⟩ := hr.spec h.ok
  obtain ⟨gone0, hev0⟩ := h.shrunk
  have hcur : o ≤ cursorOf o b.state := le_cursorOf o b.state
  have hbound := h.ok.toSound.cursorOf_le o
  have hnext := hspec.cursor_le
  have hle := hspec.next_le
  have htail := hev.tail
  have hmono := h.mono
  have hob := h.bound
  refine ⟨hok', ⟨_, hev0.trans hev⟩, by omega, by omega, ?_, ?_, ?_, ?_⟩
  · refine pairwise_append.mpr ⟨h.sorted, hspec.sorted.sublist filter_sublist, ?_⟩
    intro x hx y hy
    have hxo := (h.range x hx).2
    have hyc := ((hr.mem_filter h.ok).mp hy).2.1
    omega
  · intro e he
    rcases mem_append.mp he with he | he
    · have hrange := h.range e he
      omega
    · obtain ⟨-, hlt, hle', -⟩ := (hr.mem_filter h.ok).mp he
      omega
  · intro e he
    rcases mem_append.mp he with he | he
    · exact h.sound e he
    · obtain ⟨hin, -, -, hacc⟩ := (hr.mem_filter h.ok).mp he
      exact ⟨hev0.mem (hev.mem hin), hacc⟩
  · intro e he hacc hlt hle'
    by_cases hold : e.seq ≤ o
    · exact mem_append_left _ (h.complete e (hev.mem he) hacc hlt hold)
    · -- past the old offset a retained event is past the clamped one too
      have hc := h.ok.toSound.cursorOf_lt (hev.mem he) (not_le.mp hold)
      exact mem_append_right _ ((hr.mem_filter h.ok).mpr ⟨he, hc, hle', hacc⟩)

/-! ## All buckets during a drain -/

def delivered (events : List SubEvent) (id : BucketId) : List SignalEvent :=
  (events.filter fun e => decide (e.origin.bucketId = id)).map SubEvent.event

theorem delivered_append (xs ys : List SubEvent) (id : BucketId) :
    delivered (xs ++ ys) id = delivered xs id ++ delivered ys id := by
  unfold delivered
  rw [filter_append, map_append]

theorem delivered_subEvent_self (b : ScopedBucket) (evs : List SignalEvent) :
    delivered (evs.map b.subEvent) b.bucketId = evs := by
  unfold delivered
  rw [filter_eq_self.mpr (by simp [ScopedBucket.subEvent]), List.map_map]
  exact List.map_id _

variable {id : BucketId}

theorem delivered_subEvent_of_ne {b : ScopedBucket} (h : id ≠ b.bucketId)
    (evs : List SignalEvent) : delivered (evs.map b.subEvent) id = [] := by
  unfold delivered
  rw [filter_eq_nil_iff.mpr (by simp [ScopedBucket.subEvent, h.symm])]
  rfl

theorem Offsets.pos_update_self (offsets : Offsets) (id : BucketId) (n : Nat) :
    pos (update offsets id (some n)) id = n := by
  unfold pos
  rw [update_self]
  rfl

theorem Offsets.pos_update_of_ne (offsets : Offsets) {id' : BucketId} (h : id' ≠ id)
    (n : Option Nat) : pos (update offsets id n) id' = offsets.pos id' := by
  unfold pos
  rw [update_of_ne h]

structure DrainInv (predicate : Predicate) (m₀ : BucketManager) (off₀ : Offsets)
    (s : DrainState) : Prop where
  keys : s.buckets.keys = m₀.keys
  present : ∀ id b₀, m₀.inner id = some b₀ → ∃ b, s.buckets.inner id = some b ∧
    BucketDrained predicate b₀ b (off₀.pos id) (s.offsets.pos id) (delivered s.events id)
  absent : ∀ id, m₀.inner id = none → s.buckets.inner id = none ∧
    s.offsets.pos id = off₀.pos id ∧ delivered s.events id = []
  tracked : ∀ id, s.offsets id = none → off₀ id = none

theorem DrainInv.start (h : m.Ok) (predicate : Predicate) (offsets : Offsets) :
    DrainInv predicate m offsets (drainStart m offsets) where
  keys := rfl
  present := fun id b hb => ⟨b, hb, .start predicate (h id b hb) _⟩
  absent := fun _ hid => ⟨hid, rfl, rfl⟩
  tracked := fun _ hid => hid

variable {predicate : Predicate}

variable {m₀ : BucketManager} {off₀ : Offsets}

theorem DrainInv.exists_start (h : DrainInv predicate m₀ off₀ s)
    (hb : s.buckets.inner id = some b) : ∃ b0, m₀.inner id = some b0 ∧
      BucketDrained predicate b0 b (off₀.pos id) (s.offsets.pos id) (delivered s.events id) := by
  rcases h0 : m₀.inner id with _ | b0
  · rw [(h.absent id h0).1] at hb
    cases hb
  · obtain ⟨b', hb', hd⟩ := h.present id b0 h0
    rw [hb] at hb'
    cases hb'
    exact ⟨b0, rfl, hd⟩

theorem DrainInv.ok (h : DrainInv predicate m₀ off₀ s) : s.buckets.Ok := by
  intro id b hb
  obtain ⟨_, _, hd⟩ := h.exists_start hb
  exact hd.ok

namespace DrainCtx

variable {ctx : DrainCtx}

variable (ctx) in
theorem readOf_from (i : Nat) (b : ScopedBucket) (inner : BucketInner) (s : DrainState) :
    (ctx.readOf i b inner s).From ctx inner (s.offsets.pos b.bucketId) := ⟨rfl, rfl, _, rfl⟩

variable (ctx) in
theorem visited_of_ne {b : ScopedBucket} (r : DrainRead) (s : DrainState) {id : BucketId}
    (h : id ≠ b.bucketId) : (ctx.visited b r s).buckets.inner id = s.buckets.inner id ∧
      (ctx.visited b r s).offsets id = s.offsets id ∧
      (ctx.visited b r s).offsets.pos id = s.offsets.pos id ∧
      delivered (ctx.visited b r s).events id = delivered s.events id := by
  refine ⟨set_inner_of_ne _ _ h, update_of_ne h _ _, pos_update_of_ne _ h _, ?_⟩
  change delivered (s.events ++ _) id = _
  rw [delivered_append, delivered_subEvent_of_ne h, append_nil]

variable (ctx) in
theorem visited_self (b : ScopedBucket) (r : DrainRead) (s : DrainState) :
    (ctx.visited b r s).buckets.inner b.bucketId = some r.after ∧
      (ctx.visited b r s).offsets.pos b.bucketId = r.resp.nextCursor ∧
      delivered (ctx.visited b r s).events b.bucketId =
        delivered s.events b.bucketId ++ r.resp.events.filter ctx.allows := by
  refine ⟨set_inner_self _ _ _, pos_update_self _ _ _, ?_⟩
  change delivered (s.events ++ _) _ = _
  rw [delivered_append, delivered_subEvent_self]

theorem visited_inv {b : ScopedBucket} (h : DrainInv ctx.predicate m₀ off₀ s)
    (hinner : s.buckets.inner b.bucketId = some inner) (i : Nat) :
    DrainInv ctx.predicate m₀ off₀ (ctx.visited b (ctx.readOf i b inner s) s) := by
  obtain ⟨b0, hb0, hd⟩ := h.exists_start hinner
  obtain ⟨hself, hpos, hout⟩ := ctx.visited_self b (ctx.readOf i b inner s) s
  refine ⟨h.keys, ?_, ?_, ?_⟩
  · intro id b1 hb1
    by_cases hid : id = b.bucketId
    · subst hid
      rw [hb0] at hb1
      cases hb1
      rw [hpos, hout]
      exact ⟨_, hself, hd.read (ctx.readOf_from i b inner s)⟩
    · obtain ⟨hb', -, ho', hd'⟩ := ctx.visited_of_ne (ctx.readOf i b inner s) s hid
      rw [hb', ho', hd']
      exact h.present id b1 hb1
  · intro id hnone
    have hid : id ≠ b.bucketId := by
      rintro rfl
      rw [hb0] at hnone
      cases hnone
    obtain ⟨hb', -, ho', hd'⟩ := ctx.visited_of_ne (ctx.readOf i b inner s) s hid
    rw [hb', ho', hd']
    exact h.absent id hnone
  · intro id hnone
    by_cases hid : id = b.bucketId
    · subst hid
      change update s.offsets _ _ _ = none at hnone
      rw [update_self] at hnone
      cases hnone
    · rw [(ctx.visited_of_ne (ctx.readOf i b inner s) s hid).2.1] at hnone
      exact h.tracked id hnone

/-! ## The run of a drain -/

structure Prepared (ctx : DrainCtx) (order : List Nat) : Prop where
  bucket : ∀ i ∈ order, ∃ b, ctx.buckets[i]? = some b
  share : ∀ i ∈ order, 0 < ctx.shares.getD i 0

variable {s' : DrainState}

theorem Prepared.visit_cases (hp : ctx.Prepared order)
    (hi : i ∈ order) (hok : s.buckets.Ok) (hcap : s.events.length < ctx.cap)
    (h : ctx.visit i s = .ok s') : ∃ b inner, ctx.buckets[i]? = some b ∧
      s.buckets.inner b.bucketId = some inner ∧ s' = ctx.visited b (ctx.readOf i b inner s) s := by
  obtain ⟨b, hb⟩ := hp.bucket i hi
  rcases hinner : s.buckets.inner b.bucketId with _ | inner
  · unfold visit at h
    simp only [hb, hinner] at h
    cases h
  · rw [visit_eq hb hinner (hok _ _ hinner) (hp.share i hi) hcap] at h
    cases h
    exact ⟨b, inner, hb, hinner, rfl⟩

theorem visited_length_le {b : ScopedBucket}
    (hok : inner.Ok) (hshare : 0 < ctx.shares.getD i 0) (hcap : s.events.length < ctx.cap) :
    (ctx.visited b (ctx.readOf i b inner s) s).events.length ≤ ctx.cap := by
  have hfrom : (ctx.readOf i b inner s).From ctx inner _ := ctx.readOf_from i b inner s
  obtain ⟨-, -, hspec, -⟩ := hfrom.spec hok
  have hlen := le_trans hspec.length_le (ctx.readLimit_readReq _ _ (by omega))
  have hfilter := length_filter_le ctx.allows (ctx.readOf i b inner s).resp.events
  simp only [visited, length_append, length_map]
  omega

theorem Prepared.loop_induction (hp : ctx.Prepared order) {I : DrainState → Prop}
    (hvisit : ∀ i b inner s, ctx.buckets[i]? = some b → s.buckets.inner b.bucketId = some inner →
      DrainInv ctx.predicate m₀ off₀ s → I s → I (ctx.visited b (ctx.readOf i b inner s) s))
    (hflags : ∀ s p q, I s → I { s with progressed := p, stopped := q }) {fuel : Nat}
    (hinv : DrainInv ctx.predicate m₀ off₀ s) (hI : I s)
    (h : ctx.loop order fuel s = .ok s') : DrainInv ctx.predicate m₀ off₀ s' ∧ I s' := by
  have hkeep : ∀ (s : DrainState) p q, DrainInv ctx.predicate m₀ off₀ s ∧ I s →
      DrainInv ctx.predicate m₀ off₀ { s with progressed := p, stopped := q } ∧
        I { s with progressed := p, stopped := q } :=
    fun s p q hs => ⟨⟨hs.1.keys, hs.1.present, hs.1.absent, hs.1.tracked⟩, hflags s p q hs.2⟩
  refine loop_invariant (I := fun s => DrainInv ctx.predicate m₀ off₀ s ∧ I s) ?_
    (fun s hs => hkeep s _ _ hs) (fun s hs => hkeep s _ _ hs) ⟨hinv, hI⟩ h
  rintro i s s' hi ⟨hinv, hI⟩ - hcap hv
  obtain ⟨b, inner, hb, hinner, rfl⟩ := hp.visit_cases hi hinv.ok hcap hv
  exact ⟨visited_inv hinv hinner i, hvisit i b inner s hb hinner hinv hI⟩

/-! ## The fuel -/

structure RoundCount (ctx : DrainCtx) (n : Nat) (s : DrainState) : Prop where
  ok : s.buckets.Ok
  start : n ≤ s.events.length
  progressed : s.progressed = true → n < s.events.length
  cap : s.events.length ≤ ctx.cap

theorem Prepared.round_count (hp : ctx.Prepared order)
    (hok : s.buckets.Ok) (hcap : s.events.length ≤ ctx.cap)
    (h : ctx.round order { s with progressed := false } = .ok s') :
    RoundCount ctx s.events.length s' := by
  refine round_invariant (I := RoundCount ctx s.events.length) ?_ ?_ (fun i hi => hi) ?_ h
  · rintro i s1 s2 hi hI - hlt hv
    obtain ⟨b, inner, hb, hinner, rfl⟩ := hp.visit_cases hi hI.ok hlt hv
    have hinnerOk := hI.ok _ _ hinner
    have hfrom : (ctx.readOf i b inner s1).From ctx inner _ := ctx.readOf_from i b inner s1
    have hlen : s1.events.length ≤
        (ctx.visited b (ctx.readOf i b inner s1) s1).events.length := by
      simp only [visited, length_append]
      omega
    refine ⟨hI.ok.set (hfrom.spec hinnerOk).1, hI.start.trans hlen, ?_,
      visited_length_le hinnerOk (hp.share i hi) hlt⟩
    intro hprog
    rcases Bool.or_eq_true _ _ ▸ hprog with hprog | hany
    · exact lt_of_lt_of_le (hI.progressed hprog) hlen
    · -- an admitted event of this read was pushed
      obtain ⟨e, he, hallow⟩ := List.any_eq_true.mp hany
      have hpos := length_pos_of_mem (List.mem_filter.mpr ⟨he, hallow⟩)
      have hstart := hI.start
      simp only [visited, length_append, length_map]
      omega
  · exact fun s hI => ⟨hI.ok, hI.start, hI.progressed, hI.cap⟩
  · exact ⟨hok, le_refl _, Bool.false_ne_true.elim, hcap⟩

theorem Prepared.drainLoop_fuel (hp : ctx.Prepared order) :
    ∀ {fuel fuel' : Nat} {s : DrainState}, s.buckets.Ok → s.events.length ≤ ctx.cap →
      ctx.cap - s.events.length < fuel → fuel ≤ fuel' →
      ctx.loop order fuel s = ctx.loop order fuel' s := by
  intro fuel
  induction fuel with
  | zero =>
    intro fuel' s _ _ hlt
    omega
  | succ fuel ih =>
    intro fuel' s hok hcap hlt hle
    obtain ⟨fuel', rfl⟩ : ∃ k, fuel' = k + 1 := ⟨fuel' - 1, by omega⟩
    rw [loop, loop]
    rcases hround : ctx.round order { s with progressed := false } with e | s1
    · rfl
    · have hcount := hp.round_count hok hcap hround
      change (if _ then _ else _) = (if _ then _ else _)
      split_ifs with hend
      · rfl
      · -- the loop goes on only after a round that delivered
        have hprog : s1.progressed := by
          simp only [Bool.or_eq_true, Bool.not_eq_true', not_or, Bool.not_eq_false] at hend
          exact hend.2
        have hgrow := hcount.progressed hprog
        have hcap1 := hcount.cap
        exact ih hcount.ok hcap1 (by omega) (by omega)

end DrainCtx

/-! ## The whole drain -/

theorem mem_visitOrder {rrStart n : Nat} (h : i ∈ visitOrder rrStart n) : i < n := by
  obtain ⟨k, hk, rfl⟩ := List.mem_map.mp h
  exact mod_lt _ (lt_of_le_of_lt (zero_le k) (mem_range.mp hk))

theorem drainCtx_prepared
    {shares : List Nat} (h : lagWeightedShares m scope offsets cap = .ok shares)
    (predicate : Predicate) (clock : Nat → Time) :
    (drainCtx scope predicate cap clock shares).Prepared
      (visitOrder scope.rrStart scope.buckets.length) where
  bucket := fun _ hi => ⟨_, getElem?_eq_getElem (mem_visitOrder hi)⟩
  share := fun _ hi => lagWeightedShares_pos h (mem_visitOrder hi)

def DrainResult.state (r : DrainResult) : DrainState :=
  ⟨r.buckets, r.offsets, r.drained.events, r.drained.lagged, false, false, r.reads⟩

variable {clock : Nat → Time}

theorem drainFair_cases {r : DrainResult}
    (h : drainFair m scope offsets predicate cap clock = .ok r) :
    ((scope.buckets.length = 0 ∨ cap = 0) ∧ r = ⟨⟨[], false, 0⟩, offsets, m, []⟩) ∨
      (0 < scope.buckets.length ∧ 0 < cap ∧ ∃ shares s,
        lagWeightedShares m scope offsets cap = .ok shares ∧
        (drainCtx scope predicate cap clock shares).loop
          (visitOrder scope.rrStart scope.buckets.length) (cap + 1) (drainStart m offsets) = .ok s ∧
        r = ⟨⟨s.events, s.lagged, (scope.rrStart + 1) % scope.buckets.length⟩, s.offsets,
          s.buckets, s.reads⟩) := by
  unfold drainFair at h
  dsimp only at h
  split_ifs at h with hz
  · cases h
    exact .inl ⟨hz, rfl⟩
  · obtain ⟨shares, hshares, h⟩ := bind_eq_ok.mp h
    obtain ⟨s, hs, h⟩ := bind_eq_ok.mp h
    cases h
    exact .inr ⟨by omega, by omega, shares, s, hshares, hs, rfl⟩

theorem drainFair_induction (hm : m.Ok) {I : DrainState → Prop} (hstart : I (drainStart m offsets))
    (hvisit : ∀ shares i b inner s, scope.buckets[i]? = some b →
      s.buckets.inner b.bucketId = some inner → DrainInv predicate m offsets s → I s →
      I ((drainCtx scope predicate cap clock shares).visited b
        ((drainCtx scope predicate cap clock shares).readOf i b inner s) s))
    (hflags : ∀ s p q, I s → I { s with progressed := p, stopped := q }) {r : DrainResult}
    (h : drainFair m scope offsets predicate cap clock = .ok r) :
    DrainInv predicate m offsets r.state ∧ I r.state := by
  have hinv := DrainInv.start hm predicate offsets
  rcases drainFair_cases h with ⟨-, rfl⟩ | ⟨-, -, shares, s, hshares, hs, rfl⟩
  · exact ⟨hinv, hstart⟩
  · obtain ⟨hinv', hI⟩ := (drainCtx_prepared hshares predicate clock).loop_induction
      (hvisit shares) hflags hinv hstart hs
    exact ⟨⟨hinv'.keys, hinv'.present, hinv'.absent, hinv'.tracked⟩, hflags s false false hI⟩

theorem drainFair_inv (hm : m.Ok) {r : DrainResult}
    (h : drainFair m scope offsets predicate cap clock = .ok r) :
    DrainInv predicate m offsets r.state :=
  (drainFair_induction (I := fun _ => True) hm trivial (fun _ _ _ _ _ _ _ _ _ => trivial)
    (fun _ _ _ _ => trivial) h).1

end TerminalCommander
