import Mathlib.Data.Nat.ModEq
import TerminalCommander.Daemon.Subscriptions.DrainSpec

/-!
# When a drain comes back empty

A drain comes back empty exactly when none of the first reads of its buckets holds an event the
allowlist admits (`drainFair_nil_iff`). With an allowlist of several kinds, which is applied behind
the read, a share of other kinds hides a matching event, and the drain is idle although something
matches.
-/

namespace TerminalCommander

open KeyedLog List BucketInner Nat

variable {inner : BucketInner}

namespace DrainCtx

variable {ctx : DrainCtx}

def firstRead (ctx : DrainCtx) (offsets : Offsets) (p i : Nat) (b : ScopedBucket)
    (inner : BucketInner) : DrainRead where
  bucketId := b.bucketId
  bucket := inner
  off := offsets.pos b.bucketId
  req := ctx.readReq (cursorOf (offsets.pos b.bucketId) inner.state)
    (min (ctx.shares.getD i 0) ctx.cap)
  now := ctx.clock p

variable (ctx) in
theorem firstRead_from (offsets : Offsets) (p i : Nat) (b : ScopedBucket) (inner : BucketInner) :
    (ctx.firstRead offsets p i b inner).From ctx inner (offsets.pos b.bucketId) := ⟨rfl, rfl, _, rfl⟩

def Untouched (ctx : DrainCtx) (m : BucketManager) (offsets : Offsets) (is : List Nat)
    (s : DrainState) : Prop :=
  ∀ i ∈ is, ∀ b, ctx.buckets[i]? = some b →
    s.buckets.inner b.bucketId = m.inner b.bucketId ∧
      s.offsets.pos b.bucketId = offsets.pos b.bucketId

def Distinct (ctx : DrainCtx) (is : List Nat) : Prop :=
  is.Pairwise fun i j => ∀ b b', ctx.buckets[i]? = some b → ctx.buckets[j]? = some b' →
    b'.bucketId ≠ b.bucketId

def Silent (ctx : DrainCtx) (m : BucketManager) (offsets : Offsets) (k : Nat) (is : List Nat) :
    Prop :=
  ∀ p i b inner, is[p]? = some i → ctx.buckets[i]? = some b → m.inner b.bucketId = some inner →
    (ctx.firstRead offsets (k + p) i b inner).resp.events.filter ctx.allows = []

variable {b : ScopedBucket} {is : List Nat} {i : Nat} {offsets : Offsets} {m : BucketManager}

theorem silent_cons {k : Nat} (hb : ctx.buckets[i]? = some b)
    (hinner : m.inner b.bucketId = some inner) : ctx.Silent m offsets k (i :: is) ↔
      (ctx.firstRead offsets k i b inner).resp.events.filter ctx.allows = [] ∧
        ctx.Silent m offsets (k + 1) is := by
  constructor
  · intro h
    refine ⟨h 0 i b inner rfl hb hinner, fun p j b' inner' hj hb' hinner' => ?_⟩
    have := h (p + 1) j b' inner' (by rw [getElem?_cons_succ]; exact hj) hb' hinner'
    rwa [add_assoc, add_comm 1 p]
  · rintro ⟨hhead, htail⟩ p j b' inner' hj hb' hinner'
    cases p with
    | zero =>
      cases hj
      rw [hb] at hb'
      cases hb'
      rw [hinner] at hinner'
      cases hinner'
      exact hhead
    | succ p =>
      rw [getElem?_cons_succ] at hj
      have := htail p j b' inner' hj hb' hinner'
      rwa [add_assoc, add_comm 1 p] at this

variable {s : DrainState}

theorem visited_ne_nil
    (hok : s.buckets.Ok) (hinner : s.buckets.inner b.bucketId = some inner)
    (hne : s.events ≠ []) : (ctx.visited b (ctx.readOf i b inner s) s).buckets.Ok ∧
      (ctx.visited b (ctx.readOf i b inner s) s).events ≠ [] := by
  refine ⟨hok.set ((ctx.readOf_from i b inner s).spec (hok _ _ hinner)).1, ?_⟩
  exact append_ne_nil_of_left_ne_nil hne _

variable {order : List Nat}

theorem Prepared.round_ne_nil (hp : ctx.Prepared order) (his : is ⊆ order)
    {s' : DrainState} (hok : s.buckets.Ok) (hne : s.events ≠ [])
    (h : ctx.round is s = .ok s') : s'.buckets.Ok ∧ s'.events ≠ [] := by
  refine round_invariant (I := fun s => s.buckets.Ok ∧ s.events ≠ []) ?_ (fun s hs => hs) his
    ⟨hok, hne⟩ h
  rintro i s1 s2 hi ⟨hok, hne⟩ - hlt hv
  obtain ⟨b, inner, -, hinner, rfl⟩ := hp.visit_cases hi hok hlt hv
  exact visited_ne_nil hok hinner hne

theorem readOf_eq_firstRead (hun : ctx.Untouched m offsets is s)
    (hi : i ∈ is) (hb : ctx.buckets[i]? = some b) (hnil : s.events = []) (inner : BucketInner) :
    ctx.readOf i b inner s = ctx.firstRead offsets s.reads.length i b inner := by
  unfold readOf firstRead
  rw [(hun i hi b hb).2, hnil]
  rfl

theorem Prepared.round_nil_iff (hp : ctx.Prepared order) : ∀ {is : List Nat}
    {s s' : DrainState}, is ⊆ order → ctx.Distinct is →
      ctx.Untouched m offsets is s → s.buckets.Ok → s.events = [] → s.stopped = false →
      0 < ctx.cap → ctx.round is s = .ok s' →
      (s'.events = [] ↔ ctx.Silent m offsets s.reads.length is) ∧
        (s'.events = [] → s'.progressed = s.progressed) := by
  intro is
  induction is with
  | nil =>
    intro s s' _ _ _ _ hnil _ _ h
    cases h
    refine ⟨⟨fun _ p i b inner hp => ?_, fun _ => hnil⟩, fun _ => rfl⟩
    cases hp
  | cons i is ih =>
    intro s s' hsub hdist hun hok hnil hrun hcap h
    have hlen : s.events.length < ctx.cap := by
      rw [hnil]
      exact hcap
    rw [round, if_neg (Bool.eq_false_iff.mp hrun), if_neg (not_le.mpr hlen)] at h
    obtain ⟨s1, hv, h⟩ := bind_eq_ok.mp h
    have hi := hsub mem_cons_self
    have hsub' : is ⊆ order := fun j hj => hsub (mem_cons_of_mem i hj)
    obtain ⟨b, inner, hb, hinner, rfl⟩ := hp.visit_cases hi hok hlen hv
    rw [readOf_eq_firstRead hun mem_cons_self hb hnil] at h
    have hm : m.inner b.bucketId = some inner := by
      rw [← (hun i mem_cons_self b hb).1]
      exact hinner
    have hok' : (s.buckets.set b.bucketId
        (ctx.firstRead offsets s.reads.length i b inner).after).Ok :=
      hok.set ((ctx.firstRead_from offsets s.reads.length i b inner).spec (hok _ _ hinner)).1
    rw [silent_cons hb hm]
    by_cases hread :
        (ctx.firstRead offsets s.reads.length i b inner).resp.events.filter ctx.allows = []
    · have hun' : ctx.Untouched m offsets is
          (ctx.visited b (ctx.firstRead offsets s.reads.length i b inner) s) := by
        intro j hj b' hb'
        have hne := (pairwise_cons.mp hdist).1 j hj b b' hb hb'
        obtain ⟨hb1, -, ho1, -⟩ := ctx.visited_of_ne
          (ctx.firstRead offsets s.reads.length i b inner) s hne
        rw [hb1, ho1]
        exact hun j (mem_cons_of_mem i hj) b' hb'
      have hnil' : (ctx.visited b (ctx.firstRead offsets s.reads.length i b inner) s).events
          = [] := by
        simp only [visited, hnil, hread, map_nil, append_nil]
      obtain ⟨hiff, hprog⟩ := ih hsub' (pairwise_cons.mp hdist).2 hun' hok' hnil' hrun hcap h
      have hany : (ctx.firstRead offsets s.reads.length i b inner).resp.events.any ctx.allows
          = false := by
        rw [List.any_eq_false]
        exact filter_eq_nil_iff.mp hread
      refine ⟨?_, fun hs' => ?_⟩
      · rw [hiff, and_iff_right hread]
        simp only [visited, length_append, length_singleton]
      · rw [hprog hs']
        simp only [visited, hany, Bool.or_false]
    · have hne : (ctx.visited b (ctx.firstRead offsets s.reads.length i b inner) s).events
          ≠ [] := by
        simp only [visited, hnil, nil_append]
        exact fun hmap => hread (map_eq_nil_iff.mp hmap)
      have hs' := (hp.round_ne_nil hsub' hok' hne h).2
      exact ⟨⟨fun hs => absurd hs hs', fun hs => absurd hs.1 hread⟩, fun hs => absurd hs hs'⟩

theorem Prepared.loop_nil_iff (hp : ctx.Prepared order)
    (hdist : ctx.Distinct order) (hm : m.Ok) (hcap : 0 < ctx.cap) {fuel : Nat}
    (h : ctx.loop order (fuel + 1) (drainStart m offsets) = .ok s) :
    s.events = [] ↔ ctx.Silent m offsets 0 order := by
  rw [loop] at h
  obtain ⟨s1, hround, h⟩ := bind_eq_ok.mp h
  have hun : ctx.Untouched m offsets order { drainStart m offsets with progressed := false } :=
    fun i _ b _ => ⟨rfl, rfl⟩
  obtain ⟨hiff, hprog⟩ := hp.round_nil_iff (fun i hi => hi) hdist hun hm rfl rfl hcap hround
  by_cases hnil : s1.events = []
  · rw [if_pos (by rw [hprog hnil, Bool.or_eq_true]; exact .inr rfl)] at h
    cases h
    exact hiff
  · -- the events of the first round stay
    have hne : s.events ≠ [] := by
      split_ifs at h
      · cases h
        exact hnil
      · have hok := (hp.round_count hm (zero_le _) hround).ok
        refine (loop_invariant (I := fun s => s.buckets.Ok ∧ s.events ≠ []) ?_ (fun s hs => hs)
          (fun s hs => hs) ⟨hok, hnil⟩ h).2
        rintro i s1 s2 hi ⟨hok, hne⟩ - hlt hv
        obtain ⟨b, inner, -, hinner, rfl⟩ := hp.visit_cases hi hok hlt hv
        exact visited_ne_nil hok hinner hne
    exact ⟨fun hs => absurd hs hne, fun hs => absurd (hiff.mpr hs) hnil⟩

end DrainCtx

/-! ## The visiting order -/

theorem visitOrder_nodup (rrStart n : Nat) : (visitOrder rrStart n).Nodup := by
  refine Nodup.map_on ?_ nodup_range
  intro i hi j hj heq
  have hmod : Nat.ModEq n i j := Nat.ModEq.add_left_cancel' rrStart heq
  exact Nat.ModEq.eq_of_lt_of_lt hmod (mem_range.mp hi) (mem_range.mp hj)

theorem drainCtx_distinct (scope : Scope) (predicate : Predicate) (cap : Nat)
    (clock : Nat → Time) (shares : List Nat) : (drainCtx scope predicate cap clock shares).Distinct
      (visitOrder scope.rrStart scope.buckets.length) := by
  refine (visitOrder_nodup _ _).imp ?_
  intro i j hij b b' hb hb' hid
  have hlt : i < (scope.buckets.map ScopedBucket.bucketId).length := by
    rw [length_map]
    exact (List.getElem?_eq_some_iff.mp hb).1
  refine hij ((getElem?_inj hlt scope.nodup).mp ?_)
  rw [getElem?_map, getElem?_map]
  have hb : scope.buckets[i]? = some b := hb
  have hb' : scope.buckets[j]? = some b' := hb'
  rw [hb, hb', Option.map_some, Option.map_some, hid]

/-! ## The empty drain -/

def shareOf (m : BucketManager) (scope : Scope) (offsets : Offsets) (cap i : Nat) : Nat :=
  match lagWeightedShares m scope offsets cap with
  | .ok shares => shares.getD i 0
  | .error _ => 0

structure VisitedAt (m : BucketManager) (scope : Scope) (p i : Nat) (b : ScopedBucket)
    (inner : BucketInner) : Prop where
  order : (visitOrder scope.rrStart scope.buckets.length)[p]? = some i
  bucket : scope.buckets[i]? = some b
  inner : m.inner b.bucketId = some inner

structure Unread (predicate : Predicate) (b : BucketInner) (off : Nat) (e : SignalEvent) :
    Prop where
  retained : e ∈ b.events
  past : cursorOf off b.state < e.seq
  accepted : predicate.accepts e.core = true

def Unexpired (b : BucketInner) (now : Time) (e : SignalEvent) : Prop :=
  BucketInner.cutoff b.config now ≤ e.timestamp

def IdleMeansNothingMatched (m : BucketManager) (scope : Scope) (offsets : Offsets)
    (predicate : Predicate) (clock : Nat → Time) (r : DrainResult) : Prop :=
  r.drained.events = [] → ∀ p i b inner, VisitedAt m scope p i b inner →
    ∀ e, Unread predicate inner (offsets.pos b.bucketId) e → ¬ Unexpired inner (clock p) e

def firstReq (m : BucketManager) (scope : Scope) (offsets : Offsets) (predicate : Predicate)
    (cap i : Nat) (b : ScopedBucket) (inner : BucketInner) : BucketReadRequest :=
  ⟨cursorOf (offsets.pos b.bucketId) inner.state, predicate.severityMin,
    (kindFilterFor predicate).1, some (min (shareOf m scope offsets cap i) cap)⟩

structure WithinShare (m : BucketManager) (scope : Scope) (offsets : Offsets)
    (predicate : Predicate) (cap : Nat) (clock : Nat → Time) (p i : Nat) (b : ScopedBucket)
    (inner : BucketInner) (e : SignalEvent) : Prop where
  retained : e ∈ (inner.evictExpired (clock p)).events
  near : ahead SignalEvent.seq e.seq ((inner.evictExpired (clock p)).events.filter
      (BucketInner.passes (firstReq m scope offsets predicate cap i b inner))) <
    BucketInner.readLimit (firstReq m scope offsets predicate cap i b inner)

def MatchWithinShare (m : BucketManager) (scope : Scope) (offsets : Offsets)
    (predicate : Predicate) (cap : Nat) (clock : Nat → Time) : Prop :=
  (∃ p i b inner e, VisitedAt m scope p i b inner ∧
      Unread predicate inner (offsets.pos b.bucketId) e ∧ Unexpired inner (clock p) e) →
    ∃ p i b inner e, VisitedAt m scope p i b inner ∧
      Unread predicate inner (offsets.pos b.bucketId) e ∧
      WithinShare m scope offsets predicate cap clock p i b inner e

variable {e : SignalEvent} {clock : Nat → Time} {predicate : Predicate} {offsets : Offsets}
  {scope : Scope} {m : BucketManager}

theorem mem_firstRead_iff {cap : Nat} {shares : List Nat}
    (hshares : lagWeightedShares m scope offsets cap = .ok shares) {p i : Nat} {b : ScopedBucket}
    (hok : inner.Ok) :
    e ∈ ((drainCtx scope predicate cap clock shares).firstRead offsets p i b inner).resp.events.filter
        (drainCtx scope predicate cap clock shares).allows ↔
      Unread predicate inner (offsets.pos b.bucketId) e ∧
        WithinShare m scope offsets predicate cap clock p i b inner e := by
  set ctx := drainCtx scope predicate cap clock shares with hctx
  have hreq : (ctx.firstRead offsets p i b inner).req =
      firstReq m scope offsets predicate cap i b inner := by
    unfold firstReq shareOf
    rw [hshares]
    rfl
  obtain ⟨gone, hev, hok', -⟩ := hok.evictExpired (clock p)
  have hpage : (ctx.firstRead offsets p i b inner).resp.events =
      page (passes (firstReq m scope offsets predicate cap i b inner))
        (readLimit (firstReq m scope offsets predicate cap i b inner))
        (inner.evictExpired (clock p)).events := by
    rw [← hreq]
    exact readSince_events _ _ _
  have hfilters : passes (firstReq m scope offsets predicate cap i b inner) e ∧
      ctx.allows e ↔ cursorOf (offsets.pos b.bucketId) inner.state < e.seq ∧
        predicate.accepts e.core := by
    rw [← hreq]
    exact ctx.passes_and_allows_iff _ _ _
  rw [List.mem_filter, hpage]
  constructor
  · rintro ⟨hmem, hallow⟩
    obtain ⟨hin, hpass⟩ := of_mem_page hmem
    obtain ⟨hlt, hacc⟩ := hfilters.mp ⟨hpass, hallow⟩
    exact ⟨⟨hev.mem hin, hlt, hacc⟩, hin, (hok'.sorted.mem_page_iff hin hpass).mp hmem⟩
  · rintro ⟨⟨-, hlt, hacc⟩, hin, hnear⟩
    obtain ⟨hpass, hallow⟩ := hfilters.mpr ⟨hlt, hacc⟩
    exact ⟨(hok'.sorted.mem_page_iff hin hpass).mpr hnear, hallow⟩

theorem drainFair_nil_iff (hm : m.Ok) {cap : Nat} (hcap : 1 ≤ cap) {r : DrainResult}
    (h : drainFair m scope offsets predicate cap clock = .ok r) :
    r.drained.events = [] ↔ ∀ p i b inner e, VisitedAt m scope p i b inner →
      Unread predicate inner (offsets.pos b.bucketId) e →
      ¬ WithinShare m scope offsets predicate cap clock p i b inner e := by
  rcases drainFair_cases h with ⟨hz, rfl⟩ | ⟨-, -, shares, s, hshares, hs, rfl⟩
  · -- without buckets there is nothing to visit
    refine ⟨fun _ p i b inner e hv => ?_, fun _ => rfl⟩
    have hlen : scope.buckets.length = 0 := by omega
    have horder := hv.order
    rw [hlen] at horder
    cases horder
  · refine Iff.trans ((drainCtx_prepared hshares predicate clock).loop_nil_iff
      (drainCtx_distinct scope predicate cap clock shares) hm hcap hs) ?_
    constructor
    · intro hsilent p i b inner e hv hun hwithin
      have hnil := hsilent p i b inner hv.order hv.bucket hv.inner
      rw [zero_add, eq_nil_iff_forall_not_mem] at hnil
      exact hnil e ((mem_firstRead_iff hshares (hm _ _ hv.inner)).mpr ⟨hun, hwithin⟩)
    · intro hnone p i b inner horder hb hinner
      rw [zero_add, eq_nil_iff_forall_not_mem]
      intro e he
      obtain ⟨hun, hwithin⟩ := (mem_firstRead_iff hshares (hm _ _ hinner)).mp he
      exact hnone p i b inner e ⟨horder, hb, hinner⟩ hun hwithin

/-! ## Idle drains -/

theorem Unexpired.retained {b : BucketInner} (hok : b.Ok) {now : Time}
    (he : e ∈ b.events) (h : Unexpired b now e) : e ∈ (b.evictExpired now).events := by
  obtain ⟨gone, hev, -, hstale⟩ := hok.evictExpired now
  rw [hev.events] at he
  rcases mem_append.mp he with hgone | hkept
  · exact absurd (hstale e hgone) (not_lt.mpr h)
  · exact hkept

theorem withinShare_of_native (hm : m.Ok) (hkind : (kindFilterFor predicate).2 = none)
    (cap : Nat) {p i : Nat} {b : ScopedBucket} (hv : VisitedAt m scope p i b inner)
    (hun : Unread predicate inner (offsets.pos b.bucketId) e)
    (hfresh : Unexpired inner (clock p) e) :
    ∃ x, Unread predicate inner (offsets.pos b.bucketId) x ∧
      WithinShare m scope offsets predicate cap clock p i b inner x := by
  set req := firstReq m scope offsets predicate cap i b inner with hreq
  have hok := hm _ _ hv.inner
  obtain ⟨gone, hev, hok', -⟩ := hok.evictExpired (clock p)
  -- the reads' filters are the predicate
  have hfilters : ∀ x : SignalEvent, passes req x ↔
      cursorOf (offsets.pos b.bucketId) inner.state < x.seq ∧
        predicate.accepts x.core := by
    intro x
    have hboth : passes req x ∧
        (drainCtx scope predicate cap clock []).allows x ↔
        cursorOf (offsets.pos b.bucketId) inner.state < x.seq ∧
          predicate.accepts x.core :=
      (drainCtx scope predicate cap clock []).passes_and_allows_iff _
        (min (shareOf m scope offsets cap i) cap) x
    refine Iff.trans (and_iff_left ?_).symm hboth
    unfold DrainCtx.allows
    rw [show (drainCtx scope predicate cap clock []).predicate = predicate from rfl, hkind]
    rfl
  have hpass := (hfilters e).mpr ⟨hun.past, hun.accepted⟩
  have hmem : e ∈ (inner.evictExpired (clock p)).events.filter (passes req) :=
    List.mem_filter.mpr ⟨hfresh.retained hok hun.retained, hpass⟩
  obtain ⟨x, rest, hx⟩ := exists_cons_of_ne_nil (ne_nil_of_mem hmem)
  have hxmem : x ∈ (inner.evictExpired (clock p)).events.filter (passes req) :=
    hx ▸ mem_cons_self
  obtain ⟨hxin, hxpass⟩ := List.mem_filter.mp hxmem
  obtain ⟨hlt, hacc⟩ := (hfilters x).mp hxpass
  refine ⟨x, ⟨hev.mem hxin, hlt, hacc⟩, hxin, ?_⟩
  refine (hok'.sorted.mem_page_iff hxin hxpass).mp ?_
  obtain ⟨k, hk⟩ := exists_eq_succ_of_ne_zero (ne_of_gt (readLimit_pos req))
  unfold page
  rw [hx, hk, take_succ_cons]
  exact mem_cons_self

/-- **Idle drains.** An idle drain means that nothing matched iff, whenever something matches, a
matching event is within the share of its bucket. -/
theorem idle_means_nothing_matched_iff (cs : List BucketCall) (scope : Scope) (offsets : Offsets)
    (predicate : Predicate) (cap : Nat) (hcap : 1 ≤ cap) (clock : Nat → Time) (r : DrainResult)
    (h : drainFair (BucketManager.new.calls cs) scope offsets predicate cap clock = .ok r) :
    IdleMeansNothingMatched (BucketManager.new.calls cs) scope offsets predicate clock r ↔
      MatchWithinShare (BucketManager.new.calls cs) scope offsets predicate cap clock := by
  have hnil := drainFair_nil_iff (BucketManager.new_ok.calls cs) hcap h
  constructor
  · rintro hidle ⟨p, i, b, inner, e, hv, hun, hfresh⟩
    by_contra hfar
    refine hidle (hnil.mpr ?_) p i b inner hv e hun hfresh
    intro p' i' b' inner' e' hv' hun' hwithin
    exact hfar ⟨p', i', b', inner', e', hv', hun', hwithin⟩
  · intro hwithin hempty p i b inner hv e hun hfresh
    obtain ⟨p', i', b', inner', e', hv', hun', hnear⟩ :=
      hwithin ⟨p, i, b, inner, e, hv, hun, hfresh⟩
    exact hnil.mp hempty p' i' b' inner' e' hv' hun' hnear

def scopeOfOne : Scope := ⟨[⟨1, ⟨none, none, none⟩⟩], fun _ => none, 0, false, by decide⟩

def twoKinds : Predicate := ⟨none, some ["a".toList, "b".toList], .all, none⟩

def otherKindFirst : List BucketCall :=
  [⟨1, .createBucket ⟨10, 3600⟩ 0⟩, ⟨1, .append (.bare 1 0 "c".toList)⟩,
    ⟨1, .append (.bare 1 0 "a".toList)⟩]

def drainOne (cap : Nat) : Except IpcError DrainResult :=
  drainFair (BucketManager.new.calls otherKindFirst) scopeOfOne (fun _ => none) twoKinds cap
    fun _ => 0

theorem idle_drain_of_two_iff : ∃ r, drainOne 2 = .ok r ∧
    (IdleMeansNothingMatched (BucketManager.new.calls otherKindFirst) scopeOfOne (fun _ => none)
        twoKinds (fun _ => 0) r ↔
      MatchWithinShare (BucketManager.new.calls otherKindFirst) scopeOfOne (fun _ => none)
        twoKinds 2 fun _ => 0) := by
  have hok : (drainOne 2).toBool = true := by decide +kernel
  rcases hr : drainOne 2 with err | r
  · rw [hr] at hok
    cases hok
  · exact ⟨r, rfl, idle_means_nothing_matched_iff otherKindFirst scopeOfOne (fun _ => none)
      twoKinds 2 (by decide) (fun _ => 0) r hr⟩

/-- With a cap of 1 the one read returns the event of the other kind, and the drain is idle
although the event behind it matches. -/
theorem idle_drain_hides_match : ∃ r, drainOne 1 = .ok r ∧
    ¬ IdleMeansNothingMatched (BucketManager.new.calls otherKindFirst) scopeOfOne
      (fun _ => none) twoKinds (fun _ => 0) r := by
  have hempty : (drainOne 1).toOption.map (fun r => r.drained.events) = some [] := by
    decide +kernel
  have hmatch : ∃ inner ∈ (BucketManager.new.calls otherKindFirst).inner 1, ∃ e ∈ inner.events,
      cursorOf 0 inner.state < e.seq ∧ twoKinds.accepts e.core = true ∧
        cutoff inner.config 0 ≤ e.timestamp := by
    decide +kernel
  rcases hr : drainOne 1 with err | r
  · rw [hr] at hempty
    cases hempty
  · rw [hr] at hempty
    obtain ⟨inner, hinner, e, he, hlt, hacc, hfresh⟩ := hmatch
    refine ⟨r, rfl, fun hidle => ?_⟩
    exact hidle (Option.some.inj hempty) 0 0 _ inner ⟨rfl, rfl, hinner⟩ e ⟨he, hlt, hacc⟩ hfresh

theorem drainLoop_of_one : let ctx := drainCtx scopeOfOne twoKinds 1 (fun _ => 0) [1]
    let s := drainStart (BucketManager.new.calls otherKindFirst) fun _ => none
    ctx.loop [0] 2 s = ctx.loop [0] 9 s :=
  DrainCtx.Prepared.drainLoop_fuel ⟨by simp [drainCtx, scopeOfOne], by decide⟩
    (.calls _ BucketManager.new_ok) (by decide) (by decide) (by decide)

end TerminalCommander
