import TerminalCommander.Daemon.Subscriptions.Pull

/-!
# Lag is reported

`lagged` comes from the state a visit reads before its own `events_since`, which may expire events
of the bucket it then delivers from. A pull that is not flagged has lost something exactly when one
of its reads expired a matching event past its cursor and still found an event to return: the
cursor then passes the lost event, and unless the bucket is visited again nothing flags it.
-/

namespace TerminalCommander

open KeyedLog List BucketManager SignalEvent

def DrainRead.Flags (r : DrainRead) : Prop :=
  r.off < r.bucket.state.headSeq - 1 ∨ 0 < r.bucket.state.droppedCount

structure DrainRead.Loses (r : DrainRead) (predicate : Predicate) : Prop where
  lost : ∃ e ∈ r.bucket.events, e ∉ r.after.events ∧ predicate.accepts e.core = true ∧
    r.req.cursor < e.seq
  found : ∃ x ∈ r.after.events, BucketInner.passes r.req x = true

/-! ## One bucket -/

structure BucketLag (predicate : Predicate) (b₀ b : BucketInner) (o₀ o : Nat)
    (out : List SignalEvent) (reads : List DrainRead) : Prop where
  moved : (∀ r ∈ reads, ¬ r.Flags) → o = o₀ ∨ b₀.state.droppedCount = 0
  covered : (∀ r ∈ reads, ¬ r.Flags) → (∀ r ∈ reads, ¬ r.Loses predicate) →
    ∀ e ∈ b₀.events, predicate.accepts e.core = true → o₀ < e.seq → e.seq ≤ o → e ∈ out
  lost : ∀ r ∈ reads, r.Loses predicate → ∃ e ∈ b₀.events, predicate.accepts e.core = true ∧
    o₀ < e.seq ∧ e.seq ≤ o ∧ e ∉ out ∧ e ∉ b.events

theorem BucketLag.start (predicate : Predicate) (b : BucketInner) (o : Nat) :
    BucketLag predicate b b o o [] [] where
  moved := fun _ => .inl rfl
  covered := fun _ _ _ _ _ hlt hle => absurd hlt (Nat.not_lt.mpr hle)
  lost := fun _ hr => absurd hr not_mem_nil

variable {o : Nat} {b : BucketInner} {ctx : DrainCtx} {r : DrainRead}

theorem DrainRead.From.expired_lt
    (h : r.From ctx b o) (hok : b.Ok) {e x : SignalEvent} (he : e ∈ b.events)
    (hgone : e ∉ r.after.events) (hx : x ∈ r.after.events) : e.seq < x.seq := by
  obtain ⟨-, ⟨gone, hev, -⟩, -, -⟩ := h.spec hok
  have hsorted := hok.sorted
  rw [hev.events] at hsorted he
  have hin : e ∈ gone := (mem_append.mp he).resolve_right hgone
  exact (pairwise_append.mp hsorted).2.2 e hin x hx

theorem DrainRead.From.exists_passes
    (h : r.From ctx b o) (hok : b.Ok) (hmoved : r.req.cursor < r.resp.nextCursor) :
    ∃ x ∈ r.after.events, BucketInner.passes r.req x := by
  obtain ⟨-, -, hspec, -⟩ := h.spec hok
  rcases hev : r.resp.events with _ | ⟨x, rest⟩
  · have := (hspec.empty hev).1
    omega
  · exact ⟨x, hspec.retained x (hev ▸ mem_cons_self)⟩

theorem DrainRead.From.lt_next_of_passes (h : r.From ctx b o) (hok : b.Ok)
    (hfound : ∃ x ∈ r.after.events, BucketInner.passes r.req x) :
    ∃ y ∈ r.after.events, y.seq ≤ r.resp.nextCursor := by
  obtain ⟨-, -, hspec, -⟩ := h.spec hok
  obtain ⟨x, hx, hpass⟩ := hfound
  rcases hev : r.resp.events with _ | ⟨y, rest⟩
  · rw [(hspec.empty hev).2 x hx] at hpass
    cases hpass
  · have hy : y ∈ r.resp.events := hev ▸ mem_cons_self
    exact ⟨y, (hspec.retained y hy).1, hspec.le_next y hy⟩

theorem BucketDrained.events_of_not_flags {predicate : Predicate} {b0 : BucketInner}
    {o0 : Nat} {out : List SignalEvent} (h : BucketDrained predicate b0 b o0 o out)
    (hdropped : b.state.droppedCount = 0) : b.events = b0.events ∧ b0.state.droppedCount = 0 := by
  obtain ⟨gone, hev⟩ := h.shrunk
  have hsum := hev.dropped
  have hnil : gone = [] := length_eq_zero_iff.mp (by omega)
  have hevents := hev.events
  rw [hnil, nil_append] at hevents
  exact ⟨hevents.symm, by omega⟩

theorem BucketLag.read {b0 : BucketInner} {o0 : Nat}
    {out : List SignalEvent} {reads : List DrainRead}
    (h : BucketLag ctx.predicate b0 b o0 o out reads)
    (hd : BucketDrained ctx.predicate b0 b o0 o out) (hr : r.From ctx b o) :
    BucketLag ctx.predicate b0 r.after o0 r.resp.nextCursor
      (out ++ r.resp.events.filter ctx.allows) (reads ++ [r]) := by
  obtain ⟨-, ⟨gone, hev, -⟩, hspec, hcursor⟩ := hr.spec hd.ok
  obtain ⟨gone0, hev0⟩ := hd.shrunk
  have hcur : o ≤ cursorOf o b.state := le_cursorOf o b.state
  have hnext := hspec.cursor_le
  have hunflagged : (∀ r' ∈ reads ++ [r], ¬ r'.Flags) →
      (∀ r' ∈ reads, ¬ r'.Flags) ∧ b.state.droppedCount = 0 := by
    intro hall
    refine ⟨fun r' hr' => hall r' (mem_append_left _ hr'), ?_⟩
    have hnot := hall r (mem_append_right _ mem_cons_self)
    unfold DrainRead.Flags at hnot
    rw [hr.bucket] at hnot
    omega
  constructor
  case moved =>
    intro hall
    exact .inr (hd.events_of_not_flags (hunflagged hall).2).2
  case covered =>
    intro hall hloss e he hacc hlt hle
    obtain ⟨hold, hdropped⟩ := hunflagged hall
    by_cases hseq : e.seq ≤ o
    · exact mem_append_left _ (h.covered hold
        (fun r' hr' => hloss r' (mem_append_left _ hr')) e he hacc hlt hseq)
    · rw [← (hd.events_of_not_flags hdropped).1] at he
      have hpast := hd.ok.toSound.cursorOf_lt he (Nat.not_le.mp hseq)
      by_cases hkept : e ∈ r.after.events
      · exact mem_append_right _ ((hr.mem_filter hd.ok).mpr ⟨hkept, hpast, hle, hacc⟩)
      · -- the read expired the event and moved past it
        refine absurd ?_ (hloss r (mem_append_right _ mem_cons_self))
        refine ⟨⟨e, hr.bucket ▸ he, hkept, hacc, hcursor ▸ hpast⟩, ?_⟩
        exact hr.exists_passes hd.ok (by omega)
  case lost =>
    intro r' hr' hloses
    rcases mem_append.mp hr' with hold | hnew
    · obtain ⟨e, he, hacc, hlt, hle, hout, hgone⟩ := h.lost r' hold hloses
      refine ⟨e, he, hacc, hlt, by omega, ?_, fun hin => hgone (hev.mem hin)⟩
      intro hmem
      rcases mem_append.mp hmem with hmem | hmem
      · exact hout hmem
      · exact hgone (hev.mem ((hr.mem_filter hd.ok).mp hmem).1)
    · rw [mem_singleton.mp hnew] at hloses
      obtain ⟨⟨e, he, hkept, hacc, hpast⟩, hfound⟩ := hloses
      rw [hr.bucket] at he
      rw [hcursor] at hpast
      obtain ⟨y, hy, hyle⟩ := hr.lt_next_of_passes hd.ok hfound
      have hey := hr.expired_lt hd.ok he hkept hy
      have hmono := hd.mono
      refine ⟨e, hev0.mem he, hacc, by omega, by omega, ?_, hkept⟩
      intro hmem
      rcases mem_append.mp hmem with hmem | hmem
      · have := (hd.range e hmem).2
        omega
      · exact hkept ((hr.mem_filter hd.ok).mp hmem).1

/-! ## All buckets -/

def readsOf (reads : List DrainRead) (id : BucketId) : List DrainRead :=
  reads.filter fun r => decide (r.bucketId = id)

theorem readsOf_concat_self (reads : List DrainRead) (r : DrainRead) :
    readsOf (reads ++ [r]) r.bucketId = readsOf reads r.bucketId ++ [r] := by
  unfold readsOf
  rw [filter_append, filter_singleton, decide_eq_true rfl]
  rfl

theorem readsOf_concat_of_ne (reads : List DrainRead) {id : BucketId}
    (h : r.bucketId ≠ id) : readsOf (reads ++ [r]) id = readsOf reads id := by
  unfold readsOf
  rw [filter_append, filter_singleton, decide_eq_false h]
  exact append_nil _

structure LagInv (predicate : Predicate) (m₀ : BucketManager) (off₀ : Offsets) (s : DrainState) :
    Prop where
  flagged : s.lagged = true ↔ ∃ r ∈ s.reads, r.Flags
  found : ∀ r ∈ s.reads, ∃ b₀, m₀.inner r.bucketId = some b₀
  lag : ∀ id b₀ b, m₀.inner id = some b₀ → s.buckets.inner id = some b →
    BucketLag predicate b₀ b (off₀.pos id) (s.offsets.pos id) (delivered s.events id)
      (readsOf s.reads id)

theorem LagInv.start (predicate : Predicate) (m : BucketManager) (offsets : Offsets) :
    LagInv predicate m offsets (drainStart m offsets) where
  flagged := by simp [drainStart]
  found := fun _ hr => absurd hr List.not_mem_nil
  lag := by
    intro id b0 b h0 h
    rw [show (drainStart m offsets).buckets = m from rfl, h0] at h
    cases h
    exact .start predicate b0 _

theorem LagInv.visited {m0 : BucketManager} {off0 : Offsets} {s : DrainState}
    (h : LagInv ctx.predicate m0 off0 s) (hinv : DrainInv ctx.predicate m0 off0 s)
    {b : ScopedBucket} {inner : BucketInner} (hinner : s.buckets.inner b.bucketId = some inner)
    (i : Nat) : LagInv ctx.predicate m0 off0 (ctx.visited b (ctx.readOf i b inner s) s) := by
  obtain ⟨b0, hb0, hd⟩ := hinv.exists_start hinner
  refine ⟨?_, ?_, ?_⟩
  · simp only [DrainCtx.visited, Bool.or_eq_true, decide_eq_true_eq, h.flagged, or_assoc,
      mem_append, mem_singleton]
    constructor
    · rintro (⟨r, hr, hf⟩ | hf)
      · exact ⟨r, .inl hr, hf⟩
      · exact ⟨_, .inr rfl, hf⟩
    · rintro ⟨r, hr | rfl, hf⟩
      · exact .inl ⟨r, hr, hf⟩
      · exact .inr hf
  · intro r hr
    rcases mem_append.mp hr with hr | hr
    · exact h.found r hr
    · rw [mem_singleton.mp hr]
      exact ⟨b0, hb0⟩
  · intro id b1 b' h1 hb'
    by_cases hid : id = b.bucketId
    · subst hid
      rw [hb0] at h1
      cases h1
      obtain ⟨hself, hpos, hout⟩ := ctx.visited_self b (ctx.readOf i b inner s) s
      rw [hself] at hb'
      cases hb'
      rw [hpos, hout]
      refine Eq.subst (motive := fun l => BucketLag _ _ _ _ _ _ l)
        (readsOf_concat_self s.reads (ctx.readOf i b inner s)).symm ?_
      exact (h.lag _ b0 inner hb0 hinner).read hd (ctx.readOf_from i b inner s)
    · obtain ⟨hb, -, ho, hd'⟩ := ctx.visited_of_ne (ctx.readOf i b inner s) s hid
      rw [hb] at hb'
      rw [ho, hd']
      refine Eq.subst (motive := fun l => BucketLag _ _ _ _ _ _ l)
        (readsOf_concat_of_ne s.reads (Ne.symm hid)).symm ?_
      exact h.lag id b1 b' h1 hb'

theorem drainFair_lag {m : BucketManager} (hm : m.Ok) {scope : Scope} {offsets : Offsets}
    {predicate : Predicate} {cap : Nat} {clock : Nat → Time} {r : DrainResult}
    (h : drainFair m scope offsets predicate cap clock = .ok r) :
    DrainInv predicate m offsets r.state ∧ LagInv predicate m offsets r.state := by
  refine drainFair_induction hm (LagInv.start predicate m offsets) ?_
    (fun s p q hI => ⟨hI.flagged, hI.found, hI.lag⟩) h
  intro shares i b inner s _ hinner hinv hI
  have hI' : LagInv (drainCtx scope predicate cap clock shares).predicate m offsets s := hI
  exact hI'.visited hinv hinner i

/-! ## Losses -/

def NoSilentLoss (hist : BucketId → List EventCore) (predicate : Predicate)
    (before committed : Offsets) (r : DrainResult) : Prop :=
  ∀ id, ∀ e ∈ hist id, predicate.accepts e = true → before.pos id < e.seq →
    e.seq ≤ committed.pos id →
    (∀ b, r.buckets.inner id = some b → e ∉ b.events.map SignalEvent.core) →
    e ∈ (delivered r.drained.events id).map SignalEvent.core

section Losses

variable {m : BucketManager} {hist : BucketId → List EventCore} {scope : Scope}
  {offsets : Offsets} {predicate : Predicate} {cap : Nat} {clock : Nat → Time} {r : DrainResult}

theorem not_noSilentLoss_of_loses (hrec : m.Recorded hist)
    (h : drainFair m scope offsets predicate cap clock = .ok r) {rd : DrainRead}
    (hrd : rd ∈ r.reads) (hloses : rd.Loses predicate) :
    ¬ NoSilentLoss hist predicate offsets r.offsets r := by
  intro hloss
  obtain ⟨hinv, hlag⟩ := drainFair_lag hrec.ok h
  obtain ⟨b0, hb0⟩ := hlag.found rd hrd
  obtain ⟨b, hb, hd⟩ := hinv.present _ b0 hb0
  have hin : rd ∈ readsOf r.reads rd.bucketId := List.mem_filter.mpr ⟨hrd, decide_eq_true rfl⟩
  obtain ⟨e, he, hacc, hlt, hle, hout, hgone⟩ := (hlag.lag _ b0 b hb0 hb).lost rd hin hloses
  have hsame : ∀ x ∈ b0.events, x.core = e.core → x = e := fun x hx hcore =>
    (hrec.ok _ b0 hb0).sorted.eq_of_key_eq hx he (congrArg EventCore.seq hcore)
  have hmem : e.core ∈ hist rd.bucketId := by
    obtain ⟨gone, hhist, -⟩ := (hrec.records _ b0 hb0).split
    rw [hhist]
    exact mem_append_right _ (List.mem_map_of_mem he)
  have hevicted : ∀ b', r.buckets.inner rd.bucketId = some b' →
      e.core ∉ b'.events.map core := by
    intro b' hb' hcore
    obtain ⟨x, hx, hxe⟩ := List.mem_map.mp hcore
    obtain ⟨gone', hev⟩ := hd.shrunk
    rw [← Option.some.inj (hb.symm.trans hb')] at hx
    exact hgone (hsame x (hev.mem hx) hxe ▸ hx)
  obtain ⟨x, hx, hxe⟩ := List.mem_map.mp (hloss rd.bucketId e.core hmem hacc hlt hle hevicted)
  exact hout (hsame x (hd.sound x hx).1 hxe ▸ hx)

theorem noSilentLoss_of_reads (hrec : m.Recorded hist)
    (h : drainFair m scope offsets predicate cap clock = .ok r)
    (hnoflag : ∀ rd ∈ r.reads, ¬ rd.Flags) (hnoloss : ∀ rd ∈ r.reads, ¬ rd.Loses predicate) :
    NoSilentLoss hist predicate offsets r.offsets r := by
  intro id e he hacc hlt hle _
  obtain ⟨hinv, hlag⟩ := drainFair_lag hrec.ok h
  have hle' : e.seq ≤ r.state.offsets.pos id := hle
  rcases h0 : m.inner id with _ | b0
  · have := (hinv.absent id h0).2.1
    omega
  · obtain ⟨b, hb, -⟩ := hinv.present id b0 h0
    have hbl := hlag.lag id b0 b h0 hb
    have hnoflag' : ∀ rd ∈ readsOf r.reads id, ¬ rd.Flags := fun rd hrd =>
      hnoflag rd (List.mem_filter.mp hrd).1
    have hnoloss' : ∀ rd ∈ readsOf r.reads id, ¬ rd.Loses predicate := fun rd hrd =>
      hnoloss rd (List.mem_filter.mp hrd).1
    rcases hbl.moved hnoflag' with hstay | hdropped
    · omega
    · -- nothing was ever dropped, so the whole history was there
      obtain ⟨gone, hhist, hlen⟩ := (hrec.records id b0 h0).split
      rw [hdropped, length_eq_zero_iff] at hlen
      rw [hhist, hlen, nil_append] at he
      obtain ⟨x, hx, rfl⟩ := List.mem_map.mp he
      exact List.mem_map_of_mem (hbl.covered hnoflag' hnoloss' x hx hacc hlt hle)

theorem lagged_eq_false_iff (hm : m.Ok)
    (h : drainFair m scope offsets predicate cap clock = .ok r) :
    r.drained.lagged = false ↔ ∀ rd ∈ r.reads, ¬ rd.Flags := by
  rw [← Bool.not_eq_true]
  refine (not_congr (drainFair_lag hm h).2.flagged).trans ?_
  simp only [not_exists, not_and]
  rfl

end Losses

def hourApart : List BucketCall :=
  [⟨1, .createBucket ⟨10, 3600⟩ 0⟩, ⟨1, .append (.bare 1 0 "note".toList)⟩,
    ⟨1, .append (.bare 1 3600000000001 "note".toList)⟩]

def pullOne (now : Time) : Except IpcError DrainResult :=
  scanDrain (BucketManager.new.calls hourApart) subToAll.predicate
    ((scopeSnapshot sourceOfOne subToAll [1] (List.nodup_singleton 1)).1.retain
      (BucketManager.new.calls hourApart)) 1 fun _ => now

def committedBy (r : DrainResult) : Offsets :=
  ((scopeSnapshot sourceOfOne subToAll [1] (List.nodup_singleton 1)).2.commit r.offsets 0).offsets

end TerminalCommander
