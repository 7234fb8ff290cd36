import TerminalCommander.Core.BucketInvariant

/-!
# Runs of bucket calls

A run is any list of calls on a manager, each with its own clock reading. Seen from outside, a
bucket is a log of event cores: `Steps` says what any call can do to it, namely add events past
the tail and drop events off the front. Beside a run goes the history of a bucket, the cores of
the events whose append was accepted, and `Records` ties a bucket to its history.
-/

namespace TerminalCommander

open KeyedLog List BucketManager Option

/-! ## A bucket as a log -/

namespace BucketInner

structure Steps (b b' : BucketInner) (added : List EventCore) : Prop where
  config : b'.config = b.config
  split : ∃ gone, b.events.map SignalEvent.core ++ added = gone ++ b'.events.map SignalEvent.core ∧
    b'.state.droppedCount = b.state.droppedCount + gone.length
  tail : b'.state.tailSeq = lastKey EventCore.seq b.state.tailSeq added
  sorted : Increasing EventCore.seq added
  fresh : ∀ e ∈ added, b.state.tailSeq < e.seq

variable {b b' : BucketInner}

theorem Evicts.steps {gone : List SignalEvent} (h : Evicts b b' gone) : Steps b b' [] := by
  refine ⟨h.config, ⟨gone.map SignalEvent.core, ?_, ?_⟩, h.tail, List.Pairwise.nil, nofun⟩
  · rw [append_nil, ← map_append, h.events]
  · rw [length_map, h.dropped]

theorem Pushes.steps {ev : SignalEvent} {gone : List SignalEvent}
    (h : Pushes b ev b' gone) (hseq : b.state.tailSeq < ev.seq) : Steps b b' [ev.core] := by
  refine ⟨h.config, ⟨gone.map SignalEvent.core, ?_, ?_⟩, h.tail, pairwise_singleton _ _, ?_⟩
  · rw [← map_append, ← h.events, map_append]
    rfl
  · rw [length_map, h.dropped]
  · intro e he
    rw [mem_singleton.mp he]
    exact hseq

theorem steps_withEvents {evs : List SignalEvent}
    (hc : evs.map SignalEvent.core = b.events.map SignalEvent.core) (n : Nat) :
    Steps b { b with events := evs, dedupeCollapsedCount := n } [] := by
  refine ⟨rfl, ⟨[], ?_, rfl⟩, rfl, List.Pairwise.nil, nofun⟩
  rw [append_nil, nil_append, hc]

theorem Steps.refl (b : BucketInner) : Steps b b [] :=
  ⟨rfl, ⟨[], by rw [append_nil, nil_append], rfl⟩, rfl, List.Pairwise.nil, nofun⟩

variable {added : List EventCore}

theorem Steps.tail_le (h : Steps b b' added) : b.state.tailSeq ≤ b'.state.tailSeq :=
  h.tail ▸ le_lastKey h.fresh

theorem Steps.mem (h : Steps b b' added) {e : SignalEvent} (he : e ∈ b'.events) :
    (∃ e0 ∈ b.events, e0.core = e.core) ∨ e.core ∈ added := by
  obtain ⟨gone, hsplit, -⟩ := h.split
  have hmem : e.core ∈ b.events.map SignalEvent.core ++ added := by
    rw [hsplit]
    exact mem_append_right _ (List.mem_map_of_mem he)
  rcases mem_append.mp hmem with hold | hnew
  · exact .inl (List.mem_map.mp hold)
  · exact .inr hnew

theorem Steps.trans {b1 b2 b3 : BucketInner} {added' : List EventCore}
    (h : Steps b1 b2 added) (h' : Steps b2 b3 added') : Steps b1 b3 (added ++ added') := by
  obtain ⟨gone, hsplit, hdrop⟩ := h.split
  obtain ⟨gone', hsplit', hdrop'⟩ := h'.split
  have hlast : b1.state.tailSeq ≤ b2.state.tailSeq := h.tail_le
  refine ⟨h'.config.trans h.config, ⟨gone ++ gone', ?_, ?_⟩, ?_, ?_, ?_⟩
  · rw [← append_assoc, hsplit, append_assoc, hsplit', append_assoc]
  · rw [hdrop', hdrop, length_append, Nat.add_assoc]
  · rw [h'.tail, h.tail, lastKey_append]
  · refine pairwise_append.mpr ⟨h.sorted, h'.sorted, ?_⟩
    intro x hx y hy
    have hx' := h.sorted.key_le_lastKey b1.state.tailSeq hx
    rw [← h.tail] at hx'
    exact Nat.lt_of_le_of_lt hx' (h'.fresh y hy)
  · intro e he
    rcases mem_append.mp he with he | he
    · exact h.fresh e he
    · exact Nat.lt_of_le_of_lt hlast (h'.fresh e he)

structure Records (b : BucketInner) (hist : List EventCore) : Prop where
  sorted : Increasing EventCore.seq hist
  split : ∃ gone, hist = gone ++ b.events.map SignalEvent.core ∧ gone.length = b.state.droppedCount
  tail : b.state.tailSeq = lastKey EventCore.seq 0 hist

variable {hist : List EventCore}

theorem Steps.records {id : BucketId} {config : BucketConfig} {now : Time}
    (h : Steps (new id config now) b hist) : b.Records hist := by
  obtain ⟨gone, hsplit, hdrop⟩ := h.split
  exact ⟨h.sorted, ⟨gone, hsplit, by rw [hdrop]; exact (Nat.zero_add _).symm⟩, h.tail⟩

theorem Records.seq_le_tail (h : b.Records hist)
    {e : EventCore} (he : e ∈ hist) : e.seq ≤ b.state.tailSeq :=
  h.tail ▸ h.sorted.key_le_lastKey 0 he

theorem Records.steps (h : b.Records hist)
    (hs : b.Steps b' added) : b'.Records (hist ++ added) := by
  obtain ⟨gone, hgone, hlen⟩ := h.split
  obtain ⟨gone', hgone', hlen'⟩ := hs.split
  refine ⟨pairwise_append.mpr ⟨h.sorted, hs.sorted, ?_⟩, ⟨gone ++ gone', ?_, ?_⟩, ?_⟩
  · exact fun x hx y hy => Nat.lt_of_le_of_lt (h.seq_le_tail hx) (hs.fresh y hy)
  · rw [hgone, append_assoc, hgone', append_assoc]
  · rw [length_append, hlen, hlen']
  · rw [hs.tail, h.tail, lastKey_append]

end BucketInner

/-! ## What one call can do -/

namespace BucketManager

def Ok (m : BucketManager) : Prop := ∀ id b, m.inner id = some b → b.Ok

@[simp] theorem set_inner_self (m : BucketManager) (id : BucketId) (b : BucketInner) :
    (m.set id b).inner id = some b := Function.update_self _ _ _

theorem set_inner_of_ne (m : BucketManager) {id id' : BucketId} (b : BucketInner) (h : id' ≠ id) :
    (m.set id b).inner id' = m.inner id' := Function.update_of_ne h _ _

theorem Ok.set {m : BucketManager} (h : m.Ok) {id : BucketId} {b : BucketInner} (hb : b.Ok) :
    (m.set id b).Ok := by
  intro id' b' hb'
  by_cases hid : id' = id
  · subst hid
    rw [set_inner_self, some.injEq] at hb'
    exact hb' ▸ hb
  · rw [set_inner_of_ne m b hid] at hb'
    exact h id' b' hb'

theorem new_ok : new.Ok := fun _ _ h => by cases h

theorem assignSeq_ok {b : BucketInner} {id : BucketId} {ev : SignalEvent}
    {seq : { n : Nat // n ≤ u64Max }} (h : b.assignSeq id ev = .ok seq) :
    b.state.tailSeq < seq.1 := by
  unfold BucketInner.assignSeq at h
  split_ifs at h with h0 h1 h2 h3
  · cases h
    exact Nat.lt_succ_self _
  · cases h
    exact Nat.not_le.mp h3

def stamped (ev : SignalEvent) (seq : { n : Nat // n ≤ u64Max }) : SignalEvent :=
  { ev with seq := seq.1, seq_le := seq.2 }

theorem append_cases (m : BucketManager) (id : BucketId) (ev : SignalEvent) :
    (∃ e, m.append id ev = (.error e, m)) ∨
    ∃ b seq, m.inner id = some b ∧ ev.bucketId = id ∧ ev.validate = .ok () ∧
      b.state.tailSeq < seq.1 ∧
      m.append id ev = (.ok seq.1, m.set id (b.push (stamped ev seq))) := by
  unfold append
  split_ifs with hid
  · exact .inl ⟨_, rfl⟩
  rcases hv : ev.validate with e | ⟨⟩
  · exact .inl ⟨_, rfl⟩
  rcases hb : m.inner id with _ | b
  · exact .inl ⟨_, rfl⟩
  rcases hs : b.assignSeq id ev with e | seq
  · exact .inl ⟨e, by simp only [hs]⟩
  · exact .inr ⟨b, seq, rfl, not_not.mp hid, rfl, assignSeq_ok hs, by simp only [hs]; rfl⟩

theorem patch_cases (m : BucketManager) (id : BucketId) (seq count : Nat)
    (firstSeen lastSeen : Time) :
    (∃ e, m.patchEventAggregation id seq count firstSeen lastSeen = (.error e, m)) ∨
    ∃ b evs, m.inner id = some b ∧ (∃ e ∈ b.events, e.seq = seq) ∧
      evs.map SignalEvent.core = b.events.map SignalEvent.core ∧
      m.patchEventAggregation id seq count firstSeen lastSeen = (.ok (), m.set id { b with
        events := evs
        dedupeCollapsedCount := satAdd b.dedupeCollapsedCount 1 }) := by
  unfold patchEventAggregation
  rcases hb : m.inner id with _ | b
  · exact .inl ⟨_, rfl⟩
  rcases hp : BucketInner.patchFirst seq count firstSeen lastSeen b.events with _ | evs
  · exact .inl ⟨.eventSeqNotFound id seq, by simp only [hp]⟩
  · refine .inr ⟨b, evs, rfl, ?_, BucketInner.patchFirst_core hp, by simp only [hp]⟩
    by_contra hno
    push Not at hno
    rw [BucketInner.patchFirst_eq_none.mpr hno] at hp
    cases hp

end BucketManager

inductive BucketOp where
  | createBucket (config : BucketConfig) (now : Time)
  | append (ev : SignalEvent)
  | patchEventAggregation (seq count : Nat) (firstSeen lastSeen : Time)
  | eventsSince (req : BucketReadRequest) (now : Time)
  | summary (now : Time)

structure BucketCall where
  bucket : BucketId
  op : BucketOp

namespace BucketManager

def call (m : BucketManager) (c : BucketCall) : BucketManager :=
  match c.op with
  | .createBucket config now => (m.createBucket c.bucket config now).2
  | .append ev => (m.append c.bucket ev).2
  | .patchEventAggregation seq count firstSeen lastSeen =>
    (m.patchEventAggregation c.bucket seq count firstSeen lastSeen).2
  | .eventsSince req now => (m.eventsSince c.bucket req now).2
  | .summary now => (m.summary c.bucket now).2

def accepts (m : BucketManager) (c : BucketCall) (id : BucketId) : List EventCore :=
  match c.op with
  | .append ev =>
    match (m.append c.bucket ev).1 with
    | .ok seq => if c.bucket = id then [⟨seq, ev.timestamp, ev.severity, ev.kind⟩] else []
    | .error _ => []
  | _ => []

def calls (m : BucketManager) (cs : List BucketCall) : BucketManager := cs.foldl call m

def history : BucketManager → List BucketCall → BucketId → List EventCore
  | _, [], _ => []
  | m, c :: cs, id => m.accepts c id ++ history (m.call c) cs id

theorem call_cases (m : BucketManager) (c : BucketCall) : m.call c = m ∧ m.accepts c c.bucket = [] ∨
    (∃ config now, m.inner c.bucket = none ∧ m.call c =
      { m.set c.bucket (.new c.bucket config now) with keys := m.keys ++ [c.bucket] }) ∨
    ∃ b b', m.inner c.bucket = some b ∧ m.call c = m.set c.bucket b' ∧
      (b.Ok → b'.Ok ∧ b.Steps b' (m.accepts c c.bucket)) := by
  rcases c with ⟨id, op⟩
  cases op with
  | createBucket config now =>
    rcases hb : m.inner id with _ | b
    · exact .inr (.inl ⟨config, now, rfl, by simp only [call, createBucket, hb]⟩)
    · exact .inl ⟨by simp only [call, createBucket, hb], rfl⟩
  | append ev =>
    rcases m.append_cases id ev with ⟨e, h⟩ | ⟨b, seq, hb, -, -, hseq, h⟩
    · exact .inl ⟨congrArg Prod.snd h, by simp only [accepts, h]⟩
    · refine .inr (.inr ⟨b, b.push (stamped ev seq), hb, congrArg Prod.snd h, ?_⟩)
      intro hok
      obtain ⟨gone, hp, hok'⟩ := hok.push (stamped ev seq) hseq
      simp only [accepts, h, if_pos]
      exact ⟨hok', hp.steps hseq⟩
  | patchEventAggregation seq count firstSeen lastSeen =>
    rcases m.patch_cases id seq count firstSeen lastSeen with ⟨e, h⟩ | ⟨b, evs, hb, -, hc, h⟩
    · exact .inl ⟨congrArg Prod.snd h, rfl⟩
    · refine .inr (.inr ⟨b, _, hb, congrArg Prod.snd h, ?_⟩)
      intro hok
      exact ⟨hok.withEvents hc _, BucketInner.steps_withEvents hc _⟩
  | eventsSince req now =>
    rcases hb : m.inner id with _ | b
    · exact .inl ⟨by simp only [call, eventsSince, hb], rfl⟩
    · refine .inr (.inr ⟨b, b.evictExpired now, rfl, by simp only [call, eventsSince, hb], ?_⟩)
      intro hok
      obtain ⟨gone, he, hok', -⟩ := hok.evictExpired now
      exact ⟨hok', he.steps⟩
  | summary now =>
    rcases hb : m.inner id with _ | b
    · exact .inl ⟨by simp only [call, summary, hb], rfl⟩
    · refine .inr (.inr ⟨b, b.evictExpired now, rfl, by simp only [call, summary, hb], ?_⟩)
      intro hok
      obtain ⟨gone, he, hok', -⟩ := hok.evictExpired now
      exact ⟨hok', he.steps⟩

variable {id : BucketId}

section

variable (m : BucketManager) (c : BucketCall)

theorem accepts_of_ne (h : c.bucket ≠ id) :
    m.accepts c id = [] := by
  unfold accepts
  split
  · split
    · exact if_neg h
    · rfl
  · rfl

theorem call_inner_of_ne (h : c.bucket ≠ id) : (m.call c).inner id = m.inner id := by
  rcases m.call_cases c with ⟨hcall, -⟩ | ⟨config, now, -, hcall⟩ | ⟨b, b', -, hcall, -⟩ <;>
    rw [hcall]
  · exact set_inner_of_ne m _ (Ne.symm h)
  · exact set_inner_of_ne m _ (Ne.symm h)

theorem call_steps {b : BucketInner}
    (hb : m.inner id = some b) (hok : b.Ok) :
    ∃ b', (m.call c).inner id = some b' ∧ b'.Ok ∧ b.Steps b' (m.accepts c id) := by
  by_cases hid : c.bucket = id
  · subst hid
    rcases m.call_cases c with ⟨hcall, hacc⟩ | ⟨_, _, hnone, _⟩ | ⟨b0, b', hb0, hcall, hkeep⟩
    · rw [hcall, hacc]
      exact ⟨b, hb, hok, .refl b⟩
    · rw [hb] at hnone
      cases hnone
    · rw [hb, some.injEq] at hb0
      subst hb0
      exact ⟨b', hcall ▸ set_inner_self m _ b', hkeep hok⟩
  · rw [call_inner_of_ne m c hid, accepts_of_ne m c hid]
    exact ⟨b, hb, hok, .refl b⟩

end

theorem calls_steps : ∀ (cs : List BucketCall) (m : BucketManager) {id : BucketId}
    {b : BucketInner}, m.inner id = some b → b.Ok →
    ∃ b', (m.calls cs).inner id = some b' ∧ b'.Ok ∧ b.Steps b' (m.history cs id) := by
  intro cs
  induction cs with
  | nil => exact fun m id b hb hok => ⟨b, hb, hok, .refl b⟩
  | cons c cs ih =>
    intro m id b hb hok
    obtain ⟨b1, hb1, hok1, hs1⟩ := m.call_steps c hb hok
    obtain ⟨b', hb', hok', hs'⟩ := ih (m.call c) hb1 hok1
    exact ⟨b', hb', hok', hs1.trans hs'⟩

variable {m : BucketManager}

theorem call_inner_cases {c : BucketCall} {b' : BucketInner} (h : (m.call c).inner id = some b') :
    (∃ config now, m.inner id = none ∧ b' = .new id config now) ∨ ∃ b, m.inner id = some b := by
  rcases hb : m.inner id with _ | b
  · left
    by_cases hid : c.bucket = id
    · subst hid
      rcases m.call_cases c with ⟨hcall, -⟩ | ⟨config, now, -, hcall⟩ | ⟨b, _, hb0, -, -⟩
      · rw [hcall, hb] at h
        cases h
      · rw [hcall] at h
        exact ⟨config, now, rfl, (some.inj ((set_inner_self m _ _).symm.trans h)).symm⟩
      · rw [hb] at hb0
        cases hb0
    · rw [call_inner_of_ne m c hid, hb] at h
      cases h
  · exact .inr ⟨b, rfl⟩

theorem Ok.call (h : m.Ok) (c : BucketCall) : (m.call c).Ok := by
  rcases m.call_cases c with ⟨hcall, -⟩ | ⟨config, now, -, hcall⟩ | ⟨b, b', hb, hcall, hkeep⟩ <;>
    rw [hcall]
  · exact h
  · exact h.set (BucketInner.new_ok _ _ _)
  · exact h.set (hkeep (h _ b hb)).1

theorem Ok.calls : ∀ (cs : List BucketCall) {m : BucketManager}, m.Ok → (m.calls cs).Ok := by
  intro cs
  induction cs with
  | nil => exact fun h => h
  | cons c cs ih => exact fun h => ih (h.call c)

theorem accepts_of_none (h : m.inner id = none) (c : BucketCall) : m.accepts c id = [] := by
  by_cases hid : c.bucket = id
  · subst hid
    rcases m.call_cases c with ⟨-, hacc⟩ | ⟨config, now, -, -⟩ | ⟨b, _, hb, -, -⟩
    · exact hacc
    · unfold accepts
      split
      · next ev hop =>
        rcases m.append_cases c.bucket ev with ⟨e, happ⟩ | ⟨b, _, hb, -⟩
        · rw [happ]
        · rw [h] at hb
          cases hb
      · rfl
    · rw [h] at hb
      cases hb
  · exact accepts_of_ne m c hid

structure Recorded (m : BucketManager) (hist : BucketId → List EventCore) : Prop where
  ok : m.Ok
  listed : ∀ id b, m.inner id = some b → id ∈ m.keys
  records : ∀ id b, m.inner id = some b → b.Records (hist id)
  absent : ∀ id, m.inner id = none → hist id = []

theorem new_recorded : new.Recorded fun _ => [] where
  ok := new_ok
  listed := fun _ _ h => by cases h
  records := fun _ _ h => by cases h
  absent := fun _ _ => rfl

theorem mem_keys_call (m : BucketManager) (c : BucketCall) (h : id ∈ m.keys) :
    id ∈ (m.call c).keys := by
  rcases m.call_cases c with ⟨hcall, -⟩ | ⟨config, now, -, hcall⟩ | ⟨b, b', -, hcall, -⟩ <;>
    rw [hcall]
  · exact h
  · exact mem_append_left _ h
  · exact h

theorem Recorded.call {hist : BucketId → List EventCore} (h : m.Recorded hist)
    (c : BucketCall) : (m.call c).Recorded fun id => hist id ++ m.accepts c id where
  ok := h.ok.call c
  listed := by
    intro id b' hb'
    rcases call_inner_cases hb' with ⟨config, now, hnone, -⟩ | ⟨b, hb⟩
    · by_cases hid : c.bucket = id
      · subst hid
        rcases m.call_cases c with ⟨hcall, -⟩ | ⟨_, _, -, hcall⟩ | ⟨b, _, hb, -, -⟩
        · rw [hcall, hnone] at hb'
          cases hb'
        · rw [hcall]
          exact mem_append_right _ mem_cons_self
        · rw [hnone] at hb
          cases hb
      · rw [call_inner_of_ne m c hid, hnone] at hb'
        cases hb'
    · exact mem_keys_call m c (h.listed id b hb)
  records := by
    intro id b' hb'
    rcases call_inner_cases hb' with ⟨config, now, hnone, rfl⟩ | ⟨b, hb⟩
    · rw [h.absent id hnone, accepts_of_none hnone]
      exact (BucketInner.Steps.refl (.new id config now)).records
    · obtain ⟨b'', hb'', -, hsteps⟩ := m.call_steps c hb (h.ok id b hb)
      rw [hb'] at hb''
      cases hb''
      exact (h.records id b hb).steps hsteps
  absent := by
    intro id hnone'
    rcases hb : m.inner id with _ | b
    · rw [h.absent id hb, accepts_of_none hb]
      rfl
    · obtain ⟨b', hb', -⟩ := m.call_steps c hb (h.ok id b hb)
      rw [hnone'] at hb'
      cases hb'

theorem Recorded.calls : ∀ (cs : List BucketCall) {m : BucketManager}
    {hist : BucketId → List EventCore}, m.Recorded hist →
    (m.calls cs).Recorded fun id => hist id ++ m.history cs id := by
  intro cs
  induction cs with
  | nil =>
    intro m hist h
    have hnil : (fun id => hist id ++ m.history [] id) = hist := funext fun id => append_nil _
    rw [hnil]
    exact h
  | cons c cs ih =>
    intro m hist h
    have hrec := ih (h.call c)
    simp only [append_assoc] at hrec
    exact hrec

theorem calls_recorded (cs : List BucketCall) : (new.calls cs).Recorded (new.history cs) :=
  new_recorded.calls cs

def Rejected (m : BucketManager) (c : BucketCall) : Prop :=
  match c.op with
  | .createBucket config now => ∃ e, (m.createBucket c.bucket config now).1 = .error e
  | .append ev => ∃ e, (m.append c.bucket ev).1 = .error e
  | .patchEventAggregation seq count firstSeen lastSeen =>
    ∃ e, (m.patchEventAggregation c.bucket seq count firstSeen lastSeen).1 = .error e
  | _ => False

theorem call_of_rejected {c : BucketCall} (h : m.Rejected c) : m.call c = m := by
  rcases c with ⟨id, op⟩
  cases op with
  | createBucket config now =>
    obtain ⟨e, he⟩ := h
    rcases hb : m.inner id with _ | b
    · simp only [createBucket, hb] at he
      cases he
    · simp only [call, createBucket, hb]
  | append ev =>
    rcases m.append_cases id ev with ⟨e, ha⟩ | ⟨b, seq, -, -, -, -, ha⟩
    · exact congrArg Prod.snd ha
    · obtain ⟨e, he⟩ := h
      rw [ha] at he
      cases he
  | patchEventAggregation seq count firstSeen lastSeen =>
    rcases m.patch_cases id seq count firstSeen lastSeen with ⟨e, ha⟩ | ⟨b, evs, -, -, -, ha⟩
    · exact congrArg Prod.snd ha
    · obtain ⟨e, he⟩ := h
      rw [ha] at he
      cases he
  | eventsSince req now => exact h.elim
  | summary now => exact h.elim

theorem patch_rejected {b : BucketInner} {seq : Nat}
    (hb : m.inner id = some b) (habs : ∀ e ∈ b.events, e.seq ≠ seq) (count : Nat)
    (firstSeen lastSeen : Time) :
    m.Rejected ⟨id, .patchEventAggregation seq count firstSeen lastSeen⟩ := by
  rcases m.patch_cases id seq count firstSeen lastSeen with ⟨e, h⟩ | ⟨b', evs, hb', hin, -, -⟩
  · exact ⟨e, congrArg Prod.fst h⟩
  · rw [hb, some.injEq] at hb'
    subst hb'
    obtain ⟨e, he, hs⟩ := hin
    exact absurd hs (habs e he)

end BucketManager

/-! ## The representation invariant over runs -/

structure BucketInner.Represents (b : BucketInner) (hist : List EventCore) : Prop where
  sorted : Increasing SignalEvent.seq b.events
  bounded : b.events.length ≤ b.config.maxEvents
  eventCount : b.state.eventCount = b.events.length
  bySeverity : ∀ s, b.bySeverity.slot s = severityCount b.events s
  byKind : ∀ k, (b.byKind k).getD 0 = kindCount b.events k
  noZeroKind : ∀ k, b.byKind k ≠ some 0
  accepted : b.state.droppedCount + b.state.eventCount = hist.length
  retained : b.events.map SignalEvent.core <:+ hist
  tail : b.state.tailSeq = lastKey EventCore.seq 0 hist
  head : b.state.headSeq = (b.events.head?.map (·.seq)).getD b.state.tailSeq
  noReuse : Increasing EventCore.seq hist

theorem countEntry_ne_some_zero (n : Nat) : countEntry n ≠ some 0 := by
  unfold countEntry
  split_ifs with h
  · exact (some_ne_none 0).symm
  · exact fun hn => h (some.inj hn)

theorem BucketInner.Ok.represents {b : BucketInner} {hist : List EventCore} (h : b.Ok)
    (hr : b.Records hist) : b.Represents hist := by
  obtain ⟨gone, hgone, hlen⟩ := hr.split
  refine ⟨h.sorted, h.bounded, h.eventCount, h.tallied.severity, ?_, ?_, ?_, ⟨gone, hgone.symm⟩,
    hr.tail, h.head, hr.sorted⟩
  · intro k
    rw [h.tallied.kind, countEntry_getD]
  · intro k
    rw [h.tallied.kind]
    exact countEntry_ne_some_zero _
  · rw [h.eventCount, hgone, length_append, length_map, hlen]

/-- **Representation.** A bucket is created and any list of calls follows, each append, patch,
read or summary with its own arguments and clock reading. The summaries then describe the ring
and the accepted events exactly, and a call that is rejected leaves the manager as it was. -/
theorem bucket_representation (id : BucketId) (config : BucketConfig) (created : Time)
    (cs : List BucketCall) :
    let m₀ := (BucketManager.new.createBucket id config created).2
    let m := m₀.calls cs
    ∃ b, m.inner id = some b ∧ b.config = config ∧ b.Represents (m₀.history cs id) ∧
      (∀ c, m.Rejected c → m.call c = m) ∧
      ∀ seq count firstSeen lastSeen, (∀ e ∈ b.events, e.seq ≠ seq) →
        m.Rejected ⟨id, .patchEventAggregation seq count firstSeen lastSeen⟩ := by
  intro m₀ m
  have h0 : m₀.inner id = some (.new id config created) := set_inner_self _ _ _
  obtain ⟨b, hb, hok, hsteps⟩ := m₀.calls_steps cs h0 (BucketInner.new_ok _ _ _)
  exact ⟨b, hb, hsteps.config, hok.represents hsteps.records, fun c hc => call_of_rejected hc,
    fun seq count firstSeen lastSeen habs =>
      patch_rejected hb habs count firstSeen lastSeen⟩

end TerminalCommander
