import TerminalCommander.Daemon.Subscriptions.ScopeCache

/-!
# The side table under records

What the records do to the side table: entries stay as they are, each bucket has one, and the epoch
counts the records that have returned. A map is full before the epoch can wrap.
-/

namespace TerminalCommander

namespace ScopeCache

open List Function Nat

variable {s s' : Sys}

def RecordPc.isReturned : RecordPc → Bool
  | .returned _ => true
  | _ => false

structure Base (s : Sys) : Prop where
  keys : ∀ r ∈ s.records, r.id ∈ s.buckets.keys
  nodup : (s.records.map RecordTask.id).Nodup
  map : ∀ id source, s.sources.get id = some source ↔
    ∃ r ∈ s.records, r.id = id ∧ r.source = source ∧ r.pc ≠ .insert
  dirty : s.sources.dirtyEpoch = s.records.countP fun r => r.pc.isReturned
  epochs : ∀ r ∈ s.records, ∀ n, r.pc = .returned n → n ≤ s.sources.dirtyEpoch
  room : s.entries ≤ MAX_MAP_ENTRIES

structure Later (s s' : Sys) : Prop where
  dirty : s.sources.dirtyEpoch ≤ s'.sources.dirtyEpoch
  map : ∀ id source, s.sources.get id = some source → s'.sources.get id = some source
  counted : ∀ r ∈ s'.records, ∀ n, r.pc = .returned n → n ≤ s.sources.dirtyEpoch → r ∈ s.records

theorem later_of_eq (hsources : s'.sources = s.sources) (hrecs : s'.records = s.records) :
    Later s s' := by
  refine ⟨?_, ?_, ?_⟩
  · rw [hsources]
  · rw [hsources]
    exact fun _ _ h => h
  · rw [hrecs]
    exact fun _ hr _ _ _ => hr

theorem init_base (sub : Subscription) : Base (init sub) where
  keys := fun _ h => by cases h
  nodup := nodup_nil
  map := fun _ _ => ⟨fun h => (by cases h), fun ⟨_, h, _⟩ => by cases h⟩
  dirty := rfl
  epochs := fun _ h => by cases h
  room := zero_le _

theorem Base.congr (h : Base s) (hbuckets : ∀ id ∈ s.buckets.keys, id ∈ s'.buckets.keys)
    (hsources : s'.sources = s.sources) (hrecs : s'.records = s.records) : Base s' := by
  refine ⟨?_, ?_, ?_, ?_, ?_, ?_⟩
  · rw [hrecs]
    exact fun r hr => hbuckets r.id (h.keys r hr)
  · rw [hrecs]
    exact h.nodup
  · rw [hrecs, hsources]
    exact h.map
  · rw [hrecs, hsources]
    exact h.dirty
  · rw [hrecs, hsources]
    exact h.epochs
  · unfold Sys.entries
    rw [hrecs]
    exact h.room

theorem Base.create (h : Base s) {id : BucketId} {source : BucketSource} {m : BucketManager}
    (hkeys : m.keys = s.buckets.keys ++ [id]) (hid : id ∉ s.records.map RecordTask.id) :
    Base { s with buckets := m, records := s.records ++ [⟨id, source, .insert⟩] } where
  keys r hr := by
    show r.id ∈ m.keys
    rw [hkeys]
    rcases mem_append.1 hr with hr | hr
    · exact mem_append_left _ (h.keys r hr)
    · rw [mem_singleton.1 hr]
      exact mem_append_right _ mem_cons_self
  nodup := by
    rw [map_append]
    refine h.nodup.append (nodup_singleton id) fun a ha hb => hid ?_
    have haid : a = id := mem_singleton.1 hb
    rwa [← haid]
  map id' source' := by
    refine (h.map id' source').trans ⟨?_, ?_⟩
    · rintro ⟨r, hr, hrest⟩
      exact ⟨r, mem_append_left _ hr, hrest⟩
    · rintro ⟨r, hr, hid, hsource, hpc⟩
      rcases mem_append.1 hr with hr | hr
      · exact ⟨r, hr, hid, hsource, hpc⟩
      · rw [mem_singleton.1 hr] at hpc
        exact absurd rfl hpc
  dirty := by
    rw [countP_append]
    exact h.dirty
  epochs r hr n hn := by
    rcases mem_append.1 hr with hr | hr
    · exact h.epochs r hr n hn
    · rw [mem_singleton.1 hr] at hn
      cases hn
  room := by
    unfold Sys.entries
    rw [countP_append]
    exact h.room

theorem later_create {id : BucketId} {source : BucketSource} {m : BucketManager} :
    Later s { s with buckets := m, records := s.records ++ [⟨id, source, .insert⟩] } where
  dirty := le_refl _
  map := fun _ _ h => h
  counted r hr n hn _ := by
    rcases mem_append.1 hr with hr | hr
    · exact hr
    · rw [mem_singleton.1 hr] at hn
      cases hn

section Record

variable {k : Nat} {r : RecordTask}

theorem ids_set {records : List RecordTask} (hk : records[k]? = some r) (pc : RecordPc) :
    (records.set k { r with pc := pc }).map RecordTask.id = records.map RecordTask.id := by
  obtain ⟨hlt, hr⟩ := List.getElem?_eq_some_iff.1 hk
  refine ext_getElem (by simp) fun i h1 h2 => ?_
  rw [getElem_map, getElem_map, getElem_set]
  split_ifs with hik
  · subst hik
    rw [← hr]
  · rfl

theorem countP_set_of {records : List RecordTask} (hk : records[k]? = some r) (r' : RecordTask)
    (f : RecordTask → Bool) : (records.set k r').countP f + (if f r then 1 else 0) =
      records.countP f + if f r' then 1 else 0 := by
  obtain ⟨hlt, hr⟩ := List.getElem?_eq_some_iff.1 hk
  rw [countP_set hlt, hr]
  have hpos : f r → 0 < records.countP f := fun hf =>
    countP_pos_iff.2 ⟨r, mem_of_getElem? hk, hf⟩
  by_cases hfr : f r
  · have hcount := hpos hfr
    rw [if_pos hfr]
    omega
  · rw [if_neg hfr]
    omega

section

variable (h : Base s) (hk : s.records[k]? = some r)

include h hk

theorem Base.ne_of_insert (hpc : r.pc = .insert)
    {r' : RecordTask} (hr' : r' ∈ s.records) (hpc' : r'.pc ≠ .insert) : r'.id ≠ r.id := by
  intro hid
  have heq : r' = r := inj_on_of_nodup_map h.nodup hr' (mem_of_getElem? hk) hid
  rw [heq] at hpc'
  exact hpc' hpc

theorem Base.insert (hpc : r.pc = .insert) (hroom : s.entries < MAX_MAP_ENTRIES) : Base { s with
      sources := s.sources.insert r.id r.source
      records := s.records.set k { r with pc := .bump } } where
  keys r' hr' := by
    rcases mem_or_eq_of_mem_set hr' with hr' | rfl
    · exact h.keys r' hr'
    · exact h.keys r (mem_of_getElem? hk)
  nodup := by
    rw [ids_set hk]
    exact h.nodup
  map id source := by
    show update s.sources.map r.id (some r.source) id = some source ↔ _
    refine ⟨fun hget => ?_, ?_⟩
    · by_cases hid : id = r.id
      · rw [hid, update_self, Option.some.injEq] at hget
        exact ⟨_, Table.mem_set_self hk _, hid.symm, hget, fun hbump => by cases hbump⟩
      · rw [update_of_ne hid] at hget
        obtain ⟨r', hr', hid', hsource, hpc'⟩ := (h.map id source).1 hget
        rcases Table.mem_set_or_eq hk hr' with rfl | hr'
        · exact absurd hid'.symm hid
        · exact ⟨r', hr', hid', hsource, hpc'⟩
    · rintro ⟨r', hr', hid', hsource, hpc'⟩
      rcases mem_or_eq_of_mem_set hr' with hr' | rfl
      · rw [← hid', update_of_ne (h.ne_of_insert hk hpc hr' hpc'), hid']
        exact (h.map id source).2 ⟨r', hr', hid', hsource, hpc'⟩
      · rw [← hid', ← hsource]
        exact update_self _ _ _
  dirty := by
    have hcount := countP_set_of hk { r with pc := .bump } fun r => r.pc.isReturned
    rw [hpc] at hcount
    exact h.dirty.trans hcount.symm
  epochs r' hr' n hn := by
    rcases mem_or_eq_of_mem_set hr' with hr' | rfl
    · exact h.epochs r' hr' n hn
    · cases hn
  room := by
    have hcount := countP_set_of hk { r with pc := .bump } fun r => decide (r.pc ≠ .insert)
    rw [hpc] at hcount
    have hent : (s.records.set k { r with pc := .bump }).countP
        (fun r => decide (r.pc ≠ .insert)) = s.entries + 1 := hcount
    exact le_trans (le_of_eq hent) hroom

theorem Base.later_insert (hpc : r.pc = .insert) : Later s { s with
      sources := s.sources.insert r.id r.source
      records := s.records.set k { r with pc := .bump } } where
  dirty := le_refl _
  map id source hget := by
    obtain ⟨r', hr', hid, hsource, hpc'⟩ := (h.map id source).1 hget
    have hne : id ≠ r.id := hid ▸ h.ne_of_insert hk hpc hr' hpc'
    exact (update_of_ne hne _ _).trans hget
  counted r' hr' n hn _ := by
    rcases mem_or_eq_of_mem_set hr' with hr' | rfl
    · exact hr'
    · cases hn

theorem Base.bump_dirty (hpc : r.pc = .bump) :
    s.sources.bump.dirtyEpoch = s.sources.dirtyEpoch + 1 := by
  have hlt : s.records.countP (fun r => r.pc.isReturned) + 1 ≤ s.entries := by
    have hcount := countP_set_of hk { r with pc := .returned 0 } fun r => r.pc.isReturned
    have hentries := countP_set_of hk { r with pc := .returned 0 } fun r => decide (r.pc ≠ .insert)
    have hle : (s.records.set k { r with pc := .returned 0 }).countP (fun r => r.pc.isReturned) ≤
        (s.records.set k { r with pc := .returned 0 }).countP fun r => decide (r.pc ≠ .insert) := by
      refine countP_mono_left fun r' _ hret => decide_eq_true fun hins => ?_
      rw [hins] at hret
      cases hret
    rw [hpc] at hcount hentries
    have hcount' : (s.records.set k { r with pc := .returned 0 }).countP (fun r => r.pc.isReturned) =
        s.records.countP (fun r => r.pc.isReturned) + 1 := hcount
    have hent' : (s.records.set k { r with pc := .returned 0 }).countP
        (fun r => decide (r.pc ≠ .insert)) = s.entries := succ.inj hentries
    omega
  have hroom := h.room
  have hmax : MAX_MAP_ENTRIES ≤ u64Max := by decide
  have hdirty : s.sources.dirty = s.records.countP fun r => r.pc.isReturned := h.dirty
  refine wrapAdd_of_le ?_
  omega

theorem Base.bump (hpc : r.pc = .bump) : Base { s with
      sources := s.sources.bump
      records := s.records.set k { r with pc := .returned s.sources.bump.dirtyEpoch } } where
  keys r' hr' := by
    rcases mem_or_eq_of_mem_set hr' with hr' | rfl
    · exact h.keys r' hr'
    · exact h.keys r (mem_of_getElem? hk)
  nodup := by
    rw [ids_set hk]
    exact h.nodup
  map id source := by
    refine (h.map id source).trans ⟨?_, ?_⟩
    · rintro ⟨r', hr', hid, hsource, hpc'⟩
      rcases Table.mem_set_or_eq hk hr' with rfl | hr'
      · exact ⟨_, Table.mem_set_self hk _, hid, hsource, fun hins => by cases hins⟩
      · exact ⟨r', hr', hid, hsource, hpc'⟩
    · rintro ⟨r', hr', hid, hsource, hpc'⟩
      rcases mem_or_eq_of_mem_set hr' with hr' | rfl
      · exact ⟨r', hr', hid, hsource, hpc'⟩
      · refine ⟨r, mem_of_getElem? hk, hid, hsource, ?_⟩
        rw [hpc]
        exact fun hins => by cases hins
  dirty := by
    have hcount := countP_set_of hk { r with pc := .returned s.sources.bump.dirtyEpoch }
      fun r => r.pc.isReturned
    rw [hpc] at hcount
    exact ((h.bump_dirty hk hpc).trans (congrArg (· + 1) h.dirty)).trans hcount.symm
  epochs r' hr' n hn := by
    show n ≤ s.sources.bump.dirtyEpoch
    rcases mem_or_eq_of_mem_set hr' with hr' | rfl
    · have hle := h.epochs r' hr' n hn
      rw [h.bump_dirty hk hpc]
      omega
    · cases hn
      exact le_refl _
  room := by
    have hcount := countP_set_of hk { r with pc := .returned s.sources.bump.dirtyEpoch }
      fun r => decide (r.pc ≠ .insert)
    rw [hpc] at hcount
    exact le_trans (le_of_eq (succ.inj hcount)) h.room

theorem Base.later_bump (hpc : r.pc = .bump) : Later s { s with
      sources := s.sources.bump
      records := s.records.set k { r with pc := .returned s.sources.bump.dirtyEpoch } } where
  dirty := le_trans (le_succ _) (le_of_eq (h.bump_dirty hk hpc).symm)
  map := fun _ _ hget => hget
  counted r' hr' n hn hle := by
    rcases mem_or_eq_of_mem_set hr' with hr' | rfl
    · exact hr'
    · cases hn
      have hbump := h.bump_dirty hk hpc
      omega

end

end Record

end ScopeCache

end TerminalCommander
