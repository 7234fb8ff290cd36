import TerminalCommander.Core.BucketExpiry

/-!
# Paging a bucket

A client reads a bucket page by page, each time from the `next_cursor` of the page before, with any
limit, until `has_more` is false. If nothing is appended and nothing expires meanwhile, a page is
the first part of the wanted events and its cursor leaves exactly the rest (`Sound.next_page`), so
the pages together are the wanted events (`readPages_exact`).
-/

namespace TerminalCommander

open KeyedLog List

namespace BucketInner

variable {b : BucketInner} {req : BucketReadRequest}

def wanted (b : BucketInner) (req : BucketReadRequest) : List SignalEvent :=
  b.events.filter (passes req)

theorem readSince_hasMore (b : BucketInner) (id : BucketId) (req : BucketReadRequest) :
    (b.readSince id req).hasMore = decide (readLimit req < (b.wanted req).length) := by
  unfold readSince
  rw [readLoop_eq req _ _ _ (Nat.zero_le _)]
  dsimp only
  rw [Bool.false_or, length_nil, Nat.zero_add]
  rfl

theorem wanted_past {c : Nat} (h : req.cursor ≤ c) :
    b.wanted { req with cursor := c } = (b.wanted req).filter fun ev => c < ev.seq := by
  rw [wanted, wanted, List.filter_filter]
  refine filter_congr fun ev _ => ?_
  by_cases hc : c < ev.seq
  · have : req.cursor < ev.seq := by omega
    simp [passes, hc, this]
  · simp [passes, hc]

/-- A page and what its cursor leaves. -/
theorem Sound.next_page (h : b.Sound) (id : BucketId) (req : BucketReadRequest) :
    (b.readSince id req).events = (b.wanted req).take (readLimit req) ∧
      b.wanted { req with cursor := (b.readSince id req).nextCursor } =
        (b.wanted req).drop (readLimit req) := by
  refine ⟨readSince_events b id req, ?_⟩
  rw [wanted_past (h.readSince id req).cursor_le, readSince_nextCursor]
  refine Increasing.filter_past (h.sorted.sublist filter_sublist) ?_ _
  exact fun ev hev => cursor_lt_of_passes (List.mem_filter.mp hev).2

end BucketInner

namespace BucketManager

open BucketInner

/-- The pages a client reads, each with its own limit and clock reading. -/
def readPages (id : BucketId) :
    BucketManager → BucketReadRequest → List (Option Nat × Time) → List BucketReadResponse
  | _, _, [] => []
  | m, req, (limit, now) :: reads =>
    match m.eventsSince id { req with limit := limit } now with
    | (.error _, _) => []
    | (.ok resp, m') =>
      resp :: if resp.hasMore then readPages id m' { req with cursor := resp.nextCursor } reads
        else []

/-- The pages hold a first part of the wanted events, all of them if the last page says that there
is no more, which it does as soon as there were as many pages as wanted events. -/
structure Pages (wanted : List SignalEvent) (reads : List (Option Nat × Time))
    (pages : List BucketReadResponse) : Prop where
  first : pages.flatMap (·.events) <+: wanted
  last : ∀ p ∈ pages.getLast?, p.hasMore = false ↔ pages.flatMap (·.events) = wanted
  ends : reads ≠ [] → wanted.length ≤ reads.length → ∃ p ∈ pages.getLast?, p.hasMore = false

/-- A page with more to come, in front of the pages of the rest. -/
theorem Pages.cons {wanted : List SignalEvent} {reads : List (Option Nat × Time)}
    {pages : List BucketReadResponse} {resp : BucketReadResponse} {r : Option Nat × Time} {n : Nat}
    (hmore : resp.hasMore) (hn : 0 < n) (hlt : n < wanted.length)
    (hev : resp.events = wanted.take n) (h : Pages (wanted.drop n) reads pages) :
    Pages wanted (r :: reads) (resp :: pages) := by
  have hcut : wanted = wanted.take n ++ wanted.drop n := (take_append_drop n wanted).symm
  have hall : (resp :: pages).flatMap (·.events) = wanted.take n ++ pages.flatMap (·.events) := by
    rw [flatMap_cons, hev]
  constructor
  · rw [hall]
    nth_rewrite 2 [hcut]
    exact (prefix_append_right_inj _).mpr h.first
  · intro p hp
    have hrest : (resp :: pages).flatMap (·.events) = wanted ↔
        pages.flatMap (·.events) = wanted.drop n := by
      rw [hall]
      nth_rewrite 2 [hcut]
      exact append_right_inj _
    rw [hrest]
    rw [getLast?_cons, Option.mem_some_iff] at hp
    rcases hlast : pages.getLast? with _ | q
    · -- the client stopped here
      rw [getLast?_eq_none_iff.mp hlast] at hp ⊢
      have hne : wanted.drop n ≠ [] := by simpa using hlt
      simp [← hp, hmore, hne.symm]
    · rw [hlast] at hp
      exact h.last p (hlast.trans (congrArg some hp))
  · intro _ hlen
    have hdrop : (wanted.drop n).length = wanted.length - n := length_drop
    have hreads : reads ≠ [] := by
      rintro rfl
      simp at hlen
      omega
    obtain ⟨p, hp, hdone⟩ := h.ends hreads (by simp at hlen; omega)
    exact ⟨p, by simp [getLast?_cons, Option.mem_def.mp hp], hdone⟩

theorem readPages_pages (id : BucketId) : ∀ (reads : List (Option Nat × Time)) (m : BucketManager)
    (req : BucketReadRequest) (b : BucketInner), m.inner id = some b → b.Ok →
    (∀ r ∈ reads, (b.evictExpired r.2).events = b.events) →
    Pages (b.wanted req) reads (m.readPages id req reads) := by
  intro reads
  induction reads with
  | nil => exact fun m req b _ _ _ => ⟨List.nil_prefix, nofun, fun h => absurd rfl h⟩
  | cons r reads ih =>
    intro m req b hb hok hsame
    obtain ⟨limit, now⟩ := r
    obtain ⟨-, -, hok', -⟩ := hok.evictExpired now
    have hnow : (b.evictExpired now).events = b.events := hsame _ (mem_cons_self ..)
    have hwanted : ∀ req', (b.evictExpired now).wanted req' = b.wanted req' := by
      simp only [wanted, hnow, implies_true]
    obtain ⟨hev, hnext⟩ := hok'.next_page id { req with limit := limit }
    have hmore := readSince_hasMore (b.evictExpired now) id { req with limit := limit }
    simp only [hwanted] at hev hnext hmore
    have hread : m.eventsSince id { req with limit := limit } now =
        (.ok ((b.evictExpired now).readSince id { req with limit := limit }),
          m.set id (b.evictExpired now)) := by
      simp only [eventsSince, hb]
    rw [readPages, hread]
    dsimp only
    split_ifs with hm
    · refine Pages.cons hm (readLimit_pos _) (of_decide_eq_true (hmore.symm.trans hm)) hev ?_
      have hrest : b.wanted req = b.wanted { req with limit := limit } := rfl
      rw [hrest, ← hnext, ← hwanted]
      refine ih _ { req with cursor := _ } _ (set_inner_self m id _) hok' fun r hr => ?_
      rw [evictExpired_events, evictExpired_config, hnow, ← evictExpired_events]
      exact hsame r (mem_cons_of_mem _ hr)
    · have hend : (b.wanted req).length ≤ readLimit { req with limit := limit } := by
        rw [hmore, decide_eq_true_eq] at hm
        exact Nat.not_lt.mp hm
      have hall : ((b.evictExpired now).readSince id { req with limit := limit }).events =
          b.wanted req := hev.trans (take_of_length_le hend)
      have hno := Bool.eq_false_iff.mpr hm
      constructor <;> simp [hall, hno]

/-- **Exact paging.** However a bucket was filled: if nothing expires while a client pages through
it, with any limits and filters and from any cursor, the pages are the wanted events in order. -/
theorem readPages_exact (cs : List BucketCall) (id : BucketId) (b : BucketInner)
    (hb : (new.calls cs).inner id = some b) (req : BucketReadRequest)
    (reads : List (Option Nat × Time))
    (hsame : ∀ r ∈ reads, (b.evictExpired r.2).events = b.events) :
    Increasing SignalEvent.seq (b.wanted req) ∧
      Pages (b.wanted req) reads ((new.calls cs).readPages id req reads) := by
  have hok := new_ok.calls cs id b hb
  exact ⟨hok.sorted.sublist filter_sublist, readPages_pages id reads _ req b hb hok hsame⟩

theorem readPages_exact_two : ∃ b ∈ (appendedAt [0, 0]).inner 1,
    Pages (b.wanted ⟨0, none, none, none⟩) [(some 1, 0), (none, 0)]
      ((appendedAt [0, 0]).readPages 1 ⟨0, none, none, none⟩ [(some 1, 0), (none, 0)]) := by
  have hkept : ∃ b ∈ (appendedAt [0, 0]).inner 1,
      ∀ r ∈ [(some 1, 0), ((none : Option Nat), (0 : Time))],
        (b.evictExpired r.2).events = b.events := by
    decide +kernel
  obtain ⟨b, hb, hsame⟩ := hkept
  exact ⟨b, hb, (readPages_exact _ 1 b hb _ _ hsame).2⟩

end BucketManager

end TerminalCommander
