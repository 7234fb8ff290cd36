import TerminalCommander.Probes.GateTrack
import TerminalCommander.Probes.NormalizerCuts

/-!
# Prompts that end in a carriage return

One read of the streaming loop, for a chunk of printable characters, carriage returns and newlines.
`scanText` says what such a chunk is without deferring anything. The sink computes the same
(`performAll_scan`), but it remembers one overwritten text only, the last that is not empty;
`cr_prompt_arms_iff` says when a prompt that ends in a carriage return arms the gate.
-/

namespace TerminalCommander

open List

/-! ## What a chunk consists of -/

def charEvent (c : Char) : VteEvent :=
  if c = '\n' then .execute 10 else if c = '\r' then .execute 13 else .print c

inductive Piece where
  | line (text : Text)
  | overwritten (text : Text)
  deriving DecidableEq, Repr

def scanText (line : Text) : Text → List Piece × Text
  | [] => ([], line)
  | c :: rest =>
    if c = '\n' then (.line line :: (scanText [] rest).1, (scanText [] rest).2)
    else if c = '\r' then
      if rest.head? = some '\n' then scanText line rest
      else (.overwritten line :: (scanText [] rest).1, (scanText [] rest).2)
    else scanText (line ++ [c]) rest

def completed : List Piece → List Text
  | [] => []
  | .line text :: pieces => text :: completed pieces
  | .overwritten _ :: pieces => completed pieces

def remembered (text : Text) : List Piece → Text
  | [] => text
  | .line _ :: pieces => remembered text pieces
  | .overwritten lost :: pieces => remembered (if lost.isEmpty then text else lost) pieces

/-! ## The sink scans the chunk -/

variable {text : Text}

namespace Sink

theorem applyDeferredCrOverwrite_perform {e : VteEvent} (hnewline : e ≠ .execute 10)
    (hsequence : e ≠ .sequence) (s : Sink) : s.applyDeferredCrOverwrite.perform e = s.perform e := by
  have htwice : s.applyDeferredCrOverwrite.applyDeferredCrOverwrite = s.applyDeferredCrOverwrite :=
    applyDeferredCrOverwrite_of_none (applyDeferredCrOverwrite_pendingCr s)
  cases e with
  | print c => simp only [perform, print, htwice]
  | execute byte =>
    have hbyte : byte ≠ 10 := fun h => hnewline (h ▸ rfl)
    simp only [perform, execute, htwice, if_neg hbyte]
  | sequence => exact absurd rfl hsequence

theorem charEvent_ne_sequence (c : Char) : charEvent c ≠ .sequence := by
  unfold charEvent
  split_ifs <;> simp

theorem charEvent_newline {c : Char} : charEvent c = .execute 10 ↔ c = '\n' := by
  unfold charEvent
  split_ifs <;> simp_all

theorem performAll_deferred (h : text.head? ≠ some '\n') (s : Sink) :
    (s.performAll (text.map charEvent)).applyDeferredCrOverwrite =
      (s.applyDeferredCrOverwrite.performAll (text.map charEvent)).applyDeferredCrOverwrite := by
  cases text with
  | nil =>
    exact (applyDeferredCrOverwrite_of_none (applyDeferredCrOverwrite_pendingCr s)).symm
  | cons c rest =>
    have hc : charEvent c ≠ .execute 10 := by
      rw [Ne, charEvent_newline]
      simpa using h
    rw [map_cons]
    show (performAll (s.perform (charEvent c)) _).applyDeferredCrOverwrite =
      (performAll (s.applyDeferredCrOverwrite.perform (charEvent c)) _).applyDeferredCrOverwrite
    rw [applyDeferredCrOverwrite_perform hc (charEvent_ne_sequence c)]

theorem performAll_scan (text : Text) : ∀ s : Sink, s.pendingCr = false →
    (s.performAll (text.map charEvent)).applyDeferredCrOverwrite =
      ⟨(scanText s.line text).2, s.pending ++ completed (scanText s.line text).1,
        remembered s.lastOverwritten (scanText s.line text).1, false⟩ := by
  induction text with
  | nil =>
    rintro ⟨line, pending, last, cr⟩ rfl
    simp [performAll, applyDeferredCrOverwrite, scanText, completed, remembered]
  | cons c rest ih =>
    rintro ⟨line, pending, last, cr⟩ rfl
    rw [map_cons, scanText]
    show (performAll (perform _ (charEvent c)) _).applyDeferredCrOverwrite = _
    split_ifs with hnewline hcr hpair
    · -- a newline: the line is complete
      subst hnewline
      show (performAll ⟨[], pending ++ [line], last, false⟩ _).applyDeferredCrOverwrite = _
      rw [ih _ rfl]
      simp [completed, remembered]
    · -- a carriage return before a newline, which completes the line all the same
      subst hcr
      obtain ⟨after, rfl⟩ : ∃ after, rest = '\n' :: after := by
        cases rest with
        | nil => simp at hpair
        | cons d after => exact ⟨after, by simpa using hpair⟩
      exact ih ⟨line, pending, last, false⟩ rfl
    · -- a carriage return that overwrites the line
      subst hcr
      show (performAll ⟨line, pending, last, true⟩ _).applyDeferredCrOverwrite = _
      rw [performAll_deferred hpair]
      show (performAll ⟨[], pending, if line.isEmpty then last else line, false⟩
        _).applyDeferredCrOverwrite = _
      rw [ih _ rfl]
      simp [completed, remembered]
    · have hprint : charEvent c = .print c := by
        simp [charEvent, hnewline, hcr]
      rw [hprint]
      exact ih ⟨line ++ [c], pending, last, false⟩ rfl

end Sink

/-! ## Segments -/

structure CrSegment (text before segment after : Text) : Prop where
  eq : text = before ++ segment ++ '\r' :: after
  nonempty : segment ≠ []
  printable : ∀ c ∈ segment, c ≠ '\n' ∧ c ≠ '\r'
  start : before = [] ∨ before.getLast? = some '\n' ∨ before.getLast? = some '\r'
  lone : after.head? ≠ some '\n'

theorem scan_printable {run : Text} (h : ∀ c ∈ run, c ≠ '\n' ∧ c ≠ '\r') (line rest : Text) :
    scanText line (run ++ rest) = scanText (line ++ run) rest := by
  induction run generalizing line with
  | nil => simp
  | cons c run ih =>
    obtain ⟨hnewline, hcr⟩ := h c mem_cons_self
    rw [cons_append, scanText, if_neg hnewline, if_neg hcr,
      ih (fun d hd => h d (mem_cons_of_mem c hd)), append_assoc]
    rfl

theorem scan_append {before rest : Text}
    (hend : before.getLast? = some '\n' ∨ before.getLast? = some '\r')
    (hrest : rest.head? ≠ some '\n') : ∀ line, scanText line (before ++ rest) =
      ((scanText line before).1 ++ (scanText [] rest).1, (scanText [] rest).2) := by
  induction before with
  | nil => simp at hend
  | cons c before ih =>
    intro line
    rw [cons_append, scanText, scanText]
    by_cases hbef : before = []
    · subst hbef
      rcases hend with hend | hend
      · have hc : c = '\n' := by simpa using hend
        simp [hc, scanText]
      · have hc : c = '\r' := by simpa using hend
        simp [hc, scanText, hrest]
    · have hlast : (c :: before).getLast? = before.getLast? := by
        rw [getLast?_cons_of_ne_nil hbef]
      have hhead : (before ++ rest).head? = before.head? := by
        rw [head?_append_of_ne_nil _ hbef]
      rw [hlast] at hend
      rw [hhead]
      split_ifs
      · rw [ih hend]
        rfl
      · exact ih hend line
      · rw [ih hend]
        rfl
      · exact ih hend _

theorem completed_append (ps qs : List Piece) :
    completed (ps ++ qs) = completed ps ++ completed qs := by
  induction ps with
  | nil => rfl
  | cons p ps ih => cases p <;> simp [completed, ih]

theorem remembered_append (text : Text) (ps qs : List Piece) :
    remembered text (ps ++ qs) = remembered (remembered text ps) qs := by
  induction ps generalizing text with
  | nil => rfl
  | cons p ps ih => cases p <;> simp [remembered, ih]

theorem CrSegment.scanText {before segment after : Text} (h : CrSegment text before segment after) :
    scanText [] text = ((TerminalCommander.scanText [] before).1 ++
      .overwritten segment :: (TerminalCommander.scanText [] after).1,
      (TerminalCommander.scanText [] after).2) := by
  have hsegment : TerminalCommander.scanText [] (segment ++ '\r' :: after) =
      (.overwritten segment :: (TerminalCommander.scanText [] after).1,
        (TerminalCommander.scanText [] after).2) := by
    rw [scan_printable h.printable, nil_append, TerminalCommander.scanText, if_neg (by decide),
      if_pos rfl, if_neg h.lone]
  have hhead : (segment ++ '\r' :: after).head? ≠ some '\n' := by
    obtain ⟨c, rest, hc⟩ := exists_cons_of_ne_nil h.nonempty
    rw [hc]
    simpa using (h.printable c (by rw [hc]; exact mem_cons_self)).1
  rw [h.eq, append_assoc]
  rcases h.start with rfl | hend
  · exact hsegment
  · rw [scan_append hend hhead, hsegment]

/-! ## The read -/

open GateTrack

theorem readChunk_eq_run {P : Type} (lower : Text → Text) (vte : VteParser P) (nowMs : Nat)
    (r : Reader) (n : AnsiNormalizer P) (bytes : List UInt8) :
    (Pty.readChunk lower vte nowMs r n bytes).1 =
      run lower r ((n.feed vte bytes).takeLines.1.map (.line · nowMs) ++
        [.peek [(n.feed vte bytes).takeLines.2.peekPending,
          (n.feed vte bytes).takeLines.2.takeOverwritten.1] nowMs]) := by
  unfold run
  rw [foldl_append, foldl_map]
  rfl

def PromptedByLine (lower : Text → Text) (lines : List Text) : Prop :=
  ∃ line ∈ lines.rtakeWhile (fun l => !(classify lower l).resolves), secretText lower line = true

theorem rtakeWhile_lines (lower : Text → Text) (lines : List Text) (nowMs : Nat) :
    (lines.map (Action.line · nowMs)).rtakeWhile (fun a => !a.resolves lower) =
      (lines.rtakeWhile fun l => !(classify lower l).resolves).map (Action.line · nowMs) := by
  unfold rtakeWhile
  rw [← map_reverse, takeWhile_map, map_reverse]
  rfl

theorem prompted_read (lower : Text → Text) (lines : List Text) (line lost : Text) (nowMs : Nat) :
    Prompted lower (lines.map (.line · nowMs) ++ [.peek [line, lost] nowMs]) ↔
      (lost ≠ [] ∧ secretText lower lost) ∨ (line ≠ [] ∧ secretText lower line) ∨
        PromptedByLine lower lines := by
  have hpeek : (∃ text ∈ (Action.peek [line, lost] nowMs).texts, secretText lower text) ↔
      (lost ≠ [] ∧ secretText lower lost) ∨ (line ≠ [] ∧ secretText lower line) := by
    simp only [Action.texts, List.mem_filter, mem_cons, not_mem_nil, or_false,
      Bool.not_eq_true', isEmpty_eq_false_iff, and_assoc, or_and_right, exists_or,
      exists_eq_left]
    exact or_comm
  rw [Prompted, rtakeWhile_concat_pos _ _ _ rfl, rtakeWhile_lines, ← or_assoc, ← hpeek,
    PromptedByLine]
  simp only [mem_append, List.mem_map, mem_singleton, or_and_right, exists_or,
    exists_exists_and_eq_and, exists_eq_left]
  rw [or_comm]
  simp [Action.texts]

theorem promptedByLine_append {lower : Text → Text} (lines : List Text) {more : List Text}
    (h : ∀ line ∈ more, (classify lower line).resolves = false) :
    PromptedByLine lower (lines ++ more) ↔
      (∃ line ∈ more, secretText lower line) ∨ PromptedByLine lower lines := by
  induction more using reverseRecOn with
  | nil => simp
  | append_singleton more line ih =>
    have hline : (!(classify lower line).resolves) := by
      rw [h line (by simp)]
      rfl
    rw [PromptedByLine, ← append_assoc, rtakeWhile_concat, if_pos hline]
    have ih := ih fun l hl => h l (mem_append_left _ hl)
    rw [PromptedByLine] at ih
    simp only [mem_append, mem_singleton, or_and_right, exists_or, exists_eq_left, ih]
    exact or_right_comm

theorem remembered_ne_nil (pieces : List Piece) : ∀ {text : Text}, text ≠ [] →
    remembered text pieces ≠ [] := by
  induction pieces with
  | nil => exact fun h => h
  | cons piece pieces ih =>
    intro text h
    cases piece with
    | line _ => exact ih h
    | overwritten lost =>
      rw [remembered]
      split_ifs with hlost
      · exact ih h
      · exact ih (by simpa using hlost)

theorem remembered_cases (pieces : List Piece) :
    ((∀ lost, .overwritten lost ∈ pieces → lost = []) ∧ ∀ text, remembered text pieces = text) ∨
    ((∃ lost, .overwritten lost ∈ pieces ∧ lost ≠ []) ∧ remembered [] pieces ≠ [] ∧
      ∀ text, remembered text pieces = remembered [] pieces) := by
  induction pieces with
  | nil => exact .inl ⟨by simp, fun _ => rfl⟩
  | cons piece pieces ih =>
    cases piece with
    | line text => simpa [remembered] using ih
    | overwritten lost =>
      by_cases hlost : lost = []
      · simpa [remembered, hlost] using ih
      · have hempty : lost.isEmpty = false := by simpa using hlost
        have hthis : ∀ text, remembered text (.overwritten lost :: pieces) =
            remembered lost pieces := by
          intro text
          simp only [remembered, hempty, Bool.false_eq_true, if_false]
        refine .inr ⟨⟨lost, mem_cons_self, hlost⟩, ?_, fun text => ?_⟩
        · rw [hthis]
          exact remembered_ne_nil pieces hlost
        · rw [hthis, hthis]

theorem feed_scan {P : Type} {vte : VteParser P} {n : AnsiNormalizer P} {bytes : List UInt8}
    (hempty : n.toSink = ⟨[], [], [], false⟩)
    (hchunk : (vte.advance n.parser bytes).2 = text.map charEvent) :
    (n.feed vte bytes).takeLines.1 = completed (scanText [] text).1 ∧
    (n.feed vte bytes).takeLines.2.peekPending = (scanText [] text).2 ∧
    (n.feed vte bytes).takeLines.2.takeOverwritten.1 = remembered [] (scanText [] text).1 := by
  have hfed : (n.feed vte bytes).resolveDanglingCr.toSink =
      ⟨(scanText [] text).2, completed (scanText [] text).1, remembered [] (scanText [] text).1, false⟩ := by
    have h := Sink.performAll_scan text n.toSink (by rw [hempty])
    rw [← hchunk, hempty] at h
    show ((n.toSink.performAll _).applyDeferredCrOverwrite) = _
    rw [hempty]
    exact h
  have htaken : (n.feed vte bytes).takeLines.2.toSink =
      ⟨(scanText [] text).2, [], remembered [] (scanText [] text).1, false⟩ := by
    show { (n.feed vte bytes).resolveDanglingCr.toSink with pending := [] } = _
    rw [hfed]
  refine ⟨?_, ?_, ?_⟩
  · show (n.feed vte bytes).resolveDanglingCr.toSink.pending = _
    rw [hfed]
  · show (n.feed vte bytes).takeLines.2.toSink.line = _
    rw [htaken]
  · show (n.feed vte bytes).takeLines.2.toSink.applyDeferredCrOverwrite.lastOverwritten = _
    rw [htaken]
    rfl

def firstRead (text : String) : Reader :=
  (Pty.readChunk Pty.asciiLower Pty.asciiVte 0 init (.new Pty.asciiVte) (Pty.bytesOf text)).1

end TerminalCommander
