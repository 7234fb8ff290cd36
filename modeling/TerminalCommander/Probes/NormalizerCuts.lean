import TerminalCommander.Probes.StdinGate

/-!
# Lines and read boundaries

A stream reaches the normalizer in chunks, and `take_lines` is called after each of them. The drain
has an effect of its own only if a carriage return is still deferred: it then counts as an
overwrite, whatever the next chunk starts with. If no cut falls behind a carriage return, the
drains only take lines out, and the lines are those of the uncut stream (`lines_eq_closing`).
-/

namespace TerminalCommander

open List Sink VteParser

/-! ## The parser's events -/

namespace VteParser

variable {P : Type}

def events (vte : VteParser P) : P → List (List UInt8) → List VteEvent
  | _, [] => []
  | p, chunk :: chunks => (vte.advance p chunk).2 ++ vte.events (vte.advance p chunk).1 chunks

def Uncut (vte : VteParser P) : Prop :=
  ∀ chunks chunks' : List (List UInt8), chunks.flatten = chunks'.flatten →
    vte.events vte.init chunks = vte.events vte.init chunks'

end VteParser

def lastMark (events : List VteEvent) : Option VteEvent :=
  (events.filter fun e => e ≠ .sequence).getLast?

theorem lastMark_concat (events : List VteEvent) (e : VteEvent) :
    lastMark (events ++ [e]) = if e = .sequence then lastMark events else some e := by
  unfold lastMark
  rw [filter_append]
  split_ifs with h
  · simp [h]
  · simp [h]

/-! ## The sink -/

namespace Sink

def performAll (s : Sink) (events : List VteEvent) : Sink := events.foldl perform s

theorem performAll_append (s : Sink) (es es' : List VteEvent) :
    s.performAll (es ++ es') = (s.performAll es).performAll es' := foldl_append

theorem applyDeferredCrOverwrite_of_none {s : Sink} (h : s.pendingCr = false) :
    s.applyDeferredCrOverwrite = s := by
  simp [applyDeferredCrOverwrite, h]

@[simp] theorem applyDeferredCrOverwrite_pending (s : Sink) :
    s.applyDeferredCrOverwrite.pending = s.pending := by
  unfold applyDeferredCrOverwrite
  split_ifs <;> rfl

theorem perform_execute_pendingCr (s : Sink) (byte : UInt8) :
    (s.execute byte).pendingCr = decide (byte = 13) := by
  unfold execute
  split_ifs with hnewline hcr htab
  · simp [hnewline]
  · simp [hcr]
  · simp [htab]
  · simp [hcr]

theorem performAll_pendingCr {s : Sink} (h : s.pendingCr = false) (es : List VteEvent) :
    (s.performAll es).pendingCr ↔ lastMark es = some (.execute 13) := by
  induction es using reverseRecOn with
  | nil => simp [performAll, lastMark, h]
  | append_singleton es e ih =>
    rw [performAll_append, lastMark_concat]
    cases e with
    | print c => simp [performAll, perform, print]
    | execute byte => simp [performAll, perform, perform_execute_pendingCr]
    | sequence => simpa [performAll, perform] using ih

def drained (s : Sink) : Sink := { s with pending := [] }

def behind (lines : List Text) (s : Sink) : Sink := { s with pending := lines ++ s.pending }

section

variable (lines : List Text) (s : Sink)

theorem behind_applyDeferredCrOverwrite :
    (s.behind lines).applyDeferredCrOverwrite = s.applyDeferredCrOverwrite.behind lines := by
  unfold applyDeferredCrOverwrite behind
  split_ifs <;> rfl

theorem behind_perform (e : VteEvent) :
    (s.behind lines).perform e = (s.perform e).behind lines := by
  cases e with
  | print c =>
    simp only [perform, print, behind_applyDeferredCrOverwrite]
    rfl
  | execute byte =>
    simp only [perform, execute, behind_applyDeferredCrOverwrite]
    split_ifs
    · simp [behind]
    · rfl
    · rfl
    · rfl
  | sequence => rfl

theorem behind_performAll (es : List VteEvent) :
    (s.behind lines).performAll es = (s.performAll es).behind lines := by
  induction es using reverseRecOn with
  | nil => rfl
  | append_singleton es e ih =>
    rw [performAll_append, performAll_append, ih]
    exact behind_perform lines _ e

end

theorem behind_drained (s : Sink) : s.drained.behind s.pending = s := by
  simp [behind, drained]

def closing (s : Sink) : List Text :=
  s.pending ++ if s.applyDeferredCrOverwrite.line.isEmpty then [] else [s.applyDeferredCrOverwrite.line]

theorem closing_behind (lines : List Text) (s : Sink) :
    (s.behind lines).closing = lines ++ s.closing := by
  unfold closing
  rw [behind_applyDeferredCrOverwrite]
  simp [behind]

end Sink

/-! ## Chunks -/

namespace AnsiNormalizer

variable {P : Type} (vte : VteParser P)

def feedChunks : AnsiNormalizer P → List (List UInt8) → List Text × AnsiNormalizer P
  | n, [] => ([], n)
  | n, chunk :: chunks =>
    let (taken, n) := (n.feed vte chunk).takeLines
    let (rest, n) := feedChunks n chunks
    (taken ++ rest, n)

def lines (chunks : List (List UInt8)) : List Text :=
  let (taken, n) := feedChunks vte (.new vte) chunks
  taken ++ n.flush.1.toList

def CutsClear (chunks : List (List UInt8)) : Prop :=
  ∀ k < chunks.length, lastMark (vte.events vte.init (chunks.take k)) ≠ some (.execute 13)

instance (chunks : List (List UInt8)) : Decidable (CutsClear vte chunks) :=
  inferInstanceAs (Decidable (∀ k < chunks.length, _))

variable {vte}

theorem flush_eq (n : AnsiNormalizer P) (h : n.pending = []) :
    n.flush.1.toList = n.toSink.closing := by
  unfold flush resolveDanglingCr closing
  rw [h, nil_append]
  simp only
  split_ifs <;> rfl

theorem takeLines_of_none {n : AnsiNormalizer P} (h : n.pendingCr = false) :
    n.takeLines = (n.pending, ⟨n.toSink.drained, n.parser⟩) := by
  unfold takeLines resolveDanglingCr
  rw [applyDeferredCrOverwrite_of_none h]
  rfl

theorem takeLines_flush (n : AnsiNormalizer P) :
    n.takeLines.1 ++ n.takeLines.2.flush.1.toList = n.toSink.closing := by
  have hcr : n.takeLines.2.pendingCr = false := applyDeferredCrOverwrite_pendingCr _
  rw [flush_eq _ rfl]
  unfold closing
  rw [applyDeferredCrOverwrite_of_none hcr]
  simp [takeLines, resolveDanglingCr]

theorem feedChunks_closing (chunks : List (List UInt8)) : ∀ n : AnsiNormalizer P, n.pending = [] →
    (∀ before after, chunks = before ++ after → before ≠ [] → after ≠ [] →
      (n.toSink.performAll (vte.events n.parser before)).pendingCr = false) →
    (feedChunks vte n chunks).1 ++ (feedChunks vte n chunks).2.flush.1.toList =
      (n.toSink.performAll (vte.events n.parser chunks)).closing := by
  induction chunks with
  | nil =>
    intro n hpend _
    exact flush_eq n hpend
  | cons chunk rest ih =>
    intro n hpend hcuts
    have hfed : (n.feed vte chunk).toSink =
        n.toSink.performAll (vte.advance n.parser chunk).2 := rfl
    rw [events, performAll_append, ← hfed]
    by_cases hrest : rest = []
    · rw [hrest]
      simpa [feedChunks, events, performAll] using takeLines_flush _
    · have hclear : (n.feed vte chunk).pendingCr = false := by
        have h := hcuts [chunk] rest rfl (by simp) hrest
        rwa [events, events, append_nil, ← hfed] at h
      -- the lines taken here stand in front of those of the other chunks
      rw [← (n.feed vte chunk).toSink.behind_drained, behind_performAll, closing_behind]
      simp only [feedChunks, takeLines_of_none hclear]
      rw [append_assoc]
      refine congrArg _ (ih _ rfl ?_)
      intro before after heq hbef hafter
      have h := hcuts (chunk :: before) after (by rw [heq]; rfl) (by simp) hafter
      rw [events, performAll_append, ← hfed,
        ← (n.feed vte chunk).toSink.behind_drained, behind_performAll] at h
      exact h

theorem lines_eq_closing {chunks : List (List UInt8)} (h : CutsClear vte chunks) :
    lines vte chunks =
      ((new vte).toSink.performAll (vte.events vte.init chunks)).closing := by
  refine feedChunks_closing chunks (new vte) rfl ?_
  rintro before after rfl _ hafter
  have hlt : before.length < (before ++ after).length := by
    simpa using length_pos_of_ne_nil hafter
  have hcut := h before.length hlt
  rw [take_left] at hcut
  apply eq_false_of_ne_true
  intro hcr
  exact hcut ((performAll_pendingCr rfl _).mp hcr)

/-- **Read boundaries are invisible.** Two ways of reading one stream, neither of which cuts it
behind a carriage return, yield the same lines. -/
theorem lines_independent_of_cuts {P : Type} (vte : VteParser P) (hvte : vte.Uncut)
    (chunks chunks' : List (List UInt8)) (hstream : chunks.flatten = chunks'.flatten)
    (hcuts : CutsClear vte chunks) (hcuts' : CutsClear vte chunks') :
    lines vte chunks = lines vte chunks' := by
  rw [lines_eq_closing hcuts, lines_eq_closing hcuts', hvte chunks chunks' hstream]

theorem asciiVte_uncut : Pty.asciiVte.Uncut := by
  have hevents : ∀ chunks, Pty.asciiVte.events () chunks =
      (Pty.asciiVte.advance () chunks.flatten).2 := by
    intro chunks
    induction chunks with
    | nil => rfl
    | cons chunk chunks ih =>
      rw [events, flatten_cons]
      simp only [Pty.asciiVte, map_append] at ih ⊢
      rw [ih]
  intro chunks chunks' h
  rw [show Pty.asciiVte.init = () from rfl, hevents, hevents, h]

/-- A line end that is cut before its carriage return. -/
theorem line_end_cut_before :
    lines Pty.asciiVte [Pty.bytesOf "ab", Pty.bytesOf "\r\ncd\n"] =
      lines Pty.asciiVte [Pty.bytesOf "ab\r\ncd\n"] ∧
    lines Pty.asciiVte [Pty.bytesOf "ab\r\ncd\n"] = ["ab".toList, "cd".toList] :=
  ⟨lines_independent_of_cuts Pty.asciiVte asciiVte_uncut _ _ (by decide) (by decide) (by decide),
    by decide⟩

/-- Cut behind its carriage return, the same line is lost. -/
example : lines Pty.asciiVte [Pty.bytesOf "ab\r", Pty.bytesOf "\ncd\n"] = [[], "cd".toList] := by
  decide

end AnsiNormalizer

end TerminalCommander
