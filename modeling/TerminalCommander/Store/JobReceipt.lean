import Mathlib.Data.List.Induction
import TerminalCommander.Core.Text
import TerminalCommander.Lib.Upsert

/-!
# Job receipts

`record_job_receipt` of `store/src/job_receipt.rs`: one upsert for a real outcome, another for an
abandonment. The row of a job after any calls is `settledRow` of them: that of the last abandonment
while there is no real outcome, and from then on that of the last call that agrees with the first
real one.
-/

namespace TerminalCommander

open Option

namespace JobReceipt

def ABANDONED_END_CAUSE : Text := "abandoned".toList

structure JobReceiptRow where
  jobId : Text
  bucketId : Text
  terminalState : Text
  exitCode : Option Int
  finalSignalCounts : Text
  restartedAt : Option Text
  createdAt : Text
  metricsJson : Option Text
  endCause : Option Text
  deriving DecidableEq

structure ReceiptCall where
  jobId : Text
  bucketId : Text
  terminalState : Text
  exitCode : Option Int
  finalSignalCounts : Text
  metricsJson : Option Text
  endCause : Option Text
  now : Text
  deriving DecidableEq

abbrev Receipts := Text → Option JobReceiptRow

namespace ReceiptCall

def isAbandonment (c : ReceiptCall) : Bool := c.endCause == some ABANDONED_END_CAUSE

def values (c : ReceiptCall) : JobReceiptRow where
  jobId := c.jobId
  bucketId := c.bucketId
  terminalState := c.terminalState
  exitCode := c.exitCode
  finalSignalCounts := c.finalSignalCounts
  restartedAt := none
  createdAt := c.now
  metricsJson := c.metricsJson
  endCause := c.endCause

end ReceiptCall

def setColumns (old excluded : JobReceiptRow) : JobReceiptRow :=
  { old with
    bucketId := excluded.bucketId
    terminalState := excluded.terminalState
    exitCode := excluded.exitCode
    finalSignalCounts := excluded.finalSignalCounts
    restartedAt := none
    createdAt := excluded.createdAt
    metricsJson := excluded.metricsJson
    endCause := excluded.endCause }

def whereAbandoned (old _excluded : JobReceiptRow) : Sql.Truth :=
  Sql.eq old.endCause (some "abandoned".toList)

def whereAgrees (old excluded : JobReceiptRow) : Sql.Truth :=
  .or (Sql.eq old.endCause (some "abandoned".toList))
    (.and (Sql.eq (some old.terminalState) (some excluded.terminalState))
      (Sql.is old.exitCode excluded.exitCode))

def recordJobReceipt (table : Receipts) (c : ReceiptCall) : Receipts :=
  if c.isAbandonment then
    Sql.upsert JobReceiptRow.jobId setColumns whereAbandoned c.values table
  else Sql.upsert JobReceiptRow.jobId setColumns whereAgrees c.values table

def recordAll (calls : List ReceiptCall) : Receipts := calls.foldl recordJobReceipt fun _ => none

/-! ## The row of a job -/

def callsFor (job : Text) (calls : List ReceiptCall) : List ReceiptCall :=
  calls.filter fun c => c.jobId == job

def firstReal (calls : List ReceiptCall) : Option ReceiptCall :=
  calls.find? fun c => !c.isAbandonment

def agreesWith (first c : ReceiptCall) : Bool :=
  !c.isAbandonment && (first.terminalState == c.terminalState && first.exitCode == c.exitCode)

def settledCall (calls : List ReceiptCall) : Option ReceiptCall :=
  match firstReal calls with
  | none => calls.getLast?
  | some first => (calls.filter (agreesWith first)).getLast?

def recordRow (c : ReceiptCall) : Option JobReceiptRow → JobReceiptRow :=
  Sql.upsertRow setColumns (if c.isAbandonment then whereAbandoned else whereAgrees) c.values

theorem recordJobReceipt_self (table : Receipts) (c : ReceiptCall) :
    recordJobReceipt table c c.jobId = some (recordRow c (table c.jobId)) := by
  unfold recordJobReceipt recordRow
  split_ifs <;> exact Function.update_self ..

variable {c : ReceiptCall}

theorem recordJobReceipt_of_ne (table : Receipts) {job : Text}
    (h : job ≠ c.jobId) : recordJobReceipt table c job = table job := by
  unfold recordJobReceipt
  split_ifs <;> exact Function.update_of_ne h ..

variable {d : ReceiptCall}

theorem setColumns_values (h : c.jobId = d.jobId) : setColumns c.values d.values = d.values := by
  simp only [setColumns, ReceiptCall.values, h]

theorem whereAbandoned_holds (c d : ReceiptCall) :
    (whereAbandoned c.values d.values).holds = c.isAbandonment := by
  unfold whereAbandoned ReceiptCall.isAbandonment
  rw [Sql.holds_eq_some, beq_eq_decide]
  rfl

theorem whereAgrees_holds (c d : ReceiptCall) :
    (whereAgrees c.values d.values).holds = (c.isAbandonment ||
      (c.terminalState == d.terminalState && c.exitCode == d.exitCode)) := by
  have h := whereAbandoned_holds c d
  unfold whereAbandoned at h
  unfold whereAgrees
  rw [Sql.Truth.holds_or, Sql.Truth.holds_and, h, Sql.holds_eq_some, Sql.holds_is, Bool.eq_iff_iff]
  simp only [Bool.or_eq_true, Bool.and_eq_true, decide_eq_true_eq, beq_iff_eq, Option.some.injEq]
  rfl

theorem recordRow_of_abandonment (hjob : c.jobId = d.jobId)
    (hc : c.isAbandonment) : recordRow d (some c.values) = d.values := by
  have hcond : ((if d.isAbandonment then whereAbandoned else whereAgrees) c.values
      d.values).holds := by
    split_ifs
    · rw [whereAbandoned_holds, hc]
    · rw [whereAgrees_holds, hc, Bool.true_or]
  rw [recordRow, Sql.upsertRow, if_pos hcond, setColumns_values hjob]

theorem recordRow_of_real (hjob : c.jobId = d.jobId) (hc : c.isAbandonment = false) :
    recordRow d (some c.values) = if agreesWith c d then d.values else c.values := by
  have hcond : ((if d.isAbandonment then whereAbandoned else whereAgrees) c.values
      d.values).holds = agreesWith c d := by
    unfold agreesWith
    split_ifs with hd
    · rw [whereAbandoned_holds, hc, hd, Bool.not_true, Bool.false_and]
    · rw [whereAgrees_holds, hc, eq_false_of_ne_true hd, Bool.not_false, Bool.true_and,
        Bool.false_or]
  rw [recordRow, Sql.upsertRow, hcond, setColumns_values hjob]

/-! ## The settled call -/

theorem firstReal_concat (calls : List ReceiptCall) (c : ReceiptCall) : firstReal (calls ++ [c]) =
      (firstReal calls).or (if c.isAbandonment then none else some c) := by
  unfold firstReal
  rw [List.find?_append, List.find?_singleton]
  cases c.isAbandonment <;> rfl

variable {calls : List ReceiptCall}

theorem settledCall_of_none (h : firstReal calls = none) : settledCall calls = calls.getLast? := by
  rw [settledCall, h]

variable {first : ReceiptCall}

theorem settledCall_of_some (h : firstReal calls = some first) :
    settledCall calls = (calls.filter (agreesWith first)).getLast? := by
  rw [settledCall, h]

theorem mem_of_settledCall {last : ReceiptCall}
    (h : settledCall calls = some last) : last ∈ calls := by
  cases hfirst : firstReal calls with
  | none =>
    rw [settledCall_of_none hfirst] at h
    exact List.mem_of_getLast? h
  | some first =>
    rw [settledCall_of_some hfirst] at h
    exact List.mem_of_mem_filter (List.mem_of_getLast? h)

theorem isAbandonment_of_firstReal (h : firstReal calls = none) : ∀ c ∈ calls, c.isAbandonment := by
  intro c hc
  simpa using List.find?_eq_none.mp h c hc

theorem agreesWith_self (h : firstReal calls = some first) : agreesWith first first := by
  have hreal := List.find?_some h
  simpa [agreesWith] using hreal

theorem exists_settledCall (h : firstReal calls = some first) :
    ∃ last, settledCall calls = some last ∧ agreesWith first last := by
  have hmem : first ∈ calls.filter (agreesWith first) :=
    List.mem_filter.mpr ⟨List.mem_of_find?_eq_some h, agreesWith_self h⟩
  have hne := List.ne_nil_of_mem hmem
  refine ⟨_, ?_, (List.mem_filter.mp (List.getLast_mem hne)).2⟩
  rw [settledCall_of_some h, List.getLast?_eq_some_getLast hne]

theorem settledCall_concat
    (hjob : ∀ d ∈ calls, d.jobId = c.jobId) : (settledCall (calls ++ [c])).map ReceiptCall.values =
      some (recordRow c ((settledCall calls).map ReceiptCall.values)) := by
  cases hfirst : firstReal calls with
  | none =>
    have hlast : settledCall (calls ++ [c]) = some c := by
      have hconcat := firstReal_concat calls c
      rw [hfirst, none_or] at hconcat
      split_ifs at hconcat with hc
      · rw [settledCall_of_none hconcat, List.getLast?_concat]
      · -- the calls before the first real one do not agree with it
        rw [settledCall_of_some hconcat, List.filter_append, List.filter_singleton,
          agreesWith_self hconcat]
        exact List.getLast?_concat
    rw [hlast, settledCall_of_none hfirst]
    cases hold : calls.getLast? with
    | none => rfl
    | some last =>
      have hmem := List.mem_of_getLast? hold
      rw [map_some, map_some, recordRow_of_abandonment (hjob last hmem)
        (isAbandonment_of_firstReal hfirst last hmem)]
  | some first =>
    obtain ⟨last, hlast, hagree⟩ := exists_settledCall hfirst
    have hconcat := firstReal_concat calls c
    rw [hfirst, some_or] at hconcat
    have hreal : last.isAbandonment = false := by
      simp only [agreesWith, Bool.and_eq_true, Bool.not_eq_true'] at hagree
      exact hagree.1
    have hsame : agreesWith last c = agreesWith first c := by
      simp only [agreesWith, Bool.and_eq_true, beq_iff_eq] at hagree ⊢
      rw [hagree.2.1, hagree.2.2]
    rw [hlast, map_some, recordRow_of_real (hjob last (mem_of_settledCall hlast)) hreal, hsame,
      settledCall_of_some hconcat, List.filter_append, List.filter_singleton]
    cases hc : agreesWith first c with
    | true =>
      rw [cond_true, List.getLast?_concat]
      rfl
    | false =>
      rw [cond_false, List.append_nil, ← settledCall_of_some hfirst, hlast]
      rfl

theorem recordAll_eq (calls : List ReceiptCall) (job : Text) :
    recordAll calls job = (settledCall (callsFor job calls)).map ReceiptCall.values := by
  induction calls using List.reverseRecOn with
  | nil => rfl
  | append_singleton calls c ih =>
    unfold recordAll callsFor at *
    rw [List.foldl_append, List.foldl_cons, List.foldl_nil, List.filter_append,
      List.filter_singleton]
    by_cases hjob : c.jobId = job
    · subst hjob
      rw [recordJobReceipt_self, ih, beq_self_eq_true]
      refine (settledCall_concat fun d hd => ?_).symm
      exact beq_iff_eq.mp (List.mem_filter.mp hd).2
    · rw [recordJobReceipt_of_ne _ (Ne.symm hjob), ih, beq_eq_false_iff_ne.mpr hjob]
      rw [cond_false, List.append_nil]

/-- **Durable outcomes.** Behind the first real call the row holds its outcome and is not marked as
abandoned, and its evidence is that of the last real call that agrees with it; before that it is the
row of the last abandonment; and no abandonment changes a row with a real outcome. -/
theorem first_outcome_durable (calls : List ReceiptCall) (job : Text) :
    (∀ first, firstReal (callsFor job calls) = some first →
      ∃ row last, recordAll calls job = some row ∧
        row.terminalState = first.terminalState ∧ row.exitCode = first.exitCode ∧
        row.endCause ≠ some ABANDONED_END_CAUSE ∧
        ((callsFor job calls).filter (agreesWith first)).getLast? = some last ∧
        row.finalSignalCounts = last.finalSignalCounts ∧ row.metricsJson = last.metricsJson) ∧
    (firstReal (callsFor job calls) = none →
      recordAll calls job = (callsFor job calls).getLast?.map ReceiptCall.values) ∧
    (∀ row c, recordAll calls job = some row → row.endCause ≠ some ABANDONED_END_CAUSE →
      c.isAbandonment = true → recordJobReceipt (recordAll calls) c job = some row) := by
  refine ⟨fun first hfirst => ?_, fun hnone => ?_, fun row c hrow hcause hc => ?_⟩
  · obtain ⟨last, hlast, hagree⟩ := exists_settledCall hfirst
    simp only [agreesWith, Bool.and_eq_true, Bool.not_eq_true', beq_iff_eq] at hagree
    refine ⟨last.values, last, ?_, hagree.2.1.symm, hagree.2.2.symm, ?_, ?_, rfl, rfl⟩
    · rw [recordAll_eq, hlast, map_some]
    · exact beq_eq_false_iff_ne.mp hagree.1
    · rw [← settledCall_of_some hfirst, hlast]
  · rw [recordAll_eq, settledCall_of_none hnone]
  · by_cases hjob : job = c.jobId
    · subst hjob
      rw [recordAll_eq] at hrow
      obtain ⟨last, hlast, rfl⟩ := map_eq_some_iff.mp hrow
      have hreal : last.isAbandonment = false := beq_eq_false_iff_ne.mpr hcause
      have hdiffer : agreesWith last c = false := by rw [agreesWith, hc]; rfl
      have hsame : last.jobId = c.jobId :=
        beq_iff_eq.mp (List.mem_filter.mp (mem_of_settledCall hlast)).2
      rw [recordJobReceipt_self, recordAll_eq, hlast, map_some,
        recordRow_of_real hsame hreal, hdiffer]
      rfl
    · rw [recordJobReceipt_of_ne _ hjob, hrow]

end JobReceipt

end TerminalCommander
