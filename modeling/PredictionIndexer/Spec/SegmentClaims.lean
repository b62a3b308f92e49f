import PredictionIndexer.ForStd.Utf8
import PredictionIndexer.Splices.Segment

/-!
# What a writer claims, as a function of its records

The accumulator goes record by record; here is what it has come to after all of them. Only the
ordering flag depends on where the previous segment ended.

## Key results

- `visibleNonDecreasing_observed`, `deliveryIndexDense_observed`: the two flags
-/

namespace PredictionIndexer.Splices

theorem isChain_concat {α : Type} {R : α → α → Prop} {l : List α} {b : α} :
    List.IsChain R (l ++ [b]) ↔ List.IsChain R l ∧ ∀ a ∈ l.getLast?, R a b := by
  simp [List.isChain_append]

/-- A writer that has taken records in. -/
def observed (previousVisibleNs : Option Nat) (records : List Record) : SegmentWriter :=
  records.foldl SegmentWriter.observe { accumulator := { previousVisibleNs := previousVisibleNs } }

section Observed

variable (previous : Option Nat) (records : List Record)

theorem observed_append (r : Record) :
    observed previous (records ++ [r]) = (observed previous records).observe r := by
  simp [observed]

theorem digested_observed :
    (observed previous records).accumulator.digested = records.flatMap (·.line) := by
  induction records using List.reverseRecOn with
  | nil => rfl
  | append_singleton records r ih =>
    rw [observed_append, List.flatMap_append, List.flatMap_singleton, ← ih]
    rfl

theorem lineCount_observed :
    (observed previous records).accumulator.lineCount = records.length := by
  induction records using List.reverseRecOn with
  | nil => rfl
  | append_singleton records r ih =>
    rw [observed_append, List.length_append, ← ih]
    rfl

theorem previousVisibleNs_observed :
    (observed previous records).accumulator.previousVisibleNs = previous := by
  induction records using List.reverseRecOn with
  | nil => rfl
  | append_singleton records r ih =>
    rw [observed_append]
    exact ih

theorem lastVisibleNs_observed :
    (observed previous records).accumulator.lastVisibleNs =
      (records.map (·.visibleNs)).getLast? := by
  induction records using List.reverseRecOn with
  | nil => rfl
  | append_singleton records r ih =>
    rw [observed_append, List.map_append, List.map_singleton, List.getLast?_concat]
    rfl

theorem lastDeliveryIndex_observed :
    (observed previous records).accumulator.lastDeliveryIndex =
      (records.map (·.deliveryIndex)).getLast? := by
  induction records using List.reverseRecOn with
  | nil => rfl
  | append_singleton records r ih =>
    rw [observed_append, List.map_append, List.map_singleton, List.getLast?_concat]
    rfl

theorem firstDeliveryIndex_observed :
    (observed previous records).accumulator.firstDeliveryIndex =
      (records.map (·.deliveryIndex)).head? := by
  induction records using List.reverseRecOn with
  | nil => rfl
  | append_singleton records r ih =>
    rw [observed_append, List.map_append, List.head?_append, ← ih]
    rfl

theorem firstVisibleNs_observed :
    (observed previous records).accumulator.firstVisibleNs =
      (records.map (·.visibleNs)).head? := by
  induction records using List.reverseRecOn with
  | nil => rfl
  | append_singleton records r ih =>
    have hfirst := firstDeliveryIndex_observed previous records
    rw [observed_append, List.map_append, List.head?_append]
    show (if _ then _ else _) = _
    rw [hfirst, ih]
    cases records <;> rfl

/-- The flag asks each time for the one before it, and the first time for the seed. -/
theorem visibleNonDecreasing_observed :
    (observed previous records).accumulator.visibleNonDecreasing = true ↔
      List.IsChain (· ≤ ·) (previous.toList ++ records.map (·.visibleNs)) := by
  induction records using List.reverseRecOn with
  | nil => cases previous <;> simp [observed]
  | append_singleton records r ih =>
    have hpreceding : (if 1 < (observed previous records).accumulator.lineCount + 1 then
        (observed previous records).accumulator.lastVisibleNs
        else (observed previous records).accumulator.previousVisibleNs) =
        (previous.toList ++ records.map (·.visibleNs)).getLast? := by
      rw [lineCount_observed, lastVisibleNs_observed, previousVisibleNs_observed]
      cases records with
      | nil => cases previous <;> rfl
      | cons r' records => simp [List.getLast?_append, List.getLast?_cons]
    rw [observed_append, List.map_append, ← List.append_assoc, List.map_singleton, isChain_concat,
      ← ih, ← hpreceding]
    show (_ && !Option.any _ (if 1 < (observed previous records).accumulator.lineCount + 1 then
      (observed previous records).accumulator.lastVisibleNs
      else (observed previous records).accumulator.previousVisibleNs)) = true ↔ _
    generalize (if 1 < (observed previous records).accumulator.lineCount + 1 then
      (observed previous records).accumulator.lastVisibleNs
      else (observed previous records).accumulator.previousVisibleNs) = preceding
    cases preceding <;> simp

theorem deliveryIndexDense_observed :
    (observed previous records).accumulator.deliveryIndexDense = true ↔
      List.IsChain (fun a b => b = a + 1) (records.map (·.deliveryIndex)) := by
  induction records using List.reverseRecOn with
  | nil => simp [observed]
  | append_singleton records r ih =>
    rw [observed_append, List.map_append, List.map_singleton, isChain_concat, ← ih]
    show (_ && (_ || decide _)) = true ↔ _
    rw [firstDeliveryIndex_observed, lastDeliveryIndex_observed]
    -- the first record of a segment follows on nothing
    cases records with
    | nil => simp
    | cons r' records =>
      obtain ⟨a, ha⟩ := Option.ne_none_iff_exists'.mp
        (show ((r' :: records).map (·.deliveryIndex)).getLast? ≠ none by simp)
      rw [ha]
      simp

/-- The status says what the flag says. -/
theorem orderingStatus_observed : (observed previous records).orderingStatus =
    if (observed previous records).accumulator.visibleNonDecreasing then "ok"
    else "visible_clock_regression" := by
  induction records using List.reverseRecOn with
  | nil => rfl
  | append_singleton records r ih =>
    have hstep : ((observed previous records).observe r).orderingStatus =
        if ((observed previous records).observe r).accumulator.visibleNonDecreasing then
          (observed previous records).orderingStatus else "visible_clock_regression" := rfl
    rw [observed_append, hstep]
    by_cases hflag : ((observed previous records).observe r).accumulator.visibleNonDecreasing = true
    · -- a flag that is still up was up before
      have hbefore : (observed previous records).accumulator.visibleNonDecreasing = true :=
        (Bool.and_eq_true _ _ ▸ hflag).1
      rw [if_pos hflag, if_pos hflag, ih, if_pos hbefore]
    · rw [if_neg hflag, if_neg hflag]

/-- The epochs do not depend on where the previous segment ended. -/
theorem epochs_observed (other : Option Nat) :
    (observed previous records).accumulator.epochs = (observed other records).accumulator.epochs := by
  induction records using List.reverseRecOn with
  | nil => rfl
  | append_singleton records r ih =>
    rw [observed_append, observed_append]
    show (if _ then _ else _) = (if _ then _ else _)
    rw [ih]

theorem epochs_observed_eq_nil :
    (observed previous records).accumulator.epochs = [] ↔ records = [] := by
  induction records using List.reverseRecOn with
  | nil => simp [observed]
  | append_singleton records r ih =>
    rw [observed_append]
    show (if _ then _ else _) = [] ↔ _
    split
    · rename_i hlast
      have hne : (observed previous records).accumulator.epochs ≠ [] := by
        intro h
        rw [h] at hlast
        simp at hlast
      simp [hne]
    · simp

end Observed

/-! ## One record -/

/-- The record of a small envelope. -/
def sampleRecord : Record where
  line := "\x7b\"visible_ns\":5,\"delivery_index\":1,\"connection_epoch\":\"e\"\x7d\n".utf8Bytes
  visibleNs := 5
  deliveryIndex := 1
  epoch := "e"
  line_count := by decide
  line_last := by decide

/-- SHA-256, of nothing and of that record. -/
def sampleSha256 (bytes : List UInt8) : String :=
  if bytes = sampleRecord.line then
    "ed5b3f372b4c9beac7436014895a1f5c7f928f83ce03a52d6b7939c28f6ba74b"
  else "e3b0c44298fc1c149afbf4c8996fb92427ae41e4649b934ca495991b7852b855"

end PredictionIndexer.Splices
