import PredictionIndexer.Spec.SegmentCalls

/-!
# What seals a writer can produce

Whatever state a writer's files are in, and whatever the host answers: a batch is in the accumulator
or it is not, and every seal that comes under the segment's names is one of those that describe the
accumulator.

## Key results

- `writeBatch_claims`, `sealSegment_claims`
-/

namespace PredictionIndexer.Splices

open Durable Durable.Program

/-- Every seal under the segment's names is as it should be. -/
structure SealsAre (D : Seal → Prop) (f : SegmentFiles) : Prop where
  sealFile : ∀ binding ∈ f.sealFile.now :: f.sealFile.unsettled, ∀ sidecar synced,
    binding = some ⟨some sidecar, synced⟩ → D sidecar
  temporary : ∀ sidecar synced, f.temporary.now = some ⟨some sidecar, synced⟩ → D sidecar

/-- The writer has the accumulated claims of another, and its seals are as they should be. -/
structure Claiming (D : Seal → Prop) (v : SegmentWriter) (w : SegmentWriter) (f : SegmentFiles) :
    Prop where
  accumulator : w.accumulator = v.accumulator
  orderingStatus : w.orderingStatus = v.orderingStatus
  repairedBytes : w.repairedBytes = v.repairedBytes
  sealed : ∀ sidecar, w.sealed = some sidecar → D sidecar
  seals : SealsAre D f

variable {D : Seal → Prop} {v : SegmentWriter} {s : SegmentState}

theorem Claiming.of_openFile {w : SegmentWriter} {f : SegmentFiles} (h : Claiming D v w f)
    (entry : Entry (List UInt8)) : Claiming D v w { f with openFile := entry } :=
  ⟨h.accumulator, h.orderingStatus, h.repairedBytes, h.sealed, h.seals.sealFile, h.seals.temporary⟩

theorem Claiming.of_rename {w : SegmentWriter} {f : SegmentFiles} (h : Claiming D v w f) :
    Claiming D v w f.rename :=
  ⟨h.accumulator, h.orderingStatus, h.repairedBytes, h.sealed, h.seals.sealFile, h.seals.temporary⟩

theorem Claiming.of_settle {w : SegmentWriter} {f : SegmentFiles} (h : Claiming D v w f) :
    Claiming D v w f.settle := by
  refine ⟨h.accumulator, h.orderingStatus, h.repairedBytes, h.sealed, ?_, h.seals.temporary⟩
  intro binding hbinding
  have hnow : binding = f.sealFile.now := by simpa [SegmentFiles.settle, Entry.settle] using hbinding
  exact h.seals.sealFile binding (by rw [hnow]; exact List.mem_cons_self)

theorem Claiming.of_temporary {w : SegmentWriter} {f : SegmentFiles} (h : Claiming D v w f)
    (entry : Entry (Option Seal))
    (hentry : ∀ sidecar synced, entry.now = some ⟨some sidecar, synced⟩ → D sidecar) :
    Claiming D v w { f with temporary := entry } :=
  ⟨h.accumulator, h.orderingStatus, h.repairedBytes, h.sealed, h.seals.sealFile, hentry⟩

/-- The temporary file gets the seal's name. -/
theorem Claiming.of_renameSeal {w : SegmentWriter} {f : SegmentFiles} (h : Claiming D v w f) :
    Claiming D v w f.renameSeal := by
  refine ⟨h.accumulator, h.orderingStatus, h.repairedBytes, h.sealed, ?_, ?_⟩
  · intro binding hbinding sidecar synced hsidecar
    rcases List.mem_cons.mp hbinding with hnow | hold
    · exact h.seals.temporary sidecar synced (hnow ▸ hsidecar)
    · exact h.seals.sealFile binding hold sidecar synced hsidecar
  · intro sidecar synced hsidecar
    cases hsidecar

namespace SegmentWriter

/-! ## Batches -/

theorem writeSome_claims {bytes : List UInt8} (h : On (Claiming D v) s) :
    Yields (On (Claiming D v)) (fun _ => On (Claiming D v)) (fun _ => On (Claiming D v))
      (writeSome bytes) s := by
  apply Yields.effect
  · dsimp only
    split
    · exact h
    · exact h.of_openFile _
    · exact h.of_openFile _
  · intro n hn
    dsimp only at hn ⊢
    split at hn
    · cases hn
    · exact h.of_openFile _
    · exact h.of_openFile _
  · intro e he
    dsimp only at he ⊢
    split at he
    · exact h
    · cases he
    · cases he

theorem writeAll_claims {total : Nat} {remaining : List UInt8} (h : On (Claiming D v) s) :
    Yields (On (Claiming D v)) (fun _ => On (Claiming D v)) (fun _ => On (Claiming D v))
      (writeAll total remaining) s := by
  induction hn : remaining.length using Nat.strong_induction_on generalizing remaining s with
  | _ n ih =>
    rw [writeAll]
    by_cases hempty : remaining = []
    · rw [dif_pos hempty]
      exact Yields.pure h
    · rw [dif_neg hempty]
      apply (writeSome_claims h).bind
      intro written t ht
      by_cases hzero : written = 0
      · rw [dif_pos hzero]
        exact Yields.fail ht
      · rw [dif_neg hzero]
        have hpos := List.length_pos_iff.mpr hempty
        exact ih (remaining.drop written).length (by rw [List.length_drop]; omega) ht rfl

theorem rollBack_claims {offset : Nat} (h : On (Claiming D v) s) :
    Yields (On (Claiming D v)) (fun _ => On (Claiming D v)) (fun _ => On (Claiming D v))
      (rollBack offset) s := by
  have hcut := h.of_openFile (s.files.openFile.modify (truncated offset))
  refine Yields.call_bind (fun _ => h) h hcut fun host => ?_
  refine Yields.call_bind (fun _ => hcut) hcut hcut fun host => ?_
  exact Yields.call (fun _ => hcut) hcut (hcut.of_openFile _) fun _ => hcut.of_openFile _

theorem fsyncIfDue_claims (force : Bool) (h : On (Claiming D v) s) :
    Yields (On (Claiming D v)) (fun _ => On (Claiming D v)) (fun _ => On (Claiming D v))
      (fsyncIfDue force) s := by
  apply Yields.read_bind
  split
  · exact Yields.pure h
  · apply Yields.ask_bind h
    intro elapsed host
    split
    · exact Yields.pure h
    · have hsynced := h.of_openFile s.files.openFile.sync
      refine Yields.call_bind (fun _ => h) h hsynced fun host => ?_
      have hclean : Claiming D v { s.writer with unsynced := 0 }
          { s.files with openFile := s.files.openFile.sync } :=
        ⟨h.accumulator, h.orderingStatus, h.repairedBytes, h.sealed, hsynced.seals⟩
      apply Yields.assign_bind hclean
      exact Yields.pure hclean

/-- The claims go record by record with the writer's. -/
theorem claiming_foldl {w : SegmentWriter} {f : SegmentFiles} (h : Claiming D v w f)
    (records : List Record) : Claiming D (records.foldl observe v) (records.foldl observe w) f := by
  induction records generalizing v w with
  | nil => exact h
  | cons r records ih =>
    apply ih
    refine ⟨?_, ?_, h.repairedBytes, h.sealed, h.seals⟩
    · show w.accumulator.observe r = v.accumulator.observe r
      rw [h.accumulator]
    · show (if _ then _ else _) = (if _ then _ else _)
      rw [h.accumulator, h.orderingStatus]

/-- A batch is among the claims when it returns, and may or may not be when it raises. -/
theorem writeBatch_claims (records : List Record) (h : On (Claiming D v) s) :
    Yields (On fun w f => Claiming D v w f ∨ Claiming D (records.foldl observe v) w f)
      (fun _ => On (Claiming D (records.foldl observe v)))
      (fun _ => On fun w f => Claiming D v w f ∨ Claiming D (records.foldl observe v) w f)
      (writeBatch records) s := by
  apply Yields.read_bind
  split
  · exact Yields.fail (.inl h)
  split
  · exact Yields.fail (.inl h)
  split
  · rename_i hempty
    rw [List.isEmpty_iff.mp hempty]
    exact Yields.pure h
  have hwritten : Yields (On (Claiming D v)) (fun _ => On (Claiming D v))
      (fun _ => On (Claiming D v)) (caught (writeAll (records.flatMap (·.line)).length
        (records.flatMap (·.line)))) s :=
    Yields.caught ((writeAll_claims h).mono (fun _ => id) (fun _ _ => id) fun _ _ => id)
  apply Yields.bind (hwritten.mono (fun _ => .inl) (fun _ _ => id) fun _ _ => .inl)
  intro written t ht
  cases written with
  | error writeError =>
    have hundone : Yields (On (Claiming D v)) (fun _ => On (Claiming D v))
        (fun _ => On (Claiming D v)) (caught (rollBack s.writer.accumulator.byteLength)) t :=
      Yields.caught ((rollBack_claims ht).mono (fun _ => id) (fun _ _ => id) fun _ _ => id)
    apply Yields.bind (hundone.mono (fun _ => .inl) (fun _ _ => id) fun _ _ => .inl)
    intro undone u hu
    cases undone with
    | error rollbackError =>
      have hbroken : Claiming D v { u.writer with writeFailure := some rollbackError } u.files :=
        ⟨hu.accumulator, hu.orderingStatus, hu.repairedBytes, hu.sealed, hu.seals⟩
      apply Yields.assign_bind (.inl hbroken)
      exact Yields.fail (.inl hbroken)
    | ok _ => exact Yields.fail (.inl hu)
  | ok _ =>
    have hfold := claiming_foldl ht records
    apply Yields.assign_bind (.inr hfold)
    have hcounted : Claiming D (records.foldl observe v)
        { records.foldl observe t.writer with
          unsynced := (records.foldl observe t.writer).unsynced +
            (records.flatMap (·.line)).length } t.files :=
      ⟨hfold.accumulator, hfold.orderingStatus, hfold.repairedBytes, hfold.sealed, hfold.seals⟩
    apply Yields.assign_bind (.inr hcounted)
    apply Yields.bind ((fsyncIfDue_claims false hcounted).mono (fun _ => .inr) (fun _ _ => id)
      fun _ _ => .inr)
    intro _ u hu
    exact Yields.pure hu

/-! ## Seals -/

theorem publishData_claims {handle : Bool} (h : On (Claiming D v) s) :
    Yields (On (Claiming D v)) (fun _ => On (Claiming D v)) (fun _ => On (Claiming D v))
      (publishData handle) s := by
  unfold publishData
  split
  · exact Yields.pure h
  · have hsynced := h.of_openFile s.files.openFile.sync
    refine Yields.call_bind (fun _ => h) h hsynced fun host => ?_
    refine Yields.call_bind (fun _ => hsynced) hsynced hsynced fun host => ?_
    refine Yields.call_bind (fun _ => hsynced) hsynced hsynced.of_rename fun host => ?_
    exact Yields.call (fun _ => hsynced.of_rename) hsynced.of_rename hsynced.of_rename.of_settle
      fun _ => hsynced.of_rename.of_settle

theorem writeSeal_claims {sidecar : Seal} (h : On (Claiming D v) s) (hD : D sidecar) :
    Yields (On (Claiming D v)) (fun _ => On (Claiming D v)) (fun _ => On (Claiming D v))
      (writeSeal sidecar) s := by
  have hwhole : ∀ synced sidecar' synced', (some ⟨some sidecar, synced⟩ : Option (File (Option Seal))) =
      some ⟨some sidecar', synced'⟩ → D sidecar' := by
    intro synced sidecar' synced' heq
    cases heq
    exact hD
  have hcreated : Claiming D v s.writer
      { s.files with temporary := s.files.temporary.bind (some ⟨none, false⟩) } :=
    h.of_temporary _ fun _ _ heq => by cases heq
  refine Yields.call_bind (fun _ => h) h hcreated fun host => ?_
  have hfilled := hcreated.of_temporary ⟨some ⟨some sidecar, false⟩,
    s.files.temporary.now :: s.files.temporary.unsettled⟩ (hwhole false)
  refine Yields.call_bind (fun _ => hcreated) hcreated hfilled fun host => ?_
  have hsynced := hcreated.of_temporary ⟨some ⟨some sidecar, true⟩,
    s.files.temporary.now :: s.files.temporary.unsettled⟩ (hwhole true)
  refine Yields.call_bind (fun _ => hfilled) hfilled hsynced fun host => ?_
  refine Yields.call_bind (fun _ => hsynced) hsynced hsynced fun host => ?_
  refine Yields.call_bind (fun _ => hsynced) hsynced hsynced.of_renameSeal fun host => ?_
  exact Yields.call (fun _ => hsynced.of_renameSeal) hsynced.of_renameSeal
    hsynced.of_renameSeal.of_settle fun _ => hsynced.of_renameSeal.of_settle

variable {sha256 : List UInt8 → String} {p : Placement} {reason : String}
  {extra : List (String × Json)}

/-- A seal says nothing of a writer but its claims. -/
theorem describe_of_claiming {w : SegmentWriter} {f : SegmentFiles} (h : Claiming D v w f)
    (createdNs : Nat) : w.describe sha256 p reason extra createdNs =
      v.describe sha256 p reason extra createdNs := by
  unfold describe
  rw [h.accumulator, h.orderingStatus, h.repairedBytes]

/-- Every seal a seal call makes describes the claims, also one that then raises. -/
theorem sealSegment_claims (sha256 : List UInt8 → String) (p : Placement) (reason : String)
    (extra : List (String × Json)) (h : On (Claiming D v) s)
    (hD : ∀ createdNs, D (v.describe sha256 p reason extra createdNs)) :
    Yields (On (Claiming D v)) (fun _ => On (Claiming D v)) (fun _ => On (Claiming D v))
      (sealSegment sha256 p reason extra) s := by
  apply Yields.read_bind
  split
  · exact Yields.pure h
  · have hdropped : Claiming D v { s.writer with handle := false } s.files :=
      ⟨h.accumulator, h.orderingStatus, h.repairedBytes, h.sealed, h.seals⟩
    apply Yields.assign_bind hdropped
    apply (publishData_claims hdropped).bind
    intro _ t ht
    apply Yields.read_bind
    apply Yields.ask_bind ht
    intro createdNs host
    have hdescribe : D (t.writer.describe sha256 p reason extra createdNs) := by
      rw [describe_of_claiming ht]
      exact hD createdNs
    have hwritten := writeSeal_claims (s := ⟨t.writer, t.files, host⟩) ht hdescribe
    apply hwritten.bind
    intro _ u hu
    have hsealed : Claiming D v { u.writer with
        sealed := some (t.writer.describe sha256 p reason extra createdNs) } u.files := by
      refine ⟨hu.accumulator, hu.orderingStatus, hu.repairedBytes, ?_, hu.seals⟩
      intro sidecar hsidecar
      cases hsidecar
      exact hdescribe
    apply Yields.assign_bind hsealed
    exact Yields.pure hsealed

end SegmentWriter

end PredictionIndexer.Splices
