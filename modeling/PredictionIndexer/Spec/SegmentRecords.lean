import PredictionIndexer.Spec.SealNamesData
import PredictionIndexer.Spec.SegmentSeals

/-!
# The records of a segment

A segment takes records in for as long as its handle is held; after that neither its seal nor its
committed data can be of any others, whatever the host answers. What can go wrong is a seal call
behind a rollback that failed.

## Key results

- `writeBatch_taking`, `fsyncIfDue_taking`, `sealSegment_taking`
- `sealSegment_finished`: the files a seal call leaves when it returns, and when it raises
-/

namespace PredictionIndexer.Splices

open Durable Durable.Program

/-- Every seal under the segment's names is as it should be, and committed data beside a seal is of
    these bytes. -/
structure Tells (D : Seal → Prop) (bytes : List UInt8) (f : SegmentFiles) : Prop where
  seals : SealsAre D f
  data : f.sealFile.now.isSome → ∀ data, f.dataFile.content = some data → data = bytes

/-- The handle is gone, and the data has been committed or not. -/
structure Past (w : SegmentWriter) (f : SegmentFiles) : Prop where
  handle : w.handle = false
  sound : w.writeFailure = none
  data : ∀ data, f.dataFile.content = some data → data = w.accumulator.digested

/-- The writer has taken these records in: with the handle held there is no seal yet. -/
def Taking (D : List Record → Seal → Prop) (previous : Option Nat) (records : List Record)
    (w : SegmentWriter) (f : SegmentFiles) : Prop :=
  (Held w f ∧ Claiming (fun _ => False) (observed previous records) w f) ∨
    (Past w f ∧ Claiming (D records) (observed previous records) w f)

/-- A segment whose data and seal are there. -/
structure Finished (bytes : List UInt8) (f : SegmentFiles) : Prop where
  data : f.dataFile.content = some bytes
  sealed : ∃ sidecar, f.sealFile.content = some (some sidecar)
  renamed : f.openFile.now = none

section Steps

variable {D : List Record → Seal → Prop} {previous : Option Nat} {records pending : List Record}
  {s : SegmentState} {f : SegmentFiles}

theorem SealsAre.of_none {D' : Seal → Prop} (h : SealsAre (fun _ => False) f) : SealsAre D' f :=
  ⟨fun binding hbinding sidecar synced hsidecar =>
      (h.sealFile binding hbinding sidecar synced hsidecar).elim,
    fun sidecar synced hsidecar => (h.temporary sidecar synced hsidecar).elim⟩

theorem Claiming.of_none {D' : Seal → Prop} {v w : SegmentWriter}
    (h : Claiming (fun _ => False) v w f) : Claiming D' v w f :=
  ⟨h.accumulator, h.orderingStatus, h.repairedBytes, fun sidecar hsealed =>
    (h.sealed sidecar hsealed).elim, h.seals.of_none⟩

theorem Tells.of_free {D' : Seal → Prop} {bytes : List UInt8} (h : SealsAre (fun _ => False) f)
    (hfree : f.sealFile = {}) : Tells D' bytes f := by
  refine ⟨h.of_none, ?_⟩
  intro hsome
  rw [hfree] at hsome
  cases hsome

theorem Tells.of_past {D' : Seal → Prop} {w : SegmentWriter} (h : Past w f)
    (hclaims : Claiming D' (observed previous records) w f) :
    Tells D' (records.flatMap (·.line)) f := by
  refine ⟨hclaims.seals, ?_⟩
  intro _ data hdata
  rw [h.data data hdata, hclaims.accumulator, digested_observed]

theorem Taking.tells {w : SegmentWriter} (h : Taking D previous records w f) :
    Tells (D records) (records.flatMap (·.line)) f := by
  rcases h with ⟨hheld, hclaims⟩ | ⟨hpast, hclaims⟩
  · exact .of_free hclaims.seals hheld.free
  · exact .of_past hpast hclaims

theorem taking_opened (D : List Record → Seal → Prop) (previous : Option Nat) (host : Host) :
    On (Taking D previous []) (SegmentState.opened previous host) := by
  refine .inl ⟨⟨rfl, rfl, .inl ⟨rfl, rfl, rfl, rfl, _, rfl, rfl⟩⟩, rfl, rfl, rfl,
    (fun _ h => nomatch h), ?_, fun _ _ h => nomatch h⟩
  intro binding hbinding sidecar synced hsidecar
  rw [List.mem_singleton.mp hbinding] at hsidecar
  cases hsidecar

theorem observed_append_list (previous : Option Nat) (records pending : List Record) :
    pending.foldl SegmentWriter.observe (observed previous records) =
      observed previous (records ++ pending) := by
  simp [observed]

theorem Past.of_files {w : SegmentWriter} {f' : SegmentFiles} (h : Past w f)
    (hdata : f'.dataFile.content = f.dataFile.content) : Past w f' :=
  ⟨h.handle, h.sound, fun data hcontent => h.data data (hdata ▸ hcontent)⟩

namespace SegmentWriter

/-- A batch is taken in when the call returns; it is, or is not, when the call raises. -/
theorem writeBatch_taking (pending : List Record) (h : On (Taking D previous records) s) :
    Yields (On fun _ f => Tells (D records) (records.flatMap (·.line)) f)
      (fun _ => On fun w f => Taking D previous (records ++ pending) w f ∧ w.writeFailure = none)
      (fun _ => On fun w f => Taking D previous records w f ∨
        Taking D previous (records ++ pending) w f) (writeBatch pending) s := by
  rcases h with ⟨hheld, hclaims⟩ | ⟨hpast, hclaims⟩
  · rcases hheld.file with ⟨hsound, hholding⟩ | ⟨hbroken, _⟩
    · have hbatch := writeBatch_claims pending (s := s) hclaims
      rw [observed_append_list] at hbatch
      have hfiles := writeBatch_yields pending hheld.handle hsound hholding
      refine (hbatch.and hfiles).mono ?_ ?_ ?_
      · intro t ht
        rcases ht.1 with hclaims' | hclaims'
        · exact .of_free hclaims'.seals ht.2
        · exact .of_free hclaims'.seals ht.2
      · intro _ t ht
        refine ⟨.inl ⟨held_of_wrote hheld.handle hheld.unsealed hsound ht.2, ht.1⟩, ?_⟩
        obtain ⟨n, hwrote⟩ := ht.2
        rw [hwrote.writer]
        exact (foldl_observe_flags _ _).2.2.trans hsound
      · intro _ t ht
        have hheld' := held_of_refused hheld.handle hheld.unsealed hsound ht.2
        rcases ht.1 with hclaims' | hclaims'
        · exact .inl (.inl ⟨hheld', hclaims'⟩)
        · exact .inr (.inl ⟨hheld', hclaims'⟩)
    · -- the writer refuses
      apply Yields.read_bind
      rw [hheld.handle]
      simp only [Bool.not_true, Bool.false_eq_true, if_false]
      rw [if_pos (Option.isSome_iff_ne_none.mpr hbroken)]
      exact Yields.fail (.inl (.inl ⟨hheld, hclaims⟩))
  · apply Yields.read_bind
    rw [hpast.handle]
    exact Yields.fail (.inl (.inr ⟨hpast, hclaims⟩))

theorem fsyncIfDue_held (force : Bool) (h : On Held s) :
    Yields (On Unsealed)
      (fun _ => On fun w f => Held w f ∧ w.accumulator = s.writer.accumulator ∧
        w.writeFailure = s.writer.writeFailure)
      (fun _ => On fun w f => Held w f ∧ w.accumulator = s.writer.accumulator ∧
        w.writeFailure = s.writer.writeFailure)
      (fsyncIfDue force) s := by
  rcases h.file with ⟨hsound, hholding⟩ | ⟨hbroken, hholding⟩
  · refine (fsyncIfDue_yields hholding).mono (fun _ => id) ?_ ?_
    · intro _ t ht
      obtain ⟨n, ht⟩ := ht
      have hwriter := ht.writer
      refine ⟨⟨by rw [hwriter, h.handle], by rw [hwriter, h.unsealed],
        .inl ⟨by rw [hwriter, hsound], ?_⟩⟩, by rw [hwriter], by rw [hwriter]⟩
      rw [← hwriter] at ht
      exact ht.mono fun bytes hbytes => by rw [hbytes, hwriter]
    · intro _ t ht
      have hwriter := ht.writer
      have hhandle := h.handle
      have hunsealed := h.unsealed
      rw [← hwriter] at ht hhandle hunsealed hsound
      exact ⟨⟨hhandle, hunsealed, .inl ⟨hsound, ht⟩⟩, by rw [hwriter], by rw [hwriter]⟩
  · refine (fsyncIfDue_yields hholding).mono (fun _ => id) ?_ ?_
    · intro _ t ht
      obtain ⟨n, ht⟩ := ht
      have hwriter := ht.writer
      refine ⟨⟨by rw [hwriter, h.handle], by rw [hwriter, h.unsealed],
        .inr ⟨by rw [hwriter]; exact hbroken, ?_⟩⟩, by rw [hwriter], by rw [hwriter]⟩
      rw [← hwriter] at ht
      exact ht.mono fun bytes hbytes => by rw [hwriter]; exact hbytes
    · intro _ t ht
      have hwriter := ht.writer
      have hhandle := h.handle
      have hunsealed := h.unsealed
      rw [← hwriter] at ht hhandle hunsealed hbroken
      exact ⟨⟨hhandle, hunsealed, .inr ⟨hbroken, ht⟩⟩, by rw [hwriter], by rw [hwriter]⟩

theorem fsyncIfDue_taking (force : Bool) (h : On (Taking D previous records) s) :
    Yields (On fun _ f => Tells (D records) (records.flatMap (·.line)) f)
      (fun _ => On fun w f => Taking D previous records w f ∧ w.writeFailure = s.writer.writeFailure)
      (fun _ => On fun w f => Taking D previous records w f ∧ w.writeFailure = s.writer.writeFailure)
      (fsyncIfDue force) s := by
  rcases h with ⟨hheld, hclaims⟩ | ⟨hpast, hclaims⟩
  · have hboth := (fsyncIfDue_claims force (s := s) hclaims).and
      (fsyncIfDue_held force (s := s) hheld)
    refine hboth.mono ?_ ?_ ?_
    · exact fun t ht => .of_free ht.1.seals ht.2
    · exact fun _ t ht => ⟨.inl ⟨ht.2.1, ht.1⟩, ht.2.2.2⟩
    · exact fun _ t ht => ⟨.inl ⟨ht.2.1, ht.1⟩, ht.2.2.2⟩
  · apply Yields.read_bind
    rw [hpast.handle]
    exact Yields.pure ⟨.inr ⟨hpast, hclaims⟩, rfl⟩

/-! ## What a batch that raises leaves -/

/-- The write loop asks the host for nothing but writes. -/
theorem writeAll_elapsed {total : Nat} {remaining : List UInt8} :
    Yields (fun _ => True)
      (fun _ t => t.writer = s.writer ∧ t.host.elapsed = s.host.elapsed)
      (fun _ t => t.writer = s.writer ∧ t.host.elapsed = s.host.elapsed)
      (writeAll total remaining) s := by
  induction hn : remaining.length using Nat.strong_induction_on generalizing remaining s with
  | _ n ih =>
    rw [writeAll]
    by_cases hempty : remaining = []
    · rw [dif_pos hempty]
      exact Yields.pure ⟨rfl, rfl⟩
    · rw [dif_neg hempty]
      have hfirst : Yields (fun _ => True)
          (fun _ t => t.writer = s.writer ∧ t.host.elapsed = s.host.elapsed)
          (fun _ t => t.writer = s.writer ∧ t.host.elapsed = s.host.elapsed)
          (writeSome remaining) s := by
        apply Yields.effect trivial
        · intro written _
          dsimp only
          split <;> exact ⟨rfl, rfl⟩
        · intro e _
          dsimp only
          split <;> exact ⟨rfl, rfl⟩
      apply hfirst.bind
      intro written t ht
      by_cases hzero : written = 0
      · rw [dif_pos hzero]
        exact Yields.fail ht
      · rw [dif_neg hzero]
        have hpos := List.length_pos_iff.mpr hempty
        have hrest := ih (s := t) (remaining.drop written).length
          (by rw [List.length_drop]; omega) rfl
        refine hrest.mono (fun _ => id) ?_ ?_
        · exact fun _ u hu => ⟨hu.1.trans ht.1, hu.2.trans ht.2⟩
        · exact fun _ u hu => ⟨hu.1.trans ht.1, hu.2.trans ht.2⟩

/-- With no interval elapsed a batch that raises is not among the claims: nothing comes behind its
    last byte that could fail. -/
theorem writeBatch_undone (records : List Record) (h : s.host.elapsed.headD false = false) :
    Yields (fun _ => True) (fun _ _ => True)
      (fun _ t => t.writer.accumulator = s.writer.accumulator) (writeBatch records) s := by
  apply Yields.read_bind
  split
  · exact Yields.fail rfl
  split
  · exact Yields.fail rfl
  split
  · exact Yields.pure trivial
  apply Yields.bind (Q := fun _ t => t.writer = s.writer ∧ t.host.elapsed = s.host.elapsed)
    (Yields.caught writeAll_elapsed)
  intro written t ht
  cases written with
  | error writeError =>
    have hundone : Yields (fun _ => True) (fun _ u => u.writer = s.writer)
        (fun _ u => u.writer = s.writer) (rollBack s.writer.accumulator.byteLength) t := by
      have hcall : ∀ (f : SegmentFiles → SegmentFiles) (u : SegmentState), u.writer = s.writer →
          Yields (fun _ => True) (fun _ v => v.writer = s.writer) (fun _ v => v.writer = s.writer)
            (call f) u := by
        intro f u hu
        apply Yields.effect trivial
        · intro _ _
          dsimp only
          split <;> exact hu
        · intro _ _
          dsimp only
          split <;> exact hu
      apply (hcall _ t ht.1).bind
      intro _ u hu
      apply (hcall _ u hu).bind
      exact fun _ v hv => hcall _ v hv
    apply Yields.bind (Q := fun _ u => u.writer = s.writer) (Yields.caught hundone)
    intro undone u hu
    cases undone with
    | error rollbackError =>
      apply Yields.bind (Q := fun _ v => v.writer.accumulator = s.writer.accumulator)
      · exact Yields.write trivial (by dsimp only; rw [hu])
      · exact fun _ v hv => Yields.fail hv
    | ok _ => exact Yields.fail (by rw [hu])
  | ok _ =>
    apply Yields.bind (Q := fun _ u => u.host.elapsed = s.host.elapsed) (Yields.write trivial ht.2)
    intro _ u hu
    apply Yields.bind (Q := fun _ v => v.host.elapsed = s.host.elapsed) (Yields.write trivial hu)
    intro _ v hv
    apply Yields.bind (Q := fun _ _ => True)
    · apply Yields.read_bind
      split
      · exact Yields.pure trivial
      · apply Yields.bind (Q := fun elapsed _ => elapsed = false)
        · apply Yields.effect trivial
          · intro elapsed helapsed
            cases helapsed
            show v.host.elapsed.headD false = false
            rw [hv, h]
          · intro e he
            cases he
        · intro elapsed w helapsed
          rw [helapsed]
          exact Yields.pure trivial
    · exact fun _ _ _ => Yields.pure trivial

/-- A batch, with the handle held. -/
theorem writeBatch_held (records : List Record) (h : On Held s) :
    Yields (fun _ => True)
      (fun _ => On fun w f => Held w f ∧ w.writeFailure = none ∧
        w.accumulator.digested = s.writer.accumulator.digested ++ records.flatMap (·.line))
      (fun _ => On Held) (writeBatch records) s := by
  rcases h.file with ⟨hsound, hholding⟩ | ⟨hbroken, _⟩
  · refine (writeBatch_yields records h.handle hsound hholding).mono (fun _ _ => trivial) ?_ ?_
    · intro _ t ht
      refine ⟨held_of_wrote h.handle h.unsealed hsound ht, ?_, ?_⟩
      · obtain ⟨n, hwrote⟩ := ht
        rw [hwrote.writer]
        exact (foldl_observe_flags _ _).2.2.trans hsound
      · obtain ⟨n, hwrote⟩ := ht
        rw [hwrote.writer]
        exact digested_foldl_observe _ _
    · exact fun _ t ht => held_of_refused h.handle h.unsealed hsound ht
  · -- the writer refuses
    apply Yields.read_bind
    rw [h.handle]
    simp only [Bool.not_true, Bool.false_eq_true, if_false]
    rw [if_pos (Option.isSome_iff_ne_none.mpr hbroken)]
    exact Yields.fail h

/-! ## Seals -/

theorem writeSeal_past {sidecar : Seal} (h : On Past s) :
    Yields (On Past) (fun _ => On Past) (fun _ => On Past) (writeSeal sidecar) s := by
  have hkept : ∀ f : SegmentFiles, f.dataFile.content = s.files.dataFile.content →
      Past s.writer f := fun f hdata => h.of_files hdata
  refine Yields.call_bind (fun _ => h) h (hkept _ rfl) fun host => ?_
  refine Yields.call_bind (fun _ => hkept _ rfl) (hkept _ rfl) (hkept _ rfl) fun host => ?_
  refine Yields.call_bind (fun _ => hkept _ rfl) (hkept _ rfl) (hkept _ rfl) fun host => ?_
  refine Yields.call_bind (fun _ => hkept _ rfl) (hkept _ rfl) (hkept _ rfl) fun host => ?_
  refine Yields.call_bind (fun _ => hkept _ rfl) (hkept _ rfl) (hkept _ rfl) fun host => ?_
  exact Yields.call (fun _ => hkept _ rfl) (hkept _ rfl) (hkept _ rfl) fun _ => hkept _ rfl

variable {sha256 : List UInt8 → String} {p : Placement} {reason : String}
  {extra : List (String × Json)}

/-- A seal call that finds the handle gone leaves the data as it is. -/
theorem sealSegment_past (h : On Past s) :
    Yields (On Past) (fun _ => On Past) (fun _ => On Past) (sealSegment sha256 p reason extra) s := by
  apply Yields.read_bind
  split
  · exact Yields.pure h
  · have hdropped : Past { s.writer with handle := false } s.files := ⟨rfl, h.sound, h.data⟩
    apply Yields.assign_bind hdropped
    rw [h.handle]
    apply Yields.bind (Q := fun _ => On Past) (Yields.pure hdropped)
    intro _ t ht
    apply Yields.read_bind
    apply Yields.ask_bind ht
    intro createdNs host
    apply (writeSeal_past (s := ⟨t.writer, t.files, host⟩) ht).bind
    intro _ u hu
    have hsealed : Past { u.writer with
        sealed := some (describe sha256 p t.writer reason extra createdNs) } u.files :=
      ⟨hu.handle, hu.sound, hu.data⟩
    apply Yields.assign_bind hsealed
    exact Yields.pure hsealed

theorem past_of_committed {w : SegmentWriter} (hhandle : w.handle = false)
    (hsound : w.writeFailure = none)
    (h : f.dataFile = ⟨some ⟨w.accumulator.digested, true⟩, []⟩) : Past w f := by
  refine ⟨hhandle, hsound, ?_⟩
  intro data hdata
  rw [h] at hdata
  exact (Option.some.inj hdata).symm

theorem past_of_stranded {w : SegmentWriter} (hhandle : w.handle = false)
    (hsound : w.writeFailure = none) (h : Stranded w.accumulator.digested f) : Past w f := by
  refine ⟨hhandle, hsound, ?_⟩
  intro data hdata
  rcases h.bytes with ⟨_, _, _, hfree⟩ | ⟨_, hnow⟩
  · rw [hfree] at hdata
    cases hdata
  · rw [Entry.content, hnow] at hdata
    exact (Option.some.inj hdata).symm

/-- A seal call behind no failed rollback, whether it returns or raises. -/
theorem sealSegment_taking (sha256 : List UInt8 → String) (p : Placement) (reason : String)
    (extra : List (String × Json)) (h : On (Taking D previous records) s)
    (hsound : s.writer.writeFailure = none)
    (hD : ∀ createdNs, D records ((observed previous records).describe sha256 p reason extra
      createdNs)) :
    Yields (On fun _ f => Tells (D records) (records.flatMap (·.line)) f)
      (fun _ => On fun w f => Taking D previous records w f ∧ w.writeFailure = none)
      (fun _ => On fun w f => Taking D previous records w f ∧ w.writeFailure = none)
      (sealSegment sha256 p reason extra) s := by
  rcases h with ⟨hheld, hclaims⟩ | ⟨hpast, hclaims⟩
  · rcases hheld.file with ⟨_, hholding⟩ | ⟨hbroken, _⟩
    · have hclaimed := sealSegment_claims sha256 p reason extra (s := s) hclaims.of_none hD
      have hfiles := sealSegment_yields sha256 p reason extra hheld.handle hheld.unsealed
        hholding
      refine (hclaimed.and hfiles).mono ?_ ?_ ?_
      · intro t ht
        obtain ⟨hclaims', hfree | hcommitted⟩ := ht
        · refine ⟨hclaims'.seals, fun hsome => ?_⟩
          rw [hfree] at hsome
          cases hsome
        · refine ⟨hclaims'.seals, fun _ data hdata => ?_⟩
          rw [hcommitted.data, hclaims.accumulator, digested_observed] at hdata
          exact (Option.some.inj hdata).symm
      · intro _ t ht
        obtain ⟨hclaims', hwriter, _, hcommitted, _⟩ := ht
        have hsound' : t.writer.writeFailure = none := by rw [hwriter]; exact hsound
        refine ⟨.inr ⟨past_of_committed (by rw [hwriter]) hsound' ?_, hclaims'⟩, hsound'⟩
        rw [hwriter]
        exact hcommitted.data
      · intro _ t ht
        obtain ⟨hclaims', hwriter, hfile⟩ := ht
        have hsound' : t.writer.writeFailure = none := by rw [hwriter]; exact hsound
        refine ⟨.inr ⟨?_, hclaims'⟩, hsound'⟩
        rcases hfile with hstranded | hcommitted
        · exact past_of_stranded (by rw [hwriter]) hsound' (by rw [hwriter]; exact hstranded)
        · exact past_of_committed (by rw [hwriter]) hsound' (by rw [hwriter]; exact hcommitted.data)
    · exact (hbroken hsound).elim
  · have hclaimed := sealSegment_claims sha256 p reason extra (s := s) hclaims hD
    refine (hclaimed.and (sealSegment_past hpast)).mono ?_ ?_ ?_
    · exact fun t ht => .of_past ht.2 ht.1
    · exact fun _ t ht => ⟨.inr ⟨ht.2, ht.1⟩, ht.2.sound⟩
    · exact fun _ t ht => ⟨.inr ⟨ht.2, ht.1⟩, ht.2.sound⟩

/-- A seal call that returns has renamed the file. -/
theorem sealSegment_renamed (sha256 : List UInt8 → String) (p : Placement) (reason : String)
    (extra : List (String × Json)) (hhandle : s.writer.handle = true) (hsealed : s.writer.sealed = none) :
    Yields (fun _ => True) (fun _ t => t.files.openFile.now = none) (fun _ _ => True)
      (sealSegment sha256 p reason extra) s := by
  have hcall : ∀ (f : SegmentFiles → SegmentFiles) (t : SegmentState),
      (f t.files).openFile.now = none →
      Yields (fun _ => True) (fun _ u => u.files.openFile.now = none) (fun _ _ => True)
        (call f) t := by
    intro f t hnone
    apply Yields.effect trivial
    · intro _ h
      dsimp only at h ⊢
      split at h
      · cases h
      · exact hnone
    · exact fun _ _ => trivial
  have hany : ∀ (f : SegmentFiles → SegmentFiles) (t : SegmentState),
      Yields (fun _ => True) (fun _ _ => True) (fun _ _ => True) (call f) t :=
    fun f t => Yields.effect trivial (fun _ _ => trivial) fun _ _ => trivial
  apply Yields.read_bind
  rw [hsealed]
  apply Yields.bind (Q := fun _ _ => True) (Yields.write trivial trivial)
  intro _ t _
  rw [hhandle]
  apply Yields.bind (Q := fun _ u => u.files.openFile.now = none)
  · apply (hany _ t).bind
    intro _ u _
    apply (hany _ u).bind
    intro _ v _
    apply (hcall SegmentFiles.rename v rfl).bind
    exact fun _ w hw => hcall SegmentFiles.settle w hw
  intro _ u hu
  apply Yields.read_bind
  apply Yields.bind (Q := fun _ v => v.files.openFile.now = none)
    (Yields.effect trivial (fun _ _ => hu) fun _ _ => trivial)
  intro createdNs v hv
  apply Yields.bind (Q := fun _ w => w.files.openFile.now = none)
  · apply (hcall _ v hv).bind
    intro _ w₁ h₁
    apply (hcall _ w₁ h₁).bind
    intro _ w₂ h₂
    apply (hcall _ w₂ h₂).bind
    intro _ w₃ h₃
    apply (hcall id w₃ h₃).bind
    intro _ w₄ h₄
    apply (hcall SegmentFiles.renameSeal w₄ h₄).bind
    exact fun _ w₅ h₅ => hcall SegmentFiles.settle w₅ h₅
  intro _ w hw
  apply Yields.bind (Q := fun _ w => w.files.openFile.now = none) (Yields.write trivial hw)
  exact fun _ _ h => Yields.pure h

/-- The seal of a segment whose file holds what was taken in. -/
theorem sealSegment_finished (sha256 : List UInt8 → String) (p : Placement) (reason : String)
    (extra : List (String × Json)) (h : On Held s) (hsound : s.writer.writeFailure = none) :
    Yields (fun _ => True)
      (fun _ => On fun w f => Finished s.writer.accumulator.digested f ∧ w.sealed.isSome)
      (fun _ => On fun w f => w.sealed = none ∧
        f.dataFile.content.or f.openFile.content = some s.writer.accumulator.digested)
      (sealSegment sha256 p reason extra) s := by
  have hholding : Holding s.writer (· = s.writer.accumulator.digested) s.writer s.files := by
    rcases h.file with ⟨_, hholding⟩ | ⟨hbroken, _⟩
    · exact hholding
    · exact (hbroken hsound).elim
  have hrenamed := sealSegment_renamed sha256 p reason extra (s := s) h.handle h.unsealed
  have hfiles := sealSegment_yields sha256 p reason extra h.handle h.unsealed hholding
  refine (hfiles.and hrenamed).mono (fun _ _ => trivial) ?_ ?_
  · intro sidecar t ht
    obtain ⟨⟨hwriter, _, hcommitted, hseal⟩, hnone⟩ := ht
    refine ⟨⟨?_, ⟨sidecar, ?_⟩, hnone⟩, ?_⟩
    · rw [hcommitted.data]
      rfl
    · rw [hseal]
      rfl
    · rw [hwriter]
      rfl
  · intro e t ht
    obtain ⟨⟨hwriter, hfile⟩, _⟩ := ht
    refine ⟨by rw [hwriter]; exact h.unsealed, ?_⟩
    rcases hfile with hstranded | hcommitted
    · rcases hstranded.bytes with ⟨file, hnow, hcontent, hdata⟩ | ⟨_, hnow⟩
      · rw [hdata, Entry.content, Entry.content, hnow, ← hcontent]
        rfl
      · rw [Entry.content, hnow]
        rfl
    · rw [hcommitted.data]
      rfl

end SegmentWriter

end Steps

end PredictionIndexer.Splices
