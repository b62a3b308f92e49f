import PredictionIndexer.Splices.Segment

/-!
# What one call of a segment writer can leave behind

A batch is in the file and in the accumulator, or in neither, or the writer refuses every later
batch; only the interval's fsync can fail behind a batch that counts. A seal that raised has dropped
the handle: what it left of the files says how far the commit got.

## Key results

- `writeBatch_yields`, `sealSegment_yields`: one call, under every answer of the host
-/

namespace PredictionIndexer.Splices

open Durable Durable.Program

/-- A property of the writer and its files; what the host has still to answer is left open. -/
abbrev On (P : SegmentWriter → SegmentFiles → Prop) : SegmentState → Prop :=
  fun s => P s.writer s.files

section Rules

variable {α : Type} {I : SegmentWriter → SegmentFiles → Prop} {Q : α → SegmentState → Prop}
  {E : Raised → SegmentWriter → SegmentFiles → Prop} {s : SegmentState}

/-- A call into the operating system: what holds when it raises, and what holds when it does not. -/
theorem Yields.call {f : SegmentFiles → SegmentFiles} {Q : Unit → SegmentState → Prop}
    (hraised : ∀ e, E e s.writer s.files) (hI : I s.writer s.files) (hI' : I s.writer (f s.files))
    (hQ : ∀ host, Q () ⟨s.writer, f s.files, host⟩) :
    Yields (On I) Q (fun e => On (E e)) (Splices.call f) s := by
  apply Yields.effect
  · dsimp only
    split
    · exact hI
    · exact hI'
  · intro a h
    dsimp only at h ⊢
    split at h
    · cases h
    · exact hQ _
  · intro e h
    dsimp only at h ⊢
    split at h
    · exact hraised e
    · cases h

/-- A call that is followed by more. -/
theorem Yields.call_bind {f : SegmentFiles → SegmentFiles} {next : Unit → SegmentProgram α}
    (hraised : ∀ e, E e s.writer s.files) (hI : I s.writer s.files) (hI' : I s.writer (f s.files))
    (hnext : ∀ host, Yields (On I) Q (fun e => On (E e)) (next ()) ⟨s.writer, f s.files, host⟩) :
    Yields (On I) Q (fun e => On (E e)) (Splices.call f >>= next) s := by
  apply Yields.bind (Q := fun _ t => ∃ host, t = ⟨s.writer, f s.files, host⟩)
  · exact Yields.call hraised hI hI' fun host => ⟨host, rfl⟩
  · intro _ t ht
    obtain ⟨host, rfl⟩ := ht
    exact hnext host

/-- A step of the writer object alone. -/
theorem Yields.assign_bind {f : SegmentWriter → SegmentWriter} {next : Unit → SegmentProgram α}
    (hI : I (f s.writer) s.files)
    (hnext : Yields (On I) Q (fun e => On (E e)) (next ()) ⟨f s.writer, s.files, s.host⟩) :
    Yields (On I) Q (fun e => On (E e)) (assign f >>= next) s := by
  apply Yields.bind (Q := fun _ t => t = ⟨f s.writer, s.files, s.host⟩)
  · exact Yields.write hI rfl
  · intro _ t ht
    subst ht
    exact hnext

/-- A question to the host. -/
theorem Yields.ask_bind {β : Type} {f : Host → Host × β} {next : β → SegmentProgram α}
    (hI : I s.writer s.files)
    (hnext : ∀ a host, Yields (On I) Q (fun e => On (E e)) (next a) ⟨s.writer, s.files, host⟩) :
    Yields (On I) Q (fun e => On (E e)) (ask f >>= next) s := by
  apply Yields.bind (Q := fun _ t => ∃ host, t = ⟨s.writer, s.files, host⟩)
  · apply Yields.effect
    · exact hI
    · intro a _
      exact ⟨_, rfl⟩
    · intro e h
      cases h
  · intro a t ht
    obtain ⟨host, rfl⟩ := ht
    exact hnext a host

end Rules

/-! ## While the handle is held -/

/-- The writer is as given, nothing of the segment is committed, and the open file has content. -/
structure Holding (w : SegmentWriter) (content : List UInt8 → Prop) (w' : SegmentWriter)
    (f : SegmentFiles) : Prop where
  writer : w' = w
  data : f.dataFile = {}
  free : f.sealFile = {}
  file : ∃ file, f.openFile.now = some file ∧ content file.content

/-- Nothing has the seal's name. -/
def Unsealed (_ : SegmentWriter) (f : SegmentFiles) : Prop := f.sealFile = {}

variable {w : SegmentWriter} {content content' : List UInt8 → Prop} {s : SegmentState}

theorem Holding.mono {w' : SegmentWriter} {f : SegmentFiles} (h : Holding w content w' f)
    (himp : ∀ bytes, content bytes → content' bytes) : Holding w content' w' f := by
  obtain ⟨file, hnow, hcontent⟩ := h.file
  exact ⟨h.writer, h.data, h.free, file, hnow, himp _ hcontent⟩

theorem Holding.of_modify {w' : SegmentWriter} {f : SegmentFiles} (h : Holding w content w' f)
    {change : List UInt8 → List UInt8} (himp : ∀ bytes, content bytes → content' (change bytes)) :
    Holding w content' w' { f with openFile := f.openFile.modify change } := by
  obtain ⟨file, hnow, hcontent⟩ := h.file
  refine ⟨h.writer, h.data, h.free, ⟨change file.content, false⟩, ?_, himp _ hcontent⟩
  show Option.map _ f.openFile.now = _
  rw [hnow]
  rfl

theorem Holding.of_sync {w' : SegmentWriter} {f : SegmentFiles} (h : Holding w content w' f) :
    Holding w content w' { f with openFile := f.openFile.sync } := by
  obtain ⟨file, hnow, hcontent⟩ := h.file
  refine ⟨h.writer, h.data, h.free, { file with synced := true }, ?_, hcontent⟩
  show Option.map _ f.openFile.now = _
  rw [hnow]
  rfl

/-- One write puts a part of what it was given behind what was there. -/
theorem writeSome_yields {base bytes : List UInt8} (h : On (Holding w (· = base)) s) :
    Yields (On Unsealed)
      (fun written => On (Holding w (· = base ++ bytes.take written)))
      (fun _ => On (Holding w (· = base))) (writeSome bytes) s := by
  have hput : ∀ n, Holding w (· = base ++ bytes.take n) s.writer
      { s.files with openFile := s.files.openFile.modify (· ++ bytes.take n) } := by
    intro n
    apply h.of_modify
    intro content hcontent
    rw [hcontent]
  apply Yields.effect
  · dsimp only
    split
    · exact h.free
    · exact (hput _).free
    · exact (hput _).free
  · intro n hn
    dsimp only at hn ⊢
    split at hn
    · cases hn
    · cases hn
      exact hput _
    · cases hn
      exact hput _
  · intro e he
    dsimp only at he ⊢
    split at he
    · exact h
    · cases he
    · cases he

namespace SegmentWriter

/-- The write loop writes all of it, or raises behind a part of it. -/
theorem writeAll_yields {total : Nat} {base remaining : List UInt8}
    (h : On (Holding w (· = base)) s) :
    Yields (On Unsealed) (fun _ => On (Holding w (· = base ++ remaining)))
      (fun _ => On (Holding w (base <+: ·))) (writeAll total remaining) s := by
  induction hn : remaining.length using Nat.strong_induction_on generalizing base remaining s with
  | _ n ih =>
    rw [writeAll]
    by_cases hempty : remaining = []
    · rw [dif_pos hempty]
      apply Yields.pure
      simpa [hempty] using h
    · rw [dif_neg hempty]
      have hfirst : Yields (On Unsealed)
          (fun written => On (Holding w (· = base ++ remaining.take written)))
          (fun _ => On (Holding w (base <+: ·))) (writeSome remaining) s :=
        (writeSome_yields h).mono (fun _ => id) (fun _ _ => id) fun _ t ht =>
          ht.mono fun bytes hbytes => by rw [hbytes]
      apply hfirst.bind
      intro written t ht
      by_cases hzero : written = 0
      · -- no progress
        rw [dif_pos hzero]
        apply Yields.fail
        apply ht.mono
        intro bytes hbytes
        rw [hbytes]
        exact List.prefix_append _ _
      · rw [dif_neg hzero]
        have hpos := List.length_pos_iff.mpr hempty
        have hrest := ih (remaining.drop written).length (by rw [List.length_drop]; omega) ht rfl
        apply hrest.mono (fun _ => id)
        · intro _ u hu
          apply hu.mono
          intro bytes hbytes
          rw [hbytes, List.append_assoc, List.take_append_drop]
        · intro _ u hu
          apply hu.mono
          intro bytes hbytes
          exact (List.prefix_append _ _).trans hbytes

theorem truncated_of_prefix {base bytes : List UInt8} (h : base <+: bytes) :
    truncated base.length bytes = base := by
  obtain ⟨rest, rfl⟩ := h
  simp [truncated]

theorem rollBack_yields {base : List UInt8} (h : On (Holding w (base <+: ·)) s) :
    Yields (On Unsealed) (fun _ => On (Holding w (· = base)))
      (fun _ => On (Holding w (base <+: ·))) (rollBack base.length) s := by
  have hcut : Holding w (· = base) s.writer
      { s.files with openFile := s.files.openFile.modify (truncated base.length) } :=
    h.of_modify fun _ hbytes => truncated_of_prefix hbytes
  have hloose : Holding w (base <+: ·) s.writer
      { s.files with openFile := s.files.openFile.modify (truncated base.length) } :=
    hcut.mono fun bytes hbytes => by rw [hbytes]
  apply Yields.call_bind (fun _ => h) h.free hcut.free
  intro _
  apply Yields.call_bind (fun _ => hloose) hcut.free hcut.free
  intro _
  exact Yields.call (fun _ => hloose) hcut.free hcut.of_sync.free fun _ => hcut.of_sync

/-- The interval's fsync changes what is synced, and what the writer thinks of it. -/
theorem fsyncIfDue_yields {force : Bool} (h : On (Holding w content) s) :
    Yields (On Unsealed) (fun _ => On fun w' f => ∃ n, Holding { w with unsynced := n } content w' f)
      (fun _ => On (Holding w content)) (fsyncIfDue force) s := by
  have hsame : On (fun w' f => ∃ n, Holding { w with unsynced := n } content w' f) s :=
    ⟨w.unsynced, h⟩
  apply Yields.read_bind
  split
  · exact Yields.pure hsame
  · apply Yields.ask_bind h.free
    intro elapsed host
    split
    · exact Yields.pure hsame
    · refine Yields.call_bind (fun _ => h) h.free h.of_sync.free fun host => ?_
      apply Yields.assign_bind h.of_sync.free
      apply Yields.pure
      obtain ⟨hwriter, hdata, hfree, hfile⟩ := h.of_sync
      exact ⟨0, by rw [hwriter], hdata, hfree, hfile⟩

/-- What a batch adds to the digest. -/
theorem digested_foldl_observe (w : SegmentWriter) (records : List Record) :
    (records.foldl observe w).accumulator.digested =
      w.accumulator.digested ++ records.flatMap (·.line) := by
  induction records generalizing w with
  | nil => simp
  | cons r records ih =>
    rw [List.foldl_cons, ih, List.flatMap_cons, ← List.append_assoc]
    rfl

/-- The writer with a batch folded in; how much of it is synced is left open. -/
def Wrote (w : SegmentWriter) (records : List Record) (w' : SegmentWriter) (f : SegmentFiles) :
    Prop :=
  ∃ n, Holding { records.foldl observe w with unsynced := n }
    (· = (records.foldl observe w).accumulator.digested) w' f

/-- What a batch that raised can leave: it is not there, or the writer refuses every later one, or
    it is there and only the interval's fsync failed. -/
def Refused (w : SegmentWriter) (records : List Record) (w' : SegmentWriter) (f : SegmentFiles) :
    Prop :=
  Holding w (· = w.accumulator.digested) w' f ∨
    (∃ failure, Holding { w with writeFailure := some failure } (w.accumulator.digested <+: ·) w' f) ∨
    Wrote w records w' f

/-- An fsync that raises leaves the batch where it is. -/
theorem fsyncIfDue_wrote {force : Bool} {records : List Record} (h : On (Wrote w records) s) :
    Yields (On Unsealed) (fun _ => On (Wrote w records)) (fun _ => On (Wrote w records))
      (fsyncIfDue force) s := by
  obtain ⟨n, h⟩ := h
  apply (fsyncIfDue_yields h).mono (fun _ => id)
  · intro _ t ht
    exact ht
  · intro _ t ht
    exact ⟨n, ht⟩

theorem writeBatch_yields (records : List Record) (hhandle : w.handle = true)
    (hsound : w.writeFailure = none) (h : On (Holding w (· = w.accumulator.digested)) s) :
    Yields (On Unsealed) (fun _ => On (Wrote w records)) (fun _ => On (Refused w records))
      (writeBatch records) s := by
  have hwriter : s.writer = w := h.writer
  apply Yields.read_bind
  rw [hwriter, hhandle, hsound]
  simp only [Bool.not_true, Bool.false_eq_true, if_false, Option.isSome_none]
  cases records with
  | nil =>
    apply Yields.pure
    exact ⟨w.unsynced, h⟩
  | cons r records =>
    rw [if_neg (by simp)]
    rw [w.accumulator.byteLength_eq]
    have hdigested := digested_foldl_observe w (r :: records)
    generalize (r :: records).flatMap (·.line) = payload at hdigested ⊢
    have hwritten : Yields (On Unsealed)
        (fun written => match written with
          | .ok _ => On (Holding w (· = w.accumulator.digested ++ payload))
          | .error _ => On (Holding w (w.accumulator.digested <+: ·)))
        (fun _ => On (Refused w (r :: records))) (caught (writeAll payload.length payload)) s :=
      Yields.caught (writeAll_yields h)
    apply hwritten.bind
    intro written t ht
    cases written with
    | error writeError =>
      have hundone : Yields (On Unsealed)
          (fun undone => match undone with
            | .ok _ => On (Holding w (· = w.accumulator.digested))
            | .error _ => On (Holding w (w.accumulator.digested <+: ·)))
          (fun _ => On (Refused w (r :: records)))
          (caught (rollBack w.accumulator.digested.length)) t :=
        Yields.caught (rollBack_yields ht)
      apply hundone.bind
      intro undone u hu
      cases undone with
      | error rollbackError =>
        obtain ⟨hwriter, hdata, hfree, hfile⟩ := hu
        apply Yields.assign_bind hfree
        apply Yields.fail
        exact .inr (.inl ⟨rollbackError, by rw [hwriter], hdata, hfree, hfile⟩)
      | ok _ =>
        apply Yields.fail
        exact .inl hu
    | ok _ =>
      obtain ⟨hwriter, hdata, hfree, hfile⟩ := ht
      apply Yields.assign_bind hfree
      apply Yields.assign_bind hfree
      dsimp only
      rw [hwriter]
      rw [← hdigested] at hfile
      let observed := (r :: records).foldl observe w
      have hwrote : Wrote w (r :: records)
          { observed with unsynced := observed.unsynced + payload.length } t.files :=
        ⟨_, rfl, hdata, hfree, hfile⟩
      apply Yields.bind ((fsyncIfDue_wrote hwrote).mono (fun _ => id) (fun _ _ => id)
        fun _ _ => .inr ∘ .inr)
      intro _ u hu
      exact Yields.pure hu

end SegmentWriter

/-! ## The commit -/

/-- The data is on disk under its committed name, and whatever had the seal's name since the
    directory was last synced is a whole synced seal that is as it should be. -/
structure Committed (D : Seal → Prop) (bytes : List UInt8) (f : SegmentFiles) : Prop where
  data : f.dataFile = ⟨some ⟨bytes, true⟩, []⟩
  seals : ∀ binding ∈ f.sealFile.now :: f.sealFile.unsettled,
    binding = none ∨ ∃ sidecar, binding = some ⟨some sidecar, true⟩ ∧ D sidecar

/-- A commit that stopped before the name was settled: the bytes have the one name or the other. -/
structure Stranded (bytes : List UInt8) (f : SegmentFiles) : Prop where
  free : f.sealFile = {}
  bytes : (∃ file, f.openFile.now = some file ∧ file.content = bytes ∧ f.dataFile = {}) ∨
    (f.openFile.now = none ∧ f.dataFile.now = some ⟨bytes, true⟩)

variable {D : Seal → Prop} {bytes : List UInt8}

theorem Committed.of_free {f : SegmentFiles} (hdata : f.dataFile = ⟨some ⟨bytes, true⟩, []⟩)
    (hfree : f.sealFile = {}) : Committed D bytes f := by
  refine ⟨hdata, ?_⟩
  rw [hfree]
  simp

theorem Committed.mono {D' : Seal → Prop} {f : SegmentFiles} (h : Committed D bytes f)
    (himp : ∀ sidecar, D sidecar → D' sidecar) : Committed D' bytes f := by
  refine ⟨h.data, ?_⟩
  intro binding hbinding
  rcases h.seals binding hbinding with hnone | ⟨sidecar, hsome, hD⟩
  · exact .inl hnone
  · exact .inr ⟨sidecar, hsome, himp _ hD⟩

/-- Another binding of the seal's name. -/
theorem Committed.of_renameSeal {f : SegmentFiles} {sidecar : Seal} (h : Committed D bytes f)
    (htemporary : f.temporary.now = some ⟨some sidecar, true⟩) (hD : D sidecar) :
    Committed D bytes f.renameSeal := by
  refine ⟨h.data, ?_⟩
  intro binding hbinding
  rcases List.mem_cons.mp hbinding with hnow | hold
  · rw [hnow]
    exact .inr ⟨sidecar, htemporary, hD⟩
  · exact h.seals binding hold

theorem Committed.of_settle {f : SegmentFiles} (h : Committed D bytes f) :
    Committed D bytes f.settle := by
  constructor
  · show f.dataFile.settle = _
    rw [h.data]
    rfl
  · intro binding hbinding
    have hnow : binding = f.sealFile.now := by simpa [SegmentFiles.settle, Entry.settle] using hbinding
    exact h.seals binding (by rw [hnow]; exact List.mem_cons_self)

theorem Committed.of_temporary {f : SegmentFiles} (h : Committed D bytes f)
    (temporary : Entry (Option Seal)) : Committed D bytes { f with temporary := temporary } :=
  ⟨h.data, h.seals⟩

namespace SegmentWriter

/-- The data gets its committed name, or is stranded on the way. -/
theorem publishData_yields (hwriter : s.writer = w) (hdata : s.files.dataFile = {})
    (hfree : s.files.sealFile = {})
    (hfile : ∃ file, s.files.openFile.now = some file ∧ file.content = bytes) :
    Yields (On Unsealed)
      (fun _ => On fun w' f => w' = w ∧ f.dataFile = ⟨some ⟨bytes, true⟩, []⟩ ∧ f.sealFile = {})
      (fun _ => On fun w' f => w' = w ∧ Stranded bytes f) (publishData true) s := by
  obtain ⟨file, hnow, hcontent⟩ := hfile
  have hsynced : s.files.openFile.sync.now = some ⟨bytes, true⟩ := by
    show Option.map _ s.files.openFile.now = _
    rw [hnow, ← hcontent]
    rfl
  have hstranded : Stranded bytes { s.files with openFile := s.files.openFile.sync } :=
    ⟨hfree, .inl ⟨_, hsynced, rfl, hdata⟩⟩
  -- sync, close, rename, sync of the directory
  refine Yields.call_bind (fun _ => ⟨hwriter, hfree, .inl ⟨file, hnow, hcontent, hdata⟩⟩) hfree hfree
    fun host => ?_
  refine Yields.call_bind (fun _ => ⟨hwriter, hstranded⟩) hfree hfree fun host => ?_
  refine Yields.call_bind (fun _ => ⟨hwriter, hstranded⟩) hfree hfree fun host => ?_
  refine Yields.call (fun _ => ⟨hwriter, hfree, .inr ⟨rfl, hsynced⟩⟩) hfree ?_ fun host =>
    ⟨hwriter, ?_, ?_⟩
  · show s.files.sealFile.settle = {}
    rw [hfree]
    rfl
  · show (⟨s.files.openFile.sync.now, []⟩ : Entry (List UInt8)) = _
    rw [hsynced]
  · show s.files.sealFile.settle = {}
    rw [hfree]
    rfl

/-- A seal is written behind data that is on disk under its name. -/
theorem writeSeal_yields {sidecar : Seal} (hwriter : s.writer = w) (h : Committed D bytes s.files)
    (hD : D sidecar) :
    Yields (On fun _ f => Committed D bytes f)
      (fun _ => On fun w' f => w' = w ∧ Committed D bytes f ∧
        f.sealFile = ⟨some ⟨some sidecar, true⟩, []⟩)
      (fun _ => On fun w' f => w' = w ∧ Committed D bytes f) (writeSeal sidecar) s := by
  -- create, write, sync and close the temporary file; rename it; sync the directory
  refine Yields.call_bind (fun _ => ⟨hwriter, h⟩) h (h.of_temporary _) fun host => ?_
  refine Yields.call_bind (fun _ => ⟨hwriter, h.of_temporary _⟩) (h.of_temporary _)
    (h.of_temporary _) fun host => ?_
  refine Yields.call_bind (fun _ => ⟨hwriter, h.of_temporary _⟩) (h.of_temporary _)
    (h.of_temporary _) fun host => ?_
  refine Yields.call_bind (fun _ => ⟨hwriter, h.of_temporary _⟩) (h.of_temporary _)
    (h.of_temporary _) fun host => ?_
  have hrenamed := (h.of_temporary ⟨some ⟨some sidecar, true⟩,
    s.files.temporary.now :: s.files.temporary.unsettled⟩).of_renameSeal rfl hD
  refine Yields.call_bind (fun _ => ⟨hwriter, h.of_temporary _⟩) (h.of_temporary _) hrenamed
    fun host => ?_
  exact Yields.call (fun _ => ⟨hwriter, hrenamed⟩) hrenamed hrenamed.of_settle fun host =>
    ⟨hwriter, hrenamed.of_settle, rfl⟩

variable {sha256 : List UInt8 → String} {p : Placement} {reason : String}
  {extra : List (String × Json)}

/-- The seals that describe what a writer has accumulated. -/
def Describes (sha256 : List UInt8 → String) (p : Placement) (w : SegmentWriter) (reason : String)
    (extra : List (String × Json)) (sidecar : Seal) : Prop :=
  ∃ createdNs, sidecar = describe sha256 p w reason extra createdNs

/-- The first seal of a writer whose file holds what it has accumulated. -/
theorem sealSegment_yields (sha256 : List UInt8 → String) (p : Placement) (reason : String)
    (extra : List (String × Json)) (hhandle : w.handle = true) (hsealed : w.sealed = none)
    (h : On (Holding w (· = w.accumulator.digested)) s) :
    Yields (On fun w' f => Unsealed w' f ∨
        Committed (Describes sha256 p w reason extra) w.accumulator.digested f)
      (fun sidecar => On fun w' f => w' = { w with handle := false, sealed := some sidecar } ∧
        Describes sha256 p w reason extra sidecar ∧
        Committed (Describes sha256 p w reason extra) w.accumulator.digested f ∧
        f.sealFile = ⟨some ⟨some sidecar, true⟩, []⟩)
      (fun _ => On fun w' f => w' = { w with handle := false } ∧
        (Stranded w.accumulator.digested f ∨
          Committed (Describes sha256 p w reason extra) w.accumulator.digested f))
      (sealSegment sha256 p reason extra) s := by
  obtain ⟨hwriter, hdata, hfree, hfile⟩ := h
  have hunsealed : s.writer.sealed = none := by rw [hwriter, hsealed]
  apply Yields.read_bind
  rw [hunsealed]
  apply Yields.assign_bind (.inl hfree)
  rw [hwriter, hhandle]
  have hpublish := publishData_yields (s := ⟨{ w with handle := false }, s.files, s.host⟩)
    (w := { w with handle := false }) rfl hdata hfree hfile
  apply Yields.bind (hpublish.mono (fun _ => .inl) (fun _ _ => id)
    (fun _ t ht => ⟨ht.1, .inl ht.2⟩))
  intro _ t ht
  obtain ⟨hwriter', hdata', hfree'⟩ := ht
  have hcommitted : Committed (Describes sha256 p w reason extra) w.accumulator.digested t.files :=
    .of_free hdata' hfree'
  apply Yields.read_bind
  apply Yields.ask_bind (.inr hcommitted)
  intro createdNs host
  have hD : Describes sha256 p w reason extra (describe sha256 p t.writer reason extra createdNs) := by
    rw [hwriter']
    exact ⟨createdNs, rfl⟩
  have hseal := writeSeal_yields (s := ⟨t.writer, t.files, host⟩) hwriter' hcommitted hD
  apply Yields.bind (hseal.mono (fun _ => .inr) (fun _ _ => id) (fun _ u hu => ⟨hu.1, .inr hu.2⟩))
  intro _ u hu
  obtain ⟨hwriter'', hcommitted', hsealFile⟩ := hu
  apply Yields.assign_bind (.inr hcommitted')
  apply Yields.pure
  refine ⟨?_, hD, hcommitted', hsealFile⟩
  dsimp only
  rw [hwriter'']

end SegmentWriter

end PredictionIndexer.Splices
