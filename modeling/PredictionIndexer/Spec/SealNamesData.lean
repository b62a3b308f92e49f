import PredictionIndexer.Spec.SegmentCalls
import PredictionIndexer.Spec.SegmentClaims

/-!
# A seal names existing bytes

Calls of one writer, each of which may raise with the caller calling again, and a crash after any
step. `seal` drops its handle first, so a second call takes it that the first one got as far as the
committed name; and it seals what was accumulated, whatever a failed rollback left behind that.
Where neither is so, every seal a crash can leave is whole and names bytes of its length, line count
and digest.

## Key results

- `run_sealNamesData`: in every run whose seal calls find the bytes in place
-/

namespace PredictionIndexer.Splices

open Durable Durable.Program

/-! ## Calls -/

inductive SegmentCall where
  | writeBatch (records : List Record)
  | sealSegment (reason : String) (extra : List (String × Json))

namespace SegmentCall

variable (sha256 : List UInt8 → String) (p : Placement)

def perform : SegmentCall → SegmentProgram Unit
  | .writeBatch records => do
    let _ ← SegmentWriter.writeBatch records
    pure ()
  | .sealSegment reason extra => do
    let _ ← SegmentWriter.sealSegment sha256 p reason extra
    pure ()

/-- One call after the other, whatever they raise. -/
def run : List SegmentCall → SegmentProgram Unit
  | [] => pure ()
  | c :: calls => do
    let _ ← caught (c.perform sha256 p)
    run calls

/-- A seal call finds the bytes in place: with the handle still held, the open file is as long as
    what was accumulated; with the handle gone, the committed name is on disk. -/
def Ready (c : SegmentCall) (s : SegmentState) : Prop :=
  match c with
  | .writeBatch _ => True
  | .sealSegment _ _ => s.writer.sealed.isSome ∨
    (s.writer.handle = true ∧
      s.files.openFile.content.map List.length = some s.writer.accumulator.byteLength) ∨
    (s.writer.handle = false ∧ s.files.dataFile.now.isSome ∧ s.files.dataFile.unsettled = [])

/-- Every call of a run is made in a state that meets its condition. -/
def RunReady : List SegmentCall → SegmentState → Prop
  | [], _ => True
  | c :: calls, s => c.Ready s ∧ RunReady calls ((caught (c.perform sha256 p) s).final s)

end SegmentCall

/-! ## The property -/

/-- What a name stands for among the data files of a segment. -/
def SegmentFiles.named (p : Placement) (f : SegmentFiles) (name : String) : Entry (List UInt8) :=
  if name = p.dataName then f.dataFile
  else if name = p.openName then f.openFile
  else {}

/-- Bytes with the length, line count and digest a seal claims. -/
def Seal.Matches (sha256 : List UInt8 → String) (sidecar : Seal) (bytes : List UInt8) : Prop :=
  sidecar.byteLength = bytes.length ∧ sidecar.lineCount = bytes.count 10 ∧
    sidecar.sha256 = sha256 bytes

/-- Whatever a crash leaves under the seal's name is a whole seal, and whatever it leaves under the
    name that seal gives is there and matches. -/
def SealNamesData (sha256 : List UInt8 → String) (p : Placement) (f : SegmentFiles) : Prop :=
  ∀ left, f.sealFile.Leaves (some left) → ∃ sidecar, left = some sidecar ∧
    ∀ data, (f.named p sidecar.dataFile).Leaves data →
      ∃ bytes, data = some bytes ∧ sidecar.Matches sha256 bytes

namespace SealNamesData

variable {sha256 : List UInt8 → String} {p : Placement} {f : SegmentFiles}

theorem of_free (h : f.sealFile = {}) : SealNamesData sha256 p f := by
  intro left hleft
  obtain ⟨binding, hbinding, hleft⟩ := hleft
  rw [h] at hbinding
  -- the name was never bound
  have hnone : binding = none := by simpa using hbinding
  subst hnone
  simp at hleft

/-- The seals that name the committed file and match its bytes. -/
def Names (sha256 : List UInt8 → String) (p : Placement) (bytes : List UInt8) (sidecar : Seal) :
    Prop :=
  sidecar.dataFile = p.dataName ∧ sidecar.Matches sha256 bytes

theorem of_committed {bytes : List UInt8} (h : Committed (Names sha256 p bytes) bytes f) :
    SealNamesData sha256 p f := by
  intro left hleft
  obtain ⟨binding, hbinding, hleft⟩ := hleft
  rcases h.seals binding hbinding with hnone | ⟨sidecar, hsome, hname, hmatches⟩
  · subst hnone
    simp at hleft
  · subst hsome
    obtain ⟨content, hcontent, hsynced⟩ := hleft
    refine ⟨sidecar, ?_, ?_⟩
    · rw [Option.some.inj hcontent]
      exact hsynced rfl
    · intro data hdata
      rw [hname, SegmentFiles.named, if_pos rfl, h.data] at hdata
      exact ⟨bytes, Entry.eq_of_leaves rfl rfl rfl hdata, hmatches⟩

end SealNamesData

/-! ## Between two calls -/

/-- The handle is held: the file holds what was accumulated, or more of it behind a rollback that
    failed. -/
structure Held (w : SegmentWriter) (f : SegmentFiles) : Prop where
  handle : w.handle = true
  unsealed : w.sealed = none
  file : (w.writeFailure = none ∧ Holding w (· = w.accumulator.digested) w f) ∨
    (w.writeFailure ≠ none ∧ Holding w (w.accumulator.digested <+: ·) w f)

/-- The handle is gone: the commit stopped on the way, or the bytes are in place. -/
structure Dropped (sha256 : List UInt8 → String) (p : Placement) (w : SegmentWriter)
    (f : SegmentFiles) : Prop where
  handle : w.handle = false
  file : (w.sealed = none ∧ Stranded w.accumulator.digested f) ∨
    Committed (SealNamesData.Names sha256 p w.accumulator.digested) w.accumulator.digested f

/-- What holds between two calls. -/
def Between (sha256 : List UInt8 → String) (p : Placement) (w : SegmentWriter) (f : SegmentFiles) :
    Prop :=
  Held w f ∨ Dropped sha256 p w f

section Steps

variable {sha256 : List UInt8 → String} {p : Placement} {s : SegmentState}

theorem Held.free {w : SegmentWriter} {f : SegmentFiles} (h : Held w f) : f.sealFile = {} := by
  rcases h.file with ⟨_, hfile⟩ | ⟨_, hfile⟩
  · exact hfile.free
  · exact hfile.free

theorem Between.sealNamesData {w : SegmentWriter} {f : SegmentFiles} (h : Between sha256 p w f) :
    SealNamesData sha256 p f := by
  rcases h with hheld | hdropped
  · exact .of_free hheld.free
  · rcases hdropped.file with ⟨_, hstranded⟩ | hcommitted
    · exact .of_free hstranded.free
    · exact .of_committed hcommitted

/-- Every seal of what a writer has accumulated names its file and matches its bytes. -/
theorem names_describe (w : SegmentWriter) (reason : String) (extra : List (String × Json))
    (createdNs : Nat) : SealNamesData.Names sha256 p w.accumulator.digested
      (w.describe sha256 p reason extra createdNs) :=
  ⟨rfl, w.accumulator.byteLength_eq, w.accumulator.lineCount_eq, rfl⟩

theorem names_of_describes {w : SegmentWriter} {reason : String} {extra : List (String × Json)}
    {sidecar : Seal} (h : SegmentWriter.Describes sha256 p w reason extra sidecar) :
    SealNamesData.Names sha256 p w.accumulator.digested sidecar := by
  obtain ⟨createdNs, rfl⟩ := h
  exact names_describe w reason extra createdNs

/-- A batch changes nothing that a later call asks the writer for. -/
theorem foldl_observe_flags (w : SegmentWriter) (records : List Record) :
    (records.foldl SegmentWriter.observe w).handle = w.handle ∧
      (records.foldl SegmentWriter.observe w).sealed = w.sealed ∧
      (records.foldl SegmentWriter.observe w).writeFailure = w.writeFailure := by
  induction records generalizing w with
  | nil => exact ⟨rfl, rfl, rfl⟩
  | cons r records ih => exact ih (w.observe r)

theorem held_of_wrote {w w' : SegmentWriter} {f : SegmentFiles} {records : List Record}
    (hhandle : w.handle = true) (hsealed : w.sealed = none) (hsound : w.writeFailure = none)
    (h : w.Wrote records w' f) : Held w' f := by
  obtain ⟨n, hholding⟩ := h
  obtain ⟨hh, hs, hf⟩ := foldl_observe_flags w records
  have hwriter := hholding.writer
  subst hwriter
  exact ⟨hh.trans hhandle, hs.trans hsealed, .inl ⟨hf.trans hsound, hholding⟩⟩

theorem held_of_refused {w w' : SegmentWriter} {f : SegmentFiles} {records : List Record}
    (hhandle : w.handle = true) (hsealed : w.sealed = none) (hsound : w.writeFailure = none)
    (h : w.Refused records w' f) : Held w' f := by
  rcases h with hundone | ⟨failure, hbroken⟩ | hwrote
  · have hwriter := hundone.writer
    subst hwriter
    exact ⟨hhandle, hsealed, .inl ⟨hsound, hundone⟩⟩
  · have hwriter := hbroken.writer
    subst hwriter
    exact ⟨hhandle, hsealed, .inr ⟨by simp, hbroken⟩⟩
  · exact held_of_wrote hhandle hsealed hsound hwrote

/-- A batch, whatever becomes of it. -/
theorem writeBatch_between {records : List Record} (h : On (Between sha256 p) s) :
    Yields (On fun _ f => SealNamesData sha256 p f) (fun _ => On (Between sha256 p))
      (fun _ => On (Between sha256 p)) (SegmentWriter.writeBatch records) s := by
  rcases h with hheld | hdropped
  · rcases hheld.file with ⟨hsound, hholding⟩ | ⟨hbroken, _⟩
    · apply (SegmentWriter.writeBatch_yields records hheld.handle hsound hholding).mono
      · exact fun _ => .of_free
      · exact fun _ _ hwrote => .inl (held_of_wrote hheld.handle hheld.unsealed hsound hwrote)
      · exact fun _ _ hrefused =>
          .inl (held_of_refused hheld.handle hheld.unsealed hsound hrefused)
    · -- the writer refuses
      apply Yields.read_bind
      rw [hheld.handle]
      simp only [Bool.not_true, Bool.false_eq_true, if_false]
      rw [if_pos (Option.isSome_iff_ne_none.mpr hbroken)]
      exact Yields.fail (.inl hheld)
  · apply Yields.read_bind
    rw [hdropped.handle]
    exact Yields.fail (.inr hdropped)

variable {reason : String} {extra : List (String × Json)}

/-- The first seal call. -/
theorem sealSegment_held {w : SegmentWriter} (hhandle : w.handle = true) (hsealed : w.sealed = none)
    (h : On (Holding w (· = w.accumulator.digested)) s) :
    Yields (On fun _ f => SealNamesData sha256 p f) (fun _ => On (Between sha256 p))
      (fun _ => On (Between sha256 p)) (SegmentWriter.sealSegment sha256 p reason extra) s := by
  have hnames : ∀ f, Committed (SegmentWriter.Describes sha256 p w reason extra)
      w.accumulator.digested f →
      Committed (SealNamesData.Names sha256 p w.accumulator.digested) w.accumulator.digested f :=
    fun f hf => hf.mono fun _ => names_of_describes
  apply (SegmentWriter.sealSegment_yields sha256 p reason extra hhandle hsealed h).mono
  · intro t ht
    rcases ht with hfree | hcommitted
    · exact .of_free hfree
    · exact .of_committed (hnames _ hcommitted)
  · intro sidecar t ht
    obtain ⟨hwriter, _, hcommitted, _⟩ := ht
    right
    rw [hwriter]
    exact ⟨rfl, .inr (hnames _ hcommitted)⟩
  · intro e t ht
    obtain ⟨hwriter, hstranded | hcommitted⟩ := ht
    · right
      rw [hwriter]
      exact ⟨rfl, .inl ⟨hsealed, hstranded⟩⟩
    · right
      rw [hwriter]
      exact ⟨rfl, .inr (hnames _ hcommitted)⟩

/-- A seal call after one that got the bytes into place and raised. -/
theorem sealSegment_again (hhandle : s.writer.handle = false) (hsealed : s.writer.sealed = none)
    (h : Committed (SealNamesData.Names sha256 p s.writer.accumulator.digested)
      s.writer.accumulator.digested s.files) :
    Yields (On fun _ f => SealNamesData sha256 p f) (fun _ => On (Between sha256 p))
      (fun _ => On (Between sha256 p)) (SegmentWriter.sealSegment sha256 p reason extra) s := by
  apply Yields.read_bind
  rw [hsealed]
  apply Yields.assign_bind (.of_committed h)
  rw [hhandle]
  apply Yields.bind (Q := fun _ t => t = ⟨{ s.writer with handle := false }, s.files, s.host⟩)
    (Yields.pure rfl)
  intro _ t ht
  subst ht
  apply Yields.read_bind
  apply Yields.ask_bind (.of_committed h)
  intro createdNs host
  have hseal := SegmentWriter.writeSeal_yields
    (s := ⟨{ s.writer with handle := false }, s.files, host⟩) rfl h
    (names_describe { s.writer with handle := false } reason extra createdNs)
  apply Yields.bind (hseal.mono (fun _ => .of_committed) (fun _ _ => id)
    (fun _ u hu => .inr ⟨by rw [hu.1], .inr (by rw [hu.1]; exact hu.2)⟩))
  intro _ u hu
  obtain ⟨hwriter, hcommitted, _⟩ := hu
  apply Yields.assign_bind (.of_committed hcommitted)
  apply Yields.pure
  right
  dsimp only
  rw [hwriter]
  exact ⟨rfl, .inr hcommitted⟩

/-- The committed name is on disk: the bytes of a stranded commit are in place after all. -/
theorem committed_of_settled {w : SegmentWriter} {f : SegmentFiles} (h : Dropped sha256 p w f)
    (hnow : f.dataFile.now.isSome) (hsettled : f.dataFile.unsettled = []) :
    Committed (SealNamesData.Names sha256 p w.accumulator.digested) w.accumulator.digested f := by
  rcases h.file with ⟨_, hstranded⟩ | hcommitted
  · rcases hstranded.bytes with ⟨_, _, _, hdata⟩ | ⟨_, hdata⟩
    · rw [hdata] at hnow
      simp at hnow
    · exact .of_free (by rw [← hdata, ← hsettled]) hstranded.free
  · exact hcommitted

theorem sealSegment_between (h : On (Between sha256 p) s)
    (hready : (SegmentCall.sealSegment reason extra).Ready s) :
    Yields (On fun _ f => SealNamesData sha256 p f) (fun _ => On (Between sha256 p))
      (fun _ => On (Between sha256 p)) (SegmentWriter.sealSegment sha256 p reason extra) s := by
  cases hsealed : s.writer.sealed with
  | some sidecar =>
    apply Yields.read_bind
    rw [hsealed]
    exact Yields.pure h
  | none =>
    rcases hready with hsome | ⟨hhandle, hlength⟩ | ⟨hhandle, hnow, hsettled⟩
    · rw [hsealed] at hsome
      cases hsome
    · rcases h with hheld | hdropped
      · rcases hheld.file with ⟨_, hholding⟩ | ⟨_, hwriter, hdata, hfree, file, hnow, hbegins⟩
        · exact sealSegment_held hhandle hsealed hholding
        · -- a rollback failed, but nothing of the batch is behind what was accumulated
          have heq : file.content.length = s.writer.accumulator.digested.length := by
            rw [← s.writer.accumulator.byteLength_eq]
            simpa [Entry.content, hnow] using hlength
          exact sealSegment_held hhandle hsealed
            ⟨hwriter, hdata, hfree, file, hnow, (hbegins.eq_of_length heq.symm).symm⟩
      · rw [hdropped.handle] at hhandle
        cases hhandle
    · rcases h with hheld | hdropped
      · rw [hheld.handle] at hhandle
        cases hhandle
      · exact sealSegment_again hhandle hsealed (committed_of_settled hdropped hnow hsettled)

/-- One call, whatever the host answers. -/
theorem perform_between {c : SegmentCall} (h : On (Between sha256 p) s) (hready : c.Ready s) :
    Yields (On fun _ f => SealNamesData sha256 p f) (fun _ => On (Between sha256 p))
      (fun _ => On (Between sha256 p)) (c.perform sha256 p) s := by
  cases c with
  | writeBatch records => exact (writeBatch_between h).bind fun _ _ hend => Yields.pure hend
  | sealSegment reason extra => exact (sealSegment_between h hready).bind fun _ _ hend => Yields.pure hend

theorem caught_between {c : SegmentCall} (h : On (Between sha256 p) s) (hready : c.Ready s) :
    Yields (On fun _ f => SealNamesData sha256 p f)
      (fun _ t => On (Between sha256 p) t ∧ t = (caught (c.perform sha256 p) s).final s)
      (fun _ => On (Between sha256 p)) (caught (c.perform sha256 p)) s := by
  have hcaught : Yields (On fun _ f => SealNamesData sha256 p f) (fun _ => On (Between sha256 p))
      (fun _ => On (Between sha256 p)) (caught (c.perform sha256 p)) s :=
    Yields.caught (perform_between h hready)
  exact hcaught.traced.mono (fun _ => id) (fun _ _ ht => ⟨ht.1, ht.2.2⟩) fun _ _ => And.left

/-- A run of calls, by induction on the calls still to come. -/
theorem run_between {calls : List SegmentCall} (h : On (Between sha256 p) s)
    (hready : SegmentCall.RunReady sha256 p calls s) :
    Yields (On fun _ f => SealNamesData sha256 p f) (fun _ => On (Between sha256 p))
      (fun _ => On (Between sha256 p)) (SegmentCall.run sha256 p calls) s := by
  induction calls generalizing s with
  | nil => exact Yields.pure h
  | cons c calls ih =>
    obtain ⟨hc, hrest⟩ := hready
    apply (caught_between h hc).bind
    intro _ t ht
    obtain ⟨hbetween, hfinal⟩ := ht
    rw [← hfinal] at hrest
    exact ih hbetween hrest

end Steps

variable (sha256 : List UInt8 → String) (p : Placement)

theorem between_opened (previousVisibleNs : Option Nat) (host : Host) :
    On (Between sha256 p) (.opened previousVisibleNs host) :=
  .inl ⟨rfl, rfl, .inl ⟨rfl, rfl, rfl, rfl, _, rfl, rfl⟩⟩

/-- In every run whose seal calls find the bytes in place, at every point of it and whatever a crash
    there leaves: a seal names bytes of its length, line count and digest. -/
theorem run_sealNamesData (previousVisibleNs : Option Nat) (host : Host) (calls : List SegmentCall)
    (h : SegmentCall.RunReady sha256 p calls (.opened previousVisibleNs host)) :
    ∀ s ∈ ((SegmentCall.run sha256 p calls) (.opened previousVisibleNs host)).states
      (.opened previousVisibleNs host), SealNamesData sha256 p s.files := by
  intro s hs
  have hopened := between_opened sha256 p previousVisibleNs host
  rcases List.mem_cons.mp hs with rfl | htrail
  · exact hopened.sealNamesData
  · exact (run_between hopened h).1 s htrail

/-- The host of `run_sealNamesData_retried`: the first write and the write of the first seal fail. -/
def retriedHost : Host where
  answers := [.error "EIO", .ok, .ok, .ok, .ok, .ok, .ok, .ok, .ok, .ok, .error "EIO"]

/-- A batch that fails and is rolled back, the same batch again, a seal that is not written, and a
    second seal call. -/
theorem run_sealNamesData_retried : SealNamesData sampleSha256 ⟨"lane", 0, 1800, 0, "id"⟩
    (((SegmentCall.run sampleSha256 ⟨"lane", 0, 1800, 0, "id"⟩
      [.writeBatch [sampleRecord], .writeBatch [sampleRecord], .sealSegment "shutdown" [],
        .sealSegment "shutdown" []]) (.opened none retriedHost)).final
      (.opened none retriedHost)).files := by
  refine run_sealNamesData _ _ _ _ _ ?_ _ (Outcome.final_mem_states _ _)
  refine ⟨trivial, trivial, .inr (.inl ⟨?_, ?_⟩), .inr (.inr ⟨?_, ?_, ?_⟩), trivial⟩
  all_goals decide +kernel

/-- What is left when the first fsync of a seal fails and the caller seals again. -/
def sealedTwice : SegmentState :=
  ((SegmentCall.run sampleSha256 ⟨"lane", 0, 1800, 0, "id"⟩
    [.sealSegment "shutdown" [], .sealSegment "shutdown" []])
    (.opened none { answers := [.error "EIO"] })).final (.opened none { answers := [.error "EIO"] })

/-- The first fsync of a seal fails and the caller seals again: the seal names a file that is not
    there. -/
theorem not_sealNamesData : ¬∀ (sha256 : List UInt8 → String) (p : Placement)
    (previousVisibleNs : Option Nat) (host : Host) (calls : List SegmentCall),
    ∀ s ∈ ((SegmentCall.run sha256 p calls) (.opened previousVisibleNs host)).states
      (.opened previousVisibleNs host), SealNamesData sha256 p s.files := by
  intro h
  have hnames : SealNamesData sampleSha256 ⟨"lane", 0, 1800, 0, "id"⟩ sealedTwice.files :=
    h _ _ none _ [.sealSegment "shutdown" [], .sealSegment "shutdown" []] _
      (Outcome.final_mem_states _ _)
  -- nothing crashes: the seal is there and the committed name is not
  have hseal : sealedTwice.files.sealFile.content = some (some (SegmentWriter.describe sampleSha256
    ⟨"lane", 0, 1800, 0, "id"⟩ { handle := false } "shutdown" [] 0)) := rfl
  have hdata : sealedTwice.files.dataFile.content = none := rfl
  have habsent : sealedTwice.files.dataFile.Leaves none := by
    rw [← hdata]
    exact Entry.leaves_content
  obtain ⟨sidecar, hsidecar, hleft⟩ := hnames _ (hseal ▸ Entry.leaves_content)
  obtain rfl := Option.some.inj hsidecar
  rw [SegmentFiles.named, if_pos (by rfl)] at hleft
  obtain ⟨bytes, hbytes, _⟩ := hleft none habsent
  cases hbytes

end PredictionIndexer.Splices
