import PredictionIndexer.Spec.IngestRecovery

/-!
# The cursor another segment leaves alone

`spool_cursor` looks a path up, and falls back to every row whose path matches `%/` and the file
name under `LIKE`. The fallback is where the progress of one segment becomes the cursor of another:
a segment without a row of its own takes the furthest row that matches its file name.

`cursor_kept_iff` says exactly when writing one segment's row leaves the cursor of another as it
was, for every run over segments and for the one write all of them are made of.
-/

namespace PredictionIndexer.Ingest

open Continuity Durable Fallible

/-! ## The fallback -/

/-- The pattern of the second query. -/
def fallbackPattern (spoolFile : String) : List Char := '%' :: '/' :: Store.fileName spoolFile

/-- `ORDER BY bytes_consumed DESC LIMIT 1`. -/
def furthest (rows : List SpoolCursor) : Option SpoolCursor :=
  rows.foldl (fun best c => match best with
    | none => some c
    | some b => if b.bytesConsumed < c.bytesConsumed then some c else some b) none

theorem furthest_foldl_le (rows : List SpoolCursor) (b : SpoolCursor) :
    ∃ c, rows.foldl (fun best c => match best with
        | none => some c
        | some b => if b.bytesConsumed < c.bytesConsumed then some c else some b) (some b) =
        some c ∧ b.bytesConsumed ≤ c.bytesConsumed ∧
      (∀ r ∈ rows, r.bytesConsumed ≤ c.bytesConsumed) ∧ (c = b ∨ c ∈ rows) := by
  induction rows generalizing b with
  | nil => exact ⟨b, rfl, Nat.le_refl _, by simp, .inl rfl⟩
  | cons r rows ih =>
    simp only [List.foldl_cons, List.mem_cons, forall_eq_or_imp]
    by_cases hlt : b.bytesConsumed < r.bytesConsumed
    · rw [if_pos hlt]
      obtain ⟨c, hc, hle, hall, hmem⟩ := ih r
      exact ⟨c, hc, by omega, ⟨hle, hall⟩, .inr hmem⟩
    · rw [if_neg hlt]
      obtain ⟨c, hc, hle, hall, hmem⟩ := ih b
      refine ⟨c, hc, hle, ⟨by omega, hall⟩, ?_⟩
      exact hmem.imp_right .inr

/-- A row further than every other is the one the fallback takes. -/
theorem furthest_le {rows : List SpoolCursor} {r : SpoolCursor} (hr : r ∈ rows) :
    ∃ c, furthest rows = some c ∧ r.bytesConsumed ≤ c.bytesConsumed := by
  cases rows with
  | nil => simp at hr
  | cons b rows =>
    obtain ⟨c, hc, hle, hall, -⟩ := furthest_foldl_le rows b
    refine ⟨c, hc, ?_⟩
    rcases List.mem_cons.mp hr with rfl | hr
    · exact hle
    · exact hall r hr

theorem furthest_mem {rows : List SpoolCursor} {c : SpoolCursor} (h : furthest rows = some c) :
    c ∈ rows := by
  cases rows with
  | nil => simp [furthest] at h
  | cons b rows =>
    obtain ⟨c', hc, -, -, hmem⟩ := furthest_foldl_le rows b
    have : c' = c := Option.some.inj (hc.symm.trans h)
    subst this
    exact List.mem_cons.mpr hmem

namespace Store

/-- The rows of `spool_cursor` that match a pattern. -/
def matching (s : Store) (pattern : List Char) : List SpoolCursor :=
  (s.tables.cursors.toList.map (·.2)).filter fun c => like pattern c.spoolFile.toList

theorem spoolCursor_of_some {s : Store} {B : String} {c : SpoolCursor}
    (h : s.tables.cursors[B]? = some c) : s.spoolCursor B = some c := by
  simp [spoolCursor, h]

theorem spoolCursor_of_none {s : Store} {B : String} (h : s.tables.cursors[B]? = none) :
    s.spoolCursor B = furthest (s.matching (fallbackPattern B)) := by
  simp only [spoolCursor, h]
  rfl

/-- The primary key of a row is its `spool_file`. -/
def CursorsKeyed (s : Store) : Prop :=
  ∀ (key : String) (c : SpoolCursor), s.tables.cursors[key]? = some c → c.spoolFile = key

/-- The second segment has a row of its own, or its file name does not match the path of the
    first. -/
def Apart (s : Store) (A B : String) : Prop :=
  s.tables.cursors[B]?.isSome ∨ like (fallbackPattern B) A.toList = false

theorem mem_matching {s : Store} {pattern : List Char} {c : SpoolCursor} :
    c ∈ s.matching pattern ↔
      (∃ key : String, s.tables.cursors[key]? = some c) ∧
        like pattern c.spoolFile.toList = true := by
  simp [matching, Std.ExtTreeMap.mem_toList_iff_getElem?_eq_some]

/-- The rows that match are those of the table filtered. -/
theorem matching_eq (s : Store) (pattern : List Char) :
    s.matching pattern =
      (s.tables.cursors.filter fun _ c => like pattern c.spoolFile.toList).toList.map (·.2) := by
  rw [Std.ExtTreeMap.toList_filter, matching, List.filter_map]
  rfl

section Advance

variable {s : Store} {A B venue : String} {bytesConsumed records : Nat}

/-- The row a write leaves behind. -/
theorem CursorsKeyed.row (hkeyed : s.CursorsKeyed) (A venue : String)
    (bytesConsumed records : Nat) :
    ∃ c : SpoolCursor,
      (s.advanceSpoolCursor A venue bytesConsumed records).tables.cursors =
          s.tables.cursors.insert A c ∧
        c.spoolFile = A ∧ c.bytesConsumed = bytesConsumed ∧ c.records = records := by
  unfold advanceSpoolCursor
  cases h : s.tables.cursors[A]? with
  | none => exact ⟨_, rfl, rfl, rfl, rfl⟩
  | some c => exact ⟨_, rfl, hkeyed A c h, rfl, rfl⟩

theorem CursorsKeyed.advance (hkeyed : s.CursorsKeyed) :
    (s.advanceSpoolCursor A venue bytesConsumed records).CursorsKeyed := by
  obtain ⟨row, hinsert, hfile, -, -⟩ := hkeyed.row A venue bytesConsumed records
  intro key c hc
  rw [hinsert, Std.ExtTreeMap.getElem?_insert] at hc
  split at hc
  · rename_i heq
    cases hc
    rw [hfile, Std.LawfulEqCmp.eq_of_compare heq]
  · exact hkeyed key c hc

/-- A write under another path leaves the row of this one. -/
theorem CursorsKeyed.advance_getElem? (hkeyed : s.CursorsKeyed) (hne : A ≠ B) (venue : String)
    (bytesConsumed records : Nat) :
    (s.advanceSpoolCursor A venue bytesConsumed records).tables.cursors[B]? =
      s.tables.cursors[B]? := by
  obtain ⟨row, hinsert, -, -, -⟩ := hkeyed.row A venue bytesConsumed records
  rw [hinsert, Std.ExtTreeMap.getElem?_insert, if_neg]
  intro heq
  exact hne (Std.LawfulEqCmp.eq_of_compare heq)

/-- A row the pattern does not match is not among those that match, before or after its write. -/
theorem matching_advanceSpoolCursor (hkeyed : s.CursorsKeyed) {pattern : List Char}
    (hmiss : like pattern A.toList = false) :
    (s.advanceSpoolCursor A venue bytesConsumed records).matching pattern =
      s.matching pattern := by
  obtain ⟨row, hinsert, hfile, -, -⟩ := hkeyed.row A venue bytesConsumed records
  rw [matching_eq, matching_eq, hinsert]
  congr 2
  apply Std.ExtTreeMap.ext_getElem?
  intro key
  rw [Std.ExtTreeMap.getElem?_filter', Std.ExtTreeMap.getElem?_filter',
    Std.ExtTreeMap.getElem?_insert]
  split
  · rename_i heq
    rw [← Std.LawfulEqCmp.eq_of_compare heq]
    -- the old row, if there is one, is under the same path
    cases hold : s.tables.cursors[A]? with
    | none => simp [hfile, hmiss]
    | some c =>
      have hc := hkeyed A c hold
      simp only [Option.filter_some, hfile, hc, hmiss, Bool.false_eq_true, if_false]
  · rfl

/-- A segment apart from the one written keeps its cursor. -/
theorem Apart.spoolCursor_advance (h : s.Apart A B) (hkeyed : s.CursorsKeyed) (hne : A ≠ B) :
    (s.advanceSpoolCursor A venue bytesConsumed records).spoolCursor B = s.spoolCursor B := by
  have hrow := hkeyed.advance_getElem? hne venue bytesConsumed records
  cases hB : s.tables.cursors[B]? with
  | some c => rw [spoolCursor_of_some hB, spoolCursor_of_some (hrow.trans hB)]
  | none =>
    rw [spoolCursor_of_none hB, spoolCursor_of_none (hrow.trans hB)]
    rcases h with hsome | hmiss
    · simp [hB] at hsome
    · rw [matching_advanceSpoolCursor hkeyed hmiss]

end Advance

/-- No row reaches further than all of them together. -/
theorem bytesConsumed_le_sum {s : Store} {pattern : List Char} {c : SpoolCursor}
    (h : c ∈ s.matching pattern) :
    c.bytesConsumed ≤ ((s.matching pattern).map (·.bytesConsumed)).sum :=
  List.le_sum_of_mem (List.mem_map.mpr ⟨c, h, rfl⟩)

/-- Where two segments are not apart, the progress of the first shows as the cursor of the
    second. -/
theorem apart_of_kept {s : Store} {A B : String} (hkeyed : s.CursorsKeyed) (hne : A ≠ B)
    (h : ∀ venue bytesConsumed records,
      (s.advanceSpoolCursor A venue bytesConsumed records).spoolCursor B = s.spoolCursor B) :
    s.Apart A B := by
  cases hB : s.tables.cursors[B]? with
  | some c => exact .inl (by simp [hB])
  | none =>
    right
    by_contra hmatch
    rw [Bool.not_eq_false] at hmatch
    -- a write past every row that matches, so that it is the one the fallback takes
    let bytes := ((s.matching (fallbackPattern B)).map (·.bytesConsumed)).sum + 1
    have hkept := h "" bytes 0
    obtain ⟨row, hinsert, hfile, hbytes, -⟩ := hkeyed.row A "" bytes 0
    have hrow := hkeyed.advance_getElem? hne "" bytes 0
    rw [spoolCursor_of_none hB, spoolCursor_of_none (hrow.trans hB)] at hkept
    have hmem : row ∈ (s.advanceSpoolCursor A "" bytes 0).matching (fallbackPattern B) := by
      rw [mem_matching, hinsert, hfile]
      exact ⟨⟨A, by simp⟩, hmatch⟩
    obtain ⟨c, hc, hle⟩ := furthest_le hmem
    have hold := bytesConsumed_le_sum (furthest_mem (hkept.symm.trans hc))
    omega

/-- Only the table of cursors decides what is read. -/
theorem spoolCursor_congr {s s' : Store} (h : s'.tables.cursors = s.tables.cursors) (B : String) :
    s'.spoolCursor B = s.spoolCursor B := by
  simp only [spoolCursor, h]

end Store

/-! ## Runs over segments -/

/-- What a run over segments apart from `B` keeps, from `s₀` on. -/
structure LeavesCursor (s₀ : Store) (B : String) (s : Store) : Prop where
  keyed : s.CursorsKeyed
  kept : s.spoolCursor B = s₀.spoolCursor B
  row : s.tables.cursors[B]? = s₀.tables.cursors[B]?

namespace LeavesCursor

variable {s₀ s s' : Store} {A B venue : String} {bytesConsumed records : Nat}

theorem refl (hkeyed : s.CursorsKeyed) (B : String) : LeavesCursor s B s := ⟨hkeyed, rfl, rfl⟩

theorem of_cursors (hs : LeavesCursor s₀ B s) (h : s'.tables.cursors = s.tables.cursors) :
    LeavesCursor s₀ B s' where
  keyed := by
    intro key c hc
    rw [h] at hc
    exact hs.keyed key c hc
  kept := (Store.spoolCursor_congr h B).trans hs.kept
  row := by rw [h, hs.row]

/-- The one write of the table. -/
theorem advance (hs : LeavesCursor s₀ B s) (hne : A ≠ B) (hapart : s₀.Apart A B) :
    LeavesCursor s₀ B (s.advanceSpoolCursor A venue bytesConsumed records) := by
  have happ : s.Apart A B := by
    unfold Store.Apart
    rw [hs.row]
    exact hapart
  exact {
    keyed := hs.keyed.advance
    kept := (happ.spoolCursor_advance hs.keyed hne).trans hs.kept
    row := (hs.keyed.advance_getElem? hne venue bytesConsumed records).trans hs.row }

theorem commitBatch {env : IngestEnv} {lane : String} {batch : List (Nat × List UInt8)}
    {s s' : IngestState} {facts : List ContinuityFact} (hne : A ≠ B) (hapart : s₀.Apart A B)
    (hs : LeavesCursor s₀ B s.store)
    (h : commitBatch env lane A records batch s = .ok (s', facts)) :
    LeavesCursor s₀ B s'.store := by
  obtain ⟨s₁, hlines, rfl⟩ := commitBatch_eq_ok h
  exact (hs.of_cursors (commitLines_progress hlines).cursors).advance hne hapart

theorem completeSegment {segment : Segment} {offset : Nat} {s s' : IngestState}
    (hne : segment.key ≠ B) (hapart : s₀.Apart segment.key B) (hs : LeavesCursor s₀ B s.store)
    (h : completeSegment segment offset records s = .ok (s', ())) :
    LeavesCursor s₀ B s'.store := by
  obtain ⟨store, hstore, rfl⟩ := completeSegment_eq_ok h
  have hframe : store.tables.cursors =
      (s.store.advanceSpoolCursor segment.key segment.lane offset records).tables.cursors := by
    rw [completeSpoolSegment_frame hstore]
  exact (hs.advance hne hapart).of_cursors hframe

end LeavesCursor

/-- What applying a fact keeps, recovery keeps. -/
theorem recoverFacts_keeps {τ α : Type} {h : Hashes} {s : Store}
    {decode : FactSeq → List UInt8 → Except String τ} {apply : α → τ → α} {P : α → Prop}
    {init a : α} (hrec : s.recoverFacts h decode apply init = .ok a)
    (happly : ∀ a value, P a → P (apply a value)) (hinit : P init) : P a := by
  unfold Store.recoverFacts at hrec
  generalize s.tables.facts.toList = rows at hrec
  induction rows generalizing init with
  | nil =>
    cases hrec
    exact hinit
  | cons row rows ih =>
    obtain ⟨seq, row⟩ := row
    rw [List.foldlM_cons] at hrec
    obtain ⟨state, hstep, hrec⟩ := Except.bind_eq_ok.mp hrec
    refine ih ?_ hrec
    dsimp only at hstep
    split at hstep
    · exact nomatch hstep
    · split at hstep
      · exact nomatch hstep
      · split at hstep
        · exact nomatch hstep
        · cases hstep
          exact happly init _ hinit

/-- A process that starts over finds the cursors as they were. -/
theorem reopen_cursors {env : IngestEnv} {carry : IngestCarry} {first : Nat} {t : Tables}
    {s : IngestState} (h : reopen env carry first (some t) = .ok s) :
    s.store.tables.cursors = t.cursors := by
  unfold reopen at h
  cases hopen : Store.openPartition (some t) first with
  | error e => simp [hopen] at h
  | ok store =>
    rw [hopen] at h
    have hstore : store.tables = t := by
      unfold Store.openPartition at hopen
      split at hopen
      · exact nomatch hopen
      · obtain ⟨-, rfl⟩ := openInternal_eq_ok hopen
        rfl
    unfold recoverState at h
    obtain ⟨initial, -, h⟩ := Except.bind_eq_ok.mp h
    dsimp only at h
    split at h
    · rename_i s' hrec
      cases h
      have hkeeps : s.store = store := by
        refine recoverFacts_keeps (P := fun s : IngestState => s.store = store) hrec ?_ rfl
        exact fun _ _ hs => hs
      rw [hkeeps, hstore]
    · exact nomatch h

/-- What another segment's ingest does to the cursor of `B`. In every run over segments apart from
    `B` each state a crash can leave, and each state recovered from one, has the cursor `B` had at
    its start; and writing the row of one segment keeps the cursor of `B`, whatever it writes,
    exactly when the two are apart. -/
theorem cursor_kept_iff (s : IngestState) (hkeyed : s.store.CursorsKeyed) (B : String) :
    (∀ (env : RunEnv) (index : ConsumedIndex) (files : List SealedSegment),
      (∀ f ∈ files, f.key ≠ B ∧ s.store.Apart f.key B) →
        ∀ t ∈ (visitSegments env index files s).states s,
          t.store.spoolCursor B = s.store.spoolCursor B ∧
          ∀ carry first u,
            reopen env.toIngestEnv carry first (some t.store.tables) = .ok u →
              u.store.spoolCursor B = s.store.spoolCursor B) ∧
    ∀ A, A ≠ B →
      ((∀ venue bytesConsumed records,
          (s.store.advanceSpoolCursor A venue bytesConsumed records).spoolCursor B =
            s.store.spoolCursor B) ↔
        s.store.Apart A B) := by
  constructor
  · intro env index files hfiles t ht
    have hstart : LeavesCursor s.store B s.store := .refl hkeyed B
    have hkeeps : Program.Keeps (fun t => LeavesCursor s.store B t.store)
        (fun _ t => LeavesCursor s.store B t.store) (visitSegments env index files) s :=
      visitSegments_keeps files
        (fun f hf => LeavesCursor.commitBatch (hfiles f hf).1 (hfiles f hf).2)
        (fun f hf => LeavesCursor.completeSegment (hfiles f hf).1 (hfiles f hf).2) hstart
    have hleaves : LeavesCursor s.store B t.store := by
      rcases List.mem_cons.mp ht with rfl | ht
      · exact hstart
      · exact hkeeps.1 t ht
    refine ⟨hleaves.kept, ?_⟩
    intro carry first u hu
    exact (Store.spoolCursor_congr (reopen_cursors hu) B).trans hleaves.kept
  · intro A hne
    constructor
    · exact Store.apart_of_kept hkeyed hne
    · intro hapart venue bytesConsumed records
      exact hapart.spoolCursor_advance hkeyed hne

/-! ## A file name that is also a pattern -/

/-- The same two trades under another file name of the same lane and date. -/
def tradesNamed (name : String) : SealedSegment :=
  { recoveryFile with
    key := "lane=kalshi/date=2026-01-01/" ++ name
    declared := { recoveryFile.declared with dataFile := name } }

/-- A name without a wildcard is apart from another one. -/
theorem cursor_kept_iff_sample :
    (tradesNamed "a-1.ndjson").key ≠ (tradesNamed "aX1.ndjson").key ∧
      ∀ t ∈ (visitSegments recoveryEnv ∅ [tradesNamed "aX1.ndjson"] recoveryStart).states
          recoveryStart,
        t.store.spoolCursor (tradesNamed "a-1.ndjson").key =
          recoveryStart.store.spoolCursor (tradesNamed "a-1.ndjson").key := by
  have hkeyed : recoveryStart.store.CursorsKeyed := by
    intro key c hc
    simp [recoveryStart, Store.attach] at hc
  refine ⟨by decide, ?_⟩
  intro t ht
  have hkept := (cursor_kept_iff recoveryStart hkeyed (tradesNamed "a-1.ndjson").key).1
    recoveryEnv ∅ [tradesNamed "aX1.ndjson"] ?_ t ht
  · exact hkept.1
  · intro f hf
    obtain rfl := List.mem_singleton.mp hf
    exact ⟨by decide, .inr (by decide +kernel)⟩

/-- `_` matches any character: after one segment is ingested, the cursor of a second one that was
    never read stands at its end, and its ingest commits none of its lines. -/
theorem wildcard_name_skips_segment :
    (tradesNamed "aX1.ndjson").key ≠ (tradesNamed "a_1.ndjson").key ∧
      recoveryStart.store.spoolCursor (tradesNamed "a_1.ndjson").key = none ∧
      ((visitSegments recoveryEnv ∅ [tradesNamed "aX1.ndjson"] recoveryStart).writes.map fun t =>
        (t.store.spoolCursor (tradesNamed "a_1.ndjson").key).map (·.bytesConsumed)) =
          [some (tradesNamed "a_1.ndjson").content.length,
            some (tradesNamed "a_1.ndjson").content.length] ∧
      ((visitSegments recoveryEnv ∅ [tradesNamed "aX1.ndjson", tradesNamed "a_1.ndjson"]
          recoveryStart).writes.map fun t =>
        (t.store.tables.evidence.size, t.store.tables.consumed.size)) =
          [(2, 0), (2, 1), (2, 2)] := by
  refine ⟨by decide, by decide +kernel, by decide +kernel, by decide +kernel⟩

end PredictionIndexer.Ingest
