import PredictionIndexer.Ingest.Store

/-!
# Dense positions in the durable log

The store numbers evidence in memory and writes the rows inside transactions that may roll back.
`Store.Aligned` ties the two together: the stored positions are exactly the ones handed out since the
partition's first, every fact has its evidence, and every stored line still has its digest.

## Key results

- `Store.Aligned.attach`: reopening recomputes the counter the rows were written with
- `Store.Aligned.event`: every event keeps the store aligned, a failing `COMMIT` only over no
  capture
- `stored_positions_dense`: the tables after any run, and the integrity check over them
-/

namespace PredictionIndexer.Ingest

open Continuity

/-! ## Runs -/

/-- One call on the store. A statement the environment refuses changes nothing, so a run leaves it
    out. -/
inductive StoreOp where
  | captureRaw (venue spoolFile : String) (byteOffset : Nat) (rawLine content : List UInt8)
  | commitFact (captured : CapturedRecord) (canonical : List UInt8)
  | rememberRecordIdentity (recordId : String) (content : ContentHash) (firstSeen : FactSeq)
  | advanceSpoolCursor (spoolFile venue : String) (bytesConsumed records : Nat)
  | completeSpoolSegment (segment : ConsumedSegment)

/-- How a transaction ends: `work` succeeds and its rows commit, `work` fails, or `work` succeeds
    and `COMMIT` fails. -/
inductive Ending where
  | commit
  | rollback (error : StoreError)
  | commitFails (error : StoreError)

inductive StoreEvent where
  | call (op : StoreOp)
  | transaction (body : List StoreOp) (ending : Ending)
  | reopen (requestedFirst : Option Nat)

/-- The store a call leaves behind. -/
def StoreOp.apply (h : Hashes) (s : Store) : StoreOp → Store
  | captureRaw venue spoolFile byteOffset rawLine content =>
    match s.captureRaw h venue spoolFile byteOffset rawLine content with
    | .ok (_, s') => s'
    | .error _ => s
  | commitFact captured canonical =>
    match s.commitFact h captured canonical with
    | .ok (_, s') => s'
    | .error _ => s
  | rememberRecordIdentity recordId content firstSeen =>
    match s.rememberRecordIdentity recordId content firstSeen with
    | .ok s' => s'
    | .error _ => s
  | advanceSpoolCursor spoolFile venue bytesConsumed records =>
    s.advanceSpoolCursor spoolFile venue bytesConsumed records
  | completeSpoolSegment segment =>
    match s.completeSpoolSegment segment with
    | .ok s' => s'
    | .error _ => s

def Ending.work : Ending → Except StoreError Unit
  | rollback e => .error e
  | _ => .ok ()

def Ending.commitResult : Ending → Except StoreError Unit
  | commitFails e => .error e
  | _ => .ok ()

/-- The store an event leaves behind. An open that is refused hands out no store, and the tables
    stay for the next one. -/
def StoreEvent.apply (h : Hashes) (s : Store) : StoreEvent → Store
  | call op => op.apply h s
  | transaction body ending =>
    (s.transaction (fun s => (ending.work, body.foldl (StoreOp.apply h) s)) ending.commitResult).2
  | reopen requestedFirst =>
    match Store.openInternal (some s.tables) requestedFirst with
    | .ok s' => s'
    | .error _ => s

def StoreOp.Captures : StoreOp → Prop
  | captureRaw .. => True
  | _ => False

/-- A `COMMIT` fails only over a transaction that captured nothing. -/
def StoreEvent.CommitHolds : StoreEvent → Prop
  | transaction body (.commitFails _) => ∀ op ∈ body, ¬op.Captures
  | _ => True

/-! ## The invariant -/

/-- The positions in the tables are the ones handed out so far. -/
structure Store.Aligned (h : Hashes) (s : Store) : Prop where
  first_eq : s.tables.firstEvidenceSeq = s.firstEvidence
  first_pos : 0 < s.firstEvidence
  first_le : s.firstEvidence ≤ s.nextEvidence
  mem_evidence : ∀ k, k ∈ s.tables.evidence ↔ s.firstEvidence ≤ k ∧ k < s.nextEvidence
  mem_facts : ∀ k ∈ s.tables.facts, k ∈ s.tables.evidence
  hashes : ∀ (k : Nat) (row : EvidenceRow), s.tables.evidence[k]? = some row →
    h.evidence row.rawLine = row.evidenceHash

/-- The greatest of consecutive numbers is the last. -/
theorem foldl_max_range' {first n : Nat} :
    (List.range' first (n + 1)).foldl max 0 = first + n := by
  induction n with
  | zero => simp
  | succ n ih =>
    rw [List.range'_concat, List.foldl_append, ih]
    simp

namespace Store.Aligned

variable {h : Hashes} {s : Store}

theorem keys_evidence (hs : s.Aligned h) :
    s.tables.evidence.keys =
      List.range' s.firstEvidence (s.nextEvidence - s.firstEvidence) := by
  apply Std.ExtTreeMap.keys_eq_range'
  intro k
  rw [hs.mem_evidence]
  have := hs.first_le
  omega

theorem size_evidence (hs : s.Aligned h) :
    s.tables.evidence.size = s.nextEvidence - s.firstEvidence := by
  rw [← Std.ExtTreeMap.length_keys, hs.keys_evidence, List.length_range']

/-- A database with no rows, as `open_internal` creates it. -/
theorem attach_empty {first : Nat} (hfirst : 0 < first) :
    (Store.attach { firstEvidenceSeq := first }).Aligned h := by
  have hnext : (Store.attach { firstEvidenceSeq := first }).nextEvidence = first := rfl
  constructor
  · rfl
  · exact hfirst
  · rw [hnext]
    exact Nat.le_refl first
  · intro k
    rw [hnext]
    show k ∈ ∅ ↔ first ≤ k ∧ k < first
    simp
  · simp [Store.attach]
  · simp [Store.attach]

/-! ## Reading the bounds back -/

theorem keys_toList (hs : s.Aligned h) :
    s.tables.evidence.toList.map (·.1) =
      List.range' s.firstEvidence (s.nextEvidence - s.firstEvidence) := by
  rw [← hs.keys_evidence]
  exact Std.ExtTreeMap.map_fst_toList_eq_keys

theorem highest_eq (hs : s.Aligned h) (hne : s.firstEvidence < s.nextEvidence) :
    s.tables.highest = s.nextEvidence - 1 := by
  obtain ⟨n, hn⟩ : ∃ n, s.nextEvidence - s.firstEvidence = n + 1 :=
    ⟨s.nextEvidence - s.firstEvidence - 1, by omega⟩
  rw [Tables.highest, hs.keys_toList, hn, foldl_max_range']
  omega

theorem lowest_eq (hs : s.Aligned h) (hne : s.firstEvidence < s.nextEvidence) :
    s.tables.lowest = s.firstEvidence := by
  have hmin : (List.range' s.firstEvidence (s.nextEvidence - s.firstEvidence)).min? =
      some s.firstEvidence := by
    rw [List.min?_eq_some_iff]
    constructor
    · rw [List.mem_range'_1]
      omega
    · intro k hk
      rw [List.mem_range'_1] at hk
      omega
  rw [Tables.lowest, hs.keys_toList, hmin]
  rfl

/-- A partition without evidence has the highest position zero. -/
theorem highest_eq_zero (hs : s.Aligned h) (hempty : s.firstEvidence = s.nextEvidence) :
    s.tables.highest = 0 := by
  rw [Tables.highest, hs.keys_toList, hempty, Nat.sub_self]
  rfl

/-- Reopening recomputes the counter the rows were written with. -/
theorem attach (hs : s.Aligned h) : Store.attach s.tables = s := by
  have hpos := hs.first_pos
  have hle := hs.first_le
  have hnext : (Store.attach s.tables).nextEvidence = s.nextEvidence := by
    show (if s.tables.highest = 0 then _ else _) = _
    by_cases hempty : s.firstEvidence = s.nextEvidence
    · rw [if_pos (hs.highest_eq_zero hempty), hs.first_eq, hempty]
    · rw [hs.highest_eq (by omega), if_neg (by omega)]
      omega
  obtain ⟨tables, first, next⟩ := s
  simp only [Store.attach, Store.mk.injEq, true_and] at hnext ⊢
  exact ⟨hs.first_eq, hnext⟩

/-- The integrity check accepts an aligned store. -/
theorem isClean (hs : s.Aligned h) : (s.checkIntegrity h).isClean = true := by
  have hmismatch : (s.checkIntegrity h).mismatches = [] := by
    simp only [checkIntegrity, List.filterMap_eq_nil_iff, Prod.forall]
    intro k row hk
    rw [Std.ExtTreeMap.mem_toList_iff_getElem?_eq_some] at hk
    rw [if_neg (by simp [hs.hashes k row hk])]
  have hdense : (s.checkIntegrity h).dense = true := by
    simp only [checkIntegrity, Std.ExtTreeMap.length_toList, hs.size_evidence]
    split
    · rfl
    · rename_i hne
      have hlt : s.firstEvidence < s.nextEvidence := by omega
      rw [hs.lowest_eq hlt, hs.highest_eq hlt]
      simp
      omega
  simp [IntegrityReport.isClean, hmismatch, hdense]

/-! ## One event -/

/-- Capturing takes the next position, and refuses without a change. -/
theorem captureRaw {c : CapturedRecord} {s' : Store} {venue spoolFile : String}
    {byteOffset : Nat} {rawLine content : List UInt8} (hs : s.Aligned h)
    (hc : s.captureRaw h venue spoolFile byteOffset rawLine content = .ok (c, s')) :
    s'.Aligned h := by
  have hpos := hs.first_pos
  have hle := hs.first_le
  have hnext : s.nextEvidence ∉ s.tables.evidence := by
    rw [hs.mem_evidence]
    omega
  unfold Store.captureRaw at hc
  rw [dif_pos (by omega)] at hc
  split at hc
  · cases hc
  · rw [if_neg (by simpa using hnext)] at hc
    cases hc
    constructor
    · exact hs.first_eq
    · exact hpos
    · show s.firstEvidence ≤ s.nextEvidence + 1
      omega
    · intro k
      show k ∈ s.tables.evidence.insert _ _ ↔ s.firstEvidence ≤ k ∧ k < s.nextEvidence + 1
      rw [Std.ExtTreeMap.mem_insert, hs.mem_evidence, Nat.compare_eq_eq]
      omega
    · intro k hk
      exact Std.ExtTreeMap.mem_insert.mpr (.inr (hs.mem_facts k hk))
    · intro k row hk
      show _ = _
      rw [Std.ExtTreeMap.getElem?_insert] at hk
      split at hk
      · cases hk
        rfl
      · exact hs.hashes k row hk

/-- A fact is stored only under the position of stored evidence. -/
theorem commitFact {c : CapturedRecord} {canonical : List UInt8} {seq : FactSeq} {s' : Store}
    (hs : s.Aligned h) (hc : s.commitFact h c canonical = .ok (seq, s')) : s'.Aligned h := by
  simp only [Store.commitFact] at hc
  split at hc
  · cases hc
  · split at hc
    · cases hc
    · rename_i hev
      cases hc
      refine ⟨hs.first_eq, hs.first_pos, hs.first_le, hs.mem_evidence, ?_, hs.hashes⟩
      intro k hk
      rcases Std.ExtTreeMap.mem_insert.mp hk with heq | hk
      · rw [Nat.compare_eq_eq] at heq
        subst heq
        simpa using hev
      · exact hs.mem_facts k hk

/-- The other tables carry no position. -/
theorem of_eq {s' : Store} (hs : s.Aligned h) (hev : s'.tables.evidence = s.tables.evidence)
    (hfa : s'.tables.facts = s.tables.facts)
    (hmeta : s'.tables.firstEvidenceSeq = s.tables.firstEvidenceSeq)
    (hfirst : s'.firstEvidence = s.firstEvidence) (hnext : s'.nextEvidence = s.nextEvidence) :
    s'.Aligned h := by
  obtain ⟨h1, h2, h3, h4, h5, h6⟩ := hs
  rw [← hfirst, ← hnext, ← hev, ← hmeta] at *
  rw [← hfa] at h5
  exact ⟨h1, h2, h3, h4, h5, h6⟩

end Store.Aligned

/-! ## What a call leaves alone -/

section Frame

variable {h : Hashes} {s s' : Store}

theorem captureRaw_frame {c : CapturedRecord} {venue spoolFile : String} {byteOffset : Nat}
    {rawLine content : List UInt8}
    (hc : s.captureRaw h venue spoolFile byteOffset rawLine content = .ok (c, s')) :
    s'.firstEvidence = s.firstEvidence := by
  unfold Store.captureRaw at hc
  split at hc
  · split at hc
    · cases hc
    · split at hc
      · cases hc
      · cases hc
        rfl
  · cases hc

theorem commitFact_frame {c : CapturedRecord} {canonical : List UInt8} {seq : FactSeq}
    (hc : s.commitFact h c canonical = .ok (seq, s')) :
    s'.firstEvidence = s.firstEvidence ∧ s'.nextEvidence = s.nextEvidence := by
  simp only [Store.commitFact] at hc
  split at hc
  · cases hc
  · split at hc
    · cases hc
    · cases hc
      exact ⟨rfl, rfl⟩

theorem rememberRecordIdentity_frame {recordId : String} {content : ContentHash}
    {firstSeen : FactSeq} (hc : s.rememberRecordIdentity recordId content firstSeen = .ok s') :
    s' = { s with tables := { s.tables with identity := s'.tables.identity } } := by
  simp only [Store.rememberRecordIdentity] at hc
  split at hc
  · cases hc
  · cases hc
    rfl

theorem completeSpoolSegment_frame {segment : ConsumedSegment}
    (hc : s.completeSpoolSegment segment = .ok s') :
    s' = { s with tables := { s.tables with consumed := s'.tables.consumed } } := by
  simp only [Store.completeSpoolSegment] at hc
  split at hc
  · cases hc
    rfl
  · cases hc

theorem op_frame (op : StoreOp) :
    (op.apply h s).firstEvidence = s.firstEvidence ∧
      (¬op.Captures → (op.apply h s).nextEvidence = s.nextEvidence) := by
  cases op with
  | captureRaw venue spoolFile byteOffset rawLine content =>
    constructor
    · simp only [StoreOp.apply]
      split
      · rename_i hc
        exact captureRaw_frame hc
      · rfl
    · intro hop
      exact absurd trivial hop
  | commitFact captured canonical =>
    simp only [StoreOp.apply]
    split
    · rename_i hc
      exact ⟨(commitFact_frame hc).1, fun _ => (commitFact_frame hc).2⟩
    · exact ⟨rfl, fun _ => rfl⟩
  | rememberRecordIdentity recordId content firstSeen =>
    simp only [StoreOp.apply]
    split
    · rename_i hc
      rw [rememberRecordIdentity_frame hc]
      exact ⟨rfl, fun _ => rfl⟩
    · exact ⟨rfl, fun _ => rfl⟩
  | advanceSpoolCursor spoolFile venue bytesConsumed records => exact ⟨rfl, fun _ => rfl⟩
  | completeSpoolSegment segment =>
    simp only [StoreOp.apply]
    split
    · rename_i hc
      rw [completeSpoolSegment_frame hc]
      exact ⟨rfl, fun _ => rfl⟩
    · exact ⟨rfl, fun _ => rfl⟩

theorem ops_firstEvidence (body : List StoreOp) :
    (body.foldl (StoreOp.apply h) s).firstEvidence = s.firstEvidence := by
  induction body generalizing s with
  | nil => rfl
  | cons op body ih => exact ih.trans (op_frame op).1

theorem ops_nextEvidence {body : List StoreOp} (hbody : ∀ op ∈ body, ¬op.Captures) :
    (body.foldl (StoreOp.apply h) s).nextEvidence = s.nextEvidence := by
  induction body generalizing s with
  | nil => rfl
  | cons op body ih =>
    exact (ih fun o ho => hbody o (List.mem_cons_of_mem _ ho)).trans
      ((op_frame op).2 (hbody op List.mem_cons_self))

/-- A successful open attaches to the tables it found or created. -/
theorem openInternal_eq_ok {existing : Option Tables} {requestedFirst : Option Nat}
    (hopen : Store.openInternal existing requestedFirst = .ok s) :
    0 < (existing.getD { firstEvidenceSeq := requestedFirst.getD 1 }).firstEvidenceSeq ∧
      s = Store.attach (existing.getD { firstEvidenceSeq := requestedFirst.getD 1 }) := by
  simp only [Store.openInternal] at hopen
  split at hopen
  · cases hopen
  · rename_i hpos
    cases requestedFirst with
    | none =>
      cases hopen
      exact ⟨Nat.pos_of_ne_zero hpos, rfl⟩
    | some expected =>
      dsimp only at hopen
      split at hopen
      · cases hopen
      · cases hopen
        exact ⟨Nat.pos_of_ne_zero hpos, rfl⟩

end Frame

namespace Store.Aligned

variable {h : Hashes} {s : Store}

theorem op (hs : s.Aligned h) (op : StoreOp) : (op.apply h s).Aligned h := by
  cases op with
  | captureRaw venue spoolFile byteOffset rawLine content =>
    simp only [StoreOp.apply]
    split
    · rename_i hc
      exact hs.captureRaw hc
    · exact hs
  | commitFact captured canonical =>
    simp only [StoreOp.apply]
    split
    · rename_i hc
      exact hs.commitFact hc
    · exact hs
  | rememberRecordIdentity recordId content firstSeen =>
    simp only [StoreOp.apply]
    split
    · rename_i hc
      rw [rememberRecordIdentity_frame hc]
      exact hs.of_eq rfl rfl rfl rfl rfl
    · exact hs
  | advanceSpoolCursor spoolFile venue bytesConsumed records =>
    exact hs.of_eq rfl rfl rfl rfl rfl
  | completeSpoolSegment segment =>
    simp only [StoreOp.apply]
    split
    · rename_i hc
      rw [completeSpoolSegment_frame hc]
      exact hs.of_eq rfl rfl rfl rfl rfl
    · exact hs

theorem ops (hs : s.Aligned h) (body : List StoreOp) :
    (body.foldl (StoreOp.apply h) s).Aligned h := by
  induction body generalizing s with
  | nil => exact hs
  | cons o body ih => exact ih (hs.op o)

/-- Every event keeps the store aligned; a `COMMIT` may fail only over no capture. -/
theorem event (hs : s.Aligned h) {e : StoreEvent} (he : e.CommitHolds) : (e.apply h s).Aligned h := by
  cases e with
  | call op => exact hs.op op
  | reopen requestedFirst =>
    simp only [StoreEvent.apply]
    split
    · rename_i hopen
      rw [(openInternal_eq_ok hopen).2, Option.getD_some, hs.attach]
      exact hs
    · exact hs
  | transaction body ending =>
    cases ending with
    | commit => exact hs.ops body
    | rollback error =>
      exact hs.of_eq rfl rfl rfl (ops_firstEvidence body) rfl
    | commitFails error =>
      exact hs.of_eq rfl rfl rfl (ops_firstEvidence body) (ops_nextEvidence he)

end Store.Aligned

/-! ## Runs -/

theorem StoreEvent.apply_firstEvidence {h : Hashes} {s : Store} (hs : s.Aligned h)
    (e : StoreEvent) : (e.apply h s).firstEvidence = s.firstEvidence := by
  cases e with
  | call op => exact (op_frame op).1
  | reopen requestedFirst =>
    simp only [StoreEvent.apply]
    split
    · rename_i hopen
      rw [(openInternal_eq_ok hopen).2, Option.getD_some, hs.attach]
    · rfl
  | transaction body ending =>
    cases ending <;> exact ops_firstEvidence body

/-- After any run of calls, transactions and reopens in which no `COMMIT` fails over captured
    lines, the stored positions are consecutive from the partition's first, every fact has its
    evidence, and the integrity check accepts the store. -/
theorem stored_positions_dense (h : Hashes) (requestedFirst : Option Nat) (s : Store)
    (hopen : Store.openInternal none requestedFirst = .ok s) (events : List StoreEvent)
    (hcommit : ∀ e ∈ events, e.CommitHolds) :
    let s' := events.foldl (StoreEvent.apply h) s
    s'.tables.evidence.keys = List.range' s.firstEvidence s'.tables.evidence.size ∧
      (∀ seq ∈ s'.tables.facts, seq ∈ s'.tables.evidence) ∧
      (s'.checkIntegrity h).isClean = true := by
  have hrun : (events.foldl (StoreEvent.apply h) s).Aligned h ∧
      (events.foldl (StoreEvent.apply h) s).firstEvidence = s.firstEvidence := by
    have hs : s.Aligned h := by
      obtain ⟨hpos, rfl⟩ := openInternal_eq_ok hopen
      exact .attach_empty hpos
    clear hopen
    induction events generalizing s with
    | nil => exact ⟨hs, rfl⟩
    | cons e events ih =>
      obtain ⟨hrun, hfirst⟩ := ih (e.apply h s)
        (fun e he => hcommit e (List.mem_cons_of_mem _ he))
        (hs.event (hcommit e List.mem_cons_self))
      exact ⟨hrun, hfirst.trans (e.apply_firstEvidence hs)⟩
  obtain ⟨hs, hfirst⟩ := hrun
  refine ⟨?_, hs.mem_facts, hs.isClean⟩
  rw [hs.keys_evidence, hs.size_evidence, hfirst]

/-- Digests for runs on fixed inputs: the text is its own digest. -/
def plainHashes : Hashes where
  evidence := fun line => String.ofList (hexBytes line)
  content := fun _ => ⟨List.replicate 32 0, rfl⟩
  fact := fun canonical => String.ofList (hexBytes canonical)

/-- A line captured under `COMMIT`, another rolled back, the store reopened and a third line
    captured with its fact. -/
theorem stored_positions_dense_sample :
    let s := Store.attach { firstEvidenceSeq := 7 }
    let line : StoreOp := .captureRaw "binance" "a.jsonl" 0 [123, 125] []
    let fact : StoreOp := .commitFact ⟨⟨8, by decide⟩, "", ⟨List.replicate 32 0, rfl⟩, []⟩ [123]
    let events : List StoreEvent := [.transaction [line] .commit,
      .transaction [line, fact] (.rollback .corruptSequence), .reopen (some 7), .call line,
      .call fact]
    let s' := events.foldl (StoreEvent.apply plainHashes) s
    s'.tables.evidence.keys = List.range' 7 s'.tables.evidence.size ∧
      (∀ seq ∈ s'.tables.facts, seq ∈ s'.tables.evidence) ∧
      (s'.checkIntegrity plainHashes).isClean = true := by
  apply stored_positions_dense plainHashes (some 7) _ rfl
  intro e he
  simp only [List.mem_cons, List.not_mem_nil, or_false] at he
  rcases he with rfl | rfl | rfl | rfl | rfl <;> exact trivial

/-- `COMMIT` fails over one captured line, and the next line is captured past a hole. -/
theorem stored_positions_not_dense :
    ¬∀ (h : Hashes) (requestedFirst : Option Nat) (s : Store),
      Store.openInternal none requestedFirst = .ok s → ∀ events : List StoreEvent,
        let s' := events.foldl (StoreEvent.apply h) s
        s'.tables.evidence.keys = List.range' s.firstEvidence s'.tables.evidence.size ∧
          (∀ seq ∈ s'.tables.facts, seq ∈ s'.tables.evidence) ∧
          (s'.checkIntegrity h).isClean = true := by
  intro hall
  have hclean := (hall plainHashes none (Store.attach { firstEvidenceSeq := 1 }) rfl
    [.transaction [.captureRaw "binance" "a.jsonl" 0 [123, 125] []]
      (.commitFails (.sqlite "database or disk is full")),
     .call (.captureRaw "binance" "a.jsonl" 0 [123, 125] [])]).2.2
  revert hclean
  decide +kernel

end PredictionIndexer.Ingest
