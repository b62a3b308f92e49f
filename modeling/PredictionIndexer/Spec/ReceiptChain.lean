import PredictionIndexer.Spec.IngestRecovery

/-!
# The chain of closed partitions

A closed partition leaves a receipt, and the next one starts from what the receipt says. `Chain`
is the list of closed partitions a sound history can leave; everything `open` checks about the
receipts on disk follows from it.

## Key results

- `restore_capture`: a captured carry restores
- `validateReceipt_receipt`: the receipt of a logged state is valid
- `Chain.readReceipts`, `Chain.ofReceipts`: the chain reads back, and so does its consumed index
-/

namespace PredictionIndexer.Ingest

open Continuity Durable Fallible

/-! ## Carry -/

/-- Entries with distinct keys restore one after the other. -/
theorem foldlM_restoreConnection {keys : List ConnectionKey} (hkeys : keys.Nodup)
    (value : ConnectionKey → Option Nat) (s : ClassifierState)
    (hfresh : ∀ k ∈ keys, k ∉ s.connections) :
    ∃ s', (keys.filterMap fun key => (value key).map fun counter =>
        (⟨key.venue.asStr, key.epoch, counter⟩ : ConnectionCarry)).foldlM
          IngestCarry.restoreConnection s = .ok s' ∧ s'.epochs = s.epochs := by
  induction keys generalizing s with
  | nil => exact ⟨s, rfl, rfl⟩
  | cons key keys ih =>
    obtain ⟨hkey, hkeys⟩ := List.nodup_cons.mp hkeys
    have hrest := fun k hk => hfresh k (List.mem_cons_of_mem _ hk)
    cases hv : value key with
    | none =>
      rw [List.filterMap_cons_none (by simp [hv])]
      exact ih hkeys s hrest
    | some counter =>
      rw [List.filterMap_cons_some (by rw [hv, Option.map_some]), List.foldlM_cons]
      have hcontains : s.connections.contains key = false := by
        rw [← Bool.not_eq_true, Std.ExtTreeMap.contains_iff_mem]
        exact hfresh key List.mem_cons_self
      have hrestore : IngestCarry.restoreConnection s ⟨key.venue.asStr, key.epoch, counter⟩ =
          .ok { s with connections := s.connections.insert key counter } := by
        obtain ⟨venue, epoch⟩ := key
        simp only [IngestCarry.restoreConnection, Venue.fromWire_asStr, hcontains]
        rfl
      rw [hrestore]
      obtain ⟨s', hs', hepochs⟩ := ih hkeys
        { s with connections := s.connections.insert key counter } (by
          intro k hk
          rw [Std.ExtTreeMap.mem_insert]
          rintro (heq | hmem)
          · rw [Std.LawfulEqCmp.eq_of_compare heq] at hkey
            exact hkey hk
          · exact hrest k hk hmem)
      exact ⟨s', hs', hepochs⟩

theorem foldlM_restoreEpoch {keys : List EpochKey} (hkeys : keys.Nodup)
    (value : EpochKey → Option Nat) (s : ClassifierState) (hfresh : ∀ k ∈ keys, k ∉ s.epochs) :
    ∃ s', (keys.filterMap fun key => (value key).map fun monotonicKey =>
        (⟨key.lane.venue.asStr, key.lane.stream.asStr, key.epoch, monotonicKey⟩ :
          EpochCarry)).foldlM IngestCarry.restoreEpoch s = .ok s' := by
  induction keys generalizing s with
  | nil => exact ⟨s, rfl⟩
  | cons key keys ih =>
    obtain ⟨hkey, hkeys⟩ := List.nodup_cons.mp hkeys
    have hrest := fun k hk => hfresh k (List.mem_cons_of_mem _ hk)
    cases hv : value key with
    | none =>
      rw [List.filterMap_cons_none (by simp [hv])]
      exact ih hkeys s hrest
    | some monotonicKey =>
      rw [List.filterMap_cons_some (by rw [hv, Option.map_some]), List.foldlM_cons]
      have hcontains : s.epochs.contains key = false := by
        rw [← Bool.not_eq_true, Std.ExtTreeMap.contains_iff_mem]
        exact hfresh key List.mem_cons_self
      have hrestore : IngestCarry.restoreEpoch s
          ⟨key.lane.venue.asStr, key.lane.stream.asStr, key.epoch, monotonicKey⟩ =
          .ok { s with epochs := s.epochs.insert key { monotonicKey := some monotonicKey } } := by
        obtain ⟨⟨venue, stream⟩, epoch⟩ := key
        simp only [IngestCarry.restoreEpoch, Venue.fromWire_asStr, Stream.fromWire_asStr,
          hcontains]
        rfl
      rw [hrestore]
      exact ih hkeys _ (by
        intro k hk
        rw [Std.ExtTreeMap.mem_insert]
        rintro (heq | hmem)
        · rw [Std.LawfulEqCmp.eq_of_compare heq] at hkey
          exact hkey hk
        · exact hrest k hk hmem)

/-- The members of a set are listed once. -/
theorem nodup_toList {α : Type} [Ord α] [Std.TransOrd α] [Std.LawfulEqOrd α]
    (t : Std.ExtTreeSet α) : t.toList.Nodup :=
  t.distinct_toList.imp fun hab heq => hab (by rw [heq]; exact Std.ReflCmp.compare_self)

/-- A captured carry restores. -/
theorem restore_capture (t : CarryTracker) (s : ClassifierState) :
    ∃ initial, (t.capture s).restore = .ok initial := by
  obtain ⟨s₁, hs₁, hepochs⟩ := foldlM_restoreConnection (nodup_toList t.connections)
    (fun key => s.connections[key]?) { duplicates := s.duplicates, conflicts := s.conflicts }
    (by simp)
  obtain ⟨s₂, hs₂⟩ := foldlM_restoreEpoch (nodup_toList t.epochs)
    (fun key => s.epochs[key]?.bind EpochState.monotonicKey) s₁ (by simp [hepochs])
  refine ⟨s₂, ?_⟩
  unfold IngestCarry.restore CarryTracker.capture
  dsimp only
  rw [hs₁, Except.ok_bind, hs₂]

theorem capture_inRange (t : CarryTracker) {s : ClassifierState} (hs : s.InRange) :
    (t.capture s).InRange := by
  constructor
  · intro c hc
    obtain ⟨key, -, hc⟩ := List.mem_filterMap.mp hc
    obtain ⟨counter, hcounter, rfl⟩ := Option.map_eq_some_iff.mp hc
    exact hs.connections key counter hcounter
  · intro e he
    obtain ⟨key, -, he⟩ := List.mem_filterMap.mp he
    obtain ⟨monotonicKey, hkey, rfl⟩ := Option.map_eq_some_iff.mp he
    exact hs.orderingKey key monotonicKey hkey

/-! ## One receipt -/

/-- A closed database file is not empty, and its digest is one. -/
structure Fingerprint.Valid (file : Fingerprint) : Prop where
  byteLength : file.byteLength ≠ 0
  sha256 : validSha256 file.sha256 = true

/-- What a receipt asks of the store it counts. -/
structure Store.Accounted (s : Store) : Prop where
  filed : s.Filed
  segments : ∀ (k : String) (row : ConsumedSegment), s.tables.consumed[k]? = some row →
    validRelativePath k = true ∧ validSha256 row.sourceSha256 = true

theorem Seeded.accounted {index₀ index : ConsumedIndex} {s : Store} (h : Seeded index₀ index s) :
    s.Accounted :=
  ⟨h.filed, fun k row hrow => ⟨(h.valid k row hrow).1, (h.valid k row hrow).2.1⟩⟩

theorem Store.Accounted.of_mem {s : Store} (h : s.Accounted) {row : ConsumedSegment}
    (hrow : row ∈ s.consumedSegments) :
    validRelativePath row.spoolFile = true ∧ validSha256 row.sourceSha256 = true :=
  h.segments _ row (h.filed.mem.mp hrow)

/-- `segment_record`. -/
def ConsumedSegment.toRecord (s : ConsumedSegment) : SegmentRecord :=
  ⟨s.spoolFile, s.lane, s.sourceSha256, s.byteLength, s.lineCount⟩

/-- The segments of a receipt. -/
def Store.segmentRecords (s : Store) : List SegmentRecord :=
  (s.consumedSegments.map ConsumedSegment.toRecord).mergeSort
    fun left right => decide (left.path ≤ right.path)

theorem forM_require {α : Type} {l : List α} {check : α → Except String Unit}
    (h : ∀ a ∈ l, check a = .ok ()) : l.forM check = .ok () := by
  induction l with
  | nil => rfl
  | cons a l ih =>
    show (check a >>= fun _ => l.forM check) = .ok ()
    rw [h a List.mem_cons_self]
    exact ih fun b hb => h b (List.mem_cons_of_mem _ hb)

theorem checkSegments {s : Store} (h : s.Accounted) :
    (s.segmentRecords.forM fun s => do
      require (validRelativePath s.path) ("invalid consumed segment path \"" ++ s.path ++ "\"")
      require (validSha256 s.sourceSha256) ("invalid lowercase sha256 \"" ++ s.sourceSha256 ++
        "\"")) = .ok () := by
  apply forM_require
  intro r hr
  obtain ⟨row, hrow, rfl⟩ := List.mem_map.mp (List.mem_mergeSort.mp hr)
  obtain ⟨hpath, hsha⟩ := h.of_mem hrow
  exact require_bind_eq_ok.mpr ⟨hpath, require_eq_ok.mpr hsha⟩

/-- Distinct paths, sorted, are strictly sorted. -/
theorem segmentRecords_sorted {s : Store} (h : s.Filed) :
    s.segmentRecords.Pairwise (·.path < ·.path) := by
  have hle : s.segmentRecords.Pairwise fun a b => decide (a.path ≤ b.path) = true := by
    apply List.pairwise_mergeSort
    · intro a b c
      simpa using String.le_trans
    · intro a b
      simpa using String.le_total a.path b.path
  have hne : s.segmentRecords.Pairwise (·.path ≠ ·.path) := by
    apply (List.mergeSort_perm _ _).symm.pairwise
    · rw [List.pairwise_map]
      exact h.distinct
    · exact fun hab => hab.symm
  refine hle.imp₂ ?_ hne
  intro a b hle hne
  exact String.not_le.mp fun hba => hne (String.le_antisymm (of_decide_eq_true hle) hba)

/-- Facts are stored for stored evidence only, so there are no more of them. -/
theorem Store.Aligned.factCount_le {h : Hashes} {s : Store} (hs : s.Aligned h) :
    s.factCount ≤ s.evidenceCount := by
  unfold Store.factCount Store.evidenceCount
  rw [← Std.ExtTreeMap.length_keys, ← Std.ExtTreeMap.length_keys]
  apply List.Subperm.length_le
  apply List.subperm_of_subset
  · exact Std.ExtTreeMap.nodup_keys
  · intro k hk
    rw [Std.ExtTreeMap.mem_keys] at hk ⊢
    exact hs.mem_facts k hk

/-- The receipt of a logged state is valid. -/
theorem validateReceipt_receipt {env : IngestEnv} {carry : IngestCarry} {p : OpenPartition}
    {now : Nat} {file : Fingerprint} (hfile : file.Valid)
    (hlogged : Logged env carry p.marker.firstFileOrderSeq p.state)
    (haccounted : p.state.store.Accounted) (hopened : p.marker.openedAtNs ≤ now)
    (hparent : p.marker.parentReceiptSha256.all validSha256 = true) :
    validateReceipt p.marker.partitionDate (p.receipt now file) = .ok () := by
  obtain ⟨initial, hcarry⟩ := restore_capture p.state.tracker p.state.classifier.state
  have haligned := hlogged.aligned
  have hsize : p.state.store.evidenceCount =
      p.state.store.nextEvidence - p.state.store.firstEvidence := haligned.size_evidence
  have hle := haligned.first_le
  have hpos := haligned.first_pos
  have hrange : (p.receipt now file).lastFileOrderSeq = (p.receipt now file).expectedLast := by
    simp only [OpenPartition.receipt, PartitionReceipt.expectedLast, hsize]
    by_cases hempty : p.state.store.firstEvidence = p.state.store.nextEvidence
    · rw [if_neg (by omega), if_pos (by omega)]
    · rw [if_pos (by omega), if_neg (by omega), Option.some.injEq]
      omega
  have hsegments : validateSegments p.marker.partitionDate p.state.store.segmentRecords =
      .ok () := by
    unfold validateSegments
    rw [checkSegments haccounted]
    exact require_eq_ok.mpr (decide_eq_true (segmentRecords_sorted haccounted.filed))
  unfold validateReceipt
  refine require_bind_eq_ok.mpr ⟨rfl, require_bind_eq_ok.mpr ⟨?_, require_bind_eq_ok.mpr
    ⟨hfile.sha256, require_bind_eq_ok.mpr ⟨?_, require_bind_eq_ok.mpr ⟨hparent, ?_⟩⟩⟩⟩⟩
  · simp [OpenPartition.receipt, hfile.byteLength, hpos, hopened]
  · simp only [hrange, decide_true, Bool.true_and, decide_eq_true_eq]
    exact haligned.factCount_le
  · show (p.state.tracker.capture p.state.classifier.state).restore >>= _ = _
    rw [hcarry]
    exact hsegments

/-! ## The chain -/

/-- A closed partition: its receipt, and the database the receipt commits. -/
structure Closed where
  date : String
  receipt : PartitionReceipt
  tables : Tables

variable {env : PartitionEnv}

/-- The receipts of closed partitions. -/
def receiptRecords (env : PartitionEnv) (closed : List Closed) : List ReceiptRecord :=
  closed.map fun c => ⟨env.receiptDigest c.receipt, c.receipt⟩

/-- What the partition after these continues from. -/
def seed (env : PartitionEnv) (closed : List Closed) : Nat × Option String × IngestCarry :=
  seedFrom (receiptRecords env closed).getLast?

/-- The marker of the partition after these. -/
def markerAfter (env : PartitionEnv) (closed : List Closed) (date : String) (openedAt : Nat) :
    ActivePartition :=
  markerFrom date openedAt (receiptRecords env closed).getLast?

/-- A state of the partition after these. -/
structure Continues (env : PartitionEnv) (closed : List Closed) (s : IngestState) : Prop where
  logged : Logged env.toIngestEnv (seed env closed).2.2 (seed env closed).1 s
  index : ∃ index₀ index, ConsumedIndex.ofReceipts (receiptRecords env closed) = .ok index₀ ∧
    Seeded index₀ index s.store

/-- What closing the partition after these leaves behind. -/
def closing (env : PartitionEnv) (closed : List Closed) (date : String) (openedAt closedAt : Nat)
    (file : Fingerprint) (s : IngestState) : Closed where
  date := date
  receipt := (⟨markerAfter env closed date openedAt, s, ∅, []⟩ : OpenPartition).receipt closedAt file
  tables := s.store.tables

/-- The closed partitions a sound history can leave. -/
inductive Chain (env : PartitionEnv) : List Closed → Prop where
  | nil : Chain env []
  | snoc {closed : List Closed} {date : String} {openedAt closedAt : Nat} {file : Fingerprint}
      {s : IngestState} (hclosed : Chain env closed) (hs : Continues env closed s)
      (hdate : ∀ c ∈ closed, c.date < date) (hopened : openedAt ≤ closedAt)
      (hfile : file.Valid) :
    Chain env (closed ++ [closing env closed date openedAt closedAt file s])

theorem receiptRecords_snoc (closed : List Closed) (c : Closed) :
    receiptRecords env (closed ++ [c]) =
      receiptRecords env closed ++ [⟨env.receiptDigest c.receipt, c.receipt⟩] := by
  simp [receiptRecords]

theorem seed_snoc (closed : List Closed) (c : Closed) :
    seed env (closed ++ [c]) =
      (c.receipt.nextFileOrderSeq, some (env.receiptDigest c.receipt), c.receipt.terminalCarry) := by
  rw [seed, receiptRecords_snoc, List.getLast?_concat]
  rfl

/-- The position after a closed partition is the one its store would hand out next. -/
theorem nextFileOrderSeq_receipt {p : OpenPartition} {now : Nat} {file : Fingerprint}
    (hle : p.state.store.firstEvidence ≤ p.state.store.nextEvidence)
    (hpos : 0 < p.state.store.firstEvidence) :
    (p.receipt now file).nextFileOrderSeq = p.state.store.nextEvidence := by
  simp only [PartitionReceipt.nextFileOrderSeq, OpenPartition.receipt]
  by_cases hempty : p.state.store.firstEvidence = p.state.store.nextEvidence
  · rw [if_neg (by omega)]
    exact hempty
  · rw [if_pos (by omega)]
    dsimp only
    omega

end PredictionIndexer.Ingest
