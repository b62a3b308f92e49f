import PredictionIndexer.Splices.Segment

/-!
# Recovery

`splices/common/segment.py` (`repair_torn_tail`, `seal_orphan`) and its caller `resume_state` in
`splices/common/spool.py`: a segment whose writer died is reread and sealed. Decoding a line is a
parameter: the receive time, the delivery index and the epoch `json.loads` finds in it, and nothing
where reading them raises. Every call into the operating system succeeds here; one that raises ends
the start of the splice, and the next start finds the same bytes.
-/

namespace PredictionIndexer.Splices

/-- What `json.loads` finds in a line. -/
structure Envelope where
  visibleNs : Nat
  deliveryIndex : Nat
  connectionEpoch : String
deriving DecidableEq

/-- The envelope a record was encoded from, as far as the seal needs it. -/
def Record.envelope (r : Record) : Envelope := ⟨r.visibleNs, r.deliveryIndex, r.epoch⟩

/-- A segment that a dead process left: its name, its bytes, and whether a seal stands beside it. -/
structure Orphan where
  name : String
  content : List UInt8
  sealed : Bool := false
deriving DecidableEq

/-- `repair_torn_tail`: the bytes that stay, and how many go. -/
def repairTornTail (o : Orphan) : Except Raised (List UInt8 × Nat) :=
  if (beforeSuffix dataSuffix o.name).isSome && o.sealed then
    .error (.segment ("refusing to repair a sealed segment: " ++ o.name))
  else if o.content.isEmpty then .ok (o.content, 0)
  else if o.content.getLast? = some 10 then .ok (o.content, 0)
  else
    -- back to the last line feed
    let keep := o.content.length - (o.content.reverse.takeWhile (· ≠ 10)).length
    .ok (o.content.take keep, o.content.length - keep)

/-- The lines of a file, with their line feeds. -/
def fileLines : List UInt8 → List (List UInt8)
  | [] => []
  | byte :: content =>
    if byte = 10 then [byte] :: fileLines content
    else match fileLines content with
      | [] => [[byte]]
      | line :: lines => (byte :: line) :: lines

/-- A line and what it says; nothing for a line that is not whole, which a repaired file has not. -/
def Record.read (loads : List UInt8 → Option Envelope) (line : List UInt8) : Option Record :=
  if h : line.count 10 = 1 ∧ line.getLast? = some 10 then
    (loads line).map fun document =>
      ⟨line, document.visibleNs, document.deliveryIndex, document.connectionEpoch, h.1, h.2⟩
  else none

/-- What a recovered segment is: its committed name, its bytes, and the seal that is published. -/
structure Recovered where
  dataName : String
  content : List UInt8
  sidecar : Seal

/-- The name the data is published under: its own, when the writer got as far as the rename. -/
def committedName (name : String) : String :=
  if (beforeSuffix dataSuffix name).isSome then name
  else String.ofList (name.toList.take (name.length - openSuffix.length)) ++ dataSuffix

/-- `seal_orphan`. -/
def sealOrphan (loads : List UInt8 → Option Envelope) (sha256 : List UInt8 → String) (o : Orphan)
    (lane : String) (segmentSeconds : Nat) (reason : String) (createdNs : Nat) :
    Except Raised Recovered := do
  let (content, repaired) ← repairTornTail o
  let some name := parseSegmentName o.name
    | .error (.segment ("unparseable segment name " ++ o.name))
  let some records := (fileLines content).mapM (Record.read loads)
    | .error (.os ("unreadable record in " ++ o.name))
  let w := records.foldl SegmentWriter.observe {}
  let a := w.accumulator
  .ok
    { dataName := committedName o.name
      content := content
      sidecar :=
        { sealVersion := 1
          laneId := lane
          windowStartNs := name.windowStartNs
          windowEndNs := name.windowStartNs + segmentSeconds * nanoseconds
          dataFile := committedName o.name
          byteLength := a.byteLength
          lineCount := a.lineCount
          sha256 := sha256 a.digested
          firstDeliveryIndex := a.firstDeliveryIndex
          lastDeliveryIndex := a.lastDeliveryIndex
          firstVisibleNs := a.firstVisibleNs
          lastVisibleNs := a.lastVisibleNs
          visibleNonDecreasing := a.visibleNonDecreasing
          deliveryIndexDense := a.deliveryIndexDense
          segmentId := name.segmentId
          segmentIndex := name.segmentIndex
          sealReason := reason
          orderingStatus := w.orderingStatus
          epochs := a.epochs
          repairedBytes := repaired
          createdNs := createdNs
          writerVersion := 1
          extra := [] } }

/-- How `resume_state` seals an orphan: it knows the lane and nothing else of the writer. -/
def resumeOrphan (loads : List UInt8 → Option Envelope) (sha256 : List UInt8 → String) (o : Orphan)
    (lane : String) (createdNs : Nat) : Except Raised Recovered :=
  sealOrphan loads sha256 o lane defaultSegmentSeconds "recovery" createdNs

/-! ## Lines -/

theorem fileLines_append {line : List UInt8} (content : List UInt8) (hcount : line.count 10 = 1)
    (hlast : line.getLast? = some 10) :
    fileLines (line ++ content) = line :: fileLines content := by
  induction line with
  | nil => simp at hlast
  | cons byte line ih =>
    rw [List.cons_append, fileLines]
    by_cases hbyte : byte = 10
    · -- the only line feed is the last byte
      subst hbyte
      have hnone : line.count 10 = 0 := by simpa using hcount
      cases line with
      | nil => rfl
      | cons next line =>
        have hmem : (10 : UInt8) ∈ next :: line := List.mem_of_getLast? (by simpa using hlast)
        exact absurd hmem (List.count_eq_zero.mp hnone)
    · rw [if_neg hbyte]
      cases line with
      | nil =>
        rw [List.getLast?_singleton, Option.some.injEq] at hlast
        exact absurd hlast hbyte
      | cons next line =>
        rw [ih (by simpa [List.count_cons, hbyte] using hcount) (by simpa using hlast)]

/-- The lines of whole records. -/
theorem fileLines_flatMap (records : List Record) :
    fileLines (records.flatMap (·.line)) = records.map (·.line) := by
  induction records with
  | nil => rfl
  | cons r records ih =>
    rw [List.flatMap_cons, fileLines_append _ r.line_count r.line_last, ih, List.map_cons]

/-- A line that says what its record says reads back as that record. -/
theorem Record.read_line {loads : List UInt8 → Option Envelope} {r : Record}
    (h : loads r.line = some r.envelope) : Record.read loads r.line = some r := by
  rw [Record.read, dif_pos ⟨r.line_count, r.line_last⟩, h]
  rfl

end PredictionIndexer.Splices
