import PredictionIndexer.ForStd.Result

/-!
# Sealed segments

`ingester/crates/segment/src/lib.rs`: what a sealed segment asserts about itself, and the check
that its bytes still say so. SHA-256 is third-party code and a parameter. The two fields of a seal
that nothing reads (`repaired_bytes`, `created_ns`) are left out.
-/

namespace PredictionIndexer.Segments

open Fallible

structure SegmentSeal where
  sealVersion : Nat
  laneId : String
  windowStartNs : Nat
  windowEndNs : Nat
  dataFile : String
  byteLength : Nat
  lineCount : Nat
  sha256 : String
  firstDeliveryIndex : Option Nat
  lastDeliveryIndex : Option Nat
  firstVisibleNs : Option Nat
  lastVisibleNs : Option Nat
  visibleNonDecreasing : Bool
  deliveryIndexDense : Bool
  segmentId : String
  segmentIndex : Nat
  sealReason : String
  orderingStatus : String
  epochs : List String
  writerVersion : Nat
deriving DecidableEq

/-- A check that fails closed. -/
def refuse (condition : Bool) (message : String) : Except Halt Unit :=
  if condition then .error (.err message) else .ok ()

namespace SegmentSeal

/-- The checks that need no data. -/
def checkFields (declared : SegmentSeal) (lane fileName sealPath : String) : Except Halt Unit := do
  let invalid := "invalid seal " ++ sealPath ++ ": "
  refuse (declared.sealVersion ≠ 1)
    (invalid ++ "unsupported seal_version " ++ toString declared.sealVersion)
  refuse (declared.laneId ≠ lane)
    (invalid ++ "lane_id \"" ++ declared.laneId ++ "\" does not match lane \"" ++ lane ++ "\"")
  refuse (declared.dataFile ≠ fileName)
    (invalid ++ "data_file \"" ++ declared.dataFile ++ "\" does not name \"" ++ fileName ++ "\"")
  refuse (declared.windowStartNs ≥ declared.windowEndNs)
    (invalid ++ "window_start_ns must precede window_end_ns")
  refuse (declared.segmentId.isEmpty || declared.sealReason.isEmpty || declared.writerVersion = 0)
    (invalid ++ "segment_id, seal_reason and writer_version are required")
  refuse (declared.orderingStatus ≠
      if declared.visibleNonDecreasing then "ok" else "visible_clock_regression")
    (invalid ++ "ordering_status disagrees with visible_non_decreasing")

/-- The claims checked against the bytes. -/
def checkData (digest : List UInt8 → String) (declared : SegmentSeal) (content : List UInt8)
    (sealPath : String) : Except Halt Unit := do
  let invalid := "invalid seal " ++ sealPath ++ ": "
  refuse (content.length ≠ declared.byteLength)
    (invalid ++ "byte_length " ++ toString declared.byteLength ++ " does not match data length " ++
      toString content.length)
  refuse (digest content ≠ declared.sha256)
    (invalid ++ "sha256 " ++ declared.sha256 ++ " does not match data sha256 " ++ digest content)
  refuse (content.count 10 ≠ declared.lineCount)
    (invalid ++ "line_count " ++ toString declared.lineCount ++ " does not match data line count " ++
      toString (content.count 10))
  refuse (declared.byteLength > 0 && content.getLast? ≠ some 10)
    (invalid ++ "non-empty data does not end in a newline")

/-- Record bounds: none on an empty segment, all of them on another. -/
def checkBounds (mode : Arithmetic) (declared : SegmentSeal) (sealPath : String) :
    Except Halt Unit :=
  let invalid := "invalid seal " ++ sealPath ++ ": "
  if declared.lineCount = 0 then
    refuse (declared.byteLength ≠ 0 || declared.firstDeliveryIndex.isSome ||
        declared.lastDeliveryIndex.isSome || declared.firstVisibleNs.isSome ||
        declared.lastVisibleNs.isSome || !declared.epochs.isEmpty)
      (invalid ++ "empty segment carries record bounds")
  else
    match declared.firstDeliveryIndex, declared.lastDeliveryIndex, declared.firstVisibleNs,
      declared.lastVisibleNs with
    | some firstDelivery, some lastDelivery, some firstVisible, some lastVisible => do
      refuse declared.epochs.isEmpty (invalid ++ "non-empty segment has no connection epochs")
      refuse (firstDelivery > lastDelivery) (invalid ++ "delivery bounds are inverted")
      if declared.deliveryIndexDense then
        refuse ((← mode.add (lastDelivery - firstDelivery) 1) ≠ declared.lineCount)
          (invalid ++ "dense delivery bounds disagree with line_count")
      refuse (firstVisible < declared.windowStartNs || lastVisible ≥ declared.windowEndNs)
        (invalid ++ "records span " ++ toString firstVisible ++ "..=" ++ toString lastVisible ++
          ", outside the declared window " ++ toString declared.windowStartNs ++ ".." ++
          toString declared.windowEndNs)
    | _, _, _, _ => .error (.err (invalid ++ "non-empty segment is missing record bounds"))

end SegmentSeal

/-- `validate_sealed_segment`: every check that can falsify the seal against the bytes on disk. -/
def validateSealedSegment (digest : List UInt8 → String) (mode : Arithmetic)
    (lane fileName sealPath : String) (declared : SegmentSeal) (content : List UInt8) :
    Except Halt Unit := do
  declared.checkFields lane fileName sealPath
  declared.checkData digest content sealPath
  declared.checkBounds mode sealPath

theorem refuse_eq_ok {condition : Bool} {message : String} {u : Unit} :
    refuse condition message = .ok u ↔ condition = false := by
  cases condition <;> simp [refuse]

/-- What a validated segment is: its length, digest and lines are the sealed ones, and its last
    line is whole. -/
theorem validateSealedSegment_data {digest : List UInt8 → String} {mode : Arithmetic}
    {lane fileName sealPath : String} {declared : SegmentSeal} {content : List UInt8}
    (h : validateSealedSegment digest mode lane fileName sealPath declared content = .ok ()) :
    content.length = declared.byteLength ∧ digest content = declared.sha256 ∧
      content.count 10 = declared.lineCount ∧ (content = [] ∨ content.getLast? = some 10) := by
  unfold validateSealedSegment SegmentSeal.checkData at h
  obtain ⟨_, _, h⟩ := Except.bind_eq_ok.mp h
  obtain ⟨_, hdata, _⟩ := Except.bind_eq_ok.mp h
  obtain ⟨_, hlength, hdata⟩ := Except.bind_eq_ok.mp hdata
  obtain ⟨_, hdigest, hdata⟩ := Except.bind_eq_ok.mp hdata
  obtain ⟨_, hcount, hdata⟩ := Except.bind_eq_ok.mp hdata
  rw [refuse_eq_ok] at hlength hdigest hcount hdata
  simp only [decide_eq_false_iff_not, not_not, ne_eq] at hlength hdigest hcount
  refine ⟨hlength, hdigest, hcount, ?_⟩
  by_cases hempty : content = []
  · exact .inl hempty
  · right
    have hpos : declared.byteLength > 0 := by
      rw [← hlength]
      exact List.length_pos_iff.mpr hempty
    simpa [hpos] using hdata

end PredictionIndexer.Segments
