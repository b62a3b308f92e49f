import PredictionIndexer.ForStd.JsonText
import PredictionIndexer.Segments.Seal

/-!
# Decoding a seal

What `#[derive(Deserialize)]` makes of `SegmentSeal` in `ingester/crates/segment/src/lib.rs`, and
`validate_sealed_segment` from the text of the sidecar on.
-/

namespace PredictionIndexer.Segments

open Fallible JsonText

namespace SegmentSeal

/-- The fields in order. -/
def fieldNames : List String :=
  ["seal_version", "lane_id", "window_start_ns", "window_end_ns", "data_file", "byte_length",
    "line_count", "sha256", "first_delivery_index", "last_delivery_index", "first_visible_ns",
    "last_visible_ns", "visible_non_decreasing", "delivery_index_dense", "segment_id",
    "segment_index", "seal_reason", "ordering_status", "epochs", "repaired_bytes", "created_ns",
    "writer_version"]

def ofMembers (members : List (String × JsonText)) : Option SegmentSeal := do
  let sealVersion ← Serde.field members "seal_version" Serde.u64
  let laneId ← Serde.field members "lane_id" Serde.string
  let windowStartNs ← Serde.field members "window_start_ns" Serde.u64
  let windowEndNs ← Serde.field members "window_end_ns" Serde.u64
  let dataFile ← Serde.field members "data_file" Serde.string
  let byteLength ← Serde.field members "byte_length" Serde.u64
  let lineCount ← Serde.field members "line_count" Serde.u64
  let sha256 ← Serde.field members "sha256" Serde.string
  let firstDeliveryIndex ← Serde.optionalField members "first_delivery_index" Serde.u64
  let lastDeliveryIndex ← Serde.optionalField members "last_delivery_index" Serde.u64
  let firstVisibleNs ← Serde.optionalField members "first_visible_ns" Serde.u64
  let lastVisibleNs ← Serde.optionalField members "last_visible_ns" Serde.u64
  let visibleNonDecreasing ← Serde.field members "visible_non_decreasing" Serde.bool
  let deliveryIndexDense ← Serde.field members "delivery_index_dense" Serde.bool
  let segmentId ← Serde.field members "segment_id" Serde.string
  let segmentIndex ← Serde.field members "segment_index" Serde.u64
  let sealReason ← Serde.field members "seal_reason" Serde.string
  let orderingStatus ← Serde.field members "ordering_status" Serde.string
  let epochs ← Serde.field members "epochs" Serde.strings
  let _ ← Serde.field members "repaired_bytes" Serde.u64
  let _ ← Serde.field members "created_ns" Serde.u64
  let writerVersion ← Serde.field members "writer_version" Serde.u64
  some {
    sealVersion, laneId, windowStartNs, windowEndNs, dataFile, byteLength, lineCount, sha256,
    firstDeliveryIndex, lastDeliveryIndex, firstVisibleNs, lastVisibleNs, visibleNonDecreasing,
    deliveryIndexDense, segmentId, segmentIndex, sealReason, orderingStatus, epochs,
    writerVersion }

def decode : JsonText → Option SegmentSeal := Serde.struct fieldNames ofMembers

end SegmentSeal

/-- `seal_path_for`, within the directory. -/
def sealPathFor (fileName : String) : Option String :=
  if ".ndjson".toList.isSuffixOf fileName.toList then
    some (String.ofList (fileName.toList.take (fileName.length - 7)) ++ ".seal.json")
  else none

/-- `validate_sealed_segment`, of a sidecar and a data file that can be read. -/
def validateSealedFile (digest : List UInt8 → String) (mode : Arithmetic) (lane fileName : String)
    (encoded : List Char) (content : List UInt8) : Except Halt Unit := do
  let sealPath ← okOr (sealPathFor fileName) "not a segment path"
  let declared ← okOr ((parse encoded).bind SegmentSeal.decode) ("invalid seal " ++ sealPath)
  validateSealedSegment digest mode lane fileName sealPath declared content

end PredictionIndexer.Segments
