import PredictionIndexer.Finalize.Merge
import PredictionIndexer.Finalize.Ordering

/-!
# One merge attempt

`ingester/crates/finalize/src/{merge,identity}.rs` and the loop body of `finalize_window`
(`canonical.rs`): tie groups over the merge, the exact identity index of one attempt, and what is
written and retained for each merged record.

An iterator is the list of what it yields. The compressed files are the list of lines written to
them. `EnvelopeView::parse` is run on a line once here and once in the reader.
-/

namespace PredictionIndexer.Finalize

open Continuity Fallible

/-! ## Tie groups -/

/-- A merged record and whether it shares its instant with another lane. -/
structure MergedRecord where
  record : LaneRecord
  visibleTieGroup : Option Nat
deriving DecidableEq

namespace TieGroups

/-- `close_run`: decides the group of a run of records at one instant. -/
def closeRun : List LaneRecord → List MergedRecord
  | [] => []
  | first :: rest =>
    let crossLane := (first :: rest).any fun held => held.source.lane ≠ first.source.lane
    (first :: rest).map fun record => ⟨record, if crossLane then some first.visibleNs else none⟩

/-- What `TieGroups` yields over an inner iterator, with the open run at hand. An error ends it
    and drops the open run. -/
def items (run : List LaneRecord) :
    List (Except MergeFault LaneRecord) → List (Except MergeFault MergedRecord)
  | [] => (closeRun run).map .ok
  | .error fault :: _ => [.error fault]
  | .ok record :: inner =>
    if run.head?.any (·.visibleNs ≠ record.visibleNs) then
      (closeRun run).map .ok ++ items [record] inner
    else items (run ++ [record]) inner

end TieGroups

/-- `merged`: the merge of one stream per lane, with tie groups. A call of `next` takes a record
    from a stream, reports the one fault, or is the last, so the fuel covers every call. -/
def merged (mode : Arithmetic) (streams : List (String × List (Except String LaneRecord))) :
    Except Halt (Except String (List (Except MergeFault MergedRecord))) :=
  match Merge.new streams with
  | .error repeated => pure (.error repeated)
  | .ok m => do
    let inner ← m.drain mode ((streams.map (·.2.length)).sum + 2)
    return .ok (TieGroups.items [] (inner.getD []))

/-! ## Identity -/

/-- `AttemptIdentity`: the `record_identity` table of one attempt, keyed by `record_id`. -/
structure AttemptIdentity where
  table : Std.ExtTreeMap String IdentityEntry := ∅

namespace AttemptIdentity

def verdict (identity : AttemptIdentity) (recordId : String) (content : ContentHash) :
    IdentityVerdict :=
  match identity.table[recordId]? with
  | none => .unseen
  | some row =>
    if row.content = content then .duplicate row.firstSeen
    else .conflict row.firstSeen row.content

/-- `remember`: an `INSERT`, which the primary key refuses a second time. -/
def remember (identity : AttemptIdentity) (recordId : String) (content : ContentHash)
    (firstSeen : FactSeq) : Except Halt AttemptIdentity :=
  if identity.table.contains recordId then
    .error (.err ("remembering record identity " ++ recordId))
  else .ok { table := identity.table.insert recordId ⟨content, firstSeen⟩ }

end AttemptIdentity

/-! ## The attempt -/

/-- One line of the provenance index. -/
structure ProvenanceLine where
  canonicalSeq : CanonicalSeq
  laneId : String
  sourceSegmentSha256 : String
  sourceLineNumber : Nat
  recordId : String
  contentHash : String
  continuityVerdict : String
  visibleTieGroup : Option Nat
deriving DecidableEq

/-- A merged record with what the loop reads for it: its lane, the digest of its segment, and its
    parsed line. -/
structure Accepted where
  lane : String
  segmentSha256 : String
  item : MergedRecord
  view : EnvelopeView

/-- Everything one merge attempt writes and retains. -/
structure Attempt where
  evidence : List (List UInt8) := []
  provenance : List ProvenanceLine := []
  nextSeq : CanonicalSeq
  firstWritten : Option CanonicalSeq := none
  written : Nat := 0
  identity : AttemptIdentity := {}
  classifier : Classifier
  seen : SeenEpochs := ∅
  clocks : LaneClocks := ∅

/-- The position of a written line, as the classifier takes it. -/
def WrittenLine.position (seq : CanonicalSeq) : FactSeq := ⟨seq.get, seq.pos⟩

namespace Attempt

/-- The state a fresh attempt starts from: the carried ordering history, and no identity. -/
def start (ordering : OrderingState) (firstCanonicalSeq : CanonicalSeq) : Attempt where
  nextSeq := firstCanonicalSeq
  classifier := Classifier.withoutIdentityHistory.restore ordering.seed

/-- What is written and retained for a record, once its fact and the identity index are known. -/
def push (a : Attempt) (r : Accepted) (contentHash : ContentHash) (fact : ContinuityFact)
    (identity : AttemptIdentity) : Attempt where
  evidence := a.evidence ++ [r.item.record.line]
  provenance := a.provenance ++ [{
    canonicalSeq := a.nextSeq
    laneId := r.lane
    sourceSegmentSha256 := r.segmentSha256
    sourceLineNumber := r.item.record.source.lineNumber
    recordId := r.view.recordId
    contentHash := contentHash.toHex
    continuityVerdict := fact.cause.label
    visibleTieGroup := r.item.visibleTieGroup }]
  nextSeq := a.nextSeq.next
  firstWritten := a.firstWritten.or (some a.nextSeq)
  written := a.written + 1
  identity := identity
  classifier := a.classifier.apply fact
  seen := a.seen.observe r.lane fact
  clocks := a.clocks.observe r.lane r.item.record.visibleNs

/-- Writes one record, classifies it, and moves what is retained. -/
def accept (mode : Arithmetic) (hash : String → ContentHash) (a : Attempt) (r : Accepted) :
    Except Halt (ContinuityFact × Attempt) := do
  let contentHash := hash r.view.rawPayload
  let verdict := a.identity.verdict r.view.recordId contentHash
  let position := WrittenLine.position a.nextSeq
  let fact ← a.classifier.classifyWithIdentity mode hash r.view position verdict
  let identity ←
    if verdict = .unseen then a.identity.remember r.view.recordId contentHash position
    else pure a.identity
  return (fact, a.push r contentHash fact identity)

/-- The records of a merge, one after the other. -/
def acceptAll (mode : Arithmetic) (hash : String → ContentHash) (a : Attempt) :
    List Accepted → Except Halt (List ContinuityFact × Attempt)
  | [] => pure ([], a)
  | r :: records => do
    let (fact, a) ← a.accept mode hash r
    let (facts, a) ← a.acceptAll mode hash records
    return (fact :: facts, a)

end Attempt

end PredictionIndexer.Finalize
