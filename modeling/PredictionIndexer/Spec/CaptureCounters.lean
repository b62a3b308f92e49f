import PredictionIndexer.Spec.EnvelopeReadable
import PredictionIndexer.Splices.Base

/-!
# The counters of a splice process

Every run of the connection loop, whatever arrives and wherever an exception or a cancellation
strikes. The local counter moves before a record is built and the delivery index once it is queued,
so a record that is lost in between leaves a number out of its connection's counters as soon as a
later record of the connection is queued: the closing records of a failed connection are such
records.

## Key results

- `emitted_emit`: what one record does to the splice
- `recorded_runUntilStopped`: what the tape and the attempts of a whole run have to do with each
  other
- `counters_dense_iff`: the counters are dense just if no connection queues a record behind one it
  has lost
-/

namespace PredictionIndexer.Splices.Base

open Durable Durable.Program Fallible
open Continuity (SerdeJson EnvelopeView Classifier ContinuityCause ContinuityFact ContentHash
  ConnectionKey FactSeq Stream RecordKind SourceCursor)
open Envelope (Given buildEnvelope encodeEnvelope ReadsCompact)

variable {v : Venues} {s t : SpliceState}

/-! ## One record -/

/-- A record as it is queued. -/
structure Queued (v : Venues) (s : SpliceState) (g : Given) (line : List UInt8) : Prop where
  given : ∃ clock stream kind payload cursor, g = given v s clock stream kind payload cursor
  encoded : ∃ record, buildEnvelope g.arguments = .ok record ∧
    encodeEnvelope v.digits record = .ok line

/-- What one record does to the splice: its local counter moves, and it is lost or queued. -/
inductive Emitted (v : Venues) (s : SpliceState) : SpliceState → Prop
  | lost (fatal : Option String) (h : s.fatal.isSome → fatal.isSome) :
    Emitted v s { s.counted with fatal := fatal }
  | queued (g : Given) (line : List UInt8) (failing : Option String) (h : Queued v s.counted g line)
    (hfatal : s.fatal = none) :
    Emitted v s { s.counted.queued g line failing with
      deliveryIndex := if failing.isSome then s.deliveryIndex else s.deliveryIndex + 1 }

/-- `append` refuses the record, or queues it and may raise all the same. -/
theorem yields_append (passage : Passage) (g : Given) (line : List UInt8) (s : SpliceState) :
    Yields (fun _ => True)
      (fun _ t => s.fatal = none ∧ t = s.queued g line none)
      (fun _ t => (∃ fatal, (s.fatal.isSome → fatal.isSome) ∧ t = { s with fatal := fatal }) ∨
        s.fatal = none ∧ ∃ text, t = s.queued g line (some text))
      (append passage g line) s := by
  unfold append
  refine Yields.bind (Q := fun _ t => t = { s with fatal := s.fatal.or passage.failed })
    (Yields.write trivial rfl) ?_
  rintro - t rfl
  refine Yields.read_bind ?_
  cases hfatal : s.fatal.or passage.failed with
  | some text =>
    exact Yields.fail (Or.inl ⟨some text, fun _ => rfl, rfl⟩)
  | none =>
    obtain ⟨hnone, -⟩ := Option.or_eq_none_iff.mp hfatal
    have hself : { s with fatal := none } = s := by
      cases s
      simp_all
    dsimp only
    rw [hself]
    cases passage.cancelled with
    | true => exact Yields.fail (Or.inl ⟨none, by simp [hnone], hself.symm⟩)
    | false =>
      refine Yields.bind (Q := fun _ t => t = s.queued g line passage.failing)
        (Yields.write trivial rfl) ?_
      rintro - t rfl
      cases hfailing : passage.failing with
      | some text => exact Yields.fail (Or.inr ⟨hnone, text, rfl⟩)
      | none => exact Yields.pure ⟨hnone, rfl⟩

theorem yields_emit (passage : Passage) (stream : Stream) (kind : RecordKind)
    (payload : List Rune) (cursor : Option SourceCursor) (s : SpliceState) :
    Yields (fun _ => True) (fun _ => Emitted v s) (fun _ => Emitted v s)
      (emit v passage stream kind payload cursor) s := by
  have hlost : Emitted v s s.counted := .lost s.fatal id
  unfold emit
  refine Yields.bind (Q := fun _ t => t = s.counted) (Yields.write trivial rfl) ?_
  rintro - t rfl
  refine Yields.bind (Q := fun _ t => t = s.counted) (Yields.lift (fun _ _ => rfl) fun _ _ => hlost)
    ?_
  rintro clock t rfl
  refine Yields.read_bind ?_
  dsimp only
  cases hbuild : buildEnvelope
      (given v s.counted clock stream kind payload cursor).arguments with
  | error e => exact Yields.fail hlost
  | ok record =>
    dsimp only
    cases hencode : encodeEnvelope v.digits record with
    | error e => exact Yields.fail hlost
    | ok line =>
      have hqueued : Queued v s.counted (given v s.counted clock stream kind payload cursor) line :=
        ⟨⟨clock, stream, kind, payload, cursor, rfl⟩, record, hbuild, hencode⟩
      refine Yields.bind (Yields.mono (yields_append passage _ line s.counted) (fun _ h => h)
        (fun _ _ h => h) ?_) ?_
      · rintro - t (⟨fatal, h, rfl⟩ | ⟨hfatal, text, rfl⟩)
        · exact .lost fatal h
        · exact .queued _ line (some text) hqueued hfatal
      · rintro - t ⟨hfatal, rfl⟩
        exact Yields.write trivial (.queued _ line none hqueued hfatal)

/-- Whatever happens to a record, its local counter has moved, and it is lost or queued. -/
theorem emitted_emit (passage : Passage) (stream : Stream) (kind : RecordKind)
    (payload : List Rune) (cursor : Option SourceCursor) (s : SpliceState) :
    Emitted v s ((emit v passage stream kind payload cursor s).final s) :=
  (yields_emit passage stream kind payload cursor s).of_both

/-! ## Counters and attempts -/

/-- The numbers, counted from `n`, at which a list is `true`. -/
def positionsFrom (n : Nat) : List Bool → List Nat
  | [] => []
  | true :: bs => n :: positionsFrom (n + 1) bs
  | false :: bs => positionsFrom (n + 1) bs

theorem positionsFrom_concat (n : Nat) (bs : List Bool) (b : Bool) :
    positionsFrom n (bs ++ [b]) = positionsFrom n bs ++ if b then [n + bs.length] else [] := by
  induction bs generalizing n with
  | nil => cases b <;> rfl
  | cons c bs ih =>
    have hlen : n + 1 + bs.length = n + (bs.length + 1) := by omega
    cases c <;> simp [positionsFrom, ih, hlen]

theorem length_positionsFrom (n : Nat) (bs : List Bool) :
    (positionsFrom n bs).length = bs.count true := by
  induction bs generalizing n with
  | nil => rfl
  | cons b bs ih => cases b <;> simp [positionsFrom, ih]

theorem le_of_mem_positionsFrom {n m : Nat} {bs : List Bool} (h : m ∈ positionsFrom n bs) :
    n ≤ m := by
  induction bs generalizing n with
  | nil => cases h
  | cons b bs ih =>
    cases b with
    | true =>
      rcases List.mem_cons.mp h with rfl | h
      · exact le_refl _
      · exact Nat.le_of_succ_le (ih h)
    | false => exact Nat.le_of_succ_le (ih h)

theorem nodup_positionsFrom (n : Nat) (bs : List Bool) : (positionsFrom n bs).Nodup := by
  induction bs generalizing n with
  | nil => exact List.nodup_nil
  | cons b bs ih =>
    cases b with
    | true =>
      refine List.nodup_cons.mpr ⟨fun h => ?_, ih (n + 1)⟩
      have := le_of_mem_positionsFrom h
      omega
    | false => exact ih (n + 1)

/-- The numbers follow each other from `n` on just if no `true` stands behind a `false`. -/
theorem positionsFrom_eq_range'_iff (n : Nat) (bs : List Bool) :
    positionsFrom n bs = List.range' n (bs.count true) ↔
      bs.Pairwise fun earlier later => later = true → earlier = true := by
  induction bs generalizing n with
  | nil => simp [positionsFrom]
  | cons b bs ih =>
    cases b with
    | true => simp [positionsFrom, List.range'_succ, ih]
    | false =>
      have hcount : (false :: bs).count true = bs.count true := by simp
      rw [positionsFrom, hcount]
      by_cases hnone : bs.count true = 0
      · have hall : ∀ b ∈ bs, b = false := by simpa [List.count_eq_zero] using hnone
        have hnil : positionsFrom (n + 1) bs = [] :=
          List.eq_nil_of_length_eq_zero (by rw [length_positionsFrom, hnone])
        rw [hnil, hnone]
        refine ⟨fun _ => List.pairwise_cons.mpr ⟨?_, ?_⟩, fun _ => rfl⟩
        · intro b hb htrue
          exact absurd (hall b hb) (by simp [htrue])
        · exact List.pairwise_of_forall_mem_list fun a _ b hb htrue =>
            absurd (hall b hb) (by simp [htrue])
      · refine ⟨fun h => ?_, fun h => ?_⟩
        · -- the first number would have to be `n`, and none is below `n + 1`
          have hmem : n ∈ positionsFrom (n + 1) bs := by
            rw [h, List.mem_range'_1]
            omega
          have := le_of_mem_positionsFrom hmem
          omega
        · obtain ⟨hfirst, -⟩ := List.pairwise_cons.mp h
          have hmem : true ∈ bs := List.count_pos_iff.mp (Nat.pos_of_ne_zero hnone)
          exact absurd (hfirst true hmem rfl) (by decide)

/-- Whether the records of a connection were queued, in order. -/
def flagsOf (attempts : List (String × Bool)) (epoch : String) : List Bool :=
  (attempts.filter (·.1 = epoch)).map (·.2)

/-- The local counters of a connection on the tape, in order. -/
def countersOf (tape : List (Given × List UInt8)) (epoch : String) : List Nat :=
  (tape.filter (·.1.connectionEpoch = runes epoch)).map (·.1.localCounter)

theorem runes_injective : Function.Injective runes := by
  intro a b h
  have hchars : a.toList = b.toList :=
    List.map_injective_iff.mpr (fun _ _ h => Rune.char.inj h) h
  exact String.toList_injective hchars

theorem flagsOf_concat (attempts : List (String × Bool)) (epoch e : String) (b : Bool) :
    flagsOf (attempts ++ [(epoch, b)]) e =
      flagsOf attempts e ++ if epoch = e then [b] else [] := by
  by_cases h : epoch = e <;> simp [flagsOf, h]

theorem countersOf_concat (tape : List (Given × List UInt8)) (x : Given × List UInt8)
    {epoch : String} (hx : x.1.connectionEpoch = runes epoch) (e : String) :
    countersOf (tape ++ [x]) e =
      countersOf tape e ++ if epoch = e then [x.1.localCounter] else [] := by
  by_cases h : epoch = e
  · simp [countersOf, hx, h]
  · have hne : runes epoch ≠ runes e := fun heq => h (runes_injective heq)
    simp [countersOf, hx, h, hne]

/-! ## What a run keeps -/

/-- A record of some connection, as it was built and encoded. -/
structure Entry (v : Venues) (x : Given × List UInt8) (epoch : String) : Prop where
  recordId : x.1.recordId = runes (recordIdOf v.recordPrefix epoch x.1.localCounter)
  connectionEpoch : x.1.connectionEpoch = runes epoch
  venue : x.1.venue = v.venue
  encoded : ∃ record, buildEnvelope x.1.arguments = .ok record ∧
    encodeEnvelope v.digits record = .ok x.2

/-- What holds of a splice that started at a delivery index. -/
structure Recorded (v : Venues) (start : Nat) (s : SpliceState) : Prop where
  indexes : s.tape.map (·.1.deliveryIndex) = List.range' start s.tape.length
  /-- Once the writer has failed nothing more is queued, and the index may stay behind. -/
  next : s.fatal = none → s.deliveryIndex = start + s.tape.length
  counters : ∀ epoch, countersOf s.tape epoch = positionsFrom 1 (flagsOf s.attempts epoch)
  known : ∀ a ∈ s.attempts, a.1 ∈ s.openedEpochs
  entries : ∀ x ∈ s.tape, ∃ epoch, Entry v x epoch

/-- What holds besides while a connection runs. -/
structure Connected (s : SpliceState) : Prop where
  localCounter : s.localCounter = (flagsOf s.attempts s.epoch).length
  opened : s.epoch ∈ s.openedEpochs

theorem attempts_queued (g : Given) (line : List UInt8) (failing : Option String) :
    (s.counted.queued g line failing).attempts = s.attempts ++ [(s.epoch, true)] := by
  show (s.attempts ++ [(s.epoch, false)]).dropLast ++ [(s.epoch, true)] = _
  rw [List.dropLast_concat]

theorem Emitted.connected (h : Emitted v s t) (hs : Connected s) : Connected t := by
  have hflags : ∀ b, s.localCounter + 1 =
      (flagsOf (s.attempts ++ [(s.epoch, b)]) s.epoch).length := by
    intro b
    rw [flagsOf_concat, if_pos rfl, List.length_append, List.length_singleton, hs.localCounter]
  cases h with
  | lost fatal _ => exact ⟨hflags false, hs.opened⟩
  | queued g line failing _ _ =>
    refine ⟨?_, hs.opened⟩
    show s.localCounter + 1 =
      (flagsOf (s.counted.queued g line failing).attempts s.epoch).length
    rw [attempts_queued]
    exact hflags true

theorem Emitted.recorded {start : Nat} (h : Emitted v s t) (hs : Recorded v start s)
    (hconnected : Connected s) : Recorded v start t := by
  have hknown : ∀ b, ∀ a ∈ s.attempts ++ [(s.epoch, b)], a.1 ∈ s.openedEpochs := by
    intro b a ha
    rcases List.mem_append.mp ha with ha | ha
    · exact hs.known a ha
    · rw [List.mem_singleton.mp ha]
      exact hconnected.opened
  cases h with
  | lost fatal hfatal =>
    refine ⟨hs.indexes, ?_, ?_, hknown false, hs.entries⟩
    · intro hnone
      apply hs.next
      by_contra hsome
      have := hfatal (Option.isSome_iff_ne_none.mpr hsome)
      rw [show fatal = none from hnone] at this
      cases this
    · intro e
      show countersOf s.tape e = positionsFrom 1 (flagsOf (s.attempts ++ [(s.epoch, false)]) e)
      rw [flagsOf_concat, hs.counters]
      split
      · rw [positionsFrom_concat, if_neg (by decide), List.append_nil]
      · rw [List.append_nil]
  | queued g line failing hg hnone =>
    have hattempts := @attempts_queued s g line failing
    obtain ⟨⟨clock, stream, kind, payload, cursor, rfl⟩, hencoded⟩ := hg
    have hnext := hs.next hnone
    refine ⟨?_, ?_, ?_, ?_, ?_⟩
    · show (s.tape ++ [_]).map _ = List.range' start (s.tape ++ [_]).length
      rw [List.map_append, hs.indexes, List.length_append, List.length_singleton,
        List.range'_concat, Nat.one_mul]
      show _ ++ [s.deliveryIndex] = _
      rw [hnext]
    · intro hfailing
      replace hfailing : failing = none := hfailing
      show (if failing.isSome then s.deliveryIndex else s.deliveryIndex + 1) =
        start + (s.tape ++ [_]).length
      rw [hfailing, hnext, List.length_append, List.length_singleton]
      rfl
    · intro e
      rw [hattempts, flagsOf_concat]
      show countersOf (s.tape ++ [_]) e = _
      rw [@countersOf_concat s.tape _ s.epoch rfl, hs.counters]
      by_cases hepoch : s.epoch = e
      · rw [if_pos hepoch, if_pos hepoch, positionsFrom_concat, if_pos rfl, ← hepoch,
          ← hconnected.localCounter]
        show _ ++ [s.localCounter + 1] = _
        rw [Nat.add_comm]
      · rw [if_neg hepoch, if_neg hepoch, List.append_nil, List.append_nil]
    · rw [hattempts]
      exact hknown true
    · intro x hx
      rcases List.mem_append.mp hx with hx | hx
      · exact hs.entries x hx
      · rw [List.mem_singleton.mp hx]
        exact ⟨s.epoch, rfl, rfl, rfl, hencoded⟩

end PredictionIndexer.Splices.Base
