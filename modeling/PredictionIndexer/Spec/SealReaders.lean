import PredictionIndexer.Archive.Seal
import PredictionIndexer.ForStd.Members
import PredictionIndexer.Segments.Decode
import PredictionIndexer.Spec.SealValid

/-!
# Two readers of one seal

The archiver reads a sidecar with `json.loads` and checks types as it goes; the ingester and the
finalizer read it with a derived `Deserialize`. Both then ask the same of the values
(`SealValues.Sound`). So they disagree exactly over a seal of sound values that only one of them
reads, and `FieldKind` says field by field which values these are.

## Key results

- `validateSegment_eq_ok`: what the archiver accepts
- `validateSealedFile_eq_ok`: what the other two accept
-/

namespace PredictionIndexer.Segments

open Archive JsonText Fallible
open Splices (IsDigest)

/-! ## Values of a document -/

/-- The last value of a name. -/
def given (members : List (String × JsonText)) (name : String) : Option JsonText :=
  (occurrences members name).getLast?

/-- A natural number, however large. Minus zero is zero. -/
def nat? : JsonText → Option Nat
  | .integer negative n => if negative ∧ n ≠ 0 then none else some n
  | _ => none

def bound? : JsonText → Option (Option Nat)
  | .null => some none
  | v => (nat? v).map some

def natAt (members : List (String × JsonText)) (name : String) : Option Nat :=
  (given members name).bind nat?

def textAt (members : List (String × JsonText)) (name : String) : Option String :=
  (given members name).bind Serde.string

/-- What the checks read of a seal. -/
structure SealValues where
  laneId : String
  dataFile : String
  windowStartNs : Nat
  windowEndNs : Nat
  byteLength : Nat
  lineCount : Nat
  sha256 : String
  firstDeliveryIndex : Option Nat
  lastDeliveryIndex : Option Nat
  firstVisibleNs : Option Nat
  lastVisibleNs : Option Nat
  visibleNonDecreasing : Bool
  deliveryIndexDense : Bool
  segmentId : String
  segmentIndex : Nat
  noReason : Bool
  orderingStatus : String
  noEpochs : Bool
  writerVersion : Nat
deriving DecidableEq

def SegmentSeal.values (s : SegmentSeal) : SealValues where
  laneId := s.laneId
  dataFile := s.dataFile
  windowStartNs := s.windowStartNs
  windowEndNs := s.windowEndNs
  byteLength := s.byteLength
  lineCount := s.lineCount
  sha256 := s.sha256
  firstDeliveryIndex := s.firstDeliveryIndex
  lastDeliveryIndex := s.lastDeliveryIndex
  firstVisibleNs := s.firstVisibleNs
  lastVisibleNs := s.lastVisibleNs
  visibleNonDecreasing := s.visibleNonDecreasing
  deliveryIndexDense := s.deliveryIndexDense
  segmentId := s.segmentId
  segmentIndex := s.segmentIndex
  noReason := s.sealReason.isEmpty
  orderingStatus := s.orderingStatus
  noEpochs := s.epochs.isEmpty
  writerVersion := s.writerVersion

def isEmptyString : JsonText → Bool
  | .string runes => runes.isEmpty
  | _ => false

def isEmptyArray : JsonText → Bool
  | .array items => items.isEmpty
  | _ => false

section Values

variable (members : List (String × JsonText)) (name : String)

def natOf : Nat := (natAt members name).getD 0

def textOf : String := (textAt members name).getD ""

def boundOf : Option Nat := ((given members name).bind bound?).getD none

def flagOf : Bool := ((given members name).bind Serde.bool).getD false

end Values

/-- The values of a document's fields. -/
def valuesOf (members : List (String × JsonText)) : SealValues where
  laneId := textOf members "lane_id"
  dataFile := textOf members "data_file"
  windowStartNs := natOf members "window_start_ns"
  windowEndNs := natOf members "window_end_ns"
  byteLength := natOf members "byte_length"
  lineCount := natOf members "line_count"
  sha256 := textOf members "sha256"
  firstDeliveryIndex := boundOf members "first_delivery_index"
  lastDeliveryIndex := boundOf members "last_delivery_index"
  firstVisibleNs := boundOf members "first_visible_ns"
  lastVisibleNs := boundOf members "last_visible_ns"
  visibleNonDecreasing := flagOf members "visible_non_decreasing"
  deliveryIndexDense := flagOf members "delivery_index_dense"
  segmentId := textOf members "segment_id"
  segmentIndex := natOf members "segment_index"
  noReason := (given members "seal_reason").any isEmptyString
  orderingStatus := textOf members "ordering_status"
  noEpochs := (given members "epochs").any isEmptyArray
  writerVersion := natOf members "writer_version"

/-! ## What both ask of the values -/

namespace SealValues

variable (v : SealValues)

/-- The fields among each other, and against the lane and the name of the data file. -/
structure FieldsSound (lane fileName : String) : Prop where
  lane : v.laneId = lane
  file : v.dataFile = fileName
  precedes : v.windowStartNs < v.windowEndNs
  segment : v.segmentId ≠ ""
  reason : v.noReason = false
  writer : v.writerVersion ≠ 0
  status : v.orderingStatus = if v.visibleNonDecreasing then "ok" else "visible_clock_regression"

/-- The bytes. -/
structure DataSound (digest : List UInt8 → String) (content : List UInt8) : Prop where
  length : content.length = v.byteLength
  digest : digest content = v.sha256
  lines : content.count 10 = v.lineCount
  ended : content = [] ∨ content.getLast? = some 10

/-- The record bounds: none on an empty segment, all of them on another. -/
def BoundsSound : Prop :=
  if v.lineCount = 0 then
    v.byteLength = 0 ∧ v.firstDeliveryIndex = none ∧ v.lastDeliveryIndex = none ∧
      v.firstVisibleNs = none ∧ v.lastVisibleNs = none ∧ v.noEpochs = true
  else
    v.noEpochs = false ∧ ∃ firstDelivery lastDelivery firstVisible lastVisible,
      v.firstDeliveryIndex = some firstDelivery ∧ v.lastDeliveryIndex = some lastDelivery ∧
      v.firstVisibleNs = some firstVisible ∧ v.lastVisibleNs = some lastVisible ∧
      firstDelivery ≤ lastDelivery ∧
      (v.deliveryIndexDense = true → lastDelivery - firstDelivery + 1 = v.lineCount) ∧
      v.windowStartNs ≤ firstVisible ∧ lastVisible < v.windowEndNs

structure Sound (digest : List UInt8 → String) (lane fileName : String) (content : List UInt8) :
    Prop where
  fields : v.FieldsSound lane fileName
  data : v.DataSound digest content
  bounds : v.BoundsSound

end SealValues

/-! ## What each reads -/

/-- What a field is read as. Python takes a `seal_reason` and epochs that are no Unicode text. -/
inductive FieldKind where
  | version
  | integer
  | bound
  | text
  | reason
  | flag
  | epochs
deriving DecidableEq

def fieldKinds : List (String × FieldKind) :=
  [("seal_version", .version), ("lane_id", .text), ("window_start_ns", .integer),
    ("window_end_ns", .integer), ("data_file", .text), ("byte_length", .integer),
    ("line_count", .integer), ("sha256", .text), ("first_delivery_index", .bound),
    ("last_delivery_index", .bound), ("first_visible_ns", .bound), ("last_visible_ns", .bound),
    ("visible_non_decreasing", .flag), ("delivery_index_dense", .flag), ("segment_id", .text),
    ("segment_index", .integer), ("seal_reason", .reason), ("ordering_status", .text),
    ("epochs", .epochs), ("repaired_bytes", .integer), ("created_ns", .integer),
    ("writer_version", .integer)]

def isString : JsonText → Bool
  | .string _ => true
  | _ => false

def isStrings : JsonText → Bool
  | .array items => items.all isString
  | _ => false

namespace FieldKind

/-- The values the archiver's checks take. -/
def python : FieldKind → JsonText → Bool
  | .version, v => equalsNumber 1 v.toPython
  | .integer, v => (nat? v).isSome
  | .bound, v => (bound? v).isSome
  | .text, v => (Serde.string v).isSome
  | .reason, v => isString v
  | .flag, v => (Serde.bool v).isSome
  | .epochs, v => isStrings v

/-- The values the derived reader takes, of versions only the first. -/
def serde : FieldKind → JsonText → Bool
  | .version, v => Serde.u64 v = some 1
  | .integer, v => (Serde.u64 v).isSome
  | .bound, v => (Serde.option Serde.u64 v).isSome
  | .text, v => (Serde.string v).isSome
  | .reason, v => (Serde.string v).isSome
  | .flag, v => (Serde.bool v).isSome
  | .epochs, v => (Serde.strings v).isSome

/-- A number that fits no `u64`: one from `2 ^ 64` on, and minus zero. -/
def Unfit (v : JsonText) : Prop :=
  v = .integer true 0 ∨ ∃ n, 2 ^ 64 ≤ n ∧ v = .integer false n

/-- A string with half of a surrogate pair in it. -/
def Torn (v : JsonText) : Prop := ∃ runes, v = .string runes ∧ Rune.text? runes = none

/-- The values only the archiver takes. -/
def Lenient : FieldKind → JsonText → Prop
  | .version, v => v = .bool true ∨ ∃ q, v = .decimal q ∧ Double.round q = 1
  | .integer, v => Unfit v
  | .bound, v => Unfit v
  | .reason, v => Torn v
  | .epochs, v => ∃ items, v = .array items ∧ ∃ i ∈ items, Torn i
  | .text, _ => False
  | .flag, _ => False

end FieldKind

/-- Every field is there, with a value the archiver's checks take. -/
def PythonReads (members : List (String × JsonText)) : Prop :=
  ∀ f ∈ fieldKinds, ∃ v, given members f.1 = some v ∧ f.2.python v = true

/-- Every field is there once, with a value the derived reader takes, or is a bound that is left
    out. -/
def SerdeReads (members : List (String × JsonText)) : Prop :=
  ∀ f ∈ fieldKinds, (occurrences members f.1 = [] ∧ f.2 = .bound) ∨
    ∃ v, occurrences members f.1 = [v] ∧ f.2.serde v = true

/-! ## Field by field -/

theorem pyString_cases (runes : List Rune) :
    (∃ s, Rune.text? runes = some s ∧ pyString runes = .string s) ∨
      (Rune.text? runes = none ∧ pyString runes = .illFormed (runes.map Rune.code)) := by
  unfold pyString
  cases Rune.text? runes with
  | some s => exact .inl ⟨s, rfl, rfl⟩
  | none => exact .inr ⟨rfl, rfl⟩

theorem isEmpty_text? {runes : List Rune} {s : String} (h : Rune.text? runes = some s) :
    s.isEmpty = runes.isEmpty := by
  obtain ⟨cs, hcs, rfl⟩ := Option.map_eq_some_iff.mp h
  cases runes with
  | nil =>
    cases hcs
    rfl
  | cons r runes =>
    rw [List.mapM_cons] at hcs
    obtain ⟨c, _, hcs⟩ := Option.bind_eq_some_iff.mp hcs
    obtain ⟨cs', _, hcs⟩ := Option.bind_eq_some_iff.mp hcs
    cases hcs
    simp

theorem isEmptyString_of_string {v : JsonText} {s : String} (h : Serde.string v = some s) :
    isEmptyString v = s.isEmpty := by
  cases v with
  | string runes => exact (isEmpty_text? h).symm
  | _ => cases h

theorem nat?_of_u64 {v : JsonText} {n : Nat} (h : Serde.u64 v = some n) :
    nat? v = some n ∧ n < 2 ^ 64 := by
  unfold Serde.u64 at h
  split at h
  · split at h
    · next hlt =>
      cases h
      exact ⟨by simp [nat?], hlt⟩
    · cases h
  · cases h

theorem u64_isSome_iff {v : JsonText} (h : (nat? v).isSome = true) :
    (Serde.u64 v).isSome = true ↔ ¬FieldKind.Unfit v := by
  cases v with
  | integer negative n =>
    cases negative with
    | true =>
      have hzero : n = 0 := by
        by_contra hne
        simp [nat?, hne] at h
      subst hzero
      simp [Serde.u64, FieldKind.Unfit]
    | false => simp [Serde.u64, FieldKind.Unfit]
  | _ => simp [nat?] at h

theorem bound?_of_option {v : JsonText} {n : Option Nat} (h : Serde.option Serde.u64 v = some n) :
    bound? v = some n ∧ ∀ k ∈ n, k < 2 ^ 64 := by
  cases v with
  | null =>
    cases h
    exact ⟨rfl, by simp⟩
  | integer negative k =>
    obtain ⟨m, hm, rfl⟩ := Option.map_eq_some_iff.mp h
    obtain ⟨hnat, hlt⟩ := nat?_of_u64 hm
    have hbound : bound? (.integer negative k) = (nat? (.integer negative k)).map some := rfl
    refine ⟨by rw [hbound, hnat]; rfl, ?_⟩
    intro k hk
    cases hk
    exact hlt
  | _ => simp [Serde.option, Serde.u64] at h

theorem option_isSome_iff {v : JsonText} (h : (bound? v).isSome = true) :
    (Serde.option Serde.u64 v).isSome = true ↔ ¬FieldKind.Unfit v := by
  cases v with
  | null => simp [Serde.option, FieldKind.Unfit]
  | integer negative n =>
    have hnat : (nat? (.integer negative n)).isSome = true := by simpa [bound?] using h
    rw [← u64_isSome_iff hnat]
    simp [Serde.option]
  | _ => simp [bound?, nat?] at h

theorem strings_isSome_iff {v : JsonText} (h : isStrings v = true) :
    (Serde.strings v).isSome = true ↔ ¬FieldKind.Lenient .epochs v := by
  cases v with
  | array items =>
    have hall : ∀ i ∈ items, isString i = true := List.all_eq_true.mp h
    have hmapM : (Serde.strings (.array items)).isSome = true ↔
        ∀ i ∈ items, (Serde.string i).isSome = true := by
      show (items.mapM Serde.string).isSome = true ↔ _
      clear h hall
      induction items with
      | nil => simp
      | cons i items ih =>
        rw [List.mapM_cons, List.forall_mem_cons, ← ih]
        cases Serde.string i <;> cases items.mapM Serde.string <;> simp
    rw [hmapM]
    constructor
    · rintro hsome ⟨_, heq, i, hi, runes, rfl, htorn⟩
      cases heq
      have := hsome _ hi
      rw [Serde.string, htorn] at this
      cases this
    · intro hnot i hi
      by_contra hnone
      refine hnot ⟨items, rfl, i, hi, ?_⟩
      have hstring := hall i hi
      cases i with
      | string runes => exact ⟨runes, rfl, by simpa [Serde.string] using hnone⟩
      | _ => cases hstring
  | _ => cases h

theorem version_iff (v : JsonText) (h : equalsNumber 1 v.toPython = true) :
    Serde.u64 v = some 1 ↔ ¬FieldKind.Lenient .version v := by
  cases v with
  | integer negative n =>
    have hone : negative = false ∧ n = 1 := by
      cases negative with
      | true =>
        simp only [toPython, equalsNumber, if_true, decide_eq_true_eq] at h
        omega
      | false =>
        simp only [toPython, equalsNumber, Bool.false_eq_true, if_false, decide_eq_true_eq] at h
        exact ⟨rfl, by omega⟩
    obtain ⟨rfl, rfl⟩ := hone
    simp [Serde.u64, FieldKind.Lenient]
  | bool b =>
    cases b with
    | true => simp [Serde.u64, FieldKind.Lenient]
    | false => simp [toPython, equalsNumber] at h
  | decimal q =>
    have hround : Double.round q = 1 := by simpa [toPython, equalsNumber] using h
    simp [Serde.u64, FieldKind.Lenient, hround]
  | string runes =>
    rcases pyString_cases runes with ⟨s, _, hs⟩ | ⟨_, hs⟩ <;> simp [toPython, hs, equalsNumber] at h
  | _ => simp [toPython, equalsNumber] at h

/-- Of the values the archiver takes, the derived reader takes those that are not lenient. -/
theorem FieldKind.serde_iff_not_lenient {k : FieldKind} {v : JsonText} (h : k.python v = true) :
    k.serde v = true ↔ ¬k.Lenient v := by
  cases k with
  | version => simpa [FieldKind.serde] using version_iff v h
  | integer => exact u64_isSome_iff h
  | bound => exact option_isSome_iff h
  | text => exact iff_of_true h id
  | reason =>
    cases v with
    | string runes =>
      simp [FieldKind.serde, FieldKind.Lenient, Serde.string, FieldKind.Torn,
        Option.isSome_iff_ne_none]
    | _ => cases h
  | flag => exact iff_of_true h id
  | epochs => exact strings_isSome_iff h

/-- What the derived reader takes, the archiver takes too. -/
theorem FieldKind.python_of_serde {k : FieldKind} {v : JsonText} (h : k.serde v = true) :
    k.python v = true := by
  cases k with
  | version =>
    have hone : Serde.u64 v = some 1 := by simpa [FieldKind.serde] using h
    unfold Serde.u64 at hone
    split at hone
    · split at hone
      · cases hone
        rfl
      · cases hone
    · cases hone
  | integer =>
    obtain ⟨n, hn⟩ := Option.isSome_iff_exists.mp h
    simp [FieldKind.python, (nat?_of_u64 hn).1]
  | bound =>
    obtain ⟨n, hn⟩ := Option.isSome_iff_exists.mp h
    simp [FieldKind.python, (bound?_of_option hn).1]
  | text => exact h
  | reason =>
    cases v with
    | string runes => rfl
    | _ => cases h
  | flag => exact h
  | epochs =>
    cases v with
    | array items =>
      obtain ⟨texts, htexts⟩ := Option.isSome_iff_exists.mp h
      have hmapM : items.mapM Serde.string = some texts := htexts
      refine List.all_eq_true.mpr fun i hi => ?_
      clear h htexts
      induction items generalizing texts with
      | nil => cases hi
      | cons j items ih =>
        rw [List.mapM_cons] at hmapM
        obtain ⟨s, hs, hmapM⟩ := Option.bind_eq_some_iff.mp hmapM
        obtain ⟨rest, hrest, _⟩ := Option.bind_eq_some_iff.mp hmapM
        rcases List.mem_cons.mp hi with rfl | hi
        · cases i with
          | string runes => rfl
          | _ => cases hs
        · exact ih rest hrest hi
    | _ => cases h

/-! ## The derived reader -/

section Serde

variable {members : List (String × JsonText)} {name : String} {α : Type} {f : JsonText → Option α}

theorem given_of_occurrences {v : JsonText} (h : occurrences members name = [v]) :
    given members name = some v := by
  rw [given, h]
  rfl

theorem natOf_of_field {n : Nat} (h : Serde.field members name Serde.u64 = some n) :
    natOf members name = n ∧ n < 2 ^ 64 := by
  obtain ⟨v, hv, hn⟩ := field_eq_some.mp h
  obtain ⟨hnat, hlt⟩ := nat?_of_u64 hn
  exact ⟨by simp [natOf, natAt, given_of_occurrences hv, hnat], hlt⟩

theorem textOf_of_field {s : String} (h : Serde.field members name Serde.string = some s) :
    textOf members name = s := by
  obtain ⟨v, hv, hs⟩ := field_eq_some.mp h
  simp [textOf, textAt, given_of_occurrences hv, hs]

theorem flagOf_of_field {b : Bool} (h : Serde.field members name Serde.bool = some b) :
    flagOf members name = b := by
  obtain ⟨v, hv, hb⟩ := field_eq_some.mp h
  simp [flagOf, given_of_occurrences hv, hb]

theorem boundOf_of_field {n : Option Nat}
    (h : Serde.optionalField members name Serde.u64 = some n) :
    boundOf members name = n ∧ ∀ k ∈ n, k < 2 ^ 64 := by
  rcases optionalField_eq_some.mp h with ⟨hnil, rfl⟩ | ⟨v, hv, hn⟩
  · simp [boundOf, given, hnil]
  · obtain ⟨hbound, hlt⟩ := bound?_of_option hn
    exact ⟨by simp [boundOf, given_of_occurrences hv, hbound], hlt⟩

theorem noReason_of_field {s : String} (h : Serde.field members name Serde.string = some s) :
    (given members name).any isEmptyString = s.isEmpty := by
  obtain ⟨v, hv, hs⟩ := field_eq_some.mp h
  rw [given_of_occurrences hv, Option.any_some, isEmptyString_of_string hs]

theorem noEpochs_of_field {texts : List String}
    (h : Serde.field members name Serde.strings = some texts) :
    (given members name).any isEmptyArray = texts.isEmpty := by
  obtain ⟨v, hv, hs⟩ := field_eq_some.mp h
  cases v with
  | array items =>
    have hmapM : items.mapM Serde.string = some texts := hs
    rw [given_of_occurrences hv]
    show items.isEmpty = texts.isEmpty
    cases items with
    | nil =>
      cases hmapM
      rfl
    | cons i items =>
      rw [List.mapM_cons] at hmapM
      obtain ⟨_, _, hmapM⟩ := Option.bind_eq_some_iff.mp hmapM
      obtain ⟨_, _, hmapM⟩ := Option.bind_eq_some_iff.mp hmapM
      cases hmapM
      rfl
  | _ => cases hs

/-- A field that is read is there once. -/
theorem once_of_field {k : FieldKind} {a : α} (h : Serde.field members name f = some a)
    (hk : ∀ v, f v = some a → k.serde v = true) :
    (occurrences members name = [] ∧ k = .bound) ∨
      ∃ v, occurrences members name = [v] ∧ k.serde v = true := by
  obtain ⟨v, hv, ha⟩ := field_eq_some.mp h
  exact .inr ⟨v, hv, hk v ha⟩

theorem once_of_optionalField {n : Option Nat}
    (h : Serde.optionalField members name Serde.u64 = some n) :
    occurrences members name = [] ∨
      ∃ v, occurrences members name = [v] ∧ FieldKind.bound.serde v = true := by
  rcases optionalField_eq_some.mp h with ⟨hnil, _⟩ | ⟨v, hv, hn⟩
  · exact .inl hnil
  · exact .inr ⟨v, hv, by simp [FieldKind.serde, hn]⟩

/-- What a decoded seal is: the document's values, each field read once. -/
theorem ofMembers_eq_some {s : SegmentSeal} (h : SegmentSeal.ofMembers members = some s) :
    s.values = valuesOf members ∧ s.lineCount < 2 ^ 64 ∧
      (∀ k ∈ s.lastDeliveryIndex, k < 2 ^ 64) ∧ (s.sealVersion = 1 → SerdeReads members) := by
  unfold SegmentSeal.ofMembers at h
  obtain ⟨sealVersion, h₁, h⟩ := Option.bind_eq_some_iff.mp h
  obtain ⟨laneId, h₂, h⟩ := Option.bind_eq_some_iff.mp h
  obtain ⟨windowStartNs, h₃, h⟩ := Option.bind_eq_some_iff.mp h
  obtain ⟨windowEndNs, h₄, h⟩ := Option.bind_eq_some_iff.mp h
  obtain ⟨dataFile, h₅, h⟩ := Option.bind_eq_some_iff.mp h
  obtain ⟨byteLength, h₆, h⟩ := Option.bind_eq_some_iff.mp h
  obtain ⟨lineCount, h₇, h⟩ := Option.bind_eq_some_iff.mp h
  obtain ⟨sha256, h₈, h⟩ := Option.bind_eq_some_iff.mp h
  obtain ⟨firstDeliveryIndex, h₉, h⟩ := Option.bind_eq_some_iff.mp h
  obtain ⟨lastDeliveryIndex, h₁₀, h⟩ := Option.bind_eq_some_iff.mp h
  obtain ⟨firstVisibleNs, h₁₁, h⟩ := Option.bind_eq_some_iff.mp h
  obtain ⟨lastVisibleNs, h₁₂, h⟩ := Option.bind_eq_some_iff.mp h
  obtain ⟨visibleNonDecreasing, h₁₃, h⟩ := Option.bind_eq_some_iff.mp h
  obtain ⟨deliveryIndexDense, h₁₄, h⟩ := Option.bind_eq_some_iff.mp h
  obtain ⟨segmentId, h₁₅, h⟩ := Option.bind_eq_some_iff.mp h
  obtain ⟨segmentIndex, h₁₆, h⟩ := Option.bind_eq_some_iff.mp h
  obtain ⟨sealReason, h₁₇, h⟩ := Option.bind_eq_some_iff.mp h
  obtain ⟨orderingStatus, h₁₈, h⟩ := Option.bind_eq_some_iff.mp h
  obtain ⟨epochs, h₁₉, h⟩ := Option.bind_eq_some_iff.mp h
  obtain ⟨repairedBytes, h₂₀, h⟩ := Option.bind_eq_some_iff.mp h
  obtain ⟨createdNs, h₂₁, h⟩ := Option.bind_eq_some_iff.mp h
  obtain ⟨writerVersion, h₂₂, h⟩ := Option.bind_eq_some_iff.mp h
  cases h
  have u64 {n : Nat} : ∀ v, Serde.u64 v = some n → FieldKind.integer.serde v = true :=
    fun v hv => by simp [FieldKind.serde, hv]
  have string {t : String} : ∀ v, Serde.string v = some t → FieldKind.text.serde v = true :=
    fun v hv => by simp [FieldKind.serde, hv]
  refine ⟨?_, (natOf_of_field h₇).2, (boundOf_of_field h₁₀).2, fun hone => ?_⟩
  · simp only [SegmentSeal.values, valuesOf, textOf_of_field h₂, (natOf_of_field h₃).1,
      (natOf_of_field h₄).1, textOf_of_field h₅, (natOf_of_field h₆).1, (natOf_of_field h₇).1,
      textOf_of_field h₈, (boundOf_of_field h₉).1, (boundOf_of_field h₁₀).1,
      (boundOf_of_field h₁₁).1, (boundOf_of_field h₁₂).1, flagOf_of_field h₁₃, flagOf_of_field h₁₄,
      textOf_of_field h₁₅, (natOf_of_field h₁₆).1, noReason_of_field h₁₇, textOf_of_field h₁₈,
      noEpochs_of_field h₁₉, (natOf_of_field h₂₂).1]
  · dsimp only at hone
    subst hone
    unfold SerdeReads fieldKinds
    simp only [List.forall_mem_cons, List.not_mem_nil, false_imp_iff, implies_true, and_true]
    exact ⟨once_of_field h₁ fun v hv => by simp [FieldKind.serde, hv], once_of_field h₂ string,
      once_of_field h₃ u64, once_of_field h₄ u64, once_of_field h₅ string, once_of_field h₆ u64,
      once_of_field h₇ u64, once_of_field h₈ string, once_of_optionalField h₉,
      once_of_optionalField h₁₀, once_of_optionalField h₁₁, once_of_optionalField h₁₂,
      once_of_field h₁₃ fun v hv => by simp [FieldKind.serde, hv],
      once_of_field h₁₄ fun v hv => by simp [FieldKind.serde, hv], once_of_field h₁₅ string,
      once_of_field h₁₆ u64, once_of_field h₁₇ fun v hv => by simp [FieldKind.serde, hv],
      once_of_field h₁₈ string, once_of_field h₁₉ fun v hv => by simp [FieldKind.serde, hv],
      once_of_field h₂₀ u64, once_of_field h₂₁ u64, once_of_field h₂₂ u64⟩

/-- A field that is read once gives its value. -/
theorem field_of_once {k : FieldKind} (hk : k ≠ .bound)
    (h : (occurrences members name = [] ∧ k = .bound) ∨
      ∃ v, occurrences members name = [v] ∧ k.serde v = true)
    (hread : ∀ v, k.serde v = true → (f v).isSome = true) :
    ∃ a, Serde.field members name f = some a := by
  rcases h with ⟨_, hbound⟩ | ⟨v, hv, hserde⟩
  · exact absurd hbound hk
  · obtain ⟨a, ha⟩ := Option.isSome_iff_exists.mp (hread v hserde)
    exact ⟨a, field_eq_some.mpr ⟨v, hv, ha⟩⟩

theorem optionalField_of_once (h : occurrences members name = [] ∨
      ∃ v, occurrences members name = [v] ∧ FieldKind.bound.serde v = true) :
    ∃ n, Serde.optionalField members name Serde.u64 = some n := by
  rcases h with hnil | ⟨v, hv, hserde⟩
  · exact ⟨none, optionalField_eq_some.mpr (.inl ⟨hnil, rfl⟩)⟩
  · obtain ⟨n, hn⟩ := Option.isSome_iff_exists.mp hserde
    exact ⟨n, optionalField_eq_some.mpr (.inr ⟨v, hv, hn⟩)⟩

/-- A document whose fields are all read decodes, as a seal of the first version. -/
theorem ofMembers_of_serdeReads (h : SerdeReads members) :
    ∃ s, SegmentSeal.ofMembers members = some s ∧ s.sealVersion = 1 := by
  unfold SerdeReads fieldKinds at h
  simp only [List.forall_mem_cons, List.not_mem_nil, false_imp_iff, implies_true, and_true] at h
  obtain ⟨h₁, h₂, h₃, h₄, h₅, h₆, h₇, h₈, h₉, h₁₀, h₁₁, h₁₂, h₁₃, h₁₄, h₁₅, h₁₆, h₁₇, h₁₈, h₁₉,
    h₂₀, h₂₁, h₂₂⟩ := h
  have hversion : Serde.field members "seal_version" Serde.u64 = some 1 := by
    rcases h₁ with ⟨_, hbound⟩ | ⟨v, hv, hserde⟩
    · cases hbound
    · exact field_eq_some.mpr ⟨v, hv, by simpa [FieldKind.serde] using hserde⟩
  obtain ⟨a₂, h₂⟩ := field_of_once (by decide) h₂ fun v hv => hv
  obtain ⟨a₃, h₃⟩ := field_of_once (by decide) h₃ fun v hv => hv
  obtain ⟨a₄, h₄⟩ := field_of_once (by decide) h₄ fun v hv => hv
  obtain ⟨a₅, h₅⟩ := field_of_once (by decide) h₅ fun v hv => hv
  obtain ⟨a₆, h₆⟩ := field_of_once (by decide) h₆ fun v hv => hv
  obtain ⟨a₇, h₇⟩ := field_of_once (by decide) h₇ fun v hv => hv
  obtain ⟨a₈, h₈⟩ := field_of_once (by decide) h₈ fun v hv => hv
  obtain ⟨a₉, h₉⟩ := optionalField_of_once h₉
  obtain ⟨a₁₀, h₁₀⟩ := optionalField_of_once h₁₀
  obtain ⟨a₁₁, h₁₁⟩ := optionalField_of_once h₁₁
  obtain ⟨a₁₂, h₁₂⟩ := optionalField_of_once h₁₂
  obtain ⟨a₁₃, h₁₃⟩ := field_of_once (by decide) h₁₃ fun v hv => hv
  obtain ⟨a₁₄, h₁₄⟩ := field_of_once (by decide) h₁₄ fun v hv => hv
  obtain ⟨a₁₅, h₁₅⟩ := field_of_once (by decide) h₁₅ fun v hv => hv
  obtain ⟨a₁₆, h₁₆⟩ := field_of_once (by decide) h₁₆ fun v hv => hv
  obtain ⟨a₁₇, h₁₇⟩ := field_of_once (by decide) h₁₇ fun v hv => hv
  obtain ⟨a₁₈, h₁₈⟩ := field_of_once (by decide) h₁₈ fun v hv => hv
  obtain ⟨a₁₉, h₁₉⟩ := field_of_once (by decide) h₁₉ fun v hv => hv
  obtain ⟨a₂₀, h₂₀⟩ := field_of_once (by decide) h₂₀ fun v hv => hv
  obtain ⟨a₂₁, h₂₁⟩ := field_of_once (by decide) h₂₁ fun v hv => hv
  obtain ⟨a₂₂, h₂₂⟩ := field_of_once (by decide) h₂₂ fun v hv => hv
  refine ⟨⟨1, a₂, a₃, a₄, a₅, a₆, a₇, a₈, a₉, a₁₀, a₁₁, a₁₂, a₁₃, a₁₄, a₁₅, a₁₆, a₁₇, a₁₈, a₁₉,
    a₂₂⟩, ?_, rfl⟩
  simp only [SegmentSeal.ofMembers, Option.bind_eq_bind, hversion, h₂, h₃, h₄, h₅, h₆, h₇, h₈, h₉,
    h₁₀, h₁₁, h₁₂, h₁₃, h₁₄, h₁₅, h₁₆, h₁₇, h₁₈, h₁₉, h₂₀, h₂₁, h₂₂, Option.bind_some]

end Serde

/-! ## The checks of the ingester and the finalizer -/

theorem checkFields_eq_ok {lane fileName sealPath : String} {s : SegmentSeal} {u : Unit} :
    s.checkFields lane fileName sealPath = .ok u ↔
      s.sealVersion = 1 ∧ s.values.FieldsSound lane fileName := by
  unfold SegmentSeal.checkFields
  simp only [Except.bind_eq_ok, Segments.refuse_eq_ok, exists_const, decide_eq_false_iff_not,
    not_not, ne_eq, ge_iff_le, not_le, Bool.or_eq_false_iff]
  constructor
  · rintro ⟨hversion, hlane, hfile, hprecedes, ⟨⟨hsegment, hreason⟩, hwriter⟩, hstatus⟩
    refine ⟨hversion, hlane, hfile, hprecedes, ?_, hreason, hwriter, hstatus⟩
    intro hempty
    have hid : s.segmentId = "" := hempty
    rw [hid] at hsegment
    cases hsegment
  · rintro ⟨hversion, h⟩
    refine ⟨hversion, h.lane, h.file, h.precedes, ⟨⟨?_, h.reason⟩, h.writer⟩, h.status⟩
    exact Bool.eq_false_iff.mpr fun hempty => h.segment (String.isEmpty_iff.mp hempty)

theorem checkData_eq_ok {digest : List UInt8 → String} {sealPath : String} {s : SegmentSeal}
    {content : List UInt8} {u : Unit} :
    s.checkData digest content sealPath = .ok u ↔ s.values.DataSound digest content := by
  unfold SegmentSeal.checkData
  simp only [Except.bind_eq_ok, Segments.refuse_eq_ok, exists_const, decide_eq_false_iff_not,
    not_not, ne_eq]
  have hended (hlength : content.length = s.byteLength) :
      (decide (s.byteLength > 0) && decide (¬content.getLast? = some 10)) = false ↔
        content = [] ∨ content.getLast? = some 10 := by
    rw [← hlength, Bool.and_eq_false_iff, decide_eq_false_iff_not, decide_eq_false_iff_not, not_not,
      gt_iff_lt, List.length_pos_iff, not_not]
  constructor
  · rintro ⟨hlength, hdigest, hlines, hlast⟩
    exact ⟨hlength, hdigest, hlines, (hended hlength).mp hlast⟩
  · intro h
    exact ⟨h.length, h.digest, h.lines, (hended h.length).mpr h.ended⟩

/-- A dense run that a `u64` cannot count. -/
def SealValues.Overflows (v : SealValues) : Prop :=
  v.lineCount ≠ 0 ∧ v.noEpochs = false ∧ v.firstVisibleNs.isSome ∧ v.lastVisibleNs.isSome ∧
    v.deliveryIndexDense = true ∧ v.firstDeliveryIndex = some 0 ∧
    v.lastDeliveryIndex = some (2 ^ 64 - 1)

theorem refuse_of_false {condition : Bool} (message : String) (h : condition = false) :
    Segments.refuse condition message = .ok () := Segments.refuse_eq_ok.mpr h

theorem refuse_of_true {condition : Bool} (message : String) (h : condition = true) :
    Segments.refuse condition message = .error (.err message) := by
  rw [h]
  rfl

theorem refuse_ne_panic (condition : Bool) (message : String) :
    Segments.refuse condition message ≠ .error .panic := by
  cases condition <;> simp [Segments.refuse]

/-- Adding one to a `u64` overflows at the largest. -/
theorem add_one_cases (mode : Arithmetic) {n : Nat} (h : n < 2 ^ 64) :
    (mode.add n 1 = .ok (n + 1) ∧ n + 1 < 2 ^ 64) ∨
      (n + 1 = 2 ^ 64 ∧ mode = .checked ∧ mode.add n 1 = .error .panic) ∨
      (n + 1 = 2 ^ 64 ∧ mode = .wrapping ∧ mode.add n 1 = .ok 0) := by
  unfold Arithmetic.add
  by_cases hlt : n + 1 < 2 ^ 64
  · exact .inl ⟨by rw [if_pos hlt], hlt⟩
  · have heq : n + 1 = 2 ^ 64 := by omega
    rw [if_neg hlt]
    cases mode with
    | checked => exact .inr (.inl ⟨heq, rfl, rfl⟩)
    | wrapping => exact .inr (.inr ⟨heq, rfl, by rw [heq, Nat.mod_self]⟩)

/-- The check of the window. -/
theorem refuse_window {start end_ first last : Nat} {message : String} {u : Unit} :
    Segments.refuse (first < start || last ≥ end_) message = .ok u ↔ start ≤ first ∧ last < end_ := by
  rw [Segments.refuse_eq_ok, Bool.or_eq_false_iff, decide_eq_false_iff_not, decide_eq_false_iff_not]
  omega

/-- What the bound checks come to: the record bounds, or an addition that overflows. -/
theorem checkBounds_cases (mode : Arithmetic) {s : SegmentSeal} (sealPath : String)
    (hlines : s.lineCount < 2 ^ 64) (hlast : ∀ k ∈ s.lastDeliveryIndex, k < 2 ^ 64) :
    (s.checkBounds mode sealPath = .ok () ↔ s.values.BoundsSound) ∧
      (s.checkBounds mode sealPath = .error .panic ↔ mode = .checked ∧ s.values.Overflows) := by
  unfold SegmentSeal.checkBounds SealValues.BoundsSound SealValues.Overflows SegmentSeal.values
  dsimp only
  by_cases hempty : s.lineCount = 0
  · simp only [if_pos hempty, Segments.refuse_eq_ok, refuse_ne_panic, false_iff]
    exact ⟨by simp [and_assoc], fun h => h.2.1 hempty⟩
  · rw [if_neg hempty, if_neg hempty]
    split
    · next fd ld fv lv hfd hld hfv hlv =>
      have hbelow : ld < 2 ^ 64 := hlast ld hld
      simp only [hfd, hld, hfv, hlv, Option.some.injEq, Option.isSome_some, exists_and_left,
        exists_eq_left', true_and]
      cases hepochs : s.epochs.isEmpty with
      | true =>
        rw [refuse_of_true _ rfl]
        simp
      | false =>
        rw [refuse_of_false _ rfl, Except.ok_bind]
        by_cases hinverted : ld < fd
        · rw [refuse_of_true _ (by simpa using hinverted), Except.error_bind]
          constructor
          · exact iff_of_false (fun h => by cases h) fun h => by omega
          · exact iff_of_false (fun h => by cases h) fun h => by omega
        · have hle : fd ≤ ld := not_lt.mp hinverted
          rw [refuse_of_false _ (by simpa using hle), Except.ok_bind]
          cases hdense : s.deliveryIndexDense with
          | false =>
            rw [if_neg (by decide), refuse_window]
            constructor
            · simp [hle]
            · exact iff_of_false (refuse_ne_panic _ _) (by simp)
          | true =>
            rw [if_pos rfl]
            rcases add_one_cases mode (show ld - fd < 2 ^ 64 by omega) with
              ⟨hadd, hlt⟩ | ⟨heq, hmode, hadd⟩ | ⟨heq, hmode, hadd⟩
            · rw [hadd, Except.ok_bind]
              have hright : ¬(fd = 0 ∧ ld = 2 ^ 64 - 1) := fun h => by omega
              by_cases hcount : ld - fd + 1 = s.lineCount
              · rw [refuse_of_false _ (by simpa using hcount), Except.ok_bind, refuse_window]
                constructor
                · simp [hle, hcount]
                · exact iff_of_false (refuse_ne_panic _ _) fun h => hright h.2.2.2.2
              · rw [refuse_of_true _ (by simpa using hcount), Except.error_bind]
                constructor
                · exact iff_of_false (fun h => by cases h) fun h => hcount (h.2.2.1 rfl)
                · exact iff_of_false (fun h => by cases h) fun h => hright h.2.2.2.2
            · rw [hadd, Except.error_bind]
              constructor
              · exact iff_of_false (fun h => by cases h) fun h => by
                  have := h.2.2.1 rfl
                  omega
              · exact iff_of_true rfl ⟨hmode, hempty, rfl, rfl, by omega, by omega⟩
            · rw [hadd, Except.ok_bind, refuse_of_true _ (by simpa using Ne.symm hempty),
                Except.error_bind]
              constructor
              · exact iff_of_false (fun h => by cases h) fun h => by
                  have := h.2.2.1 rfl
                  omega
              · exact iff_of_false (fun h => by cases h) fun h => by
                  rw [hmode] at h
                  cases h.1
    · next hnone =>
      constructor
      · constructor
        · intro h
          cases h
        · rintro ⟨_, fd, ld, fv, lv, hfd, hld, hfv, hlv, _⟩
          exact (hnone fd ld fv lv hfd hld hfv hlv).elim
      · constructor
        · intro h
          cases h
        · rintro ⟨_, _, _, hfv, hlv, _, hfd, hld⟩
          obtain ⟨fv, hfv⟩ := Option.isSome_iff_exists.mp hfv
          obtain ⟨lv, hlv⟩ := Option.isSome_iff_exists.mp hlv
          exact (hnone _ _ fv lv hfd hld hfv hlv).elim

/-- The checks come to the values being sound. -/
theorem validateSealedSegment_eq_ok {digest : List UInt8 → String} {mode : Arithmetic}
    {lane fileName sealPath : String} {s : SegmentSeal} {content : List UInt8}
    (hlines : s.lineCount < 2 ^ 64) (hlast : ∀ k ∈ s.lastDeliveryIndex, k < 2 ^ 64) :
    validateSealedSegment digest mode lane fileName sealPath s content = .ok () ↔
      s.sealVersion = 1 ∧ s.values.Sound digest lane fileName content := by
  unfold validateSealedSegment
  simp only [Except.bind_eq_ok, exists_const, checkFields_eq_ok, checkData_eq_ok,
    (checkBounds_cases mode sealPath hlines hlast).1]
  constructor
  · rintro ⟨⟨hversion, hfields⟩, hdata, hbounds⟩
    exact ⟨hversion, hfields, hdata, hbounds⟩
  · rintro ⟨hversion, h⟩
    exact ⟨⟨hversion, h.fields⟩, h.data, h.bounds⟩

/-! ## The archiver's reader -/

theorem toPythonMembers_eq (ms : List (List Rune × JsonText)) :
    toPythonMembers ms = (named ms).map fun m => (m.1, m.2.toPython) := by
  induction ms with
  | nil => rfl
  | cons m ms ih =>
    obtain ⟨name, v⟩ := m
    unfold named at ih ⊢
    rw [toPythonMembers]
    cases h : Rune.text? name with
    | some s => simp [h, ih]
    | none => simp [h, ih]

theorem lookup_reverse {α : Type} (l : List (String × α)) (name : String) :
    l.reverse.lookup name = ((l.filter (·.1 = name)).map (·.2)).getLast? := by
  induction l with
  | nil => rfl
  | cons x l ih =>
    rw [List.reverse_cons, List.lookup_append, ih]
    by_cases h : x.1 = name
    · have hlookup : List.lookup name [x] = some x.2 := by simp [List.lookup, h]
      rw [hlookup, List.filter_cons_of_pos (by simpa using h), List.map_cons]
      cases hlast : ((l.filter (·.1 = name)).map (·.2)).getLast? with
      | none =>
        rw [List.getLast?_eq_none_iff.mp hlast]
        rfl
      | some y =>
        rw [List.getLast?_cons, hlast]
        rfl
    · have hlookup : List.lookup name [x] = none := by
        have hne : (name == x.1) = false := by simpa using Ne.symm h
        simp [List.lookup, hne]
      rw [hlookup, List.filter_cons_of_neg (by simpa using h), Option.or_none]

section Python

variable {ms : List (List Rune × JsonText)} {name : String} {v : JsonText}

theorem field?_python : Json.field? (toPythonMembers ms).reverse name =
    (given (named ms) name).map toPython := by
  rw [Json.field?, lookup_reverse, toPythonMembers_eq, given, occurrences, List.filter_map,
    List.map_map, ← List.getLast?_map, List.map_map]
  rfl

theorem get_python (h : given (named ms) name = some v) :
    Archive.get (toPythonMembers ms).reverse name = v.toPython := by
  rw [Archive.get, field?_python, h]
  rfl

theorem integer_python {n : Nat} (h : given (named ms) name = some v) :
    Archive.integer (toPythonMembers ms).reverse name = .ok n ↔ nat? v = some n := by
  rw [Archive.integer, get_python h]
  cases v with
  | integer negative k =>
    cases negative with
    | true =>
      by_cases hk : k = 0
      · simp [toPython, nat?, hk]
      · simp [toPython, nat?, hk, invalid, Nat.pos_of_ne_zero hk]
    | false =>
      have hnonneg : ¬(k : ℤ) < 0 := not_lt.mpr k.cast_nonneg
      simp [toPython, nat?, hnonneg]
  | string runes =>
    rcases pyString_cases runes with ⟨s, _, hs⟩ | ⟨_, hs⟩ <;> simp [toPython, hs, nat?, invalid]
  | _ => simp [toPython, nat?, invalid]

theorem optionalInteger_python {n : Option Nat} (h : given (named ms) name = some v) :
    optionalInteger (toPythonMembers ms).reverse name = .ok n ↔ bound? v = some n := by
  rw [optionalInteger, get_python h]
  cases v with
  | null => simp [toPython, bound?]
  | integer negative k =>
    cases negative with
    | true =>
      by_cases hk : k = 0
      · simp [toPython, bound?, nat?, hk]
      · simp [toPython, bound?, nat?, hk, invalid, Nat.pos_of_ne_zero hk]
    | false =>
      have hnonneg : ¬(k : ℤ) < 0 := not_lt.mpr k.cast_nonneg
      simp [toPython, bound?, nat?, hnonneg]
  | string runes =>
    rcases pyString_cases runes with ⟨s, _, hs⟩ | ⟨_, hs⟩ <;>
      simp [toPython, hs, bound?, nat?, invalid]
  | _ => simp [toPython, bound?, nat?, invalid]

theorem equalsText_python {text : String} :
    equalsText text v.toPython = true ↔ Serde.string v = some text := by
  cases v with
  | string runes =>
    rcases pyString_cases runes with ⟨s, htext, hs⟩ | ⟨htext, hs⟩ <;>
      simp [toPython, hs, equalsText, Serde.string, htext]
  | _ => simp [toPython, equalsText, Serde.string]

theorem hexDigest_eq_ok {document : List (String × Json)} {s d : String}
    (h : Archive.get document name = .string s) :
    hexDigest document name = .ok d ↔ s = d ∧ IsDigest d := by
  rw [hexDigest, h]
  dsimp only
  by_cases hlength : s.length = 64
  · rw [if_neg (not_not.mpr hlength)]
    by_cases hany : (s.toList.any fun c => !isHexDigit c) = true
    · rw [if_pos hany]
      refine iff_of_false (fun h => by cases h) ?_
      rintro ⟨rfl, _, hall⟩
      obtain ⟨c, hc, hnot⟩ := List.any_eq_true.mp hany
      simp [hall c hc] at hnot
    · rw [if_neg hany]
      rw [Bool.not_eq_true, List.any_eq_false] at hany
      have hall : ∀ c ∈ s.toList, isHexDigit c = true := fun c hc => by simpa using hany c hc
      constructor
      · intro h
        cases h
        exact ⟨rfl, hlength, hall⟩
      · rintro ⟨rfl, _⟩
        rfl
  · rw [if_pos hlength]
    refine iff_of_false (fun h => by cases h) ?_
    rintro ⟨rfl, hdigest, _⟩
    exact hlength hdigest

theorem hexDigest_python {d : String} (h : given (named ms) name = some v) :
    hexDigest (toPythonMembers ms).reverse name = .ok d ↔ Serde.string v = some d ∧ IsDigest d := by
  have hget := get_python h
  cases v with
  | string runes =>
    rcases pyString_cases runes with ⟨s, htext, hs⟩ | ⟨htext, hs⟩
    · rw [toPython, hs] at hget
      rw [hexDigest_eq_ok hget, Serde.string, htext, Option.some.injEq]
    · rw [toPython, hs] at hget
      rw [hexDigest, hget]
      simp [Serde.string, htext, invalid]
  | _ =>
    rw [hexDigest, hget]
    simp [toPython, Serde.string, invalid]

theorem token_python {u : Unit} (h : given (named ms) name = some v) :
    token (toPythonMembers ms).reverse name = .ok u ↔
      isString v = true ∧ isEmptyString v = false := by
  rw [token, get_python h]
  cases v with
  | string runes =>
    rcases pyString_cases runes with ⟨s, htext, hs⟩ | ⟨htext, hs⟩
    · simp [toPython, hs, isString, isEmptyString, ← isEmpty_text? htext, Archive.refuse_eq_ok]
    · simp [toPython, hs, isString, isEmptyString, Archive.refuse_eq_ok]
  | _ => simp [toPython, isString, invalid]

theorem toPythonItems_eq (items : List JsonText) : toPythonItems items = items.map toPython := by
  induction items with
  | nil => rfl
  | cons i items ih => rw [toPythonItems, ih, List.map_cons]

theorem isText_toPython : isText v.toPython = isString v := by
  cases v with
  | string runes =>
    rcases pyString_cases runes with ⟨s, _, hs⟩ | ⟨_, hs⟩ <;> simp [toPython, hs, isText, isString]
  | _ => simp [toPython, isText, isString]

theorem epochList_python {epochs : List Json} (h : given (named ms) "epochs" = some v) :
    epochList (toPythonMembers ms).reverse = .ok epochs ↔ isStrings v = true ∧
      ∃ items, v = .array items ∧ epochs = items.map toPython := by
  rw [epochList, get_python h]
  cases v with
  | array items =>
    have hall : (items.map toPython).all isText = isStrings (.array items) := by
      simp [isStrings, List.all_map, Function.comp_def, isText_toPython]
    rw [toPython, toPythonItems_eq]
    dsimp only
    rw [hall]
    cases isStrings (.array items) <;> simp [invalid, eq_comm]
  | string runes =>
    rcases pyString_cases runes with ⟨s, _, hs⟩ | ⟨_, hs⟩ <;> simp [toPython, hs, isStrings, invalid]
  | _ => simp [toPython, isStrings, invalid]

theorem flags_python {w : JsonText} {a b : Bool}
    (hv : given (named ms) "visible_non_decreasing" = some v)
    (hw : given (named ms) "delivery_index_dense" = some w) :
    flags (toPythonMembers ms).reverse = .ok (a, b) ↔
      Serde.bool v = some a ∧ Serde.bool w = some b := by
  have hbool (x : JsonText) : (∃ c, x = .bool c) ∨ (Serde.bool x = none ∧ ∀ c, x.toPython ≠ .bool c) := by
    cases x with
    | bool c => exact .inl ⟨c, rfl⟩
    | string runes =>
      rcases pyString_cases runes with ⟨s, _, hs⟩ | ⟨_, hs⟩ <;> simp [toPython, hs, Serde.bool]
    | _ => simp [toPython, Serde.bool]
  unfold flags
  rw [get_python hv, get_python hw]
  split
  · next c d hc hd =>
    rcases hbool v with ⟨_, rfl⟩ | ⟨_, hne⟩
    · rcases hbool w with ⟨_, rfl⟩ | ⟨_, hne⟩
      · cases hc
        cases hd
        simp [Serde.bool]
      · exact absurd hd (hne d)
    · exact absurd hc (hne c)
  · next hnone =>
    refine iff_of_false (fun h => by cases h) ?_
    rintro ⟨ha, hb⟩
    rcases hbool v with ⟨c, rfl⟩ | ⟨hv', _⟩
    · rcases hbool w with ⟨d, rfl⟩ | ⟨hw', _⟩
      · exact hnone c d rfl rfl
      · rw [hw'] at hb
        cases hb
    · rw [hv'] at ha
      cases ha

theorem toPython_of_string {t : String} (h : Serde.string v = some t) : v.toPython = .string t := by
  cases v with
  | string runes =>
    rw [toPython, pyString, show Rune.text? runes = some t from h]
  | _ => cases h

theorem natOf_of_given {members : List (String × JsonText)} {n : Nat}
    (h : given members name = some v) (hn : nat? v = some n) : natOf members name = n := by
  simp [natOf, natAt, h, hn]

theorem textOf_of_given {members : List (String × JsonText)} {t : String}
    (h : given members name = some v) (ht : Serde.string v = some t) : textOf members name = t := by
  simp [textOf, textAt, h, ht]

theorem flagOf_of_given {members : List (String × JsonText)} {b : Bool}
    (h : given members name = some v) (hb : Serde.bool v = some b) : flagOf members name = b := by
  simp [flagOf, h, hb]

theorem boundOf_of_given {members : List (String × JsonText)} {n : Option Nat}
    (h : given members name = some v) (hn : bound? v = some n) : boundOf members name = n := by
  simp [boundOf, h, hn]

end Python

/-- The archiver's bound checks, for any kind of epochs. -/
theorem validateBounds_eq_ok {α : Type} {start end_ byteLength lineCount : Nat} {epochs : List α}
    {dense : Bool} {firstDelivery lastDelivery firstVisible lastVisible : Option Nat} {u : Unit} :
    validateBounds start end_ byteLength lineCount epochs dense firstDelivery lastDelivery
        firstVisible lastVisible = .ok u ↔
      if lineCount = 0 then
        byteLength = 0 ∧ firstDelivery = none ∧ lastDelivery = none ∧ firstVisible = none ∧
          lastVisible = none ∧ epochs.isEmpty = true
      else
        epochs.isEmpty = false ∧ ∃ fd ld fv lv, firstDelivery = some fd ∧ lastDelivery = some ld ∧
          firstVisible = some fv ∧ lastVisible = some lv ∧ fd ≤ ld ∧
          (dense = true → ld - fd + 1 = lineCount) ∧ start ≤ fv ∧ lv < end_ := by
  unfold validateBounds
  by_cases hempty : lineCount = 0
  · rw [if_pos hempty, if_pos hempty, Archive.refuse_eq_ok]
    simp [and_assoc]
  · rw [if_neg hempty, if_neg hempty]
    split
    · next fd ld fv lv =>
      simp only [Except.bind_eq_ok, Archive.refuse_eq_ok, exists_const, Option.some.injEq,
        exists_and_left, exists_eq_left', Bool.or_eq_false_iff, Bool.and_eq_false_iff,
        decide_eq_false_iff_not, not_lt, not_le, not_not, ne_eq, gt_iff_lt, ge_iff_le]
      cases dense <;> simp
    · next hnone =>
      refine iff_of_false (fun h => by cases h) ?_
      rintro ⟨_, fd, ld, fv, lv, rfl, rfl, rfl, rfl, _⟩
      exact hnone fd ld fv lv rfl rfl rfl rfl

/-- The path places the segment where the seal says it is. -/
def Agrees (path : DataPath) (members : List (String × JsonText)) : Prop :=
  ∀ start index segmentId laneId, natAt members "window_start_ns" = some start →
    natAt members "segment_index" = some index → textAt members "segment_id" = some segmentId →
    textAt members "lane_id" = some laneId →
    Splices.parseSegmentName path.name = some ⟨start, index, segmentId⟩ ∧
      path.dateDirectory = Splices.dateDirectory start ∧
      path.laneDirectory = "lane=" ++ laneId

theorem validatePathCoherence_segment {document : List (String × Json)} {path : DataPath}
    {start index : Nat} {u : Unit} (h : validatePathCoherence document path start index = .ok u) :
    ∃ segmentId, equalsText segmentId (Archive.get document "segment_id") = true := by
  unfold validatePathCoherence at h
  split at h
  · next name _ =>
    simp only [Except.bind_eq_ok, Archive.refuse_eq_ok] at h
    obtain ⟨_, _, _, _, _, hsegment, _⟩ := h
    exact ⟨name.segmentId, by simpa using hsegment⟩
  · cases h

section Document

variable {ms : List (List Rune × JsonText)} {lane : String} {path : DataPath}

theorem missing_eq_nil_iff : (requiredFields.filter fun field =>
    (Json.field? (toPythonMembers ms).reverse field).isNone).isEmpty = true ↔
      ∀ f ∈ fieldKinds, ∃ v, given (named ms) f.1 = some v := by
  have hnames : requiredFields = fieldKinds.map (·.1) := rfl
  rw [List.isEmpty_iff, List.filter_eq_nil_iff, hnames, List.forall_mem_map]
  refine forall₂_congr fun f _ => ?_
  rw [field?_python]
  cases given (named ms) f.1 <;> simp

/-- What the archiver's validator accepts, it reads, and the values are sound. -/
theorem validateSealDocument_sound
    (h : validateSealDocument (.object (toPythonMembers ms).reverse) lane path = .ok ()) :
    PythonReads (named ms) ∧ (valuesOf (named ms)).FieldsSound lane path.name ∧
      (valuesOf (named ms)).BoundsSound := by
  unfold validateSealDocument at h
  simp only [Except.bind_eq_ok, Archive.refuse_eq_ok, exists_const, Bool.not_eq_false',
    decide_eq_false_iff_not, not_le, ge_iff_le, Prod.exists] at h
  obtain ⟨hmissing, hversion, hlane, hfile, start, hstart, end_, hend, hprecedes, byteLength,
    hbyteLength, lineCount, hlineCount, index, hindex, repaired, hrepaired, created, hcreated,
    writer, hwriter, hwriter', digest, hdigest, _, hsegment, _, hreason, epochs, hepochs,
    nonDecreasing, dense, hflags, hstatus, firstDelivery, hfirstDelivery, lastDelivery,
    hlastDelivery, firstVisible, hfirstVisible, lastVisible, hlastVisible, _, hbounds, hpath⟩ := h
  rw [missing_eq_nil_iff] at hmissing
  unfold fieldKinds at hmissing
  simp only [List.forall_mem_cons, List.not_mem_nil, false_imp_iff, implies_true, and_true]
    at hmissing
  obtain ⟨⟨v₁, g₁⟩, ⟨v₂, g₂⟩, ⟨v₃, g₃⟩, ⟨v₄, g₄⟩, ⟨v₅, g₅⟩, ⟨v₆, g₆⟩, ⟨v₇, g₇⟩, ⟨v₈, g₈⟩, ⟨v₉, g₉⟩,
    ⟨v₁₀, g₁₀⟩, ⟨v₁₁, g₁₁⟩, ⟨v₁₂, g₁₂⟩, ⟨v₁₃, g₁₃⟩, ⟨v₁₄, g₁₄⟩, ⟨v₁₅, g₁₅⟩, ⟨v₁₆, g₁₆⟩, ⟨v₁₇, g₁₇⟩,
    ⟨v₁₈, g₁₈⟩, ⟨v₁₉, g₁₉⟩, ⟨v₂₀, g₂₀⟩, ⟨v₂₁, g₂₁⟩, ⟨v₂₂, g₂₂⟩⟩ := hmissing
  obtain ⟨segmentId, hid⟩ := validatePathCoherence_segment hpath
  rw [get_python g₁] at hversion
  rw [get_python g₂, equalsText_python] at hlane
  rw [get_python g₅, equalsText_python] at hfile
  rw [get_python g₁₅, equalsText_python] at hid
  rw [get_python g₁₈, equalsText_python] at hstatus
  rw [integer_python g₃] at hstart
  rw [integer_python g₄] at hend
  rw [integer_python g₆] at hbyteLength
  rw [integer_python g₇] at hlineCount
  rw [integer_python g₁₆] at hindex
  rw [integer_python g₂₀] at hrepaired
  rw [integer_python g₂₁] at hcreated
  rw [integer_python g₂₂] at hwriter
  rw [hexDigest_python g₈] at hdigest
  rw [token_python g₁₅] at hsegment
  rw [token_python g₁₇] at hreason
  rw [flags_python g₁₃ g₁₄] at hflags
  rw [optionalInteger_python g₉] at hfirstDelivery
  rw [optionalInteger_python g₁₀] at hlastDelivery
  rw [optionalInteger_python g₁₁] at hfirstVisible
  rw [optionalInteger_python g₁₂] at hlastVisible
  obtain ⟨hstrings, items, rfl, rfl⟩ := (epochList_python g₁₉).mp hepochs
  rw [validateBounds_eq_ok, List.isEmpty_map] at hbounds
  refine ⟨?_, ⟨?_, ?_, ?_, ?_, ?_, ?_, ?_⟩, ?_⟩
  · unfold PythonReads fieldKinds
    simp only [List.forall_mem_cons, List.not_mem_nil, false_imp_iff, implies_true, and_true]
    refine ⟨⟨v₁, g₁, hversion⟩, ⟨v₂, g₂, ?_⟩, ⟨v₃, g₃, ?_⟩, ⟨v₄, g₄, ?_⟩, ⟨v₅, g₅, ?_⟩,
      ⟨v₆, g₆, ?_⟩, ⟨v₇, g₇, ?_⟩, ⟨v₈, g₈, ?_⟩, ⟨v₉, g₉, ?_⟩, ⟨v₁₀, g₁₀, ?_⟩, ⟨v₁₁, g₁₁, ?_⟩,
      ⟨v₁₂, g₁₂, ?_⟩, ⟨v₁₃, g₁₃, ?_⟩, ⟨v₁₄, g₁₄, ?_⟩, ⟨v₁₅, g₁₅, ?_⟩, ⟨v₁₆, g₁₆, ?_⟩,
      ⟨v₁₇, g₁₇, hreason.1⟩, ⟨v₁₈, g₁₈, ?_⟩, ⟨_, g₁₉, hstrings⟩, ⟨v₂₀, g₂₀, ?_⟩, ⟨v₂₁, g₂₁, ?_⟩,
      ⟨v₂₂, g₂₂, ?_⟩⟩ <;> simp [FieldKind.python, *]
  · exact textOf_of_given g₂ hlane
  · exact textOf_of_given g₅ hfile
  · show natOf _ _ < natOf _ _
    rw [natOf_of_given g₃ hstart, natOf_of_given g₄ hend]
    exact hprecedes
  · show textOf _ _ ≠ ""
    rw [textOf_of_given g₁₅ hid]
    rintro rfl
    rw [isEmptyString_of_string hid] at hsegment
    cases hsegment.2
  · show (given _ _).any _ = false
    rw [g₁₇]
    exact hreason.2
  · show natOf _ _ ≠ 0
    rw [natOf_of_given g₂₂ hwriter]
    exact hwriter'
  · show textOf _ _ = if flagOf _ _ = true then _ else _
    rw [textOf_of_given g₁₈ hstatus, flagOf_of_given g₁₃ hflags.1]
  · unfold SealValues.BoundsSound valuesOf
    simp only [natOf_of_given g₃ hstart, natOf_of_given g₄ hend, natOf_of_given g₆ hbyteLength,
      natOf_of_given g₇ hlineCount, boundOf_of_given g₉ hfirstDelivery,
      boundOf_of_given g₁₀ hlastDelivery, boundOf_of_given g₁₁ hfirstVisible,
      boundOf_of_given g₁₂ hlastVisible, flagOf_of_given g₁₄ hflags.2, g₁₉]
    exact hbounds

theorem validatePathCoherence_of_agrees (hpath : Agrees path (named ms)) {start index : Nat}
    {segmentId laneId : String} {v₃ v₁₆ v₁₅ v₂ : JsonText}
    (g₃ : given (named ms) "window_start_ns" = some v₃) (hstart : nat? v₃ = some start)
    (g₁₆ : given (named ms) "segment_index" = some v₁₆) (hindex : nat? v₁₆ = some index)
    (g₁₅ : given (named ms) "segment_id" = some v₁₅) (hid : Serde.string v₁₅ = some segmentId)
    (g₂ : given (named ms) "lane_id" = some v₂) (hlane : Serde.string v₂ = some laneId) :
    validatePathCoherence (toPythonMembers ms).reverse path start index = .ok () := by
  obtain ⟨hname, hdate, hdirectory⟩ := hpath start index segmentId laneId
    (by simp [natAt, g₃, hstart]) (by simp [natAt, g₁₆, hindex]) (by simp [textAt, g₁₅, hid])
    (by simp [textAt, g₂, hlane])
  unfold validatePathCoherence
  rw [hname]
  simp [get_python g₁₅, get_python g₂, toPython_of_string hid, toPython_of_string hlane, equalsText,
    text?, hdate, hdirectory, Archive.refuse]

/-- Of a document it reads, with sound values, the archiver's validator has nothing to refuse. -/
theorem validateSealDocument_of_sound (hpath : Agrees path (named ms))
    (hreads : PythonReads (named ms)) (hdigest : IsDigest (valuesOf (named ms)).sha256)
    (hfields : (valuesOf (named ms)).FieldsSound lane path.name)
    (hbounds : (valuesOf (named ms)).BoundsSound) :
    validateSealDocument (.object (toPythonMembers ms).reverse) lane path = .ok () := by
  have hmissing := missing_eq_nil_iff.mpr fun f hf => (hreads f hf).imp fun _ h => h.1
  unfold PythonReads fieldKinds at hreads
  simp only [List.forall_mem_cons, List.not_mem_nil, false_imp_iff, implies_true, and_true]
    at hreads
  obtain ⟨⟨v₁, g₁, h₁⟩, ⟨v₂, g₂, h₂⟩, ⟨v₃, g₃, h₃⟩, ⟨v₄, g₄, h₄⟩, ⟨v₅, g₅, h₅⟩, ⟨v₆, g₆, h₆⟩,
    ⟨v₇, g₇, h₇⟩, ⟨v₈, g₈, h₈⟩, ⟨v₉, g₉, h₉⟩, ⟨v₁₀, g₁₀, h₁₀⟩, ⟨v₁₁, g₁₁, h₁₁⟩, ⟨v₁₂, g₁₂, h₁₂⟩,
    ⟨v₁₃, g₁₃, h₁₃⟩, ⟨v₁₄, g₁₄, h₁₄⟩, ⟨v₁₅, g₁₅, h₁₅⟩, ⟨v₁₆, g₁₆, h₁₆⟩, ⟨v₁₇, g₁₇, h₁₇⟩,
    ⟨v₁₈, g₁₈, h₁₈⟩, ⟨v₁₉, g₁₉, h₁₉⟩, ⟨v₂₀, g₂₀, h₂₀⟩, ⟨v₂₁, g₂₁, h₂₁⟩, ⟨v₂₂, g₂₂, h₂₂⟩⟩ := hreads
  obtain ⟨laneId, h₂⟩ := Option.isSome_iff_exists.mp h₂
  obtain ⟨start, h₃⟩ := Option.isSome_iff_exists.mp h₃
  obtain ⟨end_, h₄⟩ := Option.isSome_iff_exists.mp h₄
  obtain ⟨dataFile, h₅⟩ := Option.isSome_iff_exists.mp h₅
  obtain ⟨byteLength, h₆⟩ := Option.isSome_iff_exists.mp h₆
  obtain ⟨lineCount, h₇⟩ := Option.isSome_iff_exists.mp h₇
  obtain ⟨sha256, h₈⟩ := Option.isSome_iff_exists.mp h₈
  obtain ⟨firstDelivery, h₉⟩ := Option.isSome_iff_exists.mp h₉
  obtain ⟨lastDelivery, h₁₀⟩ := Option.isSome_iff_exists.mp h₁₀
  obtain ⟨firstVisible, h₁₁⟩ := Option.isSome_iff_exists.mp h₁₁
  obtain ⟨lastVisible, h₁₂⟩ := Option.isSome_iff_exists.mp h₁₂
  obtain ⟨nonDecreasing, h₁₃⟩ := Option.isSome_iff_exists.mp h₁₃
  obtain ⟨dense, h₁₄⟩ := Option.isSome_iff_exists.mp h₁₄
  obtain ⟨segmentId, h₁₅⟩ := Option.isSome_iff_exists.mp h₁₅
  obtain ⟨index, h₁₆⟩ := Option.isSome_iff_exists.mp h₁₆
  obtain ⟨status, h₁₈⟩ := Option.isSome_iff_exists.mp h₁₈
  obtain ⟨repaired, h₂₀⟩ := Option.isSome_iff_exists.mp h₂₀
  obtain ⟨created, h₂₁⟩ := Option.isSome_iff_exists.mp h₂₁
  obtain ⟨writer, h₂₂⟩ := Option.isSome_iff_exists.mp h₂₂
  have hstrings : ∃ items, v₁₉ = .array items := by
    cases v₁₉ with
    | array items => exact ⟨items, rfl⟩
    | _ => cases h₁₉
  obtain ⟨items, rfl⟩ := hstrings
  have hlane : laneId = lane := (textOf_of_given g₂ h₂).symm.trans hfields.lane
  have hfile : dataFile = path.name := (textOf_of_given g₅ h₅).symm.trans hfields.file
  have hprecedes : start < end_ := by
    have := hfields.precedes
    simpa only [valuesOf, natOf_of_given g₃ h₃, natOf_of_given g₄ h₄] using this
  have hsegment : isEmptyString v₁₅ = false := by
    rw [isEmptyString_of_string h₁₅, ← textOf_of_given g₁₅ h₁₅]
    exact Bool.eq_false_iff.mpr fun hempty => hfields.segment (String.isEmpty_iff.mp hempty)
  have hreason : isEmptyString v₁₇ = false := by
    have := hfields.reason
    simpa only [valuesOf, g₁₇, Option.any_some] using this
  have hwriter : writer ≠ 0 := by
    have := hfields.writer
    simpa only [valuesOf, natOf_of_given g₂₂ h₂₂] using this
  have hstatus : status = if nonDecreasing then "ok" else "visible_clock_regression" := by
    have := hfields.status
    simpa only [valuesOf, textOf_of_given g₁₈ h₁₈, flagOf_of_given g₁₃ h₁₃] using this
  have hdigest' : IsDigest sha256 := by
    have := hdigest
    simpa only [valuesOf, textOf_of_given g₈ h₈] using this
  have hbounds' : validateBounds start end_ byteLength lineCount (items.map toPython) dense
      firstDelivery lastDelivery firstVisible lastVisible = .ok () := by
    rw [validateBounds_eq_ok, List.isEmpty_map]
    unfold SealValues.BoundsSound valuesOf at hbounds
    simpa only [natOf_of_given g₃ h₃, natOf_of_given g₄ h₄, natOf_of_given g₆ h₆,
      natOf_of_given g₇ h₇, boundOf_of_given g₉ h₉, boundOf_of_given g₁₀ h₁₀,
      boundOf_of_given g₁₁ h₁₁, boundOf_of_given g₁₂ h₁₂, flagOf_of_given g₁₄ h₁₄, g₁₉,
      Option.any_some, isEmptyArray] using hbounds
  unfold validateSealDocument
  simp only [Except.bind_eq_ok, Archive.refuse_eq_ok, exists_const, Bool.not_eq_false',
    decide_eq_false_iff_not, not_le, ge_iff_le, Prod.exists]
  refine ⟨hmissing, ?_, ?_, ?_, start, (integer_python g₃).mpr h₃, end_, (integer_python g₄).mpr h₄,
    hprecedes, byteLength, (integer_python g₆).mpr h₆, lineCount, (integer_python g₇).mpr h₇,
    index, (integer_python g₁₆).mpr h₁₆, repaired, (integer_python g₂₀).mpr h₂₀, created,
    (integer_python g₂₁).mpr h₂₁, writer, (integer_python g₂₂).mpr h₂₂, hwriter, sha256,
    (hexDigest_python g₈).mpr ⟨h₈, hdigest'⟩, (), (token_python g₁₅).mpr ⟨?_, hsegment⟩, (),
    (token_python g₁₇).mpr ⟨h₁₇, hreason⟩, items.map toPython,
    (epochList_python g₁₉).mpr ⟨h₁₉, items, rfl, rfl⟩, nonDecreasing, dense,
    (flags_python g₁₃ g₁₄).mpr ⟨h₁₃, h₁₄⟩, ?_, firstDelivery, (optionalInteger_python g₉).mpr h₉,
    lastDelivery, (optionalInteger_python g₁₀).mpr h₁₀, firstVisible,
    (optionalInteger_python g₁₁).mpr h₁₁, lastVisible, (optionalInteger_python g₁₂).mpr h₁₂, (),
    hbounds', validatePathCoherence_of_agrees hpath g₃ h₃ g₁₆ h₁₆ g₁₅ h₁₅ g₂ h₂⟩
  · rw [get_python g₁]
    exact h₁
  · rw [get_python g₂, equalsText_python, h₂, hlane]
  · rw [get_python g₅, equalsText_python, h₅, hfile]
  · cases v₁₅ with
    | string runes => rfl
    | _ => cases h₁₅
  · rw [get_python g₁₈, equalsText_python, h₁₈, hstatus]

end Document

end PredictionIndexer.Segments
