import PredictionIndexer.ForStd.PyInt
import PredictionIndexer.Splices.Moment

/-!
# Segment names

`splices/common/segment.py` (`window_start_ns`, `segment_filename`, `segment_directory`,
`seal_path_for`, `parse_segment_name`): the window a time falls in, and the name that carries a
window, an index and an id.

## Key results

- `parseSegmentName_segmentFilename`: a writer's name reads back as its window, index and id
-/

namespace PredictionIndexer.Splices

open Finalize (zeroPadded)

def defaultSegmentSeconds : Nat := 1800

def openSuffix : String := ".ndjson.open"

def dataSuffix : String := ".ndjson"

def sealSuffix : String := ".seal.json"

/-- `window_start_ns`, of a positive length. -/
def windowStartNs (nowNs segmentSeconds : Nat) : Nat :=
  let period := segmentSeconds * nanoseconds
  nowNs / period * period

theorem windowStartNs_le (now seconds : Nat) : windowStartNs now seconds ≤ now :=
  Nat.div_mul_le_self now _

theorem lt_windowStartNs_add {now seconds : Nat} (h : 0 < seconds) :
    now < windowStartNs now seconds + seconds * nanoseconds := by
  have hpos : 0 < seconds * nanoseconds := Nat.mul_pos h (by decide)
  have := Nat.lt_div_mul_add hpos (a := now)
  simpa [windowStartNs] using this

/-- Window starts are fixed points. -/
theorem windowStartNs_self {start seconds : Nat} (h : seconds * nanoseconds ∣ start) :
    windowStartNs start seconds = start :=
  Nat.div_mul_cancel h

theorem windowStartNs_mono {a b : Nat} (seconds : Nat) (h : a ≤ b) :
    windowStartNs a seconds ≤ windowStartNs b seconds :=
  Nat.mul_le_mul_right _ (Nat.div_le_div_right h)

theorem dvd_windowStartNs (now seconds : Nat) : seconds * nanoseconds ∣ windowStartNs now seconds :=
  Nat.dvd_mul_left _ _

/-! ## Names -/

/-- An id as `secrets.token_hex` makes them. -/
def IsHex (segmentId : String) : Prop :=
  segmentId ≠ "" ∧ ∀ c ∈ segmentId.toList, c.isDigit ∨ ('a' ≤ c ∧ c ≤ 'f')

instance (segmentId : String) : Decidable (IsHex segmentId) :=
  @instDecidableAnd _ _ inferInstance
    (List.decidableBAll (fun c => c.isDigit = true ∨ ('a' ≤ c ∧ c ≤ 'f')) segmentId.toList)

theorem IsHex.dash_notMem {segmentId : String} (h : IsHex segmentId) : '-' ∉ segmentId.toList := by
  intro hmem
  have := h.2 '-' hmem
  revert this
  decide

/-- `segment_filename`. -/
def segmentFilename (startNs segmentIndex : Nat) (segmentId : String) : String :=
  String.ofList ((Moment.ofNanoseconds startNs).stamp ++ '-' :: (zeroPadded 3 segmentIndex ++ ['-']))
    ++ segmentId

/-- The last component of `segment_directory`. -/
def dateDirectory (startNs : Nat) : String :=
  "date=" ++ String.ofList (Moment.ofNanoseconds startNs).date

/-- What stands before a suffix. -/
def beforeSuffix (suffix name : String) : Option String :=
  if suffix.toList.isSuffixOf name.toList then
    some (String.ofList (name.toList.take (name.length - suffix.length)))
  else none

/-- `seal_path_for`, within the directory. -/
def sealNameFor (name : String) : Option String :=
  ((beforeSuffix openSuffix name).or (beforeSuffix dataSuffix name)).map (· ++ sealSuffix)

/-- The name `_write_seal` writes under before it renames. -/
def temporaryNameFor (name : String) : String := "." ++ name ++ ".tmp"

/-! ## Reading a name -/

/-- What a name says of its segment. -/
structure SegmentName where
  windowStartNs : Int
  segmentIndex : Int
  segmentId : String
deriving DecidableEq, Repr

/-- A name without the first of the three suffixes that it ends in. -/
def segmentStem (name : String) : String :=
  (((beforeSuffix openSuffix name).or (beforeSuffix sealSuffix name)).or
    (beforeSuffix dataSuffix name)).getD name

/-- `parse_segment_name`. -/
def parseSegmentName (name : String) : Option SegmentName :=
  match (segmentStem name).toList.splitOn '-' with
  | [stamp, index, segmentId] => do
    let moment ← Moment.strptime stamp
    let segmentIndex ← PyInt.parse (String.ofList index)
    some ⟨moment.toNanoseconds, segmentIndex, String.ofList segmentId⟩
  | _ => none

theorem beforeSuffix_append (stem suffix : String) :
    beforeSuffix suffix (stem ++ suffix) = some stem := by
  simp [beforeSuffix, ← String.length_toList]

/-- A name ends in no longer suffix that ends otherwise. -/
theorem beforeSuffix_eq_none {stem suffix other : String}
    (hlength : suffix.toList.length ≤ other.toList.length)
    (hsuffix : ¬suffix.toList <:+ other.toList) : beforeSuffix other (stem ++ suffix) = none := by
  rw [beforeSuffix, if_neg]
  rw [List.isSuffixOf_iff_suffix, String.toList_append]
  intro h
  exact hsuffix (List.suffix_of_suffix_length_le (List.suffix_append _ _) h hlength)

theorem segmentStem_open (stem : String) : segmentStem (stem ++ openSuffix) = stem := by
  rw [segmentStem, beforeSuffix_append]
  rfl

theorem segmentStem_data (stem : String) : segmentStem (stem ++ dataSuffix) = stem := by
  rw [segmentStem, beforeSuffix_eq_none (by decide) (by decide),
    beforeSuffix_eq_none (by decide) (by decide), beforeSuffix_append]
  rfl

theorem dash_notMem_zeroPadded (width n : Nat) : '-' ∉ zeroPadded width n := by
  intro h
  rcases List.mem_append.mp h with hzero | hdigit
  · have := List.eq_of_mem_replicate hzero
    simp at this
  · have := Nat.isDigit_of_mem_toDigits (by decide) (by decide) hdigit
    simp at this

theorem dash_notMem_stamp (m : Moment) : '-' ∉ m.stamp := by
  simp [Moment.stamp, dash_notMem_zeroPadded]

theorem isDigit_of_mem_zeroPadded {width n : Nat} {c : Char} (h : c ∈ zeroPadded width n) :
    c.isDigit = true := by
  rcases List.mem_append.mp h with hzero | hdigit
  · rw [List.eq_of_mem_replicate hzero]
    rfl
  · exact Nat.isDigit_of_mem_toDigits (by decide) (by decide) hdigit

theorem parse_zeroPadded (width n : Nat) :
    PyInt.parse (String.ofList (zeroPadded width n)) = some (n : Int) := by
  have hdigit : ∀ c ∈ zeroPadded width n, c.isDigit = true := fun _ => isDigit_of_mem_zeroPadded
  have hne : zeroPadded width n ≠ [] := by
    simp [zeroPadded]
  rw [PyInt.parse, String.toList_ofList,
    PyInt.strip_of_forall fun c hc => PyInt.isSpace_of_isDigit (hdigit c hc)]
  -- a digit is no sign
  split
  · rename_i cs heq
    have := hdigit '-' (by rw [heq]; simp)
    simp at this
  · rename_i cs heq
    have := hdigit '+' (by rw [heq]; simp)
    simp at this
  · rw [PyInt.digits_of_forall hne hdigit, zeroPadded, Nat.ofDigitChars_append,
      Nat.ofDigitChars_replicate_zero, Nat.mul_zero, Nat.ofDigitChars_ten_toDigits]
    rfl

/-- A writer's name, without its suffix, reads back as its window, index and id. -/
theorem parseSegmentName_segmentFilename {startNs segmentIndex : Nat} {segmentId name : String}
    (hstem : segmentStem name = segmentFilename startNs segmentIndex segmentId)
    (hstart : Moment.ReadsBack startNs) (hid : '-' ∉ segmentId.toList) :
    parseSegmentName name = some ⟨startNs, segmentIndex, segmentId⟩ := by
  have hsplit : (segmentFilename startNs segmentIndex segmentId).toList.splitOn '-' =
      [(Moment.ofNanoseconds startNs).stamp, zeroPadded 3 segmentIndex, segmentId.toList] := by
    rw [segmentFilename, String.toList_append, String.toList_ofList, List.append_assoc,
      List.cons_append, List.append_assoc, List.singleton_append]
    rw [List.splitOn_append_cons_self_of_not_mem (dash_notMem_stamp _),
      List.splitOn_append_cons_self_of_not_mem (dash_notMem_zeroPadded _ _),
      List.splitOn_eq_singleton hid]
  rw [parseSegmentName, hstem, hsplit]
  simp only [Moment.strptime_ofNanoseconds hstart, parse_zeroPadded, Option.bind_eq_bind,
    Option.bind_some, String.ofList_toList, Moment.toNanoseconds_ofNanoseconds hstart]

end PredictionIndexer.Splices
