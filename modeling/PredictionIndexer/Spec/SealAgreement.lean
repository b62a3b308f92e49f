import PredictionIndexer.Spec.SealReaders

/-!
# Where two validators of one seal agree

The archiver accepts a segment when it can read the seal and its values are sound; so do the
ingester and the finalizer, each with its own reading. What remains is which documents only one
of them reads (`PythonOnly`, `SerdeOnly`) and the one addition that can overflow.

## Key results

- `validators_agree_iff`
-/

namespace PredictionIndexer.Segments

open Archive JsonText Fallible
open Splices (IsDigest dataSuffix beforeSuffix)

/-! ## What each accepts -/

/-- The members a derived reader takes a seal from. -/
def serdeMembers : JsonText → Option (List (String × JsonText)) :=
  Serde.struct SegmentSeal.fieldNames some

theorem decode_eq (t : JsonText) :
    SegmentSeal.decode t = (serdeMembers t).bind SegmentSeal.ofMembers :=
  struct_eq_bind _ _ t

section Archiver

variable {ms : List (List Rune × JsonText)}

/-- The comparison with the measured identity. -/
theorem logicalMatchesSeal_eq_ok {logical : LogicalIdentity} (h : PythonReads (named ms)) :
    logicalMatchesSeal logical (toPythonMembers ms).reverse = .ok () ↔
      logical.byteLength = (valuesOf (named ms)).byteLength ∧
        logical.lineCount = (valuesOf (named ms)).lineCount ∧
        logical.sha256 = (valuesOf (named ms)).sha256 := by
  obtain ⟨v₆, g₆, h₆⟩ := h ("byte_length", .integer) (by decide)
  obtain ⟨v₇, g₇, h₇⟩ := h ("line_count", .integer) (by decide)
  obtain ⟨v₈, g₈, h₈⟩ := h ("sha256", .text) (by decide)
  obtain ⟨byteLength, h₆⟩ := Option.isSome_iff_exists.mp h₆
  obtain ⟨lineCount, h₇⟩ := Option.isSome_iff_exists.mp h₇
  obtain ⟨sha256, h₈⟩ := Option.isSome_iff_exists.mp h₈
  have hbyteLength : Archive.integer (toPythonMembers ms).reverse "byte_length" = .ok byteLength :=
    (integer_python g₆).mpr h₆
  have hlineCount : Archive.integer (toPythonMembers ms).reverse "line_count" = .ok lineCount :=
    (integer_python g₇).mpr h₇
  unfold logicalMatchesSeal valuesOf
  rw [hbyteLength, hlineCount, get_python g₈]
  simp only [Except.ok_bind, Except.bind_eq_ok, Archive.refuse_eq_ok, exists_const,
    Bool.not_eq_false', equalsText_python, natOf_of_given g₆ h₆, natOf_of_given g₇ h₇,
    textOf_of_given g₈ h₈, h₈, Option.some.injEq, decide_eq_false_iff_not, not_not, ne_eq]
  exact and_congr_right fun _ => and_congr_right fun _ => eq_comm

end Archiver

section Accept

variable {digest : List UInt8 → String} {limits : Limits} {mode : Arithmetic} {lane : String}
  {path : DataPath} {encoded : List Char} {content : List UInt8}

theorem sealPathFor_isSome {fileName : String} :
    (sealPathFor fileName).isSome ↔ (beforeSuffix dataSuffix fileName).isSome := by
  unfold sealPathFor beforeSuffix dataSuffix
  split <;> simp

theorem readSealedSegment_eq_ok {document : Json} :
    readSealedSegment limits lane path encoded = .ok document ↔
      (beforeSuffix dataSuffix path.name).isSome ∧ ∃ t, parse encoded = some t ∧
        within limits.digits limits.depth t = true ∧ document = t.toPython ∧
        validateSealDocument t.toPython lane path = .ok () := by
  unfold readSealedSegment loads
  simp only [Except.bind_eq_ok, Archive.refuse_eq_ok, exists_const, Option.isNone_eq_false_iff]
  refine and_congr_right fun _ => ?_
  cases parse encoded with
  | none => simp [invalid]
  | some t =>
    cases hwithin : within limits.digits limits.depth t with
    | false => simp [invalid, hwithin]
    | true =>
      simp only [hwithin, if_true, Except.bind_eq_ok, Option.some.injEq, exists_eq_left', true_and]
      constructor
      · rintro ⟨_, hvalid, h⟩
        cases h
        exact ⟨rfl, hvalid⟩
      · rintro ⟨rfl, hvalid⟩
        exact ⟨(), hvalid, rfl⟩

theorem object_of_validateSealDocument {t : JsonText}
    (h : validateSealDocument t.toPython lane path = .ok ()) : ∃ ms, t = .object ms := by
  cases t with
  | object ms => exact ⟨ms, rfl⟩
  | string runes =>
    rcases pyString_cases runes with ⟨s, _, hs⟩ | ⟨_, hs⟩ <;>
    · rw [toPython, hs] at h
      cases h
  | _ => cases h

theorem measure_eq_ok {logical : LogicalIdentity} : Archive.measure digest content = .ok logical ↔
    logical = ⟨digest content, content.length, content.count 10⟩ ∧
      (content = [] ∨ content.getLast? = some 10) := by
  unfold Archive.measure
  split
  · next h => simp [h, eq_comm]
  · next h => simp [h]

/-- What the archiver accepts. -/
theorem validateSegment_eq_ok (hdigest : ∀ bytes, IsDigest (digest bytes))
    (hpath : ∀ ms, parse encoded = some (.object ms) → Agrees path (named ms)) :
    validateSegment digest limits lane path encoded content = .ok () ↔
      (beforeSuffix dataSuffix path.name).isSome ∧ ∃ ms, parse encoded = some (.object ms) ∧
        within limits.digits limits.depth (.object ms) = true ∧ PythonReads (named ms) ∧
        (valuesOf (named ms)).Sound digest lane path.name content := by
  constructor
  · intro h
    obtain ⟨document, hread, h⟩ := Except.bind_eq_ok.mp h
    obtain ⟨logical, hlogical, h⟩ := Except.bind_eq_ok.mp h
    obtain ⟨hsuffix, t, hparse, hwithin, rfl, hvalid⟩ := readSealedSegment_eq_ok.mp hread
    obtain ⟨ms, rfl⟩ := object_of_validateSealDocument hvalid
    obtain ⟨hreads, hfields, hbounds⟩ := validateSealDocument_sound hvalid
    obtain ⟨rfl, hended⟩ := measure_eq_ok.mp hlogical
    obtain ⟨hlength, hlines, hsha256⟩ := (logicalMatchesSeal_eq_ok hreads).mp h
    exact ⟨hsuffix, ms, hparse, hwithin, hreads, hfields, ⟨hlength, hsha256, hlines, hended⟩,
      hbounds⟩
  · rintro ⟨hsuffix, ms, hparse, hwithin, hreads, hsound⟩
    have hsha256 : IsDigest (valuesOf (named ms)).sha256 := hsound.data.digest ▸ hdigest content
    have hvalid := validateSealDocument_of_sound (hpath ms hparse) hreads hsha256 hsound.fields
      hsound.bounds
    refine Except.bind_eq_ok.mpr ⟨_, readSealedSegment_eq_ok.mpr
      ⟨hsuffix, _, hparse, hwithin, rfl, hvalid⟩, Except.bind_eq_ok.mpr ⟨_, measure_eq_ok.mpr
      ⟨rfl, hsound.data.ended⟩, ?_⟩⟩
    exact (logicalMatchesSeal_eq_ok hreads).mpr
      ⟨hsound.data.length, hsound.data.lines, hsound.data.digest⟩

/-- What the ingester and the finalizer accept. -/
theorem validateSealedFile_eq_ok :
    validateSealedFile digest mode lane path.name encoded content = .ok () ↔
      (beforeSuffix dataSuffix path.name).isSome ∧ ∃ t members, parse encoded = some t ∧
        serdeMembers t = some members ∧ SerdeReads members ∧
        (valuesOf members).Sound digest lane path.name content := by
  unfold validateSealedFile
  simp only [Except.bind_eq_ok, okOr_eq_ok, Option.bind_eq_some_iff, decode_eq]
  constructor
  · rintro ⟨sealPath, hsealPath, s, ⟨t, hparse, members, hmembers, hs⟩, hvalid⟩
    obtain ⟨hvalues, hlines, hlast, hreads⟩ := ofMembers_eq_some hs
    obtain ⟨hversion, hsound⟩ := (validateSealedSegment_eq_ok hlines hlast).mp hvalid
    rw [hvalues] at hsound
    exact ⟨sealPathFor_isSome.mp (by simp [hsealPath]), t, members, hparse, hmembers,
      hreads hversion, hsound⟩
  · rintro ⟨hsuffix, t, members, hparse, hmembers, hreads, hsound⟩
    obtain ⟨sealPath, hsealPath⟩ := Option.isSome_iff_exists.mp (sealPathFor_isSome.mpr hsuffix)
    obtain ⟨s, hs, hversion⟩ := ofMembers_of_serdeReads hreads
    obtain ⟨hvalues, hlines, hlast, _⟩ := ofMembers_eq_some hs
    rw [← hvalues] at hsound
    exact ⟨sealPath, hsealPath, s, ⟨t, hparse, members, hmembers, hs⟩,
      (validateSealedSegment_eq_ok hlines hlast).mpr ⟨hversion, hsound⟩⟩

theorem bind_eq_panic {α β : Type} {x : Except Halt α} {f : α → Except Halt β}
    (hx : x ≠ .error .panic) :
    (x >>= f) = .error .panic ↔ ∃ a, x = .ok a ∧ f a = .error .panic := by
  cases x with
  | ok a => simp
  | error e =>
    have he : e ≠ .panic := fun h => hx (h ▸ rfl)
    simp [he]

theorem bind_ne_panic {α β : Type} {x : Except Halt α} {f : α → Except Halt β}
    (hx : x ≠ .error .panic) (hf : ∀ a, f a ≠ .error .panic) : (x >>= f) ≠ .error .panic := by
  rw [Ne, bind_eq_panic hx]
  rintro ⟨a, _, h⟩
  exact hf a h

theorem checkFields_ne_panic (s : SegmentSeal) (lane fileName sealPath : String) :
    s.checkFields lane fileName sealPath ≠ .error .panic :=
  bind_ne_panic (refuse_ne_panic _ _) fun _ => bind_ne_panic (refuse_ne_panic _ _) fun _ =>
    bind_ne_panic (refuse_ne_panic _ _) fun _ => bind_ne_panic (refuse_ne_panic _ _) fun _ =>
    bind_ne_panic (refuse_ne_panic _ _) fun _ => refuse_ne_panic _ _

theorem checkData_ne_panic (s : SegmentSeal) (sealPath : String) :
    s.checkData digest content sealPath ≠ .error .panic :=
  bind_ne_panic (refuse_ne_panic _ _) fun _ => bind_ne_panic (refuse_ne_panic _ _) fun _ =>
    bind_ne_panic (refuse_ne_panic _ _) fun _ => refuse_ne_panic _ _

theorem okOr_ne_panic {α : Type} (x : Option α) (message : String) :
    okOr x message ≠ .error .panic := by
  cases x <;> simp [okOr]

/-- The one check that may panic: the count of a dense run that goes through all of `u64`. -/
theorem validateSealedFile_eq_panic :
    validateSealedFile digest mode lane path.name encoded content = .error .panic ↔
      mode = .checked ∧ (beforeSuffix dataSuffix path.name).isSome ∧ ∃ t members,
        parse encoded = some t ∧ serdeMembers t = some members ∧ SerdeReads members ∧
        (valuesOf members).FieldsSound lane path.name ∧
        (valuesOf members).DataSound digest content ∧ (valuesOf members).Overflows := by
  unfold validateSealedFile validateSealedSegment
  simp only [bind_eq_panic (okOr_ne_panic _ _), bind_eq_panic (checkFields_ne_panic _ _ _ _),
    bind_eq_panic (checkData_ne_panic _ _), okOr_eq_ok, Option.bind_eq_some_iff, decode_eq,
    checkFields_eq_ok, checkData_eq_ok]
  constructor
  · rintro ⟨sealPath, hsealPath, s, ⟨t, hparse, members, hmembers, hs⟩, _, ⟨hversion, hfields⟩, _,
      hdata, hbounds⟩
    obtain ⟨hvalues, hlines, hlast, hreads⟩ := ofMembers_eq_some hs
    obtain ⟨hmode, hoverflows⟩ := (checkBounds_cases mode sealPath hlines hlast).2.mp hbounds
    rw [hvalues] at hfields hdata hoverflows
    exact ⟨hmode, sealPathFor_isSome.mp (by simp [hsealPath]), t, members, hparse, hmembers,
      hreads hversion, hfields, hdata, hoverflows⟩
  · rintro ⟨hmode, hsuffix, t, members, hparse, hmembers, hreads, hfields, hdata, hoverflows⟩
    obtain ⟨sealPath, hsealPath⟩ := Option.isSome_iff_exists.mp (sealPathFor_isSome.mpr hsuffix)
    obtain ⟨s, hs, hversion⟩ := ofMembers_of_serdeReads hreads
    obtain ⟨hvalues, hlines, hlast, _⟩ := ofMembers_eq_some hs
    rw [← hvalues] at hfields hdata hoverflows
    exact ⟨sealPath, hsealPath, s, ⟨t, hparse, members, hmembers, hs⟩, (), ⟨hversion, hfields⟩, (),
      hdata, (checkBounds_cases mode sealPath hlines hlast).2.mpr ⟨hmode, hoverflows⟩⟩

end Accept

/-! ## Who reads what -/

/-- What only the archiver reads, of documents it reads: objects with a name that is no text, with
    a constant that is no JSON in a value nothing is read of, with a field given twice, or with a
    value only Python takes. -/
def PythonOnly (t : JsonText) : Prop :=
  ∃ ms, t = .object ms ∧ ((∃ m ∈ ms, Rune.text? m.1 = none) ∨
    (∃ m ∈ ms, ∃ name, Rune.text? m.1 = some name ∧ name ∉ SegmentSeal.fieldNames ∧
      Serde.ignorable m.2 = false) ∨
    (∃ f ∈ fieldKinds, 1 < (occurrences (named ms) f.1).length) ∨
    ∃ f ∈ fieldKinds, ∃ v, given (named ms) f.1 = some v ∧ f.2.Lenient v)

/-- What only the derived reader reads, of documents it reads: arrays, documents beyond the limits
    of Python, and objects in which a bound is left out. -/
def SerdeOnly (limits : Limits) (t : JsonText) : Prop :=
  (∃ items, t = .array items) ∨ within limits.digits limits.depth t = false ∨
    ∃ ms, t = .object ms ∧ ∃ f ∈ fieldKinds, f.2 = .bound ∧ occurrences (named ms) f.1 = []

section Readers

variable {ms : List (List Rune × JsonText)} {members : List (String × JsonText)} {t : JsonText}
  {limits : Limits}

theorem serdeMembers_object : serdeMembers (.object ms) = some members ↔ members = named ms ∧
    (∀ m ∈ ms, Rune.text? m.1 ≠ none) ∧
    ∀ m ∈ ms, ∀ name, Rune.text? m.1 = some name → name ∉ SegmentSeal.fieldNames →
      Serde.ignorable m.2 = true :=
  struct_object

/-- Of the objects the archiver reads, the others read all but those only it reads. -/
theorem serdeReads_iff_of_pythonReads (h : PythonReads (named ms)) :
    (∃ members, serdeMembers (.object ms) = some members ∧ SerdeReads members) ↔
      ¬PythonOnly (.object ms) := by
  constructor
  · rintro ⟨members, hmembers, hserde⟩ ⟨_, heq, honly⟩
    cases heq
    obtain ⟨rfl, htexts, hignorable⟩ := serdeMembers_object.mp hmembers
    rcases honly with ⟨m, hm, htext⟩ | ⟨m, hm, name, hname, hunknown, hfalse⟩ |
      ⟨f, hf, hlength⟩ | ⟨f, hf, v, hv, hlenient⟩
    · exact htexts m hm htext
    · rw [hignorable m hm name hname hunknown] at hfalse
      cases hfalse
    · rcases hserde f hf with ⟨hnil, _⟩ | ⟨v, hv, _⟩
      · simp [hnil] at hlength
      · simp [hv] at hlength
    · rcases hserde f hf with ⟨hnil, _⟩ | ⟨w, hw, hread⟩
      · simp [given, hnil] at hv
      · obtain rfl : w = v := Option.some.inj ((given_of_occurrences hw).symm.trans hv)
        exact (FieldKind.serde_iff_not_lenient (FieldKind.python_of_serde hread)).mp hread hlenient
  · intro hnot
    refine ⟨named ms, serdeMembers_object.mpr ⟨rfl, fun m hm htext => ?_, ?_⟩, fun f hf => ?_⟩
    · exact hnot ⟨ms, rfl, .inl ⟨m, hm, htext⟩⟩
    · intro m hm name hname hunknown
      by_contra hfalse
      rw [Bool.not_eq_true] at hfalse
      exact hnot ⟨ms, rfl, .inr (.inl ⟨m, hm, name, hname, hunknown, hfalse⟩)⟩
    · obtain ⟨v, hv, hread⟩ := h f hf
      have honce : occurrences (named ms) f.1 = [v] := by
        have hlength : ¬1 < (occurrences (named ms) f.1).length := fun hlength =>
          hnot ⟨ms, rfl, .inr (.inr (.inl ⟨f, hf, hlength⟩))⟩
        unfold given at hv
        generalize occurrences (named ms) f.1 = vs at hlength hv
        cases vs with
        | nil => cases hv
        | cons w rest =>
          have hrest : rest = [] := List.length_eq_zero_iff.mp (by simpa using hlength)
          subst hrest
          simpa using hv
      refine .inr ⟨v, honce, (FieldKind.serde_iff_not_lenient hread).mpr fun hlenient => ?_⟩
      exact hnot ⟨ms, rfl, .inr (.inr (.inr ⟨f, hf, v, hv, hlenient⟩))⟩

/-- Of the documents the others read, the archiver reads all but those only they read. -/
theorem pythonReads_iff_of_serdeReads (hmembers : serdeMembers t = some members)
    (h : SerdeReads members) :
    (∃ ms, t = .object ms ∧ within limits.digits limits.depth t = true ∧ PythonReads (named ms)) ↔
      ¬SerdeOnly limits t := by
  constructor
  · rintro ⟨ms, rfl, hwithin, hpython⟩ honly
    rcases honly with ⟨items, heq⟩ | hbeyond | ⟨_, heq, f, hf, _, hnil⟩
    · cases heq
    · rw [hwithin] at hbeyond
      cases hbeyond
    · cases heq
      obtain ⟨v, hv, _⟩ := hpython f hf
      simp [given, hnil] at hv
  · intro hnot
    have hobject : ∃ ms, t = .object ms := by
      cases t with
      | object ms => exact ⟨ms, rfl⟩
      | array items => exact absurd (.inl ⟨items, rfl⟩) hnot
      | _ => cases hmembers
    obtain ⟨ms, rfl⟩ := hobject
    obtain ⟨rfl, _⟩ := serdeMembers_object.mp hmembers
    refine ⟨ms, rfl, ?_, fun f hf => ?_⟩
    · by_contra hbeyond
      rw [Bool.not_eq_true] at hbeyond
      exact hnot (.inr (.inl hbeyond))
    · rcases h f hf with ⟨hnil, hbound⟩ | ⟨v, hv, hread⟩
      · exact absurd (.inr (.inr ⟨ms, rfl, f, hf, hbound, hnil⟩)) hnot
      · exact ⟨v, given_of_occurrences hv, FieldKind.python_of_serde hread⟩

end Readers

/-! ## Agreement -/

/-- Both accept or neither does, and no arithmetic fails. -/
def Agree (digest : List UInt8 → String) (limits : Limits) (mode : Arithmetic) (lane : String)
    (path : DataPath) (encoded : List Char) (content : List UInt8) : Prop :=
  (validateSegment digest limits lane path encoded content = .ok () ↔
    validateSealedFile digest mode lane path.name encoded content = .ok ()) ∧
  validateSealedFile digest mode lane path.name encoded content ≠ .error .panic

/-- The document is none of a sound seal only one of them reads, nor of one whose records a `u64`
    cannot count. -/
structure Settled (digest : List UInt8 → String) (limits : Limits) (mode : Arithmetic)
    (lane : String) (path : DataPath) (content : List UInt8) (t : JsonText) : Prop where
  python : ∀ ms, t = .object ms → within limits.digits limits.depth t = true →
    PythonReads (named ms) → (valuesOf (named ms)).Sound digest lane path.name content →
    ¬PythonOnly t
  serde : ∀ members, serdeMembers t = some members → SerdeReads members →
    (valuesOf members).Sound digest lane path.name content → ¬SerdeOnly limits t
  counts : mode = .checked → ∀ members, serdeMembers t = some members → SerdeReads members →
    (valuesOf members).FieldsSound lane path.name → (valuesOf members).DataSound digest content →
    ¬(valuesOf members).Overflows

/-- For a segment whose path agrees with its seal the validators agree exactly when the document is
    settled. -/
theorem validators_agree_iff {digest : List UInt8 → String} {limits : Limits} {mode : Arithmetic}
    {lane : String} {path : DataPath} {encoded : List Char} {content : List UInt8}
    (hdigest : ∀ bytes, IsDigest (digest bytes))
    (hpath : ∀ ms, parse encoded = some (.object ms) → Agrees path (named ms)) :
    Agree digest limits mode lane path encoded content ↔
      ((beforeSuffix dataSuffix path.name).isSome → ∀ t, parse encoded = some t →
        Settled digest limits mode lane path content t) := by
  unfold Agree
  rw [validateSegment_eq_ok hdigest hpath, validateSealedFile_eq_ok, Ne, validateSealedFile_eq_panic]
  constructor
  · rintro ⟨hiff, hnopanic⟩ hsuffix t hparse
    constructor
    case python =>
      rintro ms rfl hwithin hreads hsound
      obtain ⟨_, t, members, hparse', hmembers, hserde, _⟩ :=
        hiff.mp ⟨hsuffix, ms, hparse, hwithin, hreads, hsound⟩
      obtain rfl := Option.some.inj (hparse.symm.trans hparse')
      exact (serdeReads_iff_of_pythonReads hreads).mp ⟨members, hmembers, hserde⟩
    case serde =>
      intro members hmembers hreads hsound
      obtain ⟨_, ms, hparse', hwithin, hpython, _⟩ :=
        hiff.mpr ⟨hsuffix, t, members, hparse, hmembers, hreads, hsound⟩
      obtain rfl := Option.some.inj (hparse.symm.trans hparse')
      exact (pythonReads_iff_of_serdeReads hmembers hreads).mp ⟨ms, rfl, hwithin, hpython⟩
    case counts =>
      intro hmode members hmembers hreads hfields hdata hoverflows
      exact hnopanic ⟨hmode, hsuffix, t, members, hparse, hmembers, hreads, hfields, hdata, hoverflows⟩
  · intro hsettled
    refine ⟨⟨?_, ?_⟩, ?_⟩
    · rintro ⟨hsuffix, ms, hparse, hwithin, hreads, hsound⟩
      have honly := (hsettled hsuffix _ hparse).python ms rfl hwithin hreads hsound
      obtain ⟨members, hmembers, hserde⟩ := (serdeReads_iff_of_pythonReads hreads).mpr honly
      obtain ⟨rfl, _⟩ := serdeMembers_object.mp hmembers
      exact ⟨hsuffix, _, _, hparse, hmembers, hserde, hsound⟩
    · rintro ⟨hsuffix, t, members, hparse, hmembers, hreads, hsound⟩
      have honly := (hsettled hsuffix t hparse).serde members hmembers hreads hsound
      obtain ⟨ms, rfl, hwithin, hpython⟩ := (pythonReads_iff_of_serdeReads hmembers hreads).mpr honly
      obtain ⟨rfl, _⟩ := serdeMembers_object.mp hmembers
      exact ⟨hsuffix, ms, hparse, hwithin, hpython, hsound⟩
    · rintro ⟨hmode, hsuffix, t, members, hparse, hmembers, hreads, hfields, hdata, hoverflows⟩
      exact (hsettled hsuffix t hparse).counts hmode members hmembers hreads hfields hdata hoverflows

/-! ## A seal without its bounds -/

def quote (s : String) : List Char := '"' :: (s.toList ++ ['"'])

/-- The text of an object. -/
def objectText (members : List (String × List Char)) : List Char :=
  '\x7b' :: ((members.map fun m => quote m.1 ++ ':' :: m.2).intersperse [',']).flatten ++ ['\x7d']

/-- The digest of no bytes. -/
def emptyDigest : String := "e3b0c44298fc1c149afbf4c8996fb92427ae41e4649b934ca495991b7852b855"

theorem emptyDigest_isDigest : IsDigest emptyDigest := by decide +kernel

def quietPath : DataPath := ⟨"lane=l", "date=2024-01-01", "20240101T000000000000-000-ab.ndjson"⟩

/-- The seal of an empty segment, its four bounds left out. -/
def boundlessSeal : List Char :=
  objectText [("seal_version", ['1']), ("lane_id", quote "l"),
    ("window_start_ns", "1704067200000000000".toList),
    ("window_end_ns", "1704069000000000000".toList), ("data_file", quote quietPath.name),
    ("byte_length", ['0']), ("line_count", ['0']), ("sha256", quote emptyDigest),
    ("visible_non_decreasing", "true".toList), ("delivery_index_dense", "true".toList),
    ("segment_id", quote "ab"), ("segment_index", ['0']), ("seal_reason", quote "rotation"),
    ("ordering_status", quote "ok"), ("epochs", ['[', ']']), ("repaired_bytes", ['0']),
    ("created_ns", ['0']), ("writer_version", ['1'])]

/-- What places a seal. -/
def placed : JsonText → Option (Nat × Nat × String × String)
  | .object ms => do
    let start ← natAt (named ms) "window_start_ns"
    let index ← natAt (named ms) "segment_index"
    let segmentId ← textAt (named ms) "segment_id"
    let laneId ← textAt (named ms) "lane_id"
    some (start, index, segmentId, laneId)
  | _ => none

theorem boundlessSeal_agrees (ms : List (List Rune × JsonText))
    (h : parse boundlessSeal = some (.object ms)) : Agrees quietPath (named ms) := by
  have hplaced : (parse boundlessSeal).bind placed = some (1704067200000000000, 0, "ab", "l") := by
    decide +kernel
  intro start index segmentId laneId hstart hindex hid hlane
  rw [h, Option.bind_some] at hplaced
  simp only [placed, hstart, hindex, hid, hlane, Option.bind_eq_bind, Option.bind_some,
    Option.some.injEq, Prod.mk.injEq] at hplaced
  obtain ⟨rfl, rfl, rfl, rfl⟩ := hplaced
  exact ⟨by decide +kernel, by decide +kernel, by decide +kernel⟩

theorem boundlessSeal_not_agree :
    ¬Agree (fun _ => emptyDigest) ⟨4300, 1000⟩ .checked "l" quietPath boundlessSeal [] := by
  have hpython : (validateSegment (fun _ => emptyDigest) ⟨4300, 1000⟩ "l" quietPath boundlessSeal
      []).toOption = none := by decide +kernel
  have hserde : (validateSealedFile (fun _ => emptyDigest) .checked "l" quietPath.name boundlessSeal
      []).toOption = some () := by decide +kernel
  rintro ⟨hiff, _⟩
  have hok : validateSealedFile (fun _ => emptyDigest) .checked "l" quietPath.name boundlessSeal [] =
      .ok () := by
    cases h : validateSealedFile (fun _ => emptyDigest) .checked "l" quietPath.name boundlessSeal [] with
    | ok u => rfl
    | error e =>
      rw [h] at hserde
      cases hserde
  rw [hiff.mpr hok] at hpython
  cases hpython

/-- The ingester and the finalizer take the seal, and the archiver does not. -/
theorem validators_disagree :
    (∀ ms, parse boundlessSeal = some (.object ms) → Agrees quietPath (named ms)) ∧
      ¬Agree (fun _ => emptyDigest) ⟨4300, 1000⟩ .checked "l" quietPath boundlessSeal [] :=
  ⟨boundlessSeal_agrees, boundlessSeal_not_agree⟩

/-- So it is not settled. -/
theorem validators_agree_iff_boundless : ¬((beforeSuffix dataSuffix quietPath.name).isSome →
    ∀ t, parse boundlessSeal = some t →
      Settled (fun _ => emptyDigest) ⟨4300, 1000⟩ .checked "l" quietPath [] t) := by
  intro h
  have hagree : Agree (fun _ => emptyDigest) ⟨4300, 1000⟩ .checked "l" quietPath boundlessSeal [] :=
    (validators_agree_iff (fun _ => emptyDigest_isDigest) boundlessSeal_agrees).mpr h
  exact boundlessSeal_not_agree hagree

end PredictionIndexer.Segments
