import PredictionIndexer.Archive.Seal
import PredictionIndexer.Spec.SegmentClaims

/-!
# A writer's seal passes the validator

What the validator asks of a seal follows from what the accumulator has come to, for records that
lie in the window and of which the first has the least delivery index.

## Key results

- `validateSealDocument_describe`
-/

namespace PredictionIndexer.Splices

open Archive

/-- A digest as `hexdigest` writes it. -/
def IsDigest (text : String) : Prop := text.length = 64 ∧ ∀ c ∈ text.toList, isHexDigit c = true

instance (text : String) : Decidable (IsDigest text) :=
  @instDecidableAnd _ _ inferInstance
    (List.decidableBAll (fun c => isHexDigit c = true) text.toList)

/-- No name of a required field. -/
def Plain (extra : List (String × Json)) : Prop :=
  ∀ field ∈ requiredFields, Json.field? extra field = none

theorem ok_bind {α β : Type} {x : Except String α} {f : α → Except String β} {a : α}
    {r : Except String β} (hx : x = .ok a) (hf : f a = r) : (x >>= f) = r := by
  rw [hx]
  exact hf

theorem get_append {extra fields : List (String × Json)} {field : String}
    (h : Json.field? extra field = none) :
    Archive.get (extra ++ fields) field = Archive.get fields field := by
  unfold Json.field? at h
  simp [Archive.get, Json.field?, List.lookup_append, h]

theorem integer_of_get {document : List (String × Json)} {field : String} {n : Nat}
    (h : Archive.get document field = .number n) : integer document field = .ok n := by
  simp [integer, h]

theorem optionalInteger_of_get {document : List (String × Json)} {field : String} {n : Option Nat}
    (h : Archive.get document field = .ofOption (fun (n : Nat) => .number n) n) :
    optionalInteger document field = .ok n := by
  cases n <;> simp [optionalInteger, h, Json.ofOption]

theorem token_of_get {document : List (String × Json)} {field text : String}
    (h : Archive.get document field = .string text) (hne : text ≠ "") :
    token document field = .ok () := by
  simp [token, h, hne, Archive.refuse]

theorem hexDigest_of_get {document : List (String × Json)} {field text : String}
    (h : Archive.get document field = .string text) (hdigest : IsDigest text) :
    hexDigest document field = .ok text := by
  obtain ⟨hlength, hhex⟩ := hdigest
  have hall : (text.toList.any fun c => !isHexDigit c) = false := by
    rw [List.any_eq_false]
    intro c hc
    simp [hhex c hc]
  simp [hexDigest, h, hlength, hall]

theorem epochList_of_get {document : List (String × Json)} {epochs : List String}
    (h : Archive.get document "epochs" = .array (epochs.map .string)) :
    epochList document = .ok (epochs.map .string) := by
  have hall : (epochs.map Json.string).all isText = true := by simp [isText]
  rw [epochList, h]
  dsimp only
  rw [if_pos hall]

/-- Of the epochs only whether there are any counts. -/
theorem validateBounds_map {α β : Type} (f : α → β) (start end_ byteLength lineCount : Nat)
    (epochs : List α) (dense : Bool) (firstDelivery lastDelivery firstVisible lastVisible : Option Nat) :
    validateBounds start end_ byteLength lineCount (epochs.map f) dense firstDelivery lastDelivery
      firstVisible lastVisible =
    validateBounds start end_ byteLength lineCount epochs dense firstDelivery lastDelivery
      firstVisible lastVisible := by
  have hempty : (epochs.map f).isEmpty = epochs.isEmpty := List.isEmpty_map
  simp only [validateBounds, hempty]

/-- In a dense run the last index is as far from the first as there are records. -/
theorem last_of_dense {indexes : List Nat} {first last : Nat}
    (hchain : List.IsChain (fun a b => b = a + 1) indexes) (hfirst : indexes.head? = some first)
    (hlast : indexes.getLast? = some last) : last + 1 = first + indexes.length := by
  induction indexes generalizing first with
  | nil => cases hfirst
  | cons a indexes ih =>
    cases hfirst
    cases indexes with
    | nil =>
      cases hlast
      rfl
    | cons b indexes =>
      rw [List.isChain_cons_cons] at hchain
      rw [List.getLast?_cons_cons] at hlast
      have := ih hchain.2 rfl hlast
      rw [List.length_cons]
      omega

/-- The bounds of what a writer has taken in. -/
theorem validateBounds_observed {p : Placement} {previous : Option Nat} {records : List Record}
    (hwindow : ∀ r ∈ records, p.startNs ≤ r.visibleNs ∧ r.visibleNs < p.endNs)
    (hleast : ∀ first ∈ records.head?, ∀ r ∈ records, first.deliveryIndex ≤ r.deliveryIndex) :
    let a := (observed previous records).accumulator
    validateBounds p.startNs p.endNs a.byteLength a.lineCount a.epochs a.deliveryIndexDense
      a.firstDeliveryIndex a.lastDeliveryIndex a.firstVisibleNs a.lastVisibleNs = .ok () := by
  intro a
  by_cases hempty : records = []
  · subst hempty
    rfl
  · obtain ⟨first, hfirst⟩ := Option.ne_none_iff_exists'.mp (mt List.head?_eq_none_iff.mp hempty)
    obtain ⟨last, hlast⟩ := Option.ne_none_iff_exists'.mp (mt List.getLast?_eq_none_iff.mp hempty)
    have hfirst' := List.mem_of_head? hfirst
    have hlast' := List.mem_of_getLast? hlast
    have hcount : a.lineCount ≠ 0 := by
      show (observed previous records).accumulator.lineCount ≠ 0
      rw [lineCount_observed]
      simpa using hempty
    have hepochs : a.epochs.isEmpty = false := by
      rw [List.isEmpty_eq_false_iff]
      exact mt (epochs_observed_eq_nil previous records).mp hempty
    have hleast' := hleast first hfirst last hlast'
    have hvisible := hwindow first hfirst'
    have hvisible' := hwindow last hlast'
    have hdense : (a.deliveryIndexDense &&
        decide (last.deliveryIndex - first.deliveryIndex + 1 ≠ a.lineCount)) = false := by
      cases hflag : a.deliveryIndexDense with
      | false => rfl
      | true =>
        have hchain := (deliveryIndexDense_observed previous records).mp hflag
        have hcount' : a.lineCount = records.length := lineCount_observed previous records
        have hlength : last.deliveryIndex + 1 = first.deliveryIndex + records.length := by
          rw [← List.length_map (·.deliveryIndex)]
          exact last_of_dense hchain (by rw [List.head?_map, hfirst]; rfl)
            (by rw [List.getLast?_map, hlast]; rfl)
        rw [hcount', Bool.true_and, decide_eq_false_iff_not, not_not]
        omega
    have h₁ : a.firstDeliveryIndex = some first.deliveryIndex := by
      rw [firstDeliveryIndex_observed, List.head?_map, hfirst]
      rfl
    have h₂ : a.lastDeliveryIndex = some last.deliveryIndex := by
      rw [lastDeliveryIndex_observed, List.getLast?_map, hlast]
      rfl
    have h₃ : a.firstVisibleNs = some first.visibleNs := by
      rw [firstVisibleNs_observed, List.head?_map, hfirst]
      rfl
    have h₄ : a.lastVisibleNs = some last.visibleNs := by
      rw [lastVisibleNs_observed, List.getLast?_map, hlast]
      rfl
    have hinverted : decide (first.deliveryIndex > last.deliveryIndex) = false := by
      rw [decide_eq_false_iff_not]
      omega
    have hspan : (decide (first.visibleNs < p.startNs) || decide (last.visibleNs ≥ p.endNs)) = false := by
      rw [Bool.or_eq_false_iff, decide_eq_false_iff_not, decide_eq_false_iff_not]
      omega
    unfold validateBounds
    rw [if_neg hcount, h₁, h₂, h₃, h₄]
    dsimp only
    rw [hepochs, hinverted, hdense, hspan]
    rfl

/-- What the validator asks of a seal, in terms of its fields. -/
structure Acceptable (s : Seal) (laneId : String) (path : DataPath) (opens closes n : Nat) :
    Prop where
  version : s.sealVersion = 1
  lane : s.laneId = laneId
  file : s.dataFile = path.name
  start : s.windowStartNs = opens
  end_ : s.windowEndNs = closes
  precedes : opens < closes
  index : s.segmentIndex = n
  writer : s.writerVersion ≠ 0
  digest : IsDigest s.sha256
  segment : s.segmentId ≠ ""
  reason : s.sealReason ≠ ""
  status : s.orderingStatus = if s.visibleNonDecreasing then "ok" else "visible_clock_regression"
  bounds : validateBounds opens closes s.byteLength s.lineCount s.epochs s.deliveryIndexDense
    s.firstDeliveryIndex s.lastDeliveryIndex s.firstVisibleNs s.lastVisibleNs = .ok ()
  name : parseSegmentName path.name = some ⟨opens, n, s.segmentId⟩
  date : path.dateDirectory = dateDirectory opens
  directory : path.laneDirectory = "lane=" ++ s.laneId

theorem refuse_of {condition : Bool} {detail : String} (h : condition = false) :
    Archive.refuse condition detail = .ok () := by
  rw [h]
  rfl

section Validate

variable {s : Seal} {lane : String} {path : DataPath} {opens closes n : Nat}

/-- A field of the document is that field of the seal. -/
theorem get_asRecord (value : Json) (hextra : Plain s.extra) {field : String}
    (hfield : field ∈ requiredFields) (hvalue : Archive.get s.fields field = value) :
    Archive.get (s.extra ++ s.fields) field = value :=
  (get_append (hextra field hfield)).trans hvalue

theorem missing_asRecord (s : Seal) : (requiredFields.filter fun field =>
    (Json.field? (s.extra ++ s.fields) field).isNone) = [] := by
  rw [List.filter_eq_nil_iff]
  intro field hfield
  have hnames : requiredFields = s.fields.map Prod.fst := rfl
  rw [hnames] at hfield
  obtain ⟨entry, hentry, rfl⟩ := List.mem_map.mp hfield
  unfold Json.field?
  rw [List.lookup_append]
  cases s.extra.lookup entry.1 with
  | some value => simp
  | none =>
    simp only [Option.none_or, Bool.not_eq_true, Option.isNone_eq_false_iff]
    rw [List.lookup_isSome_iff]
    exact ⟨entry, hentry, beq_self_eq_true _⟩

theorem validatePathCoherence_of (hextra : Plain s.extra) (h : Acceptable s lane path opens closes n) :
    validatePathCoherence (s.extra ++ s.fields) path opens n = .ok () := by
  unfold validatePathCoherence
  rw [h.name]
  dsimp only
  refine ok_bind (refuse_of (by simp)) ?_
  refine ok_bind (refuse_of (by simp)) ?_
  refine ok_bind (refuse_of ?_) ?_
  · rw [get_asRecord (.string s.segmentId) hextra (by decide) rfl]
    simp [equalsText]
  refine ok_bind (refuse_of (by simp [h.date])) ?_
  apply refuse_of
  rw [get_asRecord (.string s.laneId) hextra (by decide) rfl]
  simp [text?, h.directory]

/-- Every check in turn. -/
theorem validateSealDocument_of (hextra : Plain s.extra)
    (h : Acceptable s lane path opens closes n) :
    validateSealDocument s.asRecord lane path = .ok () := by
  unfold validateSealDocument Seal.asRecord
  dsimp only
  refine ok_bind (refuse_of (by rw [missing_asRecord]; rfl)) ?_
  refine ok_bind (refuse_of ?_) ?_
  · rw [get_asRecord (.number s.sealVersion) hextra (by decide) rfl, h.version]
    rfl
  refine ok_bind (refuse_of ?_) ?_
  · rw [get_asRecord (.string s.laneId) hextra (by decide) rfl]
    simp [equalsText, h.lane]
  refine ok_bind (refuse_of ?_) ?_
  · rw [get_asRecord (.string s.dataFile) hextra (by decide) rfl]
    simp [equalsText, h.file]
  refine ok_bind (integer_of_get (get_asRecord _ hextra (by decide) (congrArg Json.number h.start))) ?_
  refine ok_bind (integer_of_get (get_asRecord _ hextra (by decide) (congrArg Json.number h.end_))) ?_
  refine ok_bind (refuse_of (by simp [h.precedes])) ?_
  refine ok_bind (integer_of_get (get_asRecord _ hextra (by decide) rfl)) ?_
  refine ok_bind (integer_of_get (get_asRecord _ hextra (by decide) rfl)) ?_
  refine ok_bind (integer_of_get (get_asRecord _ hextra (by decide) (congrArg Json.number h.index))) ?_
  refine ok_bind (integer_of_get (get_asRecord _ hextra (by decide) rfl)) ?_
  refine ok_bind (integer_of_get (get_asRecord _ hextra (by decide) rfl)) ?_
  refine ok_bind (integer_of_get (get_asRecord _ hextra (by decide) rfl)) ?_
  refine ok_bind (refuse_of (by simp [h.writer])) ?_
  refine ok_bind (hexDigest_of_get (get_asRecord _ hextra (by decide) rfl) h.digest) ?_
  refine ok_bind (token_of_get (get_asRecord _ hextra (by decide) rfl) h.segment) ?_
  refine ok_bind (token_of_get (get_asRecord _ hextra (by decide) rfl) h.reason) ?_
  refine ok_bind (epochList_of_get (get_asRecord _ hextra (by decide) rfl)) ?_
  refine ok_bind (a := (s.visibleNonDecreasing, s.deliveryIndexDense)) ?_ ?_
  · unfold flags
    rw [get_asRecord (.bool s.visibleNonDecreasing) hextra (by decide) rfl,
      get_asRecord (.bool s.deliveryIndexDense) hextra (by decide) rfl]
  refine ok_bind (refuse_of ?_) ?_
  · rw [get_asRecord (.string s.orderingStatus) hextra (by decide) rfl]
    simp [equalsText, h.status]
  refine ok_bind (optionalInteger_of_get (get_asRecord _ hextra (by decide) rfl)) ?_
  refine ok_bind (optionalInteger_of_get (get_asRecord _ hextra (by decide) rfl)) ?_
  refine ok_bind (optionalInteger_of_get (get_asRecord _ hextra (by decide) rfl)) ?_
  refine ok_bind (optionalInteger_of_get (get_asRecord _ hextra (by decide) rfl)) ?_
  refine ok_bind ((validateBounds_map ..).trans h.bounds) ?_
  exact validatePathCoherence_of hextra h

end Validate

/-- The seal of a writer that has taken in records of its window. -/
theorem validateSealDocument_describe {sha256 : List UInt8 → String} {p : Placement}
    {previous : Option Nat} {records : List Record} {reason : String}
    {extra : List (String × Json)} (createdNs : Nat) (hsha256 : ∀ bytes, IsDigest (sha256 bytes))
    (hperiod : 0 < p.segmentSeconds)
    (hname : parseSegmentName p.dataName = some ⟨p.startNs, p.segmentIndex, p.segmentId⟩)
    (hid : IsHex p.segmentId) (hreason : reason ≠ "") (hextra : Plain extra)
    (hwindow : ∀ r ∈ records, p.startNs ≤ r.visibleNs ∧ r.visibleNs < p.endNs)
    (hleast : ∀ first ∈ records.head?, ∀ r ∈ records, first.deliveryIndex ≤ r.deliveryIndex) :
    validateSealDocument
      ((observed previous records).describe sha256 p reason extra createdNs).asRecord p.lane
      ⟨"lane=" ++ p.lane, dateDirectory p.startNs, p.dataName⟩ = .ok () := by
  have hwindow' : p.startNs < p.endNs := by
    have := Nat.mul_pos hperiod (show 0 < nanoseconds by decide)
    unfold Placement.endNs
    omega
  have hacceptable : Acceptable ((observed previous records).describe sha256 p reason extra createdNs)
      p.lane ⟨"lane=" ++ p.lane, dateDirectory p.startNs, p.dataName⟩ p.startNs p.endNs
      p.segmentIndex :=
    { version := rfl
      lane := rfl
      file := rfl
      start := rfl
      end_ := rfl
      precedes := hwindow'
      index := rfl
      writer := Nat.one_ne_zero
      digest := hsha256 _
      segment := hid.1
      reason := hreason
      status := orderingStatus_observed previous records
      bounds := validateBounds_observed hwindow hleast
      name := hname
      date := rfl
      directory := rfl }
  exact validateSealDocument_of hextra hacceptable

end PredictionIndexer.Splices
