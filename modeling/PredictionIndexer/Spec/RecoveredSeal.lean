import PredictionIndexer.Spec.SegmentClaims
import PredictionIndexer.Splices.Recovery

/-!
# A recovered segment is sealed as its writer would have sealed it

A crash leaves any prefix of the bytes a writer wrote, under either name. Recovery keeps the whole
lines of it. Its seal makes the writer's claims about them when the writer's windows have the
default length, which is the only one recovery knows, and when the boundary the writer was seeded
with shows in no flag, since recovery has no boundary.

## Key results

- `resumeOrphan_recovers_iff`: exactly then
-/

namespace PredictionIndexer.Splices

/-- What a seal claims about its segment: all of it but why and when it was sealed, how much of a
    torn line went, and the writer's metrics. -/
def Seal.claims (sidecar : Seal) : Seal :=
  { sidecar with sealReason := "", repairedBytes := 0, createdNs := 0, extra := [] }

/-- The bytes of which a crash leaves a prefix. -/
def Orphan.ofPrefix (p : Placement) (renamed : Bool) (records : List Record) (n : Nat) : Orphan where
  name := if renamed then p.dataName else p.openName
  content := (records.flatMap (·.line)).take n

/-- The records whose lines are whole in some bytes. -/
def wholeRecords (records : List Record) (content : List UInt8) : List Record :=
  records.take (content.count 10)

/-- The orphan is recovered as its writer would have sealed it: exactly the whole lines, under the
    committed name, with the writer's claims. -/
def Recovers (loads : List UInt8 → Option Envelope) (sha256 : List UInt8 → String) (p : Placement)
    (previousVisibleNs : Option Nat) (records : List Record) (o : Orphan) (createdNs : Nat) : Prop :=
  ∃ r, resumeOrphan loads sha256 o p.lane createdNs = .ok r ∧ r.dataName = p.dataName ∧
    r.content = (wholeRecords records o.content).flatMap (·.line) ∧
    r.sidecar.claims = ((observed previousVisibleNs (wholeRecords records o.content)).describe sha256
      p "" [] 0).claims

/-- The boundary is not behind the first receive time, or the times step back without it. -/
def BoundaryUnseen (previousVisibleNs : Option Nat) (times : List Nat) : Prop :=
  times.IsChain (· ≤ ·) → ∀ boundary ∈ previousVisibleNs, ∀ first ∈ times.head?, boundary ≤ first

/-! ## The whole lines -/

theorem lf_notMem_take {r : Record} {n : Nat} (h : n < r.line.length) : (10 : UInt8) ∉ r.line.take n := by
  intro hmem
  obtain ⟨before, hbefore⟩ := List.getLast?_eq_some_iff.mp r.line_last
  have hcount := r.line_count
  rw [hbefore] at hcount h hmem
  rw [List.length_append, List.length_singleton] at h
  rw [List.take_append_of_le_length (by omega)] at hmem
  have hpos := List.count_pos_iff.mpr (List.mem_of_mem_take hmem)
  rw [List.count_append, List.count_singleton_self] at hcount
  omega

/-- A prefix of whole lines is some of the lines and a part of the next. -/
theorem take_flatMap_line (records : List Record) (n : Nat) :
    ∃ kept torn, kept <+: records ∧ (records.flatMap (·.line)).take n = kept.flatMap (·.line) ++ torn ∧
      (10 : UInt8) ∉ torn := by
  induction records generalizing n with
  | nil => exact ⟨[], [], List.nil_prefix, by simp, by simp⟩
  | cons r records ih =>
    rw [List.flatMap_cons]
    by_cases hn : n < r.line.length
    · refine ⟨[], r.line.take n, List.nil_prefix, ?_, lf_notMem_take hn⟩
      rw [List.take_append_of_le_length (by omega)]
      rfl
    · obtain ⟨kept, torn, hbegins, hcontent, htorn⟩ := ih (n - r.line.length)
      refine ⟨r :: kept, torn, (List.prefix_cons_inj r).mpr hbegins, ?_, htorn⟩
      rw [List.take_append, List.take_of_length_le (by omega), hcontent, List.flatMap_cons,
        List.append_assoc]

theorem count_flatMap_line (records : List Record) :
    (records.flatMap (·.line)).count 10 = records.length := by
  induction records with
  | nil => rfl
  | cons r records ih =>
    rw [List.flatMap_cons, List.count_append, r.line_count, ih, List.length_cons, Nat.add_comm]

theorem wholeRecords_eq {records kept : List Record} {torn : List UInt8} (hbegins : kept <+: records)
    (htorn : (10 : UInt8) ∉ torn) :
    wholeRecords records (kept.flatMap (·.line) ++ torn) = kept := by
  rw [wholeRecords, List.count_append, count_flatMap_line, List.count_eq_zero.mpr htorn]
  exact (List.prefix_iff_eq_take.mp hbegins).symm

/-- Whole lines end in a line feed. -/
theorem getLast?_flatMap_line {records : List Record} (h : records ≠ []) :
    (records.flatMap (·.line)).getLast? = some 10 := by
  rw [← List.dropLast_append_getLast h, List.flatMap_append, List.flatMap_singleton,
    List.getLast?_append, Record.line_last]
  rfl

theorem takeWhile_reverse_torn {kept : List Record} {torn : List UInt8} (htorn : (10 : UInt8) ∉ torn) :
    (kept.flatMap (·.line) ++ torn).reverse.takeWhile (· ≠ 10) = torn.reverse := by
  rw [List.reverse_append, List.takeWhile_append_of_pos]
  · -- the lines before it end in a line feed
    have hstop : (kept.flatMap (·.line)).reverse.takeWhile (· ≠ 10) = [] := by
      by_cases hkept : kept = []
      · rw [hkept]
        rfl
      · obtain ⟨front, hfront⟩ := List.getLast?_eq_some_iff.mp (getLast?_flatMap_line hkept)
        rw [hfront]
        simp
    rw [hstop, List.append_nil]
  · intro byte hbyte
    rw [decide_eq_true_eq]
    rintro rfl
    exact htorn (List.mem_reverse.mp hbyte)

/-- The repair cuts off what is behind the whole lines. -/
theorem repairTornTail_eq {o : Orphan} {kept : List Record} {torn : List UInt8}
    (hsealed : o.sealed = false) (hcontent : o.content = kept.flatMap (·.line) ++ torn)
    (htorn : (10 : UInt8) ∉ torn) :
    repairTornTail o = .ok (kept.flatMap (·.line), torn.length) := by
  unfold repairTornTail
  rw [hsealed, Bool.and_false, if_neg (by simp), hcontent]
  by_cases hempty : torn = []
  · subst hempty
    rw [List.append_nil]
    by_cases hkept : kept = []
    · rw [hkept]
      rfl
    · rw [getLast?_flatMap_line hkept, if_pos rfl]
      split <;> rfl
  · have hlast : (kept.flatMap (·.line) ++ torn).getLast? ≠ some 10 := by
      rw [List.getLast?_append_of_ne_nil _ hempty]
      exact fun h => htorn (List.mem_of_getLast? h)
    rw [if_neg (by simp [hempty]), if_neg hlast, takeWhile_reverse_torn htorn]
    simp

/-! ## The name -/

theorem beforeSuffix_data_open (stem : String) : beforeSuffix dataSuffix (stem ++ openSuffix) = none := by
  rw [beforeSuffix, if_neg]
  rw [List.isSuffixOf_iff_suffix, String.toList_append]
  intro h
  have hsuffix := List.suffix_of_suffix_length_le h (List.suffix_append _ _) (by decide)
  revert hsuffix
  decide

/-- Both names of a segment lead to its committed name. -/
theorem committedName_ofPrefix (p : Placement) (renamed : Bool) (records : List Record) (n : Nat) :
    committedName (Orphan.ofPrefix p renamed records n).name = p.dataName := by
  cases renamed with
  | true =>
    have hname : (Orphan.ofPrefix p true records n).name = p.stem ++ dataSuffix := rfl
    rw [hname, committedName, beforeSuffix_append]
    rfl
  | false =>
    have hname : (Orphan.ofPrefix p false records n).name = p.stem ++ openSuffix := rfl
    rw [hname, committedName, beforeSuffix_data_open, if_neg (by simp)]
    simp [← String.length_toList, Placement.dataName]

theorem segmentStem_ofPrefix (p : Placement) (renamed : Bool) (records : List Record) (n : Nat) :
    segmentStem (Orphan.ofPrefix p renamed records n).name = p.stem := by
  cases renamed with
  | true => exact segmentStem_data p.stem
  | false => exact segmentStem_open p.stem

/-! ## The seal -/

theorem mapM_read {loads : List UInt8 → Option Envelope} {records : List Record}
    (h : ∀ r ∈ records, loads r.line = some r.envelope) :
    (records.map (·.line)).mapM (Record.read loads) = some records := by
  induction records with
  | nil => rfl
  | cons r records ih =>
    rw [List.map_cons, List.mapM_cons, Record.read_line (h r List.mem_cons_self),
      ih fun r' hr' => h r' (List.mem_cons_of_mem _ hr')]
    rfl

/-- The seal recovery publishes for whole lines under a name that says `name`. -/
def resealed (sha256 : List UInt8 → String) (p : Placement) (name : SegmentName)
    (kept : List Record) (repaired createdNs : Nat) : Seal :=
  { (observed none kept).describe sha256 p "recovery" [] createdNs with
    windowStartNs := name.windowStartNs
    windowEndNs := name.windowStartNs + defaultSegmentSeconds * nanoseconds
    segmentId := name.segmentId
    segmentIndex := name.segmentIndex
    repairedBytes := repaired }

section Reseal

variable {loads : List UInt8 → Option Envelope} {sha256 : List UInt8 → String} {p : Placement}
  {records : List Record}

/-- What recovery does with an orphan whose lines say what their records say. -/
theorem resumeOrphan_eq (sha256 : List UInt8 → String) (hloads : ∀ r ∈ records, loads r.line = some r.envelope) (renamed : Bool)
    (n createdNs : Nat) :
    let o := Orphan.ofPrefix p renamed records n
    let kept := wholeRecords records o.content
    ∃ repaired, resumeOrphan loads sha256 o p.lane createdNs =
      match parseSegmentName o.name with
      | none => .error (.segment ("unparseable segment name " ++ o.name))
      | some name => .ok ⟨p.dataName, kept.flatMap (·.line),
          resealed sha256 p name kept repaired createdNs⟩ := by
  intro o kept
  obtain ⟨kept', torn, hbegins, hcontent, htorn⟩ := take_flatMap_line records n
  have hcontent' : o.content = kept'.flatMap (·.line) ++ torn := hcontent
  have hkept : kept = kept' := by
    show wholeRecords records o.content = _
    rw [hcontent', wholeRecords_eq hbegins htorn]
  refine ⟨torn.length, ?_⟩
  unfold resumeOrphan sealOrphan
  rw [repairTornTail_eq (o := o) rfl hcontent' htorn, committedName_ofPrefix, hkept]
  cases hname : parseSegmentName o.name with
  | none => rfl
  | some name =>
    have hread := mapM_read fun r hr => hloads r (hbegins.subset hr)
    simp only [bind, Except.bind, fileLines_flatMap, hread]
    rfl

/-- Two seals of the same records make the same claims just when windows, names and flags agree. -/
theorem claims_eq_iff {previous : Option Nat} {name : SegmentName} {kept : List Record}
    {repaired createdNs : Nat} :
    (resealed sha256 p name kept repaired createdNs).claims =
        ((observed previous kept).describe sha256 p "" [] 0).claims ↔
      name = ⟨p.startNs, p.segmentIndex, p.segmentId⟩ ∧ p.segmentSeconds = defaultSegmentSeconds ∧
        (observed none kept).accumulator.visibleNonDecreasing =
          (observed previous kept).accumulator.visibleNonDecreasing := by
  constructor
  · intro h
    have hstart : name.windowStartNs = p.startNs := congrArg Seal.windowStartNs h
    have hend : name.windowStartNs + defaultSegmentSeconds * nanoseconds = p.endNs :=
      congrArg Seal.windowEndNs h
    have hindex : name.segmentIndex = p.segmentIndex := congrArg Seal.segmentIndex h
    have hid : name.segmentId = p.segmentId := congrArg Seal.segmentId h
    refine ⟨?_, ?_, congrArg Seal.visibleNonDecreasing h⟩
    · rw [← hstart, ← hindex, ← hid]
    · rw [hstart, Placement.endNs] at hend
      unfold nanoseconds at hend
      omega
  · intro h
    obtain ⟨hname, hseconds, hflag⟩ := h
    have hend : (p.startNs : Int) + defaultSegmentSeconds * nanoseconds = p.endNs := by
      rw [Placement.endNs, hseconds]
      push_cast
      rfl
    have hdense : (observed none kept).accumulator.deliveryIndexDense =
        (observed previous kept).accumulator.deliveryIndexDense := by
      rw [Bool.eq_iff_iff, deliveryIndexDense_observed, deliveryIndexDense_observed]
    unfold resealed Seal.claims SegmentWriter.describe
    simp only [hname, hend, hflag, Accumulator.byteLength_eq, digested_observed, lineCount_observed,
      firstDeliveryIndex_observed, lastDeliveryIndex_observed, firstVisibleNs_observed,
      lastVisibleNs_observed, orderingStatus_observed, epochs_observed none kept previous, hdense]

/-- A boundary that shows in no flag. -/
theorem visibleNonDecreasing_eq_iff {previous : Option Nat} {kept : List Record} :
    (observed none kept).accumulator.visibleNonDecreasing =
        (observed previous kept).accumulator.visibleNonDecreasing ↔
      BoundaryUnseen previous (kept.map (·.visibleNs)) := by
  rw [Bool.eq_iff_iff, visibleNonDecreasing_observed, visibleNonDecreasing_observed]
  unfold BoundaryUnseen
  cases previous with
  | none => simp
  | some boundary =>
    rw [Option.toList_none, List.nil_append, Option.toList_some, List.singleton_append,
      List.isChain_cons]
    simp

theorem of_recovers (hloads : ∀ r ∈ records, loads r.line = some r.envelope) {renamed : Bool}
    {n createdNs : Nat} {previous : Option Nat}
    (h : Recovers loads sha256 p previous records (.ofPrefix p renamed records n) createdNs) :
    p.segmentSeconds = defaultSegmentSeconds ∧ BoundaryUnseen previous
      ((wholeRecords records (Orphan.ofPrefix p renamed records n).content).map (·.visibleNs)) := by
  obtain ⟨r, hr, _, _, hclaims⟩ := h
  obtain ⟨repaired, hresume⟩ := resumeOrphan_eq sha256 (p := p) hloads renamed n createdNs
  rw [hresume] at hr
  split at hr
  · cases hr
  · cases hr
    obtain ⟨_, hseconds, hflag⟩ := claims_eq_iff.mp hclaims
    exact ⟨hseconds, visibleNonDecreasing_eq_iff.mp hflag⟩

end Reseal

/-- Recovery seals as the writer would have, for any prefix of the bytes under either name, exactly
    when the window has the default length and the writer's boundary shows in no flag. -/
theorem resumeOrphan_recovers_iff (loads : List UInt8 → Option Envelope)
    (sha256 : List UInt8 → String) (p : Placement) (previousVisibleNs : Option Nat)
    (records : List Record) (renamed : Bool) (n createdNs : Nat)
    (hloads : ∀ r ∈ records, loads r.line = some r.envelope)
    (hstart : p.segmentSeconds * nanoseconds ∣ p.startNs) (hrange : p.startNs < 2 ^ 64)
    (hid : IsHex p.segmentId) :
    Recovers loads sha256 p previousVisibleNs records (.ofPrefix p renamed records n) createdNs ↔
      p.segmentSeconds = defaultSegmentSeconds ∧ BoundaryUnseen previousVisibleNs
        ((wholeRecords records (Orphan.ofPrefix p renamed records n).content).map (·.visibleNs)) := by
  constructor
  · exact of_recovers hloads
  · intro h
    obtain ⟨hseconds, hunseen⟩ := h
    have hreads : Moment.ReadsBack p.startNs := by
      rw [hseconds] at hstart
      exact ⟨(Nat.dvd_mul_left _ _).trans hstart,
        .inl ⟨(Nat.mul_dvd_mul_right (by decide) nanoseconds).trans hstart, hrange⟩⟩
    obtain ⟨repaired, hresume⟩ :=
      resumeOrphan_eq sha256 (p := p) hloads renamed n createdNs
    unfold Recovers
    rw [hresume, parseSegmentName_segmentFilename (segmentStem_ofPrefix p renamed records n) hreads hid.dash_notMem]
    exact ⟨_, rfl, rfl, rfl, claims_eq_iff.mpr ⟨rfl, hseconds, visibleNonDecreasing_eq_iff.mpr hunseen⟩⟩

/-- Decoding, of the one line there is. -/
def sampleLoads (line : List UInt8) : Option Envelope :=
  if line = sampleRecord.line then some sampleRecord.envelope else none

/-- A crash in the second record, with a boundary behind the first. -/
theorem resumeOrphan_recovers_sample : Recovers sampleLoads sampleSha256 ⟨"lane", 0, 1800, 0, "0a"⟩
    (some 3) [sampleRecord, sampleRecord]
    (.ofPrefix ⟨"lane", 0, 1800, 0, "0a"⟩ false [sampleRecord, sampleRecord] 70) 9 := by
  apply (resumeOrphan_recovers_iff sampleLoads sampleSha256 ⟨"lane", 0, 1800, 0, "0a"⟩ (some 3)
    [sampleRecord, sampleRecord] false 70 9 (by simp [sampleLoads]) (by decide) (by decide)
    (by decide)).mpr
  refine ⟨rfl, ?_⟩
  unfold BoundaryUnseen
  decide +kernel

/-- A writer of quarter hours is recovered as one of half hours. -/
theorem not_resumeOrphan_recovers : ¬∀ (loads : List UInt8 → Option Envelope)
    (sha256 : List UInt8 → String) (p : Placement) (previousVisibleNs : Option Nat)
    (records : List Record) (renamed : Bool) (n createdNs : Nat),
    (∀ r ∈ records, loads r.line = some r.envelope) →
    p.segmentSeconds * nanoseconds ∣ p.startNs → p.startNs < 2 ^ 64 → IsHex p.segmentId →
    Recovers loads sha256 p previousVisibleNs records (.ofPrefix p renamed records n) createdNs := by
  intro h
  have hseconds := (of_recovers (by simp) (h (fun _ => none) sampleSha256 ⟨"lane", 0, 900, 0, "0a"⟩
    none [] false 0 0 (by simp) (by decide) (by decide) (by decide))).1
  revert hseconds
  decide

end PredictionIndexer.Splices
