import PredictionIndexer.Spec.EnvelopeReadable
import PredictionIndexer.Spec.EnvelopeSchema
import PredictionIndexer.Spec.SuccessorOverflow

/-!
# What a lane reader yields

A segment reads as a list of records when its file is their lines, each parsed where it stands, and
the records are what the seal of the segment says of them. Reading a lane to its end yields the
records of its segments one after the other, and it gets there just if every segment reads. What
comes before a fault is the records of the segments that read, and behind them the first records of
the next one, which its seal admits.

The tally starts over with every segment, so nothing is asked of two records on either side of a
boundary.
-/

namespace PredictionIndexer.Finalize

open Fallible Continuity

/-! ## Lines -/

/-- A line with its newline, the only one in it. -/
def IsLine (line : List UInt8) : Prop := ∃ content, line = content ++ [10] ∧ 10 ∉ content

theorem IsLine.getLast? {line : List UInt8} (h : IsLine line) : line.getLast? = some 10 := by
  obtain ⟨content, rfl, _⟩ := h
  simp

theorem IsLine.ne_nil {line : List UInt8} (h : IsLine line) : line ≠ [] := by
  obtain ⟨content, rfl, _⟩ := h
  simp

theorem readUntil_cons_of_ne {b : UInt8} (hb : b ≠ 10) (bytes : List UInt8) :
    readUntil (b :: bytes) = (b :: (readUntil bytes).1, (readUntil bytes).2) := by
  rw [readUntil, if_neg hb]

theorem readUntil_line {line : List UInt8} (h : IsLine line) (rest : List UInt8) :
    readUntil (line ++ rest) = (line, rest) := by
  obtain ⟨content, rfl, hcontent⟩ := h
  induction content with
  | nil => simp [readUntil]
  | cons b content ih =>
    have hb : b ≠ 10 := fun hb => hcontent (hb ▸ List.mem_cons_self)
    have htail := ih fun hmem => hcontent (List.mem_cons_of_mem b hmem)
    rw [List.cons_append, List.cons_append, readUntil_cons_of_ne hb, htail]

theorem readUntil_append (bytes : List UInt8) :
    (readUntil bytes).1 ++ (readUntil bytes).2 = bytes := by
  induction bytes with
  | nil => rfl
  | cons b bytes ih =>
    unfold readUntil
    split
    · rfl
    · simp [ih]

theorem isLine_readUntil {bytes : List UInt8} (h : (readUntil bytes).1.getLast? = some 10) :
    IsLine (readUntil bytes).1 := by
  induction bytes with
  | nil => cases h
  | cons b bytes ih =>
    by_cases hb : b = 10
    · exact ⟨[], by simp [readUntil, hb], by simp⟩
    · rw [readUntil_cons_of_ne hb] at h ⊢
      -- the newline is the last byte of what was read behind `b`
      have htail : (readUntil bytes).1.getLast? = some 10 := by
        cases hline : (readUntil bytes).1 with
        | nil =>
          rw [hline] at h
          exact absurd (Option.some.inj h) hb
        | cons c line => rwa [hline, List.getLast?_cons_cons] at h
      obtain ⟨content, hcontent, hmem⟩ := ih htail
      refine ⟨b :: content, by simp [hcontent], ?_⟩
      intro h10
      rcases List.mem_cons.mp h10 with h10 | h10
      · exact hb h10.symm
      · exact hmem h10

theorem readUntil_eq_nil_iff {bytes : List UInt8} : (readUntil bytes).1 = [] ↔ bytes = [] := by
  cases bytes with
  | nil => simp [readUntil]
  | cons b bytes =>
    unfold readUntil
    split <;> simp

theorem readLine_line_append {line : List UInt8} (h : IsLine line) (rest : Source) :
    Source.readLine { rest with bytes := line ++ rest.bytes } = .ok (line, rest) := by
  unfold Source.readLine
  simp only [readUntil_line h]
  obtain ⟨bytes, failure⟩ := rest
  cases failure with
  | none => rfl
  | some error => simp [h.getLast?]

/-- Nothing is read just where the file ends without an error; a whole line is one of the file. -/
theorem of_readLine_eq_ok {source source' : Source} {line : List UInt8}
    (h : source.readLine = .ok (line, source')) :
    source = { source' with bytes := line ++ source'.bytes } ∧
      (line.getLast? = some 10 → IsLine line) ∧ (line = [] → source = { bytes := [] }) := by
  have hread := readUntil_append source.bytes
  have hline := @isLine_readUntil source.bytes
  have hnil := @readUntil_eq_nil_iff source.bytes
  obtain ⟨bytes, failure⟩ := source
  unfold Source.readLine at h
  cases failure with
  | none =>
    cases h
    exact ⟨by simp [hread], hline, fun hempty => by simpa using hnil.mp hempty⟩
  | some error =>
    simp only at h
    split at h
    next hlast =>
      cases h
      refine ⟨by simp [hread], hline, fun hempty => ?_⟩
      simp [hempty] at hlast
    next => cases h

/-! ## Seals -/

/-- What the seal of a segment admits as its first records. -/
structure Admits (mode : Arithmetic) (claims : SegmentClaims) (records : List LaneRecord) :
    Prop where
  window : ∀ record ∈ records,
    claims.windowStartNs ≤ record.visibleNs ∧ record.visibleNs < claims.windowEndNs
  ordered : claims.visibleNonDecreasing = true →
    records.IsChain fun a b => a.visibleNs ≤ b.visibleNs
  dense : claims.deliveryIndexDense = true →
    records.IsChain fun a b => mode.add a.deliveryIndex 1 = .ok b.deliveryIndex
  count : records.length ≤ claims.lineCount

/-- The records of a segment are what its seal says of them. -/
structure Matches (mode : Arithmetic) (claims : SegmentClaims) (records : List LaneRecord) : Prop
    extends Admits mode claims records where
  lineCount : records.length = claims.lineCount
  firstVisible : claims.firstVisibleNs = records.head?.map (·.visibleNs)
  lastVisible : claims.lastVisibleNs = records.getLast?.map (·.visibleNs)
  firstIndex : claims.firstDeliveryIndex = records.head?.map (·.deliveryIndex)
  lastIndex : claims.lastDeliveryIndex = records.getLast?.map (·.deliveryIndex)

/-- The first records of a segment, and what lies behind them in its file. -/
structure Opens (env : ReadEnv) (lane : Nat) (segment : SegmentInput) (records : List LaneRecord)
    (rest : Source) : Prop where
  disk : env.disk segment.path =
    .ok { rest with bytes := (records.map (·.line)).flatten ++ rest.bytes }
  lines : ∀ record ∈ records, IsLine record.line
  parsed : ∀ (i : Nat) (h : i < records.length),
    parseLine env lane segment (i + 1) (records[i]).line = .ok records[i]
  admits : ∀ claims ∈ segment.claims, Admits env.mode claims records

/-- A segment is its records, line by line, and they are what its seal says. -/
structure SegmentReads (env : ReadEnv) (lane : Nat) (segment : SegmentInput)
    (records : List LaneRecord) : Prop where
  opens : Opens env lane segment records { bytes := [] }
  claimed : ∀ claims ∈ segment.claims, Matches env.mode claims records

/-- The records that the first calls of `next` give, and the reader behind them. -/
inductive Yields (env : ReadEnv) : LaneReader → List LaneRecord → LaneReader → Prop
  | start (r : LaneReader) : Yields env r [] r
  | record {r r' r'' : LaneReader} {record : LaneRecord} {records : List LaneRecord} :
      r.next env = .ok (some (.ok record), r') → Yields env r' records r'' →
      Yields env r (record :: records) r''

/-- The lane reads to its end: every call gives a record, until one gives none. -/
def ReadsAs (env : ReadEnv) (r : LaneReader) (records : List LaneRecord) : Prop :=
  ∃ last done, Yields env r records last ∧ last.next env = .ok (none, done)

/-! ## The tally -/

/-- The tally of the records of a segment so far. -/
def tally (records : List LaneRecord) : SegmentTally := records.foldl SegmentTally.observe {}

theorem tally_snoc (records : List LaneRecord) (record : LaneRecord) :
    tally (records ++ [record]) = (tally records).observe record := by
  simp [tally]

theorem tally_count (records : List LaneRecord) : (tally records).count = records.length := by
  induction records using List.reverseRecOn with
  | nil => rfl
  | append_singleton records record ih => simp [tally_snoc, SegmentTally.observe, ih]

theorem tally_last (records : List LaneRecord) :
    (tally records).lastVisibleNs = records.getLast?.map (·.visibleNs) ∧
      (tally records).lastDeliveryIndex = records.getLast?.map (·.deliveryIndex) := by
  induction records using List.reverseRecOn with
  | nil => exact ⟨rfl, rfl⟩
  | append_singleton records record _ => simp [tally_snoc, SegmentTally.observe]

theorem tally_first (records : List LaneRecord) :
    (tally records).firstVisibleNs = records.head?.map (·.visibleNs) ∧
      (tally records).firstDeliveryIndex = records.head?.map (·.deliveryIndex) := by
  induction records using List.reverseRecOn with
  | nil => exact ⟨rfl, rfl⟩
  | append_singleton records record ih =>
    rw [tally_snoc]
    cases records with
    | nil => exact ⟨rfl, rfl⟩
    | cons first records => simp [SegmentTally.observe, tally_count, ih]

section Segment

variable {env : ReadEnv} {lane : Nat} {segment : SegmentInput} {claims : SegmentClaims}
  {records : List LaneRecord} {record : LaneRecord} {rest rest' : Source} {line : List UInt8}

theorem checkIndex_eq_ok_iff {mode : Arithmetic} {seen : SegmentTally} {position : String}
    {u : Unit} : checkIndex mode claims seen position record = .ok u ↔
      (claims.deliveryIndexDense = true →
        ∀ p ∈ seen.lastDeliveryIndex, mode.add p 1 = .ok record.deliveryIndex) := by
  unfold checkIndex
  split
  next hdense =>
    cases seen.lastDeliveryIndex with
    | none => simp
    | some previous =>
      simp only [Option.mem_def, Option.some.injEq, forall_eq']
      rw [Except.bind_eq_ok]
      constructor
      · rintro ⟨next, hnext, hrefuse⟩ _
        have heq := of_decide_eq_false (Segments.refuse_eq_ok.mp hrefuse)
        rw [hnext, not_not.mp heq]
      · intro h
        exact ⟨_, h hdense, Segments.refuse_eq_ok.mpr (by simp)⟩
  next hdense => simp [hdense]

/-- A record passes the checks just if the seal admits it behind the records before it. -/
theorem admits_snoc_iff {mode : Arithmetic} {position : String} :
    Admits mode claims (records ++ [record]) ↔ Admits mode claims records ∧
      checkRecord mode claims (tally records) position record = .ok () := by
  have hchain (R : LaneRecord → LaneRecord → Prop) : (records ++ [record]).IsChain R ↔
      records.IsChain R ∧ ∀ p ∈ records.getLast?, R p record := by
    rw [List.isChain_append]
    simp
  have hcheck : checkRecord mode claims (tally records) position record = .ok () ↔
      (claims.windowStartNs ≤ record.visibleNs ∧ record.visibleNs < claims.windowEndNs ∧
        (claims.visibleNonDecreasing = true →
          ∀ p ∈ records.getLast?, p.visibleNs ≤ record.visibleNs)) ∧
      (claims.deliveryIndexDense = true →
        ∀ p ∈ records.getLast?, mode.add p.deliveryIndex 1 = .ok record.deliveryIndex) ∧
      records.length + 1 ≤ claims.lineCount := by
    unfold checkRecord
    simp only [Except.bind_eq_ok, checkClock_eq_ok_iff, checkIndex_eq_ok_iff,
      Segments.refuse_eq_ok, exists_const, tally_last, tally_count, decide_eq_false_iff_not, not_lt]
    simp
  rw [hcheck]
  constructor
  · intro h
    have hordered := fun hflag => (hchain _).mp (h.ordered hflag)
    have hdense := fun hflag => (hchain _).mp (h.dense hflag)
    have hwindow := h.window record (by simp)
    have hcount : records.length + 1 ≤ claims.lineCount := by simpa using h.count
    exact ⟨⟨fun r hr => h.window r (List.mem_append_left _ hr), fun hflag => (hordered hflag).1,
      fun hflag => (hdense hflag).1, by omega⟩,
      ⟨hwindow.1, hwindow.2, fun hflag => (hordered hflag).2⟩, fun hflag => (hdense hflag).2,
      hcount⟩
  · rintro ⟨h, ⟨hstart, hend, hordered⟩, hdense, hcount⟩
    refine ⟨fun r hr => ?_, fun hflag => (hchain _).mpr ⟨h.ordered hflag, hordered hflag⟩,
      fun hflag => (hchain _).mpr ⟨h.dense hflag, hdense hflag⟩, by simpa using hcount⟩
    rcases List.mem_append.mp hr with hr | hr
    · exact h.window r hr
    · cases List.mem_singleton.mp hr
      exact ⟨hstart, hend⟩

theorem admits_nil {mode : Arithmetic} : Admits mode claims [] :=
  ⟨by simp, fun _ => .nil, fun _ => .nil, Nat.zero_le _⟩

/-- What the seal admits, it admits of the first records. -/
theorem Admits.of_append {mode : Arithmetic} {more : List LaneRecord}
    (h : Admits mode claims (records ++ more)) : Admits mode claims records := by
  refine ⟨fun r hr => h.window r (List.mem_append_left _ hr),
    fun hflag => (List.isChain_append.mp (h.ordered hflag)).1,
    fun hflag => (List.isChain_append.mp (h.dense hflag)).1, ?_⟩
  have hcount := h.count
  rw [List.length_append] at hcount
  omega

theorem acceptLine_eq_ok_iff {seen : SegmentTally} {lineNumber : Nat} :
    acceptLine env lane segment seen lineNumber line = .ok record ↔
      parseLine env lane segment lineNumber line = .ok record ∧ ∀ claims ∈ segment.claims,
        checkRecord env.mode claims seen (fileName segment.path ++ ":" ++ toString lineNumber)
          record = .ok () := by
  unfold acceptLine
  rw [Except.bind_eq_ok]
  cases segment.claims with
  | none =>
    constructor
    · rintro ⟨a, hparse, ha⟩
      cases ha
      exact ⟨hparse, by simp⟩
    · rintro ⟨hparse, -⟩
      exact ⟨record, hparse, rfl⟩
  | some claims =>
    simp only [Option.mem_def, Option.some.injEq, forall_eq', Except.bind_eq_ok]
    constructor
    · rintro ⟨a, hparse, u, hcheck, ha⟩
      cases ha
      exact ⟨hparse, hcheck⟩
    · rintro ⟨hparse, hcheck⟩
      exact ⟨record, hparse, (), hcheck, rfl⟩

/-- A record has the line it was parsed from. -/
theorem line_of_parseLine {lineNumber : Nat}
    (h : parseLine env lane segment lineNumber line = .ok record) :
    record.line = line ∧ line.getLast? = some 10 := by
  unfold parseLine at h
  rw [Except.bind_eq_ok] at h
  obtain ⟨_, hrefuse, h⟩ := h
  have hlast := of_decide_eq_false (Segments.refuse_eq_ok.mp hrefuse)
  split at h
  · cases h
  · cases h
    exact ⟨rfl, not_not.mp hlast⟩

theorem closeSegment_eq_ok_iff {u : Unit} :
    closeSegment segment (tally records) = .ok u ↔ ∀ claims ∈ segment.claims,
      records.length = claims.lineCount ∧
        claims.firstVisibleNs = records.head?.map (·.visibleNs) ∧
        claims.lastVisibleNs = records.getLast?.map (·.visibleNs) ∧
        claims.firstDeliveryIndex = records.head?.map (·.deliveryIndex) ∧
        claims.lastDeliveryIndex = records.getLast?.map (·.deliveryIndex) := by
  unfold closeSegment
  cases segment.claims with
  | none => simp
  | some claims =>
    simp only [Except.bind_eq_ok, Segments.refuse_eq_ok, exists_const, tally_count, tally_first,
      tally_last, decide_eq_false_iff_not, not_not, Option.mem_def, Option.some.injEq, forall_eq']

theorem opens_nil (hdisk : env.disk segment.path = .ok rest) : Opens env lane segment [] rest :=
  ⟨by simpa using hdisk, by simp, by simp, fun _ _ => admits_nil⟩

/-- One more line of a segment that is read and accepted. -/
theorem Opens.snoc (h : Opens env lane segment records rest)
    (hread : rest.readLine = .ok (line, rest'))
    (haccept : acceptLine env lane segment (tally records) (records.length + 1) line =
      .ok record) : Opens env lane segment (records ++ [record]) rest' := by
  obtain ⟨hparse, hchecks⟩ := acceptLine_eq_ok_iff.mp haccept
  obtain ⟨hrest, hisLine, -⟩ := of_readLine_eq_ok hread
  obtain ⟨hline, hlast⟩ := line_of_parseLine hparse
  refine ⟨?_, ?_, ?_, fun claims hclaims => ?_⟩
  · rw [h.disk, hrest]
    simp [hline]
  · intro r hr
    rcases List.mem_append.mp hr with hr | hr
    · exact h.lines r hr
    · cases List.mem_singleton.mp hr
      rw [hline]
      exact hisLine hlast
  · intro i hi
    by_cases hlt : i < records.length
    · rw [List.getElem_append_left hlt]
      exact h.parsed i hlt
    · have hi' : i = records.length := by
        simp at hi
        omega
      subst hi'
      simpa [hline] using hparse
  · exact admits_snoc_iff.mpr ⟨h.admits claims hclaims, hchecks claims hclaims⟩

/-- The next record of a segment that opens further is read and accepted. -/
theorem Opens.next {more : List LaneRecord}
    (h : Opens env lane segment (records ++ record :: more) rest) :
    Source.readLine
        { rest with bytes := ((record :: more).map (·.line)).flatten ++ rest.bytes } =
        .ok (record.line, { rest with bytes := (more.map (·.line)).flatten ++ rest.bytes }) ∧
      acceptLine env lane segment (tally records) (records.length + 1) record.line =
        .ok record := by
  have hmem : record ∈ records ++ record :: more := by simp
  constructor
  · rw [← readLine_line_append (h.lines record hmem)]
    simp
  · refine acceptLine_eq_ok_iff.mpr ⟨?_, fun claims hclaims => ?_⟩
    · simpa using h.parsed records.length (by simp)
    · have hall : Admits env.mode claims ((records ++ [record]) ++ more) := by
        simpa using h.admits claims hclaims
      exact (admits_snoc_iff.mp (hall.of_append)).2

end Segment

/-! ## Runs -/

section Run

variable {env : ReadEnv} {lane : Nat} {segments : List SegmentInput} {records : List LaneRecord}
  {record : LaneRecord} {r r' last : LaneReader}

/-- Where a reader stands behind some records: the segments it closed read as their parts, and the
    open one starts with the part read so far. -/
structure Stands (env : ReadEnv) (lane : Nat) (segments : List SegmentInput)
    (records : List LaneRecord) (r : LaneReader) : Prop where
  lane_eq : r.lane = lane
  going : r.finished = false
  parts : ∃ closed parts, List.Forall₂ (SegmentReads env lane) closed parts ∧
    match r.current with
    | none => segments = closed ++ r.segments ∧ records = parts.flatten
    | some (segment, source) => ∃ part, segments = closed ++ segment :: r.segments ∧
        records = parts.flatten ++ part ∧ Opens env lane segment part source ∧
        r.seen = tally part ∧ r.lineNumber = part.length

theorem stands_new (env : ReadEnv) (lane : Nat) (segments : List SegmentInput) :
    Stands env lane segments [] (LaneReader.new lane segments) :=
  ⟨rfl, rfl, [], [], .nil, rfl, rfl⟩

/-- What a call leaves: a reader behind one record more, or segments that read as the records. -/
def Leaves (env : ReadEnv) (lane : Nat) (segments : List SegmentInput) (records : List LaneRecord)
    (r : LaneReader) : Option LaneRecord → Prop
  | some record => Stands env lane segments (records ++ [record]) r
  | none => ∃ parts, List.Forall₂ (SegmentReads env lane) segments parts ∧
      records = parts.flatten

theorem leaves_readLine {x : Option LaneRecord} (h : Stands env lane segments records r)
    (hread : r.readLine env = .ok (x, r')) : Leaves env lane segments records r' x := by
  induction r using LaneReader.readLine.induct with
  | case1 r hcurrent hsegments =>
    obtain ⟨-, -, closed, parts, hclosed, hat⟩ := h
    rw [hcurrent] at hat
    rw [readLine_end hcurrent hsegments] at hread
    cases hread
    rw [hsegments, List.append_nil] at hat
    exact ⟨parts, hat.1 ▸ hclosed, hat.2⟩
  | case2 r hcurrent segment rest hsegments ih =>
    obtain ⟨hlane, hgoing, closed, parts, hclosed, hat⟩ := h
    rw [hcurrent, hsegments] at hat
    rw [readLine_open hcurrent hsegments, Except.bind_eq_ok] at hread
    obtain ⟨source, hopen, hread⟩ := hread
    have hdisk : env.disk segment.path = .ok source := by
      cases hd : env.disk segment.path with
      | ok a =>
        rw [hd] at hopen
        cases hopen
        rfl
      | error e =>
        rw [hd] at hopen
        cases hopen
    exact ih source ⟨hlane, hgoing, closed, parts, hclosed, [], hat.1, by simp [hat.2],
      opens_nil hdisk, rfl, rfl⟩ hread
  | case3 r segment source hcurrent ih =>
    obtain ⟨hlane, hgoing, closed, parts, hclosed, hat⟩ := h
    rw [hcurrent] at hat
    obtain ⟨part, hsegments, hrecords, hopens, hseen, hnumber⟩ := hat
    rw [readLine_line hcurrent, Except.bind_eq_ok] at hread
    obtain ⟨⟨line, rest⟩, hline, hread⟩ := hread
    have hsource : source.readLine = .ok (line, rest) := by
      cases hs : source.readLine with
      | ok a =>
        rw [hs] at hline
        cases hline
        rfl
      | error e =>
        rw [hs] at hline
        cases hline
    simp only at hread
    split at hread
    next hempty =>
      -- the segment ends here, and its tally is what the seal says
      rw [Except.bind_eq_ok] at hread
      obtain ⟨_, hclose, hread⟩ := hread
      obtain ⟨-, -, hend⟩ := of_readLine_eq_ok hsource
      rw [hend (List.isEmpty_iff.mp hempty)] at hopens
      rw [hseen, closeSegment_eq_ok_iff] at hclose
      have hreads : SegmentReads env lane segment part := by
        refine ⟨hopens, fun claims hclaims => ?_⟩
        obtain ⟨hcount, hfirst, hlast, hfirstIndex, hlastIndex⟩ := hclose claims hclaims
        exact ⟨hopens.admits claims hclaims, hcount, hfirst, hlast, hfirstIndex, hlastIndex⟩
      refine ih ⟨hlane, hgoing, closed ++ [segment], parts ++ [part],
        List.rel_append hclosed (.cons hreads .nil), ?_, ?_⟩ hread
      · simp [hsegments]
      · simp [hrecords]
    next hempty =>
      rw [Except.bind_eq_ok] at hread
      obtain ⟨record, haccept, hread⟩ := hread
      cases hread
      rw [hseen, hnumber, hlane] at haccept
      refine ⟨hlane, hgoing, closed, parts, hclosed, part ++ [record], hsegments, ?_,
        hopens.snoc hsource haccept, ?_, ?_⟩
      · rw [hrecords, List.append_assoc]
      · rw [hseen, tally_snoc]
      · simp [hnumber]

theorem next_eq_record_iff (hgoing : r.finished = false) :
    r.next env = .ok (some (.ok record), r') ↔ r.readLine env = .ok (some record, r') := by
  unfold LaneReader.next
  rw [if_neg (by simp [hgoing])]
  constructor
  · intro h
    split at h
    next hline =>
      cases h
      exact hline
    all_goals cases h
  · intro h
    simp only [h]
    rfl

theorem next_eq_none_iff (hgoing : r.finished = false) :
    (∃ done, r.next env = .ok (none, done)) ↔ ∃ done, r.readLine env = .ok (none, done) := by
  unfold LaneReader.next
  rw [if_neg (by simp [hgoing])]
  constructor
  · rintro ⟨done, h⟩
    split at h
    next => cases h
    next hline => exact ⟨_, hline⟩
    all_goals cases h
  · rintro ⟨done, h⟩
    simp only [h]
    exact ⟨_, rfl⟩

/-- The reader stands behind every record it has given. -/
theorem stands_yields (h : Stands env lane segments records r) {more : List LaneRecord}
    (hyields : Yields env r more last) : Stands env lane segments (records ++ more) last := by
  induction hyields generalizing records with
  | start => simpa using h
  | @record r r' r'' record more hnext _ ih =>
    have hstep := leaves_readLine h ((next_eq_record_iff h.going).mp hnext)
    simpa using ih hstep

/-- What two readers of one next line read is the same. -/
theorem readsAs_congr (hgoing : r.finished = false) (hgoing' : r'.finished = false)
    (hline : r.readLine env = r'.readLine env) (h : ReadsAs env r' records) :
    ReadsAs env r records := by
  obtain ⟨last, done, hyields, hend⟩ := h
  cases hyields with
  | start =>
    obtain ⟨done', hdone⟩ := (next_eq_none_iff hgoing').mp ⟨done, hend⟩
    obtain ⟨done'', hend'⟩ := (next_eq_none_iff hgoing).mpr ⟨done', hline ▸ hdone⟩
    exact ⟨r, done'', .start r, hend'⟩
  | record hnext hmore =>
    have hrecord := (next_eq_record_iff hgoing').mp hnext
    exact ⟨last, done, .record ((next_eq_record_iff hgoing).mpr (hline ▸ hrecord)) hmore, hend⟩

/-- A reader inside a segment that reads gives what is left of it, and then what follows. -/
theorem readsAs_segment {segment : SegmentInput} {source : Source} {part rest : List LaneRecord}
    (hreads : SegmentReads env lane segment (part ++ rest)) (hlane : r.lane = lane)
    (hgoing : r.finished = false) (hcurrent : r.current = some (segment, source))
    (hsource : source = { bytes := (rest.map (·.line)).flatten }) (hseen : r.seen = tally part)
    (hnumber : r.lineNumber = part.length)
    (hafter : ∀ r' : LaneReader, r'.lane = lane → r'.finished = false → r'.current = none →
      r'.segments = r.segments → ReadsAs env r' records) :
    ReadsAs env r (rest ++ records) := by
  induction rest generalizing r source part with
  | nil =>
    rw [List.append_nil] at hreads
    have hnext : ReadsAs env { r with current := none } records := hafter _ hlane hgoing rfl rfl
    refine readsAs_congr hgoing ?_ ?_ hnext
    · exact hgoing
    have hclose : closeSegment segment r.seen = .ok () := by
      rw [hseen, closeSegment_eq_ok_iff]
      intro claims hclaims
      have h := hreads.claimed claims hclaims
      exact ⟨h.lineCount, h.firstVisible, h.lastVisible, h.firstIndex, h.lastIndex⟩
    rw [readLine_line hcurrent, hsource]
    show (do
      closeSegment segment r.seen
      LaneReader.readLine env { r with current := none }) = _
    rw [hclose]
    rfl
  | cons record rest ih =>
    obtain ⟨hline, haccept⟩ := hreads.opens.next
    have hne : record.line.isEmpty = false := by
      simpa using (hreads.opens.lines record (by simp)).ne_nil
    have hstep : r.readLine env = .ok (some record, { r with
        current := some (segment, { bytes := (rest.map (·.line)).flatten })
        lineNumber := r.lineNumber + 1
        seen := r.seen.observe record }) := by
      simp only [List.append_nil] at hline
      rw [readLine_line hcurrent, hsource, hline]
      simp only [orHalt, bind, Except.bind, hne, Bool.false_eq_true, if_false]
      rw [hlane, hseen, hnumber, haccept]
      rfl
    have hrest : SegmentReads env lane segment ((part ++ [record]) ++ rest) := by
      simpa using hreads
    have hseen' : r.seen.observe record = tally (part ++ [record]) := by rw [hseen, tally_snoc]
    have hnumber' : r.lineNumber + 1 = (part ++ [record]).length := by simp [hnumber]
    obtain ⟨last, done, hyields, hend⟩ := ih hrest (r := { r with
      current := some (segment, { bytes := (rest.map (·.line)).flatten })
      lineNumber := r.lineNumber + 1
      seen := r.seen.observe record }) hlane hgoing rfl rfl hseen' hnumber' hafter
    exact ⟨last, done, .record ((next_eq_record_iff hgoing).mpr hstep) hyields, hend⟩

/-- A reader between segments that read gives their records. -/
theorem readsAs_parts {parts : List (List LaneRecord)}
    (h : List.Forall₂ (SegmentReads env lane) segments parts) (hlane : r.lane = lane)
    (hgoing : r.finished = false) (hcurrent : r.current = none) (hsegments : r.segments = segments) :
    ReadsAs env r parts.flatten := by
  induction h generalizing r with
  | nil =>
    obtain ⟨done, hend⟩ := (next_eq_none_iff hgoing).mpr ⟨r, readLine_end hcurrent hsegments⟩
    exact ⟨r, done, .start r, hend⟩
  | @cons segment part rest parts hreads _ ih =>
    have hdisk := hreads.opens.disk
    simp only [List.append_nil] at hdisk
    have hopened : r.readLine env = LaneReader.readLine env { r with
        segments := rest
        current := some (segment, { bytes := (part.map (·.line)).flatten })
        lineNumber := 0
        seen := {} } := by
      rw [readLine_open hcurrent hsegments, hdisk]
      rfl
    refine readsAs_congr hgoing ?_ hopened ?_
    · exact hgoing
    · have hwhole : SegmentReads env lane segment ([] ++ part) := hreads
      exact readsAs_segment hwhole hlane hgoing rfl rfl rfl rfl
        fun r' hlane' hgoing' hcurrent' hsegments' => ih hlane' hgoing' hcurrent' hsegments'

end Run

/-- Reading a lane gets to its end just if every segment reads, and then it gives their records one
    after the other. Whatever it gives, it gives the records of the segments before some segment,
    and first records of that one, which its seal admits. -/
theorem lane_reads_iff (env : ReadEnv) (lane : Nat) (segments : List SegmentInput) :
    (∀ records, ReadsAs env (LaneReader.new lane segments) records ↔
      ∃ parts, List.Forall₂ (SegmentReads env lane) segments parts ∧ records = parts.flatten) ∧
    ∀ records last, Yields env (LaneReader.new lane segments) records last →
      ∃ closed parts ahead part, List.Forall₂ (SegmentReads env lane) closed parts ∧
        segments = closed ++ ahead ∧ records = parts.flatten ++ part ∧
        (part = [] ∨ ∃ segment rest, segment ∈ ahead.head? ∧
          Opens env lane segment part rest) := by
  constructor
  · intro records
    constructor
    · rintro ⟨last, done, hyields, hend⟩
      have hstands := stands_yields (stands_new env lane segments) hyields
      obtain ⟨done', hline⟩ := (next_eq_none_iff hstands.going).mp ⟨done, hend⟩
      exact leaves_readLine (x := none) hstands hline
    · rintro ⟨parts, hparts, rfl⟩
      exact readsAs_parts hparts rfl rfl rfl rfl
  · intro records last hyields
    obtain ⟨-, -, closed, parts, hclosed, hat⟩ :=
      stands_yields (stands_new env lane segments) hyields
    cases hcurrent : last.current with
    | none =>
      rw [hcurrent] at hat
      exact ⟨closed, parts, last.segments, [], hclosed, hat.1, by simpa using hat.2, .inl rfl⟩
    | some opened =>
      obtain ⟨segment, source⟩ := opened
      rw [hcurrent] at hat
      obtain ⟨part, hsegments, hrecords, hopens, -⟩ := hat
      exact ⟨closed, parts, segment :: last.segments, part, hclosed, hsegments,
        by simpa using hrecords, .inr ⟨segment, source, rfl, hopens⟩⟩

/-! ## Two segments -/

/-- A trade of an index and a time, as its members. -/
def frameAt (index visible : String) : List (String × String) :=
  [("delivery_index", index), ("record_id", "\"r\""), ("visible_ns", visible),
    ("venue", "\"kalshi\""), ("stream", "\"public_trade\""), ("connection_epoch", "\"e\""),
    ("local_counter", "3"), ("source_cursor", "null"), ("kind", "\"venue_frame\""),
    ("raw_payload", "\"p\"")]

/-- The line of that trade, with its newline. -/
def frameLine (index visible : String) : List UInt8 :=
  (lineOf (frameAt index visible)).utf8Bytes ++ [10]

theorem zeros_length : (List.replicate 32 (0 : UInt8)).length = 32 := List.length_replicate

/-- Two files of one line each; the digest of every payload is the same. -/
def twoFiles : ReadEnv where
  mode := .checked
  json := Splices.Envelope.textJson
  hash _ := ⟨List.replicate 32 0, zeros_length⟩
  disk path := if path = "a" then .ok { bytes := frameLine "1" "5" } else
    .ok { bytes := frameLine "9" "3" }

/-- A seal of one record, dense and non-decreasing. -/
def sealOfOne (visible index : Nat) : SegmentClaims where
  windowStartNs := 0
  windowEndNs := 10
  lineCount := 1
  firstVisibleNs := some visible
  lastVisibleNs := some visible
  firstDeliveryIndex := some index
  lastDeliveryIndex := some index
  deliveryIndexDense := true
  visibleNonDecreasing := true

theorem parse_frameLine (index visible : String) (entries : List (String × String))
    (h : Splices.Envelope.textJson.object (lineOf (frameAt index visible)) = .ok (entries, .ok ())) :
    EnvelopeView.parse Splices.Envelope.textJson (frameLine index visible) =
      (Slots.fill Splices.Envelope.textJson entries >>= Slots.finish) := by
  unfold EnvelopeView.parse
  rw [frameLine, Splices.Envelope.stripNewline_append, String.fromUTF8?_utf8Bytes]
  dsimp only
  rw [h]
  show (Slots.fill Splices.Envelope.textJson entries >>= Slots.finish) >>= pure = _
  rw [bind_pure]

/-- The view of that trade. -/
def viewAt (index : U64) (visible : Nat) : EnvelopeView where
  envelopeVersion := 1
  deliveryIndex := index.val
  recordId := "r"
  visibleNs := visible
  monotonicNs := none
  venue := .kalshi
  stream := .publicTrade
  connectionEpoch := "e"
  localCounter := 3
  sourceCursor := none
  kind := .venueFrame
  rawPayload := "p"
  index_lt := U64.lt index

/-- Its record, as the only one of a segment. -/
def recordAt (segment : Nat) (index : U64) (visible : Nat) (line : List UInt8) : LaneRecord where
  visibleNs := visible
  deliveryIndex := index.val
  source := ⟨0, segment, 1⟩
  recordId := "r"
  contentHash := (twoFiles.hash "p").toHex
  line := line
  index_lt := U64.lt index

theorem parseLine_of_view {env : ReadEnv} {lane lineNumber : Nat} {segment : SegmentInput}
    {line : List UInt8} {view : EnvelopeView} (hlast : line.getLast? = some 10)
    (hview : EnvelopeView.parse env.json line = .ok view) :
    parseLine env lane segment lineNumber line = .ok {
      visibleNs := view.visibleNs
      deliveryIndex := view.deliveryIndex
      source := ⟨lane, segment.segment, lineNumber⟩
      recordId := view.recordId
      contentHash := (env.hash view.rawPayload).toHex
      line := line
      index_lt := view.index_lt } := by
  have hrefuse (message : String) : Segments.refuse (line.getLast? ≠ some 10) message = .ok () :=
    Segments.refuse_eq_ok.mpr (by simp [hlast])
  unfold parseLine
  rw [hrefuse, hview]
  rfl

/-- A file of one such line reads as its record. -/
theorem segmentReads_frameAt {path indexText visibleText : String} {segment visible : Nat}
    {index : U64} (hdisk : twoFiles.disk path = .ok { bytes := frameLine indexText visibleText })
    (hplain : 10 ∉ (lineOf (frameAt indexText visibleText)).utf8Bytes) (hvisible : visible < 10)
    (hparse : EnvelopeView.parse twoFiles.json (frameLine indexText visibleText) =
      .ok (viewAt index visible)) :
    SegmentReads twoFiles 0 ⟨path, segment, some (sealOfOne visible index.val)⟩
      [recordAt segment index visible (frameLine indexText visibleText)] := by
  have hadmits : Admits .checked (sealOfOne visible index.val)
      [recordAt segment index visible (frameLine indexText visibleText)] := by
    refine ⟨fun record hrecord => ?_, fun _ => .singleton _, fun _ => .singleton _, Nat.le_refl 1⟩
    cases List.mem_singleton.mp hrecord
    exact ⟨Nat.zero_le _, hvisible⟩
  have hline : IsLine (frameLine indexText visibleText) := ⟨_, rfl, hplain⟩
  refine ⟨⟨?_, ?_, fun i hi => ?_, fun claims hclaims => ?_⟩, fun claims hclaims => ?_⟩
  · simpa [recordAt] using hdisk
  · simpa [recordAt] using hline
  · obtain rfl : i = 0 := by simpa using hi
    show parseLine twoFiles 0 _ 1 (frameLine indexText visibleText) = _
    rw [parseLine_of_view hline.getLast? hparse]
    rfl
  · cases hclaims
    exact hadmits
  · cases hclaims
    exact ⟨hadmits, rfl, rfl, rfl, rfl, rfl⟩

theorem parse_early : EnvelopeView.parse twoFiles.json (frameLine "1" "5") = .ok (viewAt 1 5) := by
  have hobject : Splices.Envelope.textJson.object (lineOf (frameAt "1" "5")) =
      .ok (frameAt "1" "5", .ok ()) := by decide +kernel
  exact (parse_frameLine _ _ _ hobject).trans (by decide +kernel)

theorem parse_late : EnvelopeView.parse twoFiles.json (frameLine "9" "3") = .ok (viewAt 9 3) := by
  have hobject : Splices.Envelope.textJson.object (lineOf (frameAt "9" "3")) =
      .ok (frameAt "9" "3", .ok ()) := by decide +kernel
  exact (parse_frameLine _ _ _ hobject).trans (by decide +kernel)

/-- Two segments whose seals are true read to the end, though the second one starts before the
    first and its index does not follow. -/
theorem boundary_not_checked : ∃ records,
    ReadsAs twoFiles (LaneReader.new 0 [⟨"a", 0, some (sealOfOne 5 1)⟩, ⟨"b", 1, some (sealOfOne 3 9)⟩])
      records ∧
    ¬(records.IsChain fun a b => a.visibleNs ≤ b.visibleNs) ∧
    ¬records.IsChain fun a b => b.deliveryIndex = a.deliveryIndex + 1 := by
  have hearly : SegmentReads twoFiles 0 ⟨"a", 0, some (sealOfOne 5 1)⟩
      [recordAt 0 1 5 (frameLine "1" "5")] :=
    segmentReads_frameAt rfl (by decide +kernel) (by decide) parse_early
  have hlate : SegmentReads twoFiles 0 ⟨"b", 1, some (sealOfOne 3 9)⟩
      [recordAt 1 9 3 (frameLine "9" "3")] :=
    segmentReads_frameAt (by decide +kernel) (by decide +kernel) (by decide) parse_late
  refine ⟨_, readsAs_parts (.cons hearly (.cons hlate .nil)) rfl rfl rfl rfl, ?_, ?_⟩
  · simp [recordAt]
  · simp [recordAt]

end PredictionIndexer.Finalize
