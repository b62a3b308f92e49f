import PredictionIndexer.Spec.LaneRuns
import PredictionIndexer.Spec.SegmentRecords

/-!
# No accepted record is lost

A flush that raises retains the batch it was given, and nothing of what `consume` still had in hand:
the record that opened the next window, the records behind it. So a failure loses nothing as long as
it is the last thing a batch does. Then what is sealed, written, refused and queued is at every point
what was accepted, in order.

## Key results

- `run_closeKeeps`: every run that ends with a close, under that condition
-/

namespace PredictionIndexer.Splices

open Durable Durable.Program

/-! ## The property -/

/-- The lines of the records among the items. -/
def Item.lines (items : List Item) : List UInt8 := (items.filterMap Item.record?).flatMap (·.line)

/-- The order of windows, and of segment indexes in one window. -/
def Placement.Precedes (p q : Placement) : Prop :=
  p.startNs < q.startNs ∨ p.startNs = q.startNs ∧ p.segmentIndex < q.segmentIndex

/-- The bytes of a segment, under the one name or the other. -/
def SegmentFiles.data (f : SegmentFiles) : List UInt8 :=
  (f.dataFile.content.or f.openFile.content).getD []

namespace LaneState

def sealedSegments (s : LaneState) : List (Placement × SegmentFiles) :=
  s.segments.filter fun x => x.2.sealFile.content.join.isSome

/-- What is under the seals' names. -/
def marks (s : LaneState) : List (Placement × Entry (Option Seal)) :=
  s.segments.map fun x => (x.1, x.2.sealFile)

def placements (s : LaneState) : List Placement := s.segments.map (·.1)

end LaneState

/-- What a close keeps: when it returns a seal, the sealed segments hold what was accepted, in order;
    when some of it could not be written, it raises and publishes no seal. -/
structure CloseKeeps (accepted : List Item) (o : Outcome LaneState Raised (Option Seal))
    (s : LaneState) : Prop where
  returned : ∀ sidecar, o.result = .ok (some sidecar) →
    ((o.final s).sealedSegments.map (·.1)).Pairwise Placement.Precedes ∧
      (o.final s).sealedSegments.flatMap (·.2.dataFile.content.getD []) = Item.lines accepted
  refused : (o.final s).segments.flatMap (·.2.data) ≠ Item.lines accepted →
    (∃ e, o.result = .error e) ∧ (o.final s).marks = s.marks

/-! ## The condition -/

namespace Item

/-- A marker is for no earlier window than those of the items before it. -/
def Forward (segmentSeconds : Nat) : Item → Item → Prop
  | .record r, .rotate startNs => windowStartNs r.visibleNs segmentSeconds ≤ startNs
  | .rotate startNs, .rotate startNs' => startNs ≤ startNs'
  | _, .record _ => True

end Item

section Condition

variable (sha256 : List UInt8 → String) (c : LaneConfig)

/-- Nothing raises before the last flush of a batch, and when that one does no interval has elapsed,
    so that its batch is undone or the writer refuses every later one. -/
def Spares : List Item → List Record → LaneState → Prop
  | [], pending, s => Returns (LaneWriter.flush pending) s ∨ s.host.elapsed.headD false = false
  | .rotate startNs :: items, pending, s =>
    let t := ((LaneWriter.flush pending) s).final s
    Returns (LaneWriter.flush pending) s ∧ Returns (LaneWriter.rotateTo sha256 c startNs) t ∧
      Spares items [] (((LaneWriter.rotateTo sha256 c startNs) t).final t)
  | .record r :: items, pending, s =>
    if s.placement.endNs ≤ r.visibleNs then
      let startNs := windowStartNs r.visibleNs c.segmentSeconds
      let t := ((LaneWriter.flush pending) s).final s
      Returns (LaneWriter.flush pending) s ∧ Returns (LaneWriter.rotateTo sha256 c startNs) t ∧
        Spares items [r] (((LaneWriter.rotateTo sha256 c startNs) t).final t)
    else Spares items (pending ++ [r]) s

/-- Once a boundary is crossed nothing raises. -/
def Crosses : List Item → List Record → LaneState → Prop
  | [], _, _ => True
  | .rotate startNs :: items, pending, s =>
    Returns (LaneWriter.flush pending) s → Returns (do
      LaneWriter.rotateTo sha256 c startNs
      LaneWriter.consume sha256 c items []) (((LaneWriter.flush pending) s).final s)
  | .record r :: items, pending, s =>
    if s.placement.endNs ≤ r.visibleNs then
      Returns (LaneWriter.flush pending) s → Returns (do
        LaneWriter.rotateTo sha256 c (windowStartNs r.visibleNs c.segmentSeconds)
        LaneWriter.consume sha256 c items [r]) (((LaneWriter.flush pending) s).final s)
    else Crosses items (pending ++ [r]) s

namespace LaneEvent

/-- The condition on one event: a batch is spared, a close is too once it has crossed a boundary, and
    no writer is closed again after a close that raised. -/
def Spared (e : LaneEvent) (s : LaneState) : Prop :=
  match e with
  | .put _ => True
  | .drain size => s.lane.draining = true → s.lane.closed = false →
    Spares sha256 c (s.lane.queue.take (size + 1)) []
      { s with lane := { s.lane with queue := s.lane.queue.drop (size + 1) } }
  | .close _ =>
    (s.lane.closed = true → s.segment.sealed.isSome) ∧ (s.lane.closed = false →
      Crosses sha256 c (s.lane.unwritten.map .record ++ s.lane.queue) []
        { s with lane := { s.lane with
          closed := true, draining := false, unwritten := [], queue := [] } })

/-- Every event of a run meets it. -/
def RunSpared : List LaneEvent → LaneState → Prop
  | [], _ => True
  | e :: events, s => e.Spared sha256 c s ∧ RunSpared events (e.next sha256 c s)

end LaneEvent

end Condition

/-! ## Names -/

/-- A name is counted among those of a window. -/
def counted (startNs : Nat) (name : String) : Bool :=
  let stamp := (Moment.ofNanoseconds startNs).stamp ++ ['-']
  stamp.isPrefixOf name.toList &&
    ((beforeSuffix dataSuffix name).isSome || (beforeSuffix openSuffix name).isSome)

/-- Windows whose names begin alike. -/
def Placement.SameStamp (p : Placement) (startNs : Nat) : Prop :=
  (Moment.ofNanoseconds p.startNs).stamp = (Moment.ofNanoseconds startNs).stamp

instance (p : Placement) (startNs : Nat) : Decidable (p.SameStamp startNs) :=
  inferInstanceAs (Decidable (_ = _))

theorem isPrefixOf_dash {a b rest : List Char} (ha : '-' ∉ a) (hb : '-' ∉ b) :
    (a ++ ['-']).isPrefixOf (b ++ '-' :: rest) = decide (b = a) := by
  induction a generalizing b with
  | nil =>
    cases b with
    | nil => simp
    | cons y b =>
      rw [List.mem_cons, not_or] at hb
      simp [List.isPrefixOf, hb.1]
  | cons x a ih =>
    rw [List.mem_cons, not_or] at ha
    cases b with
    | nil => simp [List.isPrefixOf, Ne.symm ha.1]
    | cons y b =>
      rw [List.mem_cons, not_or] at hb
      have hrest := ih ha.2 hb.2
      simp only [List.cons_append, List.isPrefixOf_cons_cons, hrest]
      by_cases hxy : x = y
      · simp [hxy]
      · simp [hxy, Ne.symm hxy]

theorem counted_stem (p : Placement) (startNs : Nat) {suffix : String}
    (h : suffix = dataSuffix ∨ suffix = openSuffix) :
    counted startNs (p.stem ++ suffix) = decide (p.SameStamp startNs) := by
  have hsuffix : ((beforeSuffix dataSuffix (p.stem ++ suffix)).isSome ||
      (beforeSuffix openSuffix (p.stem ++ suffix)).isSome) = true := by
    rcases h with rfl | rfl
    · rw [beforeSuffix_append]
      rfl
    · rw [beforeSuffix_append, Option.isSome_some, Bool.or_true]
  unfold counted
  rw [hsuffix, Bool.and_true, Placement.stem, segmentFilename, String.toList_append,
    String.toList_append, String.toList_ofList, List.append_assoc, List.append_assoc,
    List.cons_append]
  exact isPrefixOf_dash (dash_notMem_stamp _) (dash_notMem_stamp _)

/-- A segment has its open name or its committed one. -/
def OneName (f : SegmentFiles) : Prop :=
  (f.openFile.now.isSome ∧ f.dataFile.now = none) ∨ (f.openFile.now = none ∧ f.dataFile.now.isSome)

theorem countP_dataNames {p : Placement} {f : SegmentFiles} (h : OneName f) (startNs : Nat) :
    (f.dataNames p).countP (counted startNs) = if p.SameStamp startNs then 1 else 0 := by
  have hopen := counted_stem p startNs (.inr rfl)
  have hdata := counted_stem p startNs (.inl rfl)
  rcases h with ⟨hsome, hnone⟩ | ⟨hnone, hsome⟩
  · have hnames : f.dataNames p = [p.stem ++ openSuffix] := by
      rw [SegmentFiles.dataNames, if_pos hsome, hnone]
      rfl
    rw [hnames, List.countP_singleton, hopen]
    simp
  · have hnames : f.dataNames p = [p.stem ++ dataSuffix] := by
      rw [SegmentFiles.dataNames, if_pos hsome, hnone]
      rfl
    rw [hnames, List.countP_singleton, hdata]
    simp

/-- Each segment counts once in its window. -/
theorem nextSegmentIndex_dataNames {s : LaneState} (h : ∀ p f, (p, f) ∈ s.segments → OneName f)
    (startNs : Nat) : nextSegmentIndex s.dataNames startNs =
      nextSegmentIndex s.present startNs + s.placements.countP (·.SameStamp startNs) := by
  have hsegments : ∀ l : List (Placement × SegmentFiles), (∀ p f, (p, f) ∈ l → OneName f) →
      (l.flatMap fun x => x.2.dataNames x.1).countP (counted startNs) =
        (l.map (·.1)).countP (·.SameStamp startNs) := by
    intro l hl
    induction l with
    | nil => rfl
    | cons x l ih =>
      rw [List.flatMap_cons, List.countP_append, List.map_cons, List.countP_cons,
        ih fun p f hmem => hl p f (List.mem_cons_of_mem _ hmem),
        countP_dataNames (hl x.1 x.2 List.mem_cons_self)]
      simp [Nat.add_comm]
  show (s.present ++ s.segments.flatMap fun x => x.2.dataNames x.1).countP (counted startNs) =
    s.present.countP (counted startNs) + _
  rw [List.countP_append, hsegments s.segments h]
  rfl

/-! ## What every event keeps -/

/-- The lines of the segments that are sealed, and of what the current one has taken in. -/
def LaneState.taken (s : LaneState) : List UInt8 :=
  s.earlier.flatMap (·.2.data) ++ s.segment.accumulator.digested

/-- Everything accepted is taken in or still ahead, and every segment but the current one is
    finished. -/
structure Flowing (c : LaneConfig) (flags : Bool × Bool × List Item) (accepted future hand : List Item)
    (s : LaneState) : Prop where
  flags : (s.lane.draining, s.lane.closed, s.lane.queue) = flags
  earlier : ∀ p f, (p, f) ∈ s.earlier → Finished f.data f
  held : Held s.segment s.files
  seconds : s.placement.segmentSeconds = c.segmentSeconds
  order : s.placements.Pairwise Placement.Precedes
  index : ∀ p ∈ s.placements, p.segmentIndex <
    nextSegmentIndex s.present p.startNs + s.placements.countP (·.SameStamp p.startNs)
  lines : s.taken ++ Item.lines (s.ahead hand []) = Item.lines accepted
  markers : ∀ startNs, .rotate startNs ∈ s.ahead hand future → s.placement.startNs ≤ startNs
  forward : (s.ahead hand future).Pairwise (Item.Forward c.segmentSeconds)
  /-- Behind a rollback that failed the writer refuses a record that belongs to the segment. -/
  sound : s.segment.writeFailure ≠ none → ∃ r,
    (s.lane.unwritten.map Item.record ++ hand).head? = some (.record r) ∧
    r.visibleNs < s.placement.endNs

/-- A writer that raised and sealed nothing. -/
structure Stopped (flags : Bool × Bool × List Item) (s t : LaneState) : Prop where
  flags : (t.lane.draining, t.lane.closed, t.lane.queue) = flags
  unsealed : t.segment.sealed = none
  marks : t.marks = s.marks

theorem lines_append (items items' : List Item) :
    Item.lines (items ++ items') = Item.lines items ++ Item.lines items' := by
  simp [Item.lines]

theorem lines_map_record (records : List Record) :
    Item.lines (records.map .record) = records.flatMap (·.line) := by
  simp [Item.lines, List.filterMap_map, Function.comp_def, Item.record?]

section Steps

variable {sha256 : List UInt8 → String} {c : LaneConfig} {flags : Bool × Bool × List Item}
  {accepted future hand : List Item} {s : LaneState}

/-- With nothing in hand that was refused, no rollback has failed. -/
theorem Flowing.sound_of_head (h : Flowing c flags accepted future hand s)
    (hhead : ∀ r, (s.lane.unwritten.map Item.record ++ hand).head? = some (.record r) →
      s.placement.endNs ≤ r.visibleNs) : s.segment.writeFailure = none := by
  by_contra hbroken
  obtain ⟨r, hr, hwindow⟩ := h.sound hbroken
  exact absurd (hhead r hr) (Nat.not_le.mpr hwindow)

/-- The current segment takes records in, and the lane moves on. -/
theorem Flowing.of_segment {t : SegmentState} {w : LaneWriter} {hand' : List Item}
    (h : Flowing c flags accepted future hand s) (hheld : On Held t)
    (hflags : (w.draining, w.closed, w.queue) = flags)
    (hlines : t.writer.accumulator.digested ++
      Item.lines (LaneState.ahead { s with lane := w } hand' []) =
      s.segment.accumulator.digested ++ Item.lines (s.ahead hand []))
    (hahead : (LaneState.ahead { s with lane := w } hand' future).Sublist (s.ahead hand future))
    (hsound : t.writer.writeFailure ≠ none → ∃ r,
      (w.unwritten.map Item.record ++ hand').head? = some (.record r) ∧
      r.visibleNs < s.placement.endNs) :
    Flowing c flags accepted future hand' { s.withCurrent t with lane := w } := by
  have hplacements : LaneState.placements { s.withCurrent t with lane := w } = s.placements := by
    simp [LaneState.placements, LaneState.segments, LaneState.withCurrent]
  refine ⟨hflags, h.earlier, hheld, h.seconds, ?_, ?_, ?_, ?_, h.forward.sublist hahead, hsound⟩
  · rw [hplacements]
    exact h.order
  · rw [hplacements]
    exact h.index
  · rw [← h.lines, LaneState.taken, LaneState.taken, List.append_assoc, List.append_assoc]
    exact congrArg _ hlines
  · exact fun startNs hmem => h.markers startNs (hahead.subset hmem)

/-- The records of the current segment are under no seal's name. -/
theorem marks_withCurrent {t : SegmentState} (h : t.files.sealFile = s.files.sealFile)
    (w : LaneWriter) : LaneState.marks { s.withCurrent t with lane := w } = s.marks := by
  simp [LaneState.marks, LaneState.segments, LaneState.withCurrent, h]

namespace LaneWriter

/-- What waits is taken in, or unwritten and not taken in. -/
theorem flush_flowing {pending : List Record} {rest : List Item}
    (h : Flowing c flags accepted future (pending.map .record ++ rest) s)
    (hunwritten : s.lane.unwritten = [])
    (hwindow : ∀ r ∈ pending, r.visibleNs < s.placement.endNs) :
    Yields (fun _ => True)
      (fun _ t => Flowing c flags accepted future rest t ∧ t.lane.unwritten = [] ∧
        t.placement = s.placement)
      (fun _ t => Stopped flags s t ∧ (s.host.elapsed.headD false = false → rest = [] →
        Flowing c flags accepted future [] t)) (flush pending) s := by
  unfold flush
  split
  · rename_i hempty
    rw [List.isEmpty_iff.mp hempty] at h
    exact Yields.pure ⟨h, hunwritten, rfl⟩
  · rename_i hsome
    have hheld := SegmentWriter.writeBatch_held pending (s := s.current) h.held
    have hlane : Yields (fun _ => True)
        (fun answer t => ∃ u, t = s.withCurrent u ∧ match answer with
          | .ok _ => On (fun w f => Held w f ∧ w.writeFailure = none ∧
              w.accumulator.digested = s.segment.accumulator.digested ++ pending.flatMap (·.line)) u
          | .error _ => On Held u ∧ (s.host.elapsed.headD false = false →
              u.writer.accumulator = s.segment.accumulator))
        (fun _ _ => False) (caught (onSegment (SegmentWriter.writeBatch pending))) s := by
      apply Yields.caught
      apply Yields.onSegment
      by_cases helapsed : s.host.elapsed.headD false = false
      · have hundone := SegmentWriter.writeBatch_undone pending (s := s.current) helapsed
        exact (hheld.and hundone).mono (fun _ _ => trivial) (fun _ t ht => ⟨t, rfl, ht.1⟩)
          fun _ t ht => ⟨t, rfl, ht.1, fun _ => ht.2⟩
      · exact hheld.mono (fun _ _ => trivial) (fun _ t ht => ⟨t, rfl, ht⟩)
          fun _ t ht => ⟨t, rfl, ht, fun hnot => (helapsed hnot).elim⟩
    apply (hlane.mono (fun _ => id) (fun _ _ => id) fun _ _ => False.elim).bind
    intro answer t ht
    obtain ⟨u, rfl, hu⟩ := ht
    cases answer with
    | error error =>
      have hstopped : Stopped flags s { s.withCurrent u with lane :=
          { s.lane with unwritten := s.lane.unwritten ++ pending, fatal := some error } } :=
        ⟨h.flags, hu.1.unsealed, marks_withCurrent (hu.1.free.trans h.held.free.symm) _⟩
      apply Yields.assignLane_bind trivial
      apply Yields.fail
      refine ⟨hstopped, fun helapsed hrest => ?_⟩
      subst hrest
      refine h.of_segment hu.1 h.flags ?_ ?_ fun _ => ?_
      · rw [hu.2 helapsed]
        simp [LaneState.ahead, hunwritten]
      · simp [LaneState.ahead, hunwritten]
      · cases pending with
        | nil => exact (hsome rfl).elim
        | cons r pending =>
          refine ⟨r, ?_, hwindow r List.mem_cons_self⟩
          simp [hunwritten]
    | ok _ =>
      apply Yields.write trivial
      refine ⟨h.of_segment hu.1 h.flags ?_ ?_ fun hbroken => (hbroken hu.2.1).elim, hunwritten, rfl⟩
      · rw [hu.2.2]
        simp [LaneState.ahead, hunwritten, lines_append, lines_map_record]
      · simp [LaneState.ahead, hunwritten]

end LaneWriter

theorem Held.oneName {w : SegmentWriter} {f : SegmentFiles} (h : Held w f) : OneName f := by
  rcases h.file with ⟨_, _, hdata, _, file, hnow, _⟩ | ⟨_, _, hdata, _, file, hnow, _⟩
  · exact .inl ⟨by rw [hnow]; rfl, by rw [hdata]⟩
  · exact .inl ⟨by rw [hnow]; rfl, by rw [hdata]⟩

theorem Finished.oneName {bytes : List UInt8} {f : SegmentFiles} (h : Finished bytes f) :
    OneName f := by
  refine .inr ⟨h.renamed, ?_⟩
  have hdata := h.data
  unfold Entry.content at hdata
  obtain ⟨file, hnow, _⟩ := Option.map_eq_some_iff.mp hdata
  rw [hnow]
  rfl

theorem Finished.data_eq {bytes : List UInt8} {f : SegmentFiles} (h : Finished bytes f) :
    f.data = bytes := by
  rw [SegmentFiles.data, h.data]
  rfl

/-- Every segment is finished, the current one among them. -/
structure AllFinished (c : LaneConfig) (flags : Bool × Bool × List Item) (accepted future hand : List Item)
    (s : LaneState) : Prop where
  flags : (s.lane.draining, s.lane.closed, s.lane.queue) = flags
  finished : ∀ p f, (p, f) ∈ s.segments → Finished f.data f
  order : s.placements.Pairwise Placement.Precedes
  index : ∀ p ∈ s.placements, p.segmentIndex <
    nextSegmentIndex s.present p.startNs + s.placements.countP (·.SameStamp p.startNs)
  lines : s.segments.flatMap (·.2.data) ++ Item.lines (s.ahead hand []) = Item.lines accepted
  markers : ∀ startNs, .rotate startNs ∈ s.ahead hand future → s.placement.startNs ≤ startNs
  forward : (s.ahead hand future).Pairwise (Item.Forward c.segmentSeconds)
  sealed : s.segment.sealed.isSome

namespace LaneWriter

/-- The current segment is finished, or it is not and all its bytes are there. -/
theorem sealCurrent_flowing (sha256 : List UInt8 → String) (reason : String)
    (h : Flowing c flags accepted future hand s)
    (hsound : s.segment.writeFailure = none) :
    Yields (fun _ => True)
      (fun _ t => AllFinished c flags accepted future hand t ∧ t.placement = s.placement ∧
        t.lane.unwritten = s.lane.unwritten ∧ t.lane.queue = s.lane.queue)
      (fun _ t => (t.lane.draining, t.lane.closed, t.lane.queue) = flags ∧ t.segment.sealed = none ∧
        t.segments.flatMap (·.2.data) ++ Item.lines (s.ahead hand []) = Item.lines accepted)
      (sealCurrent sha256 c reason) s := by
  have hsegment := SegmentWriter.sealSegment_finished sha256 s.placement reason (metrics c s.lane)
    (s := s.current) h.held hsound
  have hlines : ∀ u : SegmentState, u.files.data = s.segment.accumulator.digested →
      (s.withCurrent u).segments.flatMap (·.2.data) = s.taken := by
    intro u hu
    simp [LaneState.segments, LaneState.withCurrent, LaneState.taken, hu]
  apply Yields.read_bind
  have hlane : Yields (fun _ => True)
      (fun _ t => ∃ u, t = s.withCurrent u ∧
        Finished s.segment.accumulator.digested u.files ∧ u.writer.sealed.isSome)
      (fun _ t => (t.lane.draining, t.lane.closed, t.lane.queue) = flags ∧ t.segment.sealed = none ∧
        t.segments.flatMap (·.2.data) ++ Item.lines (s.ahead hand []) = Item.lines accepted)
      (onSegment (SegmentWriter.sealSegment sha256 s.placement reason (metrics c s.lane))) s := by
    apply Yields.onSegment
    refine hsegment.mono (fun _ _ => trivial) ?_ ?_
    · exact fun _ u hu => ⟨u, rfl, hu⟩
    · intro _ u hu
      refine ⟨h.flags, hu.1, ?_⟩
      rw [hlines u (by rw [SegmentFiles.data, hu.2]; rfl)]
      exact h.lines
  apply hlane.bind
  intro sidecar t ht
  obtain ⟨u, rfl, hfinished, hsealed⟩ := ht
  apply Yields.assignLane_bind trivial
  apply Yields.pure
  have hplacements : LaneState.placements { s.withCurrent u with lane :=
      { (s.withCurrent u).lane with seals := (s.withCurrent u).lane.seals ++ [sidecar] } } =
      s.placements := by
    simp [LaneState.placements, LaneState.segments, LaneState.withCurrent]
  refine ⟨⟨h.flags, ?_, ?_, ?_, ?_, h.markers, h.forward, hsealed⟩, rfl, rfl, rfl⟩
  · intro p f hmem
    rcases List.mem_append.mp hmem with hearlier | hcurrent
    · exact h.earlier p f hearlier
    · cases List.mem_singleton.mp hcurrent
      show Finished u.files.data u.files
      rw [hfinished.data_eq]
      exact hfinished
  · rw [hplacements]
    exact h.order
  · rw [hplacements]
    exact h.index
  · exact (congrArg (· ++ _) (hlines u hfinished.data_eq)).trans h.lines

/-- The next segment is opened, under a name that sorts behind the others. -/
theorem openSegment_flowing {startNs : Nat} (h : AllFinished c flags accepted future hand s)
    (hforward : s.placement.startNs ≤ startNs)
    (hmarkers : ∀ startNs', .rotate startNs' ∈ s.ahead hand future → startNs ≤ startNs') :
    Yields (fun _ => True)
      (fun _ t => Flowing c flags accepted future hand t ∧ t.lane = s.lane ∧
        t.placement.startNs = startNs)
      (fun _ _ => True) (openSegment c startNs) s := by
  apply Yields.read_bind
  apply Yields.bind (Q := fun _ t => ∃ host, t = { s with host := host })
  · exact Yields.tokenHex fun _ host => ⟨trivial, host, rfl⟩
  intro segmentId t ht
  obtain ⟨host, rfl⟩ := ht
  apply Yields.bind (Q := fun _ t => ∃ host, t = { s with host := host })
  · exact Yields.laneCall (fun _ host => ⟨trivial, trivial⟩) fun host => ⟨trivial, host, rfl⟩
  intro _ t ht
  obtain ⟨host, rfl⟩ := ht
  split
  · exact Yields.fail trivial
  · have hone : ∀ p f, (p, f) ∈ s.segments → OneName f :=
      fun p f hmem => (h.finished p f hmem).oneName
    have hcount := nextSegmentIndex_dataNames hone startNs
    generalize hp : (⟨c.lane, startNs, c.segmentSeconds, nextSegmentIndex s.dataNames startNs,
      segmentId.val⟩ : Placement) = p
    have hstart : p.startNs = startNs := by rw [← hp]
    have hindex : p.segmentIndex = nextSegmentIndex s.present startNs +
        s.placements.countP (·.SameStamp startNs) := by
      rw [← hcount, ← hp]
    have hprecedes : ∀ q ∈ s.placements, q.Precedes p := by
      intro q hq
      have hbehind : q.startNs ≤ s.placement.startNs := by
        have horder := h.order
        rw [LaneState.placements, LaneState.segments, List.map_append] at hq horder
        rcases List.mem_append.mp hq with hearlier | hcurrent
        · have hbefore := (List.pairwise_append.mp horder).2.2 q hearlier s.placement
            List.mem_cons_self
          rcases hbefore with hlt | ⟨heq, _⟩
          · exact Nat.le_of_lt hlt
          · exact Nat.le_of_eq heq
        · rw [List.mem_singleton.mp hcurrent]
      rcases Nat.lt_or_eq_of_le (Nat.le_trans hbehind hforward) with hlt | heq
      · exact .inl (hstart ▸ hlt)
      · right
        rw [hstart, hindex]
        refine ⟨heq, ?_⟩
        have hq' := h.index q hq
        rwa [heq] at hq'
    have hopened : ∀ host, Flowing c flags accepted future hand (install p { s with host := host }) := by
      intro host
      have hplacements : (install p { s with host := host }).placements = s.placements ++ [p] := by
        show (s.segments ++ [(p, _)]).map _ = _
        rw [List.map_append]
        rfl
      have hheld : Held (install p { s with host := host }).segment
          (install p { s with host := host }).files :=
        ⟨rfl, rfl, .inl ⟨rfl, rfl, rfl, rfl, _, rfl, rfl⟩⟩
      refine ⟨h.flags, h.finished, hheld, ?_, ?_, ?_, ?_, ?_, h.forward,
        fun hbroken => (hbroken rfl).elim⟩
      · show p.segmentSeconds = c.segmentSeconds
        rw [← hp]
      · rw [hplacements, List.pairwise_append]
        refine ⟨h.order, List.pairwise_singleton _ _, ?_⟩
        intro q hq p' hp'
        rw [List.mem_singleton.mp hp']
        exact hprecedes q hq
      · rw [hplacements]
        intro q hq
        rw [List.countP_append]
        rcases List.mem_append.mp hq with hearlier | hnew
        · have := h.index q hearlier
          show q.segmentIndex < nextSegmentIndex s.present q.startNs + _
          omega
        · rw [List.mem_singleton.mp hnew, List.countP_singleton, if_pos (by simp [Placement.SameStamp]),
            hstart, hindex]
          show _ < nextSegmentIndex s.present startNs + _
          omega
      · show (s.segments.flatMap (·.2.data) ++ []) ++ _ = _
        rw [List.append_nil]
        exact h.lines
      · show ∀ startNs', _ → p.startNs ≤ startNs'
        rw [hstart]
        exact hmarkers
    exact Yields.laneCall (fun _ host => ⟨trivial, trivial⟩)
      fun host => ⟨trivial, hopened host, rfl, hstart⟩

/-- The current segment is finished and the next one opened. -/
theorem rotateTo_flowing (sha256 : List UInt8 → String) {startNs : Nat} (h : Flowing c flags accepted future hand s)
    (hsound : s.segment.writeFailure = none) (hforward : s.placement.startNs ≤ startNs)
    (hmarkers : ∀ startNs', .rotate startNs' ∈ s.ahead hand future → startNs ≤ startNs') :
    Yields (fun _ => True)
      (fun _ t => Flowing c flags accepted future hand t ∧ t.lane.unwritten = s.lane.unwritten ∧
        t.placement.startNs = startNs)
      (fun _ _ => True) (rotateTo sha256 c startNs) s := by
  apply ((sealCurrent_flowing sha256 "boundary" h hsound).mono (fun _ => id) (fun _ _ => id)
    fun _ _ _ => trivial).bind
  intro sidecar t ht
  obtain ⟨hend, hplacement, hunwritten, hqueue⟩ := ht
  have hkept : AllFinished c flags accepted future hand { t with lane := { t.lane with
      previousVisibleNs := sidecar.lastVisibleNs.or t.lane.previousVisibleNs } } :=
    ⟨hend.flags, hend.finished, hend.order, hend.index, hend.lines, hend.markers, hend.forward,
      hend.sealed⟩
  apply Yields.assignLane_bind trivial
  have hopened := openSegment_flowing hkept (hplacement ▸ hforward) (by
    intro startNs' hmem
    refine hmarkers startNs' ?_
    simpa only [LaneState.ahead, hunwritten, hqueue] using hmem)
  refine hopened.mono (fun _ => id) ?_ fun _ _ => id
  intro _ u hu
  obtain ⟨hu, hlane, hstart⟩ := hu
  refine ⟨hu, ?_, hstart⟩
  rw [hlane]
  exact hunwritten

end LaneWriter
/-- Markers behind an item are for its window or a later one. -/
theorem markers_of_rotate {startNs : Nat} {l : List Item}
    (h : (Item.rotate startNs :: l).Pairwise (Item.Forward c.segmentSeconds)) :
    ∀ startNs', .rotate startNs' ∈ l → startNs ≤ startNs' :=
  fun _ hmem => List.rel_of_pairwise_cons h hmem

theorem markers_of_record {r : Record} {l : List Item}
    (h : (Item.record r :: l).Pairwise (Item.Forward c.segmentSeconds)) :
    ∀ startNs', .rotate startNs' ∈ Item.record r :: l →
      windowStartNs r.visibleNs c.segmentSeconds ≤ startNs' := by
  intro startNs' hmem
  rcases List.mem_cons.mp hmem with hfirst | hlater
  · cases hfirst
  · exact List.rel_of_pairwise_cons h hlater

namespace LaneWriter

/-- A boundary: what waits is flushed, the window moves, and the rest of the batch is consumed from
    there. What raises is no flush and no move of a batch that is spared, and no part of a close that
    has crossed the boundary. -/
theorem boundary_flowing (pending' : List Record) (rest' : List Item) {pending : List Record}
    {rest : List Item} {startNs : Nat} {P : LaneState → Prop} {next : LaneProgram Unit}
    (h : Flowing c flags accepted future (pending.map .record ++ rest) s)
    (hunwritten : s.lane.unwritten = [])
    (hwindow : ∀ r ∈ pending, r.visibleNs < s.placement.endNs)
    (hflushed : ∀ t, Flowing c flags accepted future rest t → t.lane.unwritten = [] →
      t.placement = s.placement → t.segment.writeFailure = none ∧ s.placement.startNs ≤ startNs ∧
        Flowing c flags accepted future (pending'.map .record ++ rest') t ∧
        ∀ startNs', .rotate startNs' ∈ t.ahead (pending'.map .record ++ rest') future →
          startNs ≤ startNs')
    (hnext : ∀ u, Flowing c flags accepted future (pending'.map .record ++ rest') u →
      u.lane.unwritten = [] → u.placement.startNs = startNs →
      Yields (fun _ => True)
        (fun _ t => Flowing c flags accepted future [] t ∧ t.lane.unwritten = [])
        (fun _ t => P u → Flowing c flags accepted future [] t) next u) :
    let t := ((flush pending) s).final s
    Yields (fun _ => True)
      (fun _ t => Flowing c flags accepted future [] t ∧ t.lane.unwritten = [])
      (fun _ v => (Returns (flush pending) s ∧ Returns (rotateTo sha256 c startNs) t ∧
          P (((rotateTo sha256 c startNs) t).final t) → Flowing c flags accepted future [] v) ∧
        ((Returns (flush pending) s → Returns (do rotateTo sha256 c startNs; next) t) →
          Stopped flags s v))
      (do flush pending; rotateTo sha256 c startNs; next) s := by
  intro t₀
  have hflush := (flush_flowing h hunwritten hwindow).traced
  refine (hflush.mono (fun _ => id) (fun _ _ => id) ?_).bind ?_
  · intro e t ht
    exact ⟨fun hspared => (hspared.1.ne_error ht.2.1).elim, fun _ => ht.1.1⟩
  · intro a t ht
    obtain ⟨⟨hflowing, hempty, hplacement⟩, hresult, hfinal⟩ := ht
    have hfinal' : t = t₀ := hfinal
    obtain ⟨hsound, hforward, hahead, hmarkers⟩ := hflushed t hflowing hempty hplacement
    have hrotated := (rotateTo_flowing sha256 hahead hsound (hplacement ▸ hforward)
      hmarkers).traced
    have hrest : Yields (fun _ => True)
        (fun _ v => Flowing c flags accepted future [] v ∧ v.lane.unwritten = [])
        (fun _ v => Returns (rotateTo sha256 c startNs) t ∧
          P (((rotateTo sha256 c startNs) t).final t) → Flowing c flags accepted future [] v)
        (do rotateTo sha256 c startNs; next) t := by
      refine (hrotated.mono (fun _ => id) (fun _ _ => id) ?_).bind ?_
      · exact fun e u hu hspared => (hspared.1.ne_error hu.2.1).elim
      · intro _ u hu
        obtain ⟨⟨hu, hempty', hstart⟩, _, hfinal''⟩ := hu
        refine (hnext u hu (hempty'.trans hempty) hstart).mono (fun _ => id) (fun _ _ => id) ?_
        intro e v hv hspared
        rw [← hfinal''] at hspared
        exact hv hspared.2
    refine hrest.traced.mono (fun _ => id) (fun _ _ hv => hv.1) ?_
    intro e v hv
    rw [← hfinal']
    exact ⟨fun hspared => hv.1 hspared.2,
      fun hcrosses => ((hcrosses ⟨a, hresult⟩).ne_error hv.2.1).elim⟩

/-- A batch, by induction on what is left of it: behind a batch that is spared nothing is lost, and a
    close that raises has sealed nothing. -/
theorem consume_flowing (sha256 : List UInt8 → String) {batch : List Item} (pending : List Record)
    (h : Flowing c flags accepted future (pending.map .record ++ batch) s)
    (hunwritten : s.lane.unwritten = [])
    (hwindow : ∀ r ∈ pending, r.visibleNs < s.placement.endNs) :
    Yields (fun _ => True)
      (fun _ t => Flowing c flags accepted future [] t ∧ t.lane.unwritten = [])
      (fun _ t => (Spares sha256 c batch pending s → Flowing c flags accepted future [] t) ∧
        (Crosses sha256 c batch pending s → Stopped flags s t))
      (consume sha256 c batch pending) s := by
  induction batch generalizing pending s with
  | nil =>
    refine (flush_flowing h hunwritten hwindow).traced.mono (fun _ => id) ?_ ?_
    · exact fun _ t ht => ⟨ht.1.1, ht.1.2.1⟩
    · intro e t ht
      refine ⟨fun hspared => ?_, fun _ => ht.1.1⟩
      rcases hspared with hreturns | helapsed
      · exact (hreturns.ne_error ht.2.1).elim
      · exact ht.1.2 helapsed rfl
  | cons x batch ih =>
    cases x with
    | rotate startNs =>
      refine boundary_flowing [] batch
        (P := Spares sha256 c batch []) h hunwritten hwindow ?_ ?_
      · intro t hflowing hempty hplacement
        have hahead : t.ahead (.rotate startNs :: batch) future =
            .rotate startNs :: t.ahead batch future := by
          simp [LaneState.ahead, hempty]
        have hsound : t.segment.writeFailure = none := hflowing.sound_of_head (by
          intro r hr
          rw [hempty] at hr
          cases hr)
        refine ⟨hsound, ?_, ?_, markers_of_rotate (hahead ▸ hflowing.forward)⟩
        · rw [← hplacement]
          exact hflowing.markers startNs (hahead ▸ List.mem_cons_self)
        · have hlines : Item.lines (t.ahead (.rotate startNs :: batch) []) =
              Item.lines (t.ahead batch []) := by
            simp only [LaneState.ahead, hempty, List.map_nil, List.nil_append, List.cons_append]
            rfl
          refine ⟨hflowing.flags, hflowing.earlier, hflowing.held, hflowing.seconds, hflowing.order,
            hflowing.index, hlines ▸ hflowing.lines, ?_, ?_, fun hbroken => (hbroken hsound).elim⟩
          · exact fun startNs' hmem =>
              hflowing.markers startNs' (hahead ▸ List.mem_cons_of_mem _ hmem)
          · exact (List.pairwise_cons.mp (hahead ▸ hflowing.forward)).2
      · intro u hu hempty _
        exact (ih [] hu hempty fun _ hr => nomatch hr).mono (fun _ => id)
          (fun _ _ => id) fun _ _ hv => hv.1
    | record r =>
      unfold Spares Crosses
      apply Yields.read_bind
      split
      · rename_i hlate
        refine boundary_flowing [r] batch
          (P := Spares sha256 c batch [r]) h hunwritten hwindow ?_ ?_
        · intro t hflowing hempty hplacement
          have hahead : t.ahead (.record r :: batch) future =
              .record r :: t.ahead batch future := by
            simp [LaneState.ahead, hempty]
          have hsound : t.segment.writeFailure = none := hflowing.sound_of_head (by
            intro r' hr'
            rw [hempty] at hr'
            cases hr'
            rw [hplacement]
            exact hlate)
          refine ⟨hsound, ?_, hflowing, ?_⟩
          · -- the window of a record that is not in the current one is a later one
            have hend : r.visibleNs < windowStartNs r.visibleNs c.segmentSeconds +
                c.segmentSeconds * nanoseconds := lt_windowStartNs_add c.positive
            rw [Placement.endNs, h.seconds] at hlate
            omega
          · show ∀ startNs', _ ∈ t.ahead (.record r :: batch) future → _
            rw [hahead]
            exact markers_of_record (hahead ▸ hflowing.forward)
        · intro u hu hempty hstart
          refine (ih [r] hu hempty ?_).mono (fun _ => id) (fun _ _ => id)
            fun _ _ hv => hv.1
          intro r' hr'
          rw [List.mem_singleton.mp hr', Placement.endNs, hstart, hu.seconds]
          exact lt_windowStartNs_add c.positive
      · rename_i hearly
        apply ih
        · simpa using h
        · exact hunwritten
        · intro r' hr'
          rcases List.mem_append.mp hr' with hpending | hlast
          · exact hwindow r' hpending
          · rw [List.mem_singleton.mp hlast]
            exact Nat.lt_of_not_le hearly

end LaneWriter
/-! ## Events -/

/-- Between two events of a writer that is not closed. -/
def Running (c : LaneConfig) (accepted future : List Item) (s : LaneState) : Prop :=
  Flowing c (s.lane.draining, false, s.lane.queue) accepted future [] s ∧
    (s.lane.draining = true → s.lane.unwritten = [])

/-- Everything accepted is in segments that are finished. -/
structure Done (accepted : List Item) (s : LaneState) : Prop where
  finished : ∀ p f, (p, f) ∈ s.segments → Finished f.data f
  order : s.placements.Pairwise Placement.Precedes
  lines : s.segments.flatMap (·.2.data) = Item.lines accepted

/-- What holds between two events: a writer that was closed has finished its last segment or has not
    sealed it. -/
def Kept (c : LaneConfig) (accepted future : List Item) (s : LaneState) : Prop :=
  Running c accepted future s ∨
    s.lane.closed = true ∧ (s.segment.sealed = none ∨ Done accepted s)

theorem Flowing.running (h : Flowing c flags accepted future [] s) (hopen : s.lane.closed = false)
    (hunwritten : s.lane.draining = true → s.lane.unwritten = []) : Running c accepted future s := by
  refine ⟨⟨?_, h.earlier, h.held, h.seconds, h.order, h.index, h.lines, h.markers, h.forward,
    h.sound⟩, hunwritten⟩
  rw [hopen]

/-- Items are taken from the queue into the hand. -/
theorem Flowing.of_hand {w : LaneWriter} (hand' : List Item)
    (h : Flowing c flags accepted future hand s)
    (hahead : ∀ future, LaneState.ahead { s with lane := w } hand' future = s.ahead hand future)
    (hhead : s.segment.writeFailure ≠ none →
      (w.unwritten.map Item.record ++ hand').head? =
        (s.lane.unwritten.map Item.record ++ hand).head?) :
    Flowing c (w.draining, w.closed, w.queue) accepted future hand' { s with lane := w } := by
  refine ⟨rfl, h.earlier, h.held, h.seconds, h.order, h.index, ?_, ?_, ?_, ?_⟩
  · rw [hahead]
    exact h.lines
  · rw [hahead]
    exact h.markers
  · rw [hahead]
    exact h.forward
  · intro hbroken
    rw [hhead hbroken]
    exact h.sound hbroken

namespace LaneWriter

theorem apply_flowing {batch : List Item} (drained : Bool)
    (h : Flowing c flags accepted future batch s) (hunwritten : s.lane.unwritten = [])
    (hspared : Spares sha256 c batch [] s) :
    Yields (fun _ => True)
      (fun _ t => Flowing c flags accepted future [] t ∧ t.lane.unwritten = [])
      (fun _ t => Flowing c flags accepted future [] t) (apply sha256 c batch drained) s := by
  have hconsumed := consume_flowing sha256 [] h hunwritten
    fun _ hr => nomatch hr
  apply (hconsumed.mono (fun _ => id) (fun _ _ => id) fun _ _ ht => ht.1 hspared).bind
  intro _ t ht
  obtain ⟨hend, hempty⟩ := ht
  split
  · have hkept : ∀ u : SegmentState, On (fun w f => Held w f ∧
        w.accumulator = t.segment.accumulator ∧ w.writeFailure = t.segment.writeFailure) u →
        Flowing c flags accepted future [] (t.withCurrent u) := by
      intro u hu
      refine hend.of_segment hu.1 hend.flags ?_ (List.Sublist.refl _) ?_
      · rw [hu.2.1]
      · rw [hu.2.2]
        exact hend.sound
    have hsynced := SegmentWriter.fsyncIfDue_held true (s := t.current) hend.held
    apply Yields.bind (Q := fun _ u => Flowing c flags accepted future [] u ∧ u.lane.unwritten = [])
    · apply Yields.onSegment
      refine hsynced.mono (fun _ _ => trivial) ?_ ?_
      · exact fun _ u hu => ⟨hkept u hu, hempty⟩
      · exact fun _ u hu => hkept u hu
    · exact fun _ u hu => Yields.pure hu
  · exact Yields.pure ⟨hend, hempty⟩

theorem drain_running {size : Nat} (h : Running c accepted future s)
    (hspared : (LaneEvent.drain size).Spared sha256 c s) :
    Yields (fun _ => True) (fun _ => Running c accepted future)
      (fun _ => Running c accepted future) (drain sha256 c size) s := by
  have hopen : s.lane.closed = false := congrArg (·.2.1) h.1.flags
  apply Yields.read_bind
  split
  · exact Yields.pure h
  · rename_i hturn
    have hdraining : s.lane.draining = true := by
      simp only [Bool.or_eq_true, Bool.not_eq_true', not_or, Bool.not_eq_false] at hturn
      exact hturn.1.1
    have hunwritten := h.2 hdraining
    have hsound : s.segment.writeFailure = none := h.1.sound_of_head (by
      intro r hr
      rw [hunwritten] at hr
      cases hr)
    have htaken := h.1.of_hand (w := { s.lane with queue := s.lane.queue.drop (size + 1) })
      (s.lane.queue.take (size + 1)) (by
        intro future
        rw [LaneState.ahead, LaneState.ahead, ← List.append_assoc (List.take _ _),
          List.take_append_drop]
        rfl) fun hbroken => (hbroken hsound).elim
    apply Yields.assignLane_bind trivial
    have happly := apply_flowing (s.lane.queue.drop (size + 1)).isEmpty htaken
      hunwritten (hspared hdraining hopen)
    apply Yields.bind (Q := fun answer t => Flowing c (s.lane.draining, s.lane.closed,
      s.lane.queue.drop (size + 1)) accepted future [] t ∧
      ∀ u, answer = .ok u → t.lane.unwritten = [])
    · apply Yields.caught
      refine happly.mono (fun _ => id) ?_ ?_
      · exact fun _ t ht => ⟨ht.1, fun _ _ => ht.2⟩
      · exact fun _ t ht => ⟨ht, fun _ heq => nomatch heq⟩
    · intro answer t ht
      obtain ⟨hend, hdone⟩ := ht
      have hopen' : t.lane.closed = false := (congrArg (·.2.1) hend.flags).trans hopen
      cases answer with
      | error e =>
        have hstopped := hend.of_hand (w := { t.lane with draining := false }) []
          (fun _ => rfl) fun _ => rfl
        exact Yields.write trivial (hstopped.running hopen' fun hfalse => nomatch hfalse)
      | ok u => exact Yields.pure (hend.running hopen' fun _ => hdone u rfl)

theorem put_kept {item : Item}
    (h : Kept c accepted (((LaneEvent.put item).accepts c s).toList ++ future) s) :
    Yields (fun _ => True)
      (fun _ => Kept c (accepted ++ ((LaneEvent.put item).accepts c s).toList) future)
      (fun _ => Kept c (accepted ++ ((LaneEvent.put item).accepts c s).toList) future)
      (put c item) s := by
  -- an item that is refused is not accepted
  have hqueued : ∀ w : LaneWriter, w.queue = s.lane.queue ++ [item] → w.unwritten = s.lane.unwritten →
      w.draining = s.lane.draining → w.closed = s.lane.closed →
      (∀ r, item = .record r → s.lane.closed = false) →
      (LaneEvent.put item).accepts c s = some item →
      Kept c (accepted ++ ((LaneEvent.put item).accepts c s).toList) future
        { s with lane := w } := by
    intro w hqueue hunwritten hdraining hclosed hrecord haccepts
    rw [haccepts] at h ⊢
    rcases h with ⟨hflowing, hempty⟩ | ⟨hclosed', hend⟩
    · left
      have hahead : LaneState.ahead { s with lane := w } [] future =
          s.ahead [] ((some item).toList ++ future) := by
        simp [LaneState.ahead, hqueue, hunwritten]
      refine ⟨⟨?_, hflowing.earlier, hflowing.held, hflowing.seconds, hflowing.order,
        hflowing.index, ?_, ?_, ?_, hunwritten ▸ hflowing.sound⟩, ?_⟩
      · show (w.draining, w.closed, w.queue) = (w.draining, false, w.queue)
        rw [hclosed]
        exact congrArg (fun x => (w.draining, x.2.1, w.queue)) hflowing.flags
      · have hlines := hflowing.lines
        rw [lines_append, ← hlines, List.append_assoc]
        simp [LaneState.ahead, LaneState.taken, hqueue, hunwritten, lines_append]
      · rw [hahead]
        exact hflowing.markers
      · rw [hahead]
        exact hflowing.forward
      · intro hdrains
        exact hunwritten.trans (hempty (hdraining ▸ hdrains))
    · right
      refine ⟨hclosed.trans hclosed', ?_⟩
      rcases hend with hsealed | hdone
      · exact .inl hsealed
      · right
        refine ⟨hdone.finished, hdone.order, ?_⟩
        cases item with
        | rotate startNs =>
          rw [lines_append]
          exact hdone.lines.trans (List.append_nil _).symm
        | record r =>
          rw [hrecord r rfl] at hclosed'
          cases hclosed'
  have hrefused : (LaneEvent.put item).accepts c s = none →
      Kept c (accepted ++ ((LaneEvent.put item).accepts c s).toList) future s := by
    intro hnone
    rw [hnone] at h ⊢
    simpa using h
  unfold put
  apply Yields.read_bind
  cases item with
  | rotate startNs =>
    exact Yields.write trivial (hqueued { s.lane with queue := s.lane.queue ++ [.rotate startNs] }
      rfl rfl rfl rfl (fun _ heq => nomatch heq) rfl)
  | record r =>
    dsimp only
    cases hclosed : s.lane.closed with
    | true =>
      refine Yields.fail (hrefused ?_)
      simp [accepts_record, hclosed]
    | false =>
      cases hfatal : s.lane.fatal with
      | some error =>
        refine Yields.fail (hrefused ?_)
        simp [accepts_record, hfatal]
      | none =>
        exact Yields.write trivial (hqueued { s.lane with
          queue := s.lane.queue ++ [.record r]
          queueFullEvents := s.lane.queueFullEvents +
            if c.queueCapacity ≤ s.lane.queue.length then 1 else 0
          queueHighWater := max s.lane.queueHighWater (s.lane.queue.length + 1) } rfl rfl rfl rfl
          (fun _ _ => hclosed) (by simp [accepts_record, hclosed, hfatal]))

/-- A close that returns has everything in finished segments; one that raises has all the bytes in
    place or has sealed nothing. -/
theorem close_kept {reason : String} (h : Kept c accepted future s)
    (hspared : (LaneEvent.close reason).Spared sha256 c s) :
    Yields (fun _ => True)
      (fun _ t => Kept c accepted future t ∧ Done accepted t)
      (fun _ t => Kept c accepted future t ∧
        (t.segments.flatMap (·.2.data) = Item.lines accepted ∨ t.marks = s.marks))
      (close sha256 c reason) s := by
  apply Yields.read_bind
  rcases h with ⟨hflowing, hunwritten⟩ | ⟨hclosed, hend⟩
  · have hopen : s.lane.closed = false := congrArg (·.2.1) hflowing.flags
    rw [if_neg (by rw [hopen]; decide)]
    apply Yields.assignLane_bind trivial
    have htaken := hflowing.of_hand (w := { s.lane with
        closed := true, draining := false, unwritten := [], queue := [] })
      (s.lane.unwritten.map .record ++ s.lane.queue)
      (by intro future; simp [LaneState.ahead]) (by
        -- what was refused comes first
        intro hbroken
        obtain ⟨r, hr, _⟩ := hflowing.sound hbroken
        rw [hr]
        rw [List.append_nil] at hr
        rw [List.map_nil, List.nil_append, List.head?_append, hr]
        rfl)
    have hconsumed := consume_flowing sha256 [] htaken rfl
      fun _ hr => nomatch hr
    refine (hconsumed.mono (fun _ => id) (fun _ _ => id) ?_).bind ?_
    · intro e t ht
      have hstopped := ht.2 (hspared.2 hopen)
      exact ⟨.inr ⟨congrArg (·.2.1) hstopped.flags, .inl hstopped.unsealed⟩, .inr hstopped.marks⟩
    · intro _ t ht
      obtain ⟨hend, hempty⟩ := ht
      apply Yields.read_bind
      rw [if_neg (by rw [hempty]; decide)]
      have hsound : t.segment.writeFailure = none := hend.sound_of_head (by
        intro r hr
        rw [hempty] at hr
        cases hr)
      have hahead : Item.lines (t.ahead [] []) = [] := by
        have hqueue : t.lane.queue = [] := congrArg (·.2.2) hend.flags
        simp [LaneState.ahead, hempty, hqueue, Item.lines]
      have hsealed := sealCurrent_flowing sha256 reason hend hsound
      refine (hsealed.mono (fun _ => id) (fun _ _ => id) ?_).bind ?_
      · intro e u hu
        obtain ⟨hflags, hunsealed, hlines⟩ := hu
        rw [hahead, List.append_nil] at hlines
        exact ⟨.inr ⟨congrArg (·.2.1) hflags, .inl hunsealed⟩, .inl hlines⟩
      · intro sidecar u hu
        obtain ⟨hall, _, hunwritten', hqueue'⟩ := hu
        have hlines := hall.lines
        rw [LaneState.ahead, hunwritten', hqueue'] at hlines
        have hdone : Done accepted u := by
          refine ⟨hall.finished, hall.order, ?_⟩
          have hnone : Item.lines (List.map Item.record t.lane.unwritten ++ ([] ++ (t.lane.queue ++ []))) =
              [] := hahead
          rw [hnone, List.append_nil] at hlines
          exact hlines
        exact Yields.pure ⟨.inr ⟨congrArg (·.2.1) hall.flags, .inr hdone⟩, hdone⟩
  · rw [if_pos hclosed]
    apply Yields.pure
    rcases hend with hsealed | hdone
    · have hsome := hspared.1 hclosed
      rw [hsealed] at hsome
      cases hsome
    · exact ⟨.inr ⟨hclosed, .inr hdone⟩, hdone⟩

end LaneWriter
theorem perform_kept {e : LaneEvent} (h : Kept c accepted ((e.accepts c s).toList ++ future) s)
    (hspared : e.Spared sha256 c s) :
    Yields (fun _ => True) (fun _ => Kept c (accepted ++ (e.accepts c s).toList) future)
      (fun _ => Kept c (accepted ++ (e.accepts c s).toList) future) (e.perform sha256 c) s := by
  cases e with
  | put item => exact (LaneWriter.put_kept h).bind fun _ _ hend => Yields.pure hend
  | drain size =>
    have hnone : (LaneEvent.drain size).accepts c s = none := rfl
    rw [hnone, Option.toList_none, List.append_nil]
    rcases h with hrunning | hclosed
    · apply Yields.bind (Q := fun _ => Kept c accepted future)
      · exact (LaneWriter.drain_running hrunning hspared).mono (fun _ => id) (fun _ _ ht => .inl ht)
          fun _ _ ht => .inl ht
      · exact fun _ _ hend => Yields.pure hend
    · -- a writer that is closed drains nothing
      apply Yields.bind (Q := fun _ => Kept c accepted future)
      · apply Yields.read_bind
        rw [if_pos (by simp [hclosed.1])]
        exact Yields.pure (.inr hclosed)
      · exact fun _ _ hend => Yields.pure hend
  | close reason =>
    have hnone : (LaneEvent.close reason).accepts c s = none := rfl
    rw [hnone, Option.toList_none, List.append_nil]
    exact (LaneWriter.close_kept h hspared).mono (fun _ => id) (fun _ _ hend => hend.1)
      fun _ _ hend => hend.1

theorem Done.sealedSegments (h : Done accepted s) : s.sealedSegments = s.segments := by
  apply List.filter_eq_self.mpr
  intro x hx
  obtain ⟨sidecar, hsealed⟩ := (h.finished x.1 x.2 hx).sealed
  rw [hsealed]
  rfl

/-- What a close keeps, in any state between two events. -/
theorem closeKeeps_of_kept {reason : String} (h : Kept c accepted future s)
    (hspared : (LaneEvent.close reason).Spared sha256 c s) :
    CloseKeeps accepted (LaneWriter.close sha256 c reason s) s := by
  have hclose := LaneWriter.close_kept h hspared
  refine ⟨fun sidecar hresult => ?_, fun hmissing => ?_⟩
  · have hdone := (hclose.of_ok hresult).2
    refine ⟨?_, ?_⟩
    · rw [hdone.sealedSegments]
      exact hdone.order
    · rw [hdone.sealedSegments, ← hdone.lines]
      apply List.flatMap_congr
      intro x hx
      rw [(hdone.finished x.1 x.2 hx).data]
      rfl
  · cases hresult : (LaneWriter.close sha256 c reason s).result with
    | ok sidecar => exact (hmissing (hclose.of_ok hresult).2.lines).elim
    | error e =>
      rcases (hclose.of_error hresult).2 with hlines | hmarks
      · exact (hmissing hlines).elim
      · exact ⟨⟨e, rfl⟩, hmarks⟩

end Steps

/-- The condition on the markers: each is for no earlier window than the first, and than those of the
    items before it. -/
structure InForwardOrder (c : LaneConfig) (startNs : Nat) (items : List Item) : Prop where
  first : ∀ startNs', .rotate startNs' ∈ items → startNs ≤ startNs'
  forward : items.Pairwise (Item.Forward c.segmentSeconds)

section Runs

variable {sha256 : List UInt8 → String} {c : LaneConfig}

theorem kept_opened {startNs : Nat} {future : List Item} (segmentId : String)
    (previousVisibleNs : Option Nat) (host : Host) (present : List String)
    (h : InForwardOrder c startNs future) :
    Kept c [] future (.opened c startNs segmentId previousVisibleNs host present) := by
  refine .inl ⟨⟨rfl, (fun _ _ hmem => nomatch hmem), ?_, rfl, ?_, ?_, rfl, h.first, h.forward,
    fun hbroken => (hbroken rfl).elim⟩, fun _ => rfl⟩
  · exact ⟨rfl, rfl, .inl ⟨rfl, rfl, rfl, rfl, _, rfl, rfl⟩⟩
  · exact List.pairwise_singleton _ _
  · intro p hp
    rw [List.mem_singleton.mp hp]
    simp [LaneState.opened, LaneState.placements, LaneState.segments, Placement.SameStamp]

/-- The state a run leaves behind, by induction on its events. -/
theorem kept_run {events : List LaneEvent} {accepted future : List Item} {s : LaneState}
    (h : Kept c accepted (LaneEvent.accepted sha256 c events s ++ future) s)
    (hspared : LaneEvent.RunSpared sha256 c events s) :
    Kept c (accepted ++ LaneEvent.accepted sha256 c events s) future
      (((LaneEvent.run sha256 c events) s).final s) := by
  have hrun : Yields (fun _ => True)
      (fun _ => Kept c (accepted ++ LaneEvent.accepted sha256 c events s) future)
      (fun _ _ => False) (LaneEvent.run sha256 c events) s := by
    induction events generalizing accepted s with
    | nil =>
      apply Yields.pure
      simpa [LaneEvent.accepted] using h
    | cons e events ih =>
      rw [LaneEvent.accepted, List.append_assoc] at h
      have hevent : Yields (fun _ => True)
          (fun _ => Kept c (accepted ++ (e.accepts c s).toList)
            (LaneEvent.accepted sha256 c events (e.next sha256 c s) ++ future))
          (fun _ _ => False) (caught (e.perform sha256 c)) s :=
        Yields.caught (perform_kept h hspared.1)
      refine (hevent.traced.mono (fun _ => id) (fun _ _ => id) fun _ _ he => he.1).bind ?_
      intro _ t ht
      obtain ⟨hkept, _, hfinal⟩ := ht
      have hnext : t = e.next sha256 c s := hfinal
      rw [← hnext] at hkept
      have hrest := ih hkept (hnext ▸ hspared.2)
      rw [List.append_assoc, hnext] at hrest
      rw [LaneEvent.accepted, hnext]
      exact hrest
  cases hresult : ((LaneEvent.run sha256 c events) s).result with
  | ok a => exact hrun.of_ok hresult
  | error e => exact (hrun.of_error hresult).elim

theorem final_run_cons (e : LaneEvent) (events : List LaneEvent) (s : LaneState) :
    ((LaneEvent.run sha256 c (e :: events)) s).final s =
      ((LaneEvent.run sha256 c events) (e.next sha256 c s)).final (e.next sha256 c s) := by
  rw [LaneEvent.run, bind_apply_ok (show caught (e.perform sha256 c) s = ⟨_, _⟩ from rfl)]
  exact getLast?_append_getD _ _ _

theorem runSpared_concat {events : List LaneEvent} {e : LaneEvent} {s : LaneState}
    (h : LaneEvent.RunSpared sha256 c (events ++ [e]) s) :
    LaneEvent.RunSpared sha256 c events s ∧
      e.Spared sha256 c (((LaneEvent.run sha256 c events) s).final s) := by
  induction events generalizing s with
  | nil => exact ⟨trivial, h.1⟩
  | cons e' events ih =>
    obtain ⟨hevents, hlast⟩ := ih h.2
    rw [final_run_cons]
    exact ⟨⟨h.1, hevents⟩, hlast⟩

/-- A record that is no boundary. -/
def Item.Within (endNs : Nat) : Item → Prop
  | .record r => r.visibleNs < endNs
  | .rotate _ => False

instance (endNs : Nat) : (x : Item) → Decidable (x.Within endNs)
  | .record _ => inferInstanceAs (Decidable (_ < _))
  | .rotate _ => inferInstanceAs (Decidable False)

/-- A batch that crosses no boundary is spared unless the interval has elapsed. -/
theorem spares_of_within {batch : List Item} {pending : List Record} {s : LaneState}
    (h : ∀ x ∈ batch, x.Within s.placement.endNs)
    (helapsed : s.host.elapsed.headD false = false) : Spares sha256 c batch pending s := by
  induction batch generalizing pending with
  | nil => exact .inr helapsed
  | cons x batch ih =>
    have hfirst := h x List.mem_cons_self
    have hrest := fun pending => @ih pending fun y hy => h y (List.mem_cons_of_mem _ hy)
    cases x with
    | rotate startNs => exact hfirst.elim
    | record r =>
      have hwithin : r.visibleNs < s.placement.endNs := hfirst
      rw [Spares, if_neg (Nat.not_le.mpr hwithin)]
      exact hrest _

/-- A batch in which nothing raises is spared. -/
theorem spares_of_returns {batch : List Item} {pending : List Record} {s : LaneState}
    (h : Returns (LaneWriter.consume sha256 c batch pending) s) :
    Spares sha256 c batch pending s := by
  induction batch generalizing pending s with
  | nil => exact .inl h
  | cons x batch ih =>
    cases x with
    | rotate startNs =>
      obtain ⟨a, hflush, hrest⟩ := h.of_bind
      obtain ⟨b, hrotate, hrest'⟩ := hrest.of_bind
      exact ⟨⟨a, hflush⟩, ⟨b, hrotate⟩, ih hrest'⟩
    | record r =>
      rw [LaneWriter.consume] at h
      unfold Returns at h
      rw [read_bind_apply] at h
      rw [Spares]
      split at h
      · rename_i hlate
        rw [if_pos hlate]
        obtain ⟨a, hflush, hrest⟩ := Returns.of_bind h
        obtain ⟨b, hrotate, hrest'⟩ := hrest.of_bind
        exact ⟨⟨a, hflush⟩, ⟨b, hrotate⟩, ih hrest'⟩
      · rename_i hearly
        rw [if_neg hearly]
        exact ih h

/-- A close in which nothing raises meets the condition. -/
theorem crosses_of_returns {batch : List Item} {pending : List Record} {s : LaneState}
    (h : Returns (LaneWriter.consume sha256 c batch pending) s) :
    Crosses sha256 c batch pending s := by
  induction batch generalizing pending s with
  | nil => trivial
  | cons x batch ih =>
    cases x with
    | rotate startNs =>
      intro _
      obtain ⟨a, _, hrest⟩ := h.of_bind
      exact hrest
    | record r =>
      rw [LaneWriter.consume] at h
      unfold Returns at h
      rw [read_bind_apply] at h
      rw [Crosses]
      split at h
      · rename_i hlate
        rw [if_pos hlate]
        intro _
        obtain ⟨a, _, hrest⟩ := Returns.of_bind h
        exact hrest
      · rename_i hearly
        rw [if_neg hearly]
        exact ih h

/-- A batch of one record that the disk refuses and the writer takes back; the marker and the record
    behind it are still queued when the lane closes. -/
def retriedEvents : List LaneEvent :=
  [.put (.record sampleRecord), .drain 5, .put (.rotate 1800000000000)]

/-- A record that opens the second window. -/
def laterRecord : Record where
  line := "\x7b\"visible_ns\":1800000000005,\"delivery_index\":2,\"connection_epoch\":\"e\"\x7d\n".utf8Bytes
  visibleNs := 1800000000005
  deliveryIndex := 2
  epoch := "e"
  line_count := by decide
  line_last := by decide

/-- A batch of a record and one of the next window; the disk refuses the first. -/
def refusedEvents : List LaneEvent :=
  [.put (.record sampleRecord), .put (.record laterRecord), .drain 5]

/-- What those events leave behind. -/
def refusedState : LaneState :=
  ((LaneEvent.run sampleSha256 { lane := "lane" } refusedEvents)
    (.opened { lane := "lane" } 0 "1d" none { answers := [.error "EIO"] } [])).final
    (.opened { lane := "lane" } 0 "1d" none { answers := [.error "EIO"] } [])

end Runs

end PredictionIndexer.Splices
