import PredictionIndexer.Spec.LaneRuns
import PredictionIndexer.Spec.SealValid
import PredictionIndexer.Spec.SegmentRecords

/-!
# Records are sealed in the window they belong to

A record moves the writer forward when its time is behind the window, and a marker moves it
wherever the marker says. So records and markers have to come in order: a marker is for a window no
earlier than those of the items before it, and no later than the records behind it. Then, whatever
the host answers, every seal on disk holds records of its window, windows never go back, and the
validator takes every seal.

## Key results

- `run_sealedInWindows`: in every run whose items come in order
-/

namespace PredictionIndexer.Splices

open Durable Durable.Program

/-! ## Items in order -/

namespace Item

/-- Two items in the order they were put. -/
def Before (segmentSeconds : Nat) : Item → Item → Prop
  | .record r, .record r' => r.visibleNs ≤ r'.visibleNs ∧ r.deliveryIndex ≤ r'.deliveryIndex
  | .record r, .rotate startNs => windowStartNs r.visibleNs segmentSeconds ≤ startNs
  | .rotate startNs, .record r => startNs ≤ r.visibleNs
  | .rotate startNs, .rotate startNs' => startNs ≤ startNs'

/-- An item of this window or of a later one. -/
def From (startNs : Nat) : Item → Prop
  | .record r => startNs ≤ r.visibleNs
  | .rotate startNs' => startNs ≤ startNs'

/-- The window an item may open is a window of the lane, and its name reads back. -/
def Opens (segmentSeconds : Nat) : Item → Prop
  | .record r => Moment.ReadsBack (windowStartNs r.visibleNs segmentSeconds)
  | .rotate startNs => segmentSeconds * nanoseconds ∣ startNs ∧ Moment.ReadsBack startNs

instance (segmentSeconds : Nat) : (x : Item) → Decidable (x.Opens segmentSeconds)
  | .record _ => inferInstanceAs (Decidable (Moment.ReadsBack _))
  | .rotate _ => inferInstanceAs (Decidable (_ ∧ _))

end Item

/-! ## The property -/

/-- The windows of successive segments do not go back, and every sealed segment holds accepted
    records of its window and passes the validator. -/
def SealedInWindows (sha256 : List UInt8 → String) (c : LaneConfig) (items : List Item)
    (s : LaneState) : Prop :=
  (s.segments.map (·.1.startNs)).IsChain (· ≤ ·) ∧
    ∀ p f, (p, f) ∈ s.segments → ∀ sidecar, f.sealFile.content = some (some sidecar) →
      (∃ records : List Record, (∀ r ∈ records, .record r ∈ items) ∧
        (∀ r ∈ records, sidecar.windowStartNs ≤ r.visibleNs ∧ r.visibleNs < sidecar.windowEndNs) ∧
        sidecar.Matches sha256 (records.flatMap (·.line)) ∧
        ∀ data, f.dataFile.content = some data → data = records.flatMap (·.line)) ∧
      Archive.validateSealDocument sidecar.asRecord c.lane
        ⟨"lane=" ++ c.lane, dateDirectory p.startNs, p.dataName⟩ = .ok ()

/-! ## What every state keeps -/

/-- A placement of the lane. -/
structure Placed (c : LaneConfig) (p : Placement) : Prop where
  lane : p.lane = c.lane
  segmentSeconds : p.segmentSeconds = c.segmentSeconds
  aligned : c.segmentSeconds * nanoseconds ∣ p.startNs
  reads : Moment.ReadsBack p.startNs
  id : IsHex p.segmentId

/-- Records of a window, the first of them with the least delivery index. -/
structure InWindow (items : List Item) (p : Placement) (records : List Record) : Prop where
  accepted : ∀ r ∈ records, Item.record r ∈ items
  window : ∀ r ∈ records, p.startNs ≤ r.visibleNs ∧ r.visibleNs < p.endNs
  least : ∀ first ∈ records.head?, ∀ r ∈ records, first.deliveryIndex ≤ r.deliveryIndex

/-- A seal of these records. -/
def WindowSeal (sha256 : List UInt8 → String) (p : Placement) (records : List Record)
    (sidecar : Seal) : Prop :=
  ∃ previous reason extra createdNs, reason ≠ "" ∧ Plain extra ∧
    sidecar = (observed previous records).describe sha256 p reason extra createdNs

/-- What is on disk. -/
structure OnDisk (sha256 : List UInt8 → String) (c : LaneConfig) (items : List Item)
    (s : LaneState) : Prop where
  segments : ∀ p f, (p, f) ∈ s.segments → Placed c p ∧ ∃ records, InWindow items p records ∧
    Tells (WindowSeal sha256 p records) (records.flatMap (·.line)) f
  windows : (s.segments.map (·.1.startNs)).IsChain (· ≤ ·)

/-- What every step keeps. -/
structure InOrder (sha256 : List UInt8 → String) (c : LaneConfig) (items : List Item) (drains : Bool)
    (future hand : List Item) (s : LaneState) : Prop where
  draining : s.lane.draining = drains
  disk : OnDisk sha256 c items s
  current : ∃ previous records,
    Taking (WindowSeal sha256 s.placement) previous records s.segment s.files ∧
    InWindow items s.placement records ∧
    ∀ first ∈ records.head?, ∀ r, .record r ∈ s.ahead hand future →
      first.deliveryIndex ≤ r.deliveryIndex
  /-- Behind a rollback that failed the writer refuses a record that belongs to the segment. -/
  sound : s.segment.writeFailure ≠ none → ∃ r,
    (s.lane.unwritten.map Item.record ++ hand).head? = some (.record r) ∧
    r.visibleNs < s.placement.endNs
  order : (s.ahead hand future).Pairwise (Item.Before c.segmentSeconds)
  items : ∀ x ∈ s.ahead hand future, x.From s.placement.startNs ∧ x.Opens c.segmentSeconds ∧ x ∈ items

section Steps

variable {sha256 : List UInt8 → String} {c : LaneConfig} {items future hand : List Item}
  {drains : Bool} {s : LaneState}

theorem OnDisk.of_segments {t : LaneState} (h : OnDisk sha256 c items s)
    (hsegments : t.segments = s.segments) : OnDisk sha256 c items t := by
  refine ⟨?_, ?_⟩
  · rw [hsegments]
    exact h.segments
  · rw [hsegments]
    exact h.windows

theorem OnDisk.of_files {t : SegmentState} {records : List Record} (h : OnDisk sha256 c items s)
    (hrecords : InWindow items s.placement records)
    (htells : Tells (WindowSeal sha256 s.placement records) (records.flatMap (·.line)) t.files) :
    OnDisk sha256 c items (s.withCurrent t) := by
  refine ⟨?_, ?_⟩
  · intro p f hmem
    rcases List.mem_append.mp hmem with hearlier | hcurrent
    · exact h.segments p f (List.mem_append_left _ hearlier)
    · rw [List.mem_singleton] at hcurrent
      cases hcurrent
      exact ⟨(h.segments s.placement s.files (List.mem_append_right _ List.mem_cons_self)).1,
        records, hrecords, htells⟩
  · have hmap : ((s.withCurrent t).segments.map (·.1.startNs)) = s.segments.map (·.1.startNs) := by
      simp [LaneState.segments, LaneState.withCurrent]
    rw [hmap]
    exact h.windows

theorem OnDisk.placed (h : OnDisk sha256 c items s) : Placed c s.placement :=
  (h.segments s.placement s.files (List.mem_append_right _ List.mem_cons_self)).1

/-- Some of the items ahead may be lost, and some in hand may go back. -/
theorem InOrder.of_ahead {t : LaneState} (hand' : List Item)
    (h : InOrder sha256 c items drains future hand s) (hsegments : t.segments = s.segments)
    (hplacement : t.placement = s.placement) (hsegment : t.segment = s.segment)
    (hfiles : t.files = s.files) (hdraining : t.lane.draining = s.lane.draining)
    (hahead : (t.ahead hand' future).Sublist (s.ahead hand future))
    (hsound : s.segment.writeFailure ≠ none → (t.lane.unwritten.map Item.record ++ hand').head? =
      (s.lane.unwritten.map Item.record ++ hand).head?) :
    InOrder sha256 c items drains future hand' t := by
  obtain ⟨previous, records, htaking, hwindow, hleast⟩ := h.current
  refine ⟨hdraining.trans h.draining, h.disk.of_segments hsegments,
    ⟨previous, records, ?_, ?_, ?_⟩, ?_, h.order.sublist hahead, ?_⟩
  · rw [hplacement, hsegment, hfiles]
    exact htaking
  · rw [hplacement]
    exact hwindow
  · exact fun first hfirst r hr => hleast first hfirst r (hahead.subset hr)
  · rw [hsegment, hplacement]
    intro hbroken
    rw [hsound hbroken]
    exact h.sound hbroken
  · rw [hplacement]
    exact fun x hx => h.items x (hahead.subset hx)

/-- What is in hand may be lost. -/
theorem InOrder.drop (h : InOrder sha256 c items drains future hand s)
    (hsound : s.segment.writeFailure = none) : InOrder sha256 c items drains future [] s :=
  h.of_ahead [] rfl rfl rfl rfl rfl
    (List.Sublist.append_left (List.Sublist.append_right (List.nil_sublist hand) _) _)
    fun hbroken => (hbroken hsound).elim

/-- With nothing in hand that was refused, no rollback has failed. -/
theorem InOrder.sound_of_head (h : InOrder sha256 c items drains future hand s)
    (hhead : ∀ r, (s.lane.unwritten.map Item.record ++ hand).head? = some (.record r) →
      s.placement.endNs ≤ r.visibleNs) : s.segment.writeFailure = none := by
  by_contra hbroken
  obtain ⟨r, hr, hwindow⟩ := h.sound hbroken
  exact absurd (hhead r hr) (Nat.not_le.mpr hwindow)

/-- The current segment takes records in, and they are no longer ahead or ahead again. -/
theorem InOrder.of_segment {t : SegmentState} {w : LaneWriter} {previous : Option Nat}
    {records : List Record} {hand' : List Item}
    (h : InOrder sha256 c items drains future hand s)
    (htaking : On (Taking (WindowSeal sha256 s.placement) previous records) t)
    (hwindow : InWindow items s.placement records)
    (hleast : ∀ first ∈ records.head?, ∀ r, .record r ∈ s.ahead hand future →
      first.deliveryIndex ≤ r.deliveryIndex)
    (hahead : (LaneState.ahead { s.withCurrent t with lane := w } hand' future).Sublist
      (s.ahead hand future)) (hdraining : w.draining = s.lane.draining)
    (hsound : t.writer.writeFailure ≠ none → ∃ r,
      (w.unwritten.map Item.record ++ hand').head? = some (.record r) ∧
      r.visibleNs < s.placement.endNs) :
    InOrder sha256 c items drains future hand' { s.withCurrent t with lane := w } :=
  ⟨hdraining.trans h.draining, (h.disk.of_files hwindow htaking.tells).of_segments rfl,
    ⟨previous, records, htaking, hwindow,
      fun first hfirst r hr => hleast first hfirst r (hahead.subset hr)⟩,
    hsound, h.order.sublist hahead, fun x hx => h.items x (hahead.subset hx)⟩

/-- The first of the records in order has the least delivery index. -/
theorem least_of_pairwise {first r : Record} {seconds : Nat} {l : List Item}
    (h : (Item.record first :: l).Pairwise (Item.Before seconds))
    (hr : .record r ∈ Item.record first :: l) : first.deliveryIndex ≤ r.deliveryIndex := by
  rcases List.mem_cons.mp hr with hfirst | hlater
  · cases hfirst
    exact Nat.le_refl _
  · exact (List.rel_of_pairwise_cons h hlater).2

/-- A segment's records, and those that wait to follow them. -/
theorem InWindow.append {p : Placement} {records pending : List Record}
    (h : InWindow items p records) (hpending : InWindow items p pending)
    (hleast : ∀ first ∈ records.head?, ∀ r ∈ pending, first.deliveryIndex ≤ r.deliveryIndex) :
    InWindow items p (records ++ pending) := by
  refine ⟨?_, ?_, ?_⟩
  · exact List.forall_mem_append.mpr ⟨h.accepted, hpending.accepted⟩
  · exact List.forall_mem_append.mpr ⟨h.window, hpending.window⟩
  · intro first hfirst
    cases records with
    | nil => exact hpending.least first hfirst
    | cons r records =>
      exact List.forall_mem_append.mpr ⟨h.least first hfirst, hleast first hfirst⟩

theorem ahead_hand {pending : List Record} {rest : List Item} (h : s.lane.unwritten = []) :
    s.ahead (pending.map .record ++ rest) future =
      pending.map .record ++ (rest ++ (s.lane.queue ++ future)) := by
  simp [LaneState.ahead, h]

/-- The records that wait for a flush are of the current window. -/
theorem InOrder.pending {pending : List Record} {rest : List Item}
    (h : InOrder sha256 c items drains future (pending.map .record ++ rest) s)
    (hunwritten : s.lane.unwritten = [])
    (hwindow : ∀ r ∈ pending, r.visibleNs < s.placement.endNs) :
    InWindow items s.placement pending := by
  have hmem : ∀ r ∈ pending, Item.record r ∈ s.ahead (pending.map .record ++ rest) future := by
    intro r hr
    rw [ahead_hand hunwritten]
    exact List.mem_append_left _ (List.mem_map_of_mem hr)
  refine ⟨fun r hr => (h.items _ (hmem r hr)).2.2, ?_, ?_⟩
  · exact fun r hr => ⟨(h.items _ (hmem r hr)).1, hwindow r hr⟩
  · intro first hfirst r hr
    have horder := h.order
    rw [ahead_hand hunwritten] at horder
    cases pending with
    | nil => cases hfirst
    | cons r' pending =>
      cases hfirst
      exact least_of_pairwise horder (List.mem_append_left _ (List.mem_map_of_mem hr))

/-- The segment may take in what waits: the first of all is the first of the segment, or else of
    what waits. -/
theorem InOrder.takes {pending records : List Record} {rest : List Item}
    (h : InOrder sha256 c items drains future (pending.map .record ++ rest) s)
    (hunwritten : s.lane.unwritten = [])
    (hwindow : ∀ r ∈ pending, r.visibleNs < s.placement.endNs)
    (hrecords : InWindow items s.placement records)
    (hleast : ∀ first ∈ records.head?, ∀ r,
      .record r ∈ s.ahead (pending.map .record ++ rest) future →
      first.deliveryIndex ≤ r.deliveryIndex) :
    InWindow items s.placement (records ++ pending) ∧
      ∀ first ∈ (records ++ pending).head?, ∀ r,
        .record r ∈ s.ahead (pending.map .record ++ rest) future →
        first.deliveryIndex ≤ r.deliveryIndex := by
  have hmem : ∀ r ∈ pending, Item.record r ∈ s.ahead (pending.map .record ++ rest) future := by
    intro r hr
    rw [ahead_hand hunwritten]
    exact List.mem_append_left _ (List.mem_map_of_mem hr)
  refine ⟨hrecords.append (h.pending hunwritten hwindow) fun first hfirst r hr =>
    hleast first hfirst r (hmem r hr), ?_⟩
  intro first hfirst r hr
  cases records with
  | cons r' records => exact hleast first hfirst r hr
  | nil =>
    have horder := h.order
    rw [ahead_hand hunwritten] at horder hr
    cases pending with
    | nil => cases hfirst
    | cons r' pending =>
      cases hfirst
      exact least_of_pairwise horder hr

/-- The metrics of a lane are no field of a seal. -/
theorem plain_metrics (w : LaneWriter) : Plain (LaneWriter.metrics c w) := by
  intro field hfield
  have hnames : ∀ field ∈ Archive.requiredFields, field ∉ ["queue_capacity", "queue_high_water",
      "queue_full_events", "fsync_interval_seconds"] := by decide
  rw [Json.field?, List.lookup_eq_none_iff]
  intro entry hentry
  have hname : entry.1 ∈ (LaneWriter.metrics c w).map Prod.fst := List.mem_map_of_mem hentry
  rw [bne_iff_ne]
  intro heq
  rw [← heq] at hname
  exact hnames field hfield hname

/-- Items behind a marker are of its window or a later one. -/
theorem from_of_rotate {startNs seconds : Nat} {l : List Item}
    (h : (Item.rotate startNs :: l).Pairwise (Item.Before seconds)) : ∀ x ∈ l, x.From startNs := by
  intro x hx
  have hbefore := List.rel_of_pairwise_cons h hx
  cases x with
  | record r => exact hbefore
  | rotate startNs' => exact hbefore

/-- Items behind a record are of its window or a later one. -/
theorem from_of_record {r : Record} {seconds : Nat} {l : List Item}
    (h : (Item.record r :: l).Pairwise (Item.Before seconds)) :
    ∀ x ∈ Item.record r :: l, x.From (windowStartNs r.visibleNs seconds) := by
  intro x hx
  rcases List.mem_cons.mp hx with hfirst | hlater
  · rw [hfirst]
    exact windowStartNs_le _ _
  · have hbefore := List.rel_of_pairwise_cons h hlater
    cases x with
    | record r' => exact Nat.le_trans (windowStartNs_le _ _) hbefore.1
    | rotate startNs' => exact hbefore

namespace LaneWriter

/-! ## Steps -/

/-- What waits is taken in by the current segment, or is unwritten. -/
theorem flush_inOrder {pending : List Record} {rest : List Item}
    (h : InOrder sha256 c items drains future (pending.map .record ++ rest) s)
    (hunwritten : s.lane.unwritten = [])
    (hwindow : ∀ r ∈ pending, r.visibleNs < s.placement.endNs) :
    Yields (OnDisk sha256 c items)
      (fun _ t => InOrder sha256 c items drains future rest t ∧ t.lane.unwritten = [] ∧
        t.placement = s.placement)
      (fun _ => InOrder sha256 c items drains future []) (flush pending) s := by
  unfold flush
  split
  · rename_i hempty
    rw [List.isEmpty_iff.mp hempty] at h
    exact Yields.pure ⟨h, hunwritten, rfl⟩
  · rename_i hsome
    obtain ⟨previous, records, htaking, hrecords, hleast⟩ := h.current
    obtain ⟨hboth, hleast'⟩ := h.takes hunwritten hwindow hrecords hleast
    let D := WindowSeal sha256 s.placement
    have hbatch := SegmentWriter.writeBatch_taking pending (s := s.current) htaking
    have hlane : Yields (OnDisk sha256 c items)
        (fun answer t => ∃ u, t = s.withCurrent u ∧ match answer with
          | .ok _ => On (fun w f => Taking D previous (records ++ pending) w f ∧
              w.writeFailure = none) u
          | .error _ => On (fun w f => Taking D previous records w f ∨
              Taking D previous (records ++ pending) w f) u)
        (fun _ => InOrder sha256 c items drains future [])
        (caught (onSegment (SegmentWriter.writeBatch pending))) s := by
      apply Yields.caught
      apply Yields.onSegment
      exact hbatch.mono (fun t ht => h.disk.of_files hrecords ht) (fun _ t ht => ⟨t, rfl, ht⟩)
        fun _ t ht => ⟨t, rfl, ht⟩
    apply hlane.bind
    intro answer t ht
    obtain ⟨u, rfl, hu⟩ := ht
    cases answer with
    | error error =>
      have hback : (pending.map Item.record ++ (s.lane.queue ++ future)).Sublist
          (s.ahead (pending.map .record ++ rest) future) := by
        rw [ahead_hand hunwritten]
        exact List.Sublist.append_left (List.sublist_append_right rest _) _
      have hahead : (LaneState.ahead { s.withCurrent u with lane :=
          { s.lane with unwritten := s.lane.unwritten ++ pending, fatal := some error } } []
          future).Sublist (s.ahead (pending.map .record ++ rest) future) := by
        simpa only [LaneState.ahead, hunwritten, List.nil_append] using hback
      have hhead : ∃ r, ((s.lane.unwritten ++ pending).map Item.record ++ []).head? =
          some (.record r) ∧ r.visibleNs < s.placement.endNs := by
        cases pending with
        | nil => exact (hsome rfl).elim
        | cons r pending =>
          refine ⟨r, ?_, hwindow r List.mem_cons_self⟩
          rw [hunwritten]
          rfl
      have hend : InOrder sha256 c items drains future [] { s.withCurrent u with lane :=
          { s.lane with unwritten := s.lane.unwritten ++ pending, fatal := some error } } := by
        rcases hu with hu | hu
        · exact h.of_segment hu hrecords hleast hahead rfl fun _ => hhead
        · exact h.of_segment hu hboth hleast' hahead rfl fun _ => hhead
      apply Yields.assignLane_bind hend.disk
      exact Yields.fail hend
    | ok _ =>
      have hgone : (rest ++ (s.lane.queue ++ future)).Sublist
          (s.ahead (pending.map .record ++ rest) future) := by
        rw [ahead_hand hunwritten]
        exact List.sublist_append_right _ _
      have hahead : (LaneState.ahead { s.withCurrent u with lane :=
          { s.lane with recordsWritten := s.lane.recordsWritten + pending.length } } rest
          future).Sublist (s.ahead (pending.map .record ++ rest) future) := by
        simpa only [LaneState.ahead, LaneState.withCurrent, hunwritten, List.map_nil,
          List.nil_append] using hgone
      have hend := h.of_segment hu.1 hboth hleast' hahead rfl fun hbroken => (hbroken hu.2).elim
      exact Yields.write hend.disk ⟨hend, hunwritten, rfl⟩

/-- A seal call makes a seal of what the current segment has taken in, or raises. -/
theorem sealCurrent_inOrder (reason : String) (h : InOrder sha256 c items drains future hand s)
    (hsound : s.segment.writeFailure = none) (hreason : reason ≠ "") :
    Yields (OnDisk sha256 c items)
      (fun _ t => InOrder sha256 c items drains future hand t ∧ t.segment.writeFailure = none ∧
        t.lane.unwritten = s.lane.unwritten ∧ t.lane.queue = s.lane.queue ∧
        t.placement = s.placement)
      (fun _ => InOrder sha256 c items drains future []) (sealCurrent sha256 c reason) s := by
  obtain ⟨previous, records, htaking, hrecords, hleast⟩ := h.current
  have hsegment := SegmentWriter.sealSegment_taking sha256 s.placement reason (metrics c s.lane)
    (s := s.current) htaking hsound
    fun createdNs => ⟨previous, reason, _, createdNs, hreason, plain_metrics _, rfl⟩
  have hkept : ∀ t : SegmentState, On (fun w f =>
      Taking (WindowSeal sha256 s.placement) previous records w f ∧ w.writeFailure = none) t →
      InOrder sha256 c items drains future hand (s.withCurrent t) :=
    fun t ht => h.of_segment ht.1 hrecords hleast (List.Sublist.refl _) rfl
      fun hbroken => (hbroken ht.2).elim
  apply Yields.read_bind
  have hlane : Yields (OnDisk sha256 c items)
      (fun _ t => ∃ u, t = s.withCurrent u ∧ InOrder sha256 c items drains future hand t ∧
        t.segment.writeFailure = none)
      (fun _ => InOrder sha256 c items drains future [])
      (onSegment (SegmentWriter.sealSegment sha256 s.placement reason (metrics c s.lane))) s := by
    apply Yields.onSegment
    refine hsegment.mono ?_ ?_ ?_
    · exact fun t ht => h.disk.of_files hrecords ht
    · exact fun _ t ht => ⟨t, rfl, hkept t ht, ht.2⟩
    · exact fun _ t ht => (hkept t ht).drop ht.2
  apply hlane.bind
  intro sidecar t ht
  obtain ⟨u, rfl, hend, hsound'⟩ := ht
  have hkept := hend.of_ahead (t := { s.withCurrent u with lane :=
    { s.lane with seals := s.lane.seals ++ [sidecar] } }) _ rfl rfl rfl rfl rfl (List.Sublist.refl _)
    fun _ => rfl
  apply Yields.assignLane_bind hkept.disk
  exact Yields.pure ⟨hkept, hsound', rfl, rfl, rfl⟩

/-- A segment is opened for a window that is not behind the current one. -/
theorem openSegment_inOrder {startNs : Nat} (h : InOrder sha256 c items drains future hand s)
    (hsound : s.segment.writeFailure = none) (hforward : s.placement.startNs ≤ startNs)
    (haligned : c.segmentSeconds * nanoseconds ∣ startNs) (hreads : Moment.ReadsBack startNs)
    (hitems : ∀ x ∈ s.ahead hand future, x.From startNs) :
    Yields (OnDisk sha256 c items)
      (fun _ t => InOrder sha256 c items drains future hand t ∧ t.lane = s.lane ∧
        t.placement.startNs = startNs)
      (fun _ => InOrder sha256 c items drains future []) (openSegment c startNs) s := by
  have hhost : ∀ host, InOrder sha256 c items drains future [] { s with host := host } :=
    fun host => (h.drop hsound).of_ahead [] rfl rfl rfl rfl rfl (List.Sublist.refl _) fun _ => rfl
  apply Yields.read_bind
  apply Yields.bind (Q := fun _ t => ∃ host, t = { s with host := host })
  · exact Yields.tokenHex fun _ host => ⟨(hhost host).disk, host, rfl⟩
  intro segmentId t ht
  obtain ⟨host, rfl⟩ := ht
  apply Yields.bind (Q := fun _ t => ∃ host, t = { s with host := host })
  · exact Yields.laneCall (fun _ host => ⟨(hhost host).disk, hhost host⟩)
      fun host => ⟨(hhost host).disk, host, rfl⟩
  intro _ t ht
  obtain ⟨host, rfl⟩ := ht
  split
  · exact Yields.fail (hhost _)
  · generalize hp : (⟨c.lane, startNs, c.segmentSeconds, nextSegmentIndex s.dataNames startNs,
      segmentId.val⟩ : Placement) = p
    have hplaced : Placed c p := by
      subst hp
      exact ⟨rfl, rfl, haligned, hreads, segmentId.property⟩
    have hempty : InWindow items p [] :=
      ⟨(fun _ hr => nomatch hr), (fun _ hr => nomatch hr), (fun _ hfirst => nomatch hfirst)⟩
    have hstart : p.startNs = startNs := by rw [← hp]
    have hopened : ∀ host, InOrder sha256 c items drains future hand
        (install p { s with host := host }) := by
      intro host
      have htaking := taking_opened (WindowSeal sha256 p) s.lane.previousVisibleNs host
      refine ⟨h.draining, ⟨?_, ?_⟩, ⟨s.lane.previousVisibleNs, [], htaking, hempty, ?_⟩,
        (fun hbroken => (hbroken rfl).elim), h.order, ?_⟩
      · intro p' f hmem
        rcases List.mem_append.mp hmem with hearlier | hcurrent
        · exact h.disk.segments p' f hearlier
        · cases List.mem_singleton.mp hcurrent
          exact ⟨hplaced, [], hempty, htaking.tells⟩
      · show ((s.segments ++ [(p, (SegmentState.opened s.lane.previousVisibleNs {}).files)]).map
          (·.1.startNs)).IsChain (· ≤ ·)
        rw [List.map_append, List.map_singleton, isChain_concat]
        refine ⟨h.disk.windows, ?_⟩
        intro last hlast
        rw [LaneState.segments, List.map_append, List.map_singleton, List.getLast?_concat] at hlast
        cases hlast
        rw [hstart]
        exact hforward
      · exact fun _ hfirst => nomatch hfirst
      · intro x hx
        obtain ⟨_, hopens, hmem⟩ := h.items x hx
        exact ⟨hstart ▸ hitems x hx, hopens, hmem⟩
    exact Yields.laneCall (fun _ host => ⟨(hhost host).disk, hhost host⟩)
      fun host => ⟨(hopened host).disk, hopened host, rfl, hstart⟩

/-- The current segment is sealed and the next one opened. -/
theorem rotateTo_inOrder {startNs : Nat} (h : InOrder sha256 c items drains future hand s)
    (hsound : s.segment.writeFailure = none) (hforward : s.placement.startNs ≤ startNs)
    (haligned : c.segmentSeconds * nanoseconds ∣ startNs) (hreads : Moment.ReadsBack startNs)
    (hitems : ∀ x ∈ s.ahead hand future, x.From startNs) :
    Yields (OnDisk sha256 c items)
      (fun _ t => InOrder sha256 c items drains future hand t ∧ t.lane.unwritten = s.lane.unwritten ∧
        t.placement.startNs = startNs)
      (fun _ => InOrder sha256 c items drains future []) (rotateTo sha256 c startNs) s := by
  apply (sealCurrent_inOrder "boundary" h hsound (by decide)).bind
  intro sidecar t ht
  obtain ⟨hend, hsound', hunwritten, hqueue, hplacement⟩ := ht
  have hkept := hend.of_ahead (t := { t with lane := { t.lane with
    previousVisibleNs := sidecar.lastVisibleNs.or t.lane.previousVisibleNs } })
    _ rfl rfl rfl rfl rfl (List.Sublist.refl _) fun _ => rfl
  apply Yields.assignLane_bind hkept.disk
  have hopened := openSegment_inOrder hkept hsound' (hplacement ▸ hforward) haligned hreads (by
    intro x hx
    refine hitems x ?_
    simpa only [LaneState.ahead, hunwritten, hqueue] using hx)
  refine hopened.mono (fun _ => id) ?_ fun _ _ => id
  intro _ u hu
  obtain ⟨hu, hlane, hstart⟩ := hu
  refine ⟨hu, ?_, hstart⟩
  rw [hlane]
  exact hunwritten

/-- A batch, by induction on what is left of it; each record that waits is of the current window. -/
theorem consume_inOrder {batch : List Item} (pending : List Record)
    (h : InOrder sha256 c items drains future (pending.map .record ++ batch) s)
    (hunwritten : s.lane.unwritten = [])
    (hwindow : ∀ r ∈ pending, r.visibleNs < s.placement.endNs) :
    Yields (OnDisk sha256 c items)
      (fun _ t => InOrder sha256 c items drains future [] t ∧ t.lane.unwritten = [])
      (fun _ => InOrder sha256 c items drains future []) (consume sha256 c batch pending) s := by
  induction batch generalizing pending s with
  | nil =>
    apply (flush_inOrder h hunwritten hwindow).mono (fun _ => id) ?_ fun _ _ => id
    exact fun _ t ht => ⟨ht.1, ht.2.1⟩
  | cons x batch ih =>
    cases x with
    | rotate startNs =>
      apply (flush_inOrder h hunwritten hwindow).bind
      intro _ t ht
      obtain ⟨hflushed, hunwritten', _⟩ := ht
      have hahead : t.ahead (.rotate startNs :: batch) future =
          .rotate startNs :: (batch ++ (t.lane.queue ++ future)) := by
        simp [LaneState.ahead, hunwritten']
      have hmarker := hflushed.items (.rotate startNs) (hahead ▸ List.mem_cons_self)
      have hahead' : t.ahead batch future = batch ++ (t.lane.queue ++ future) := by
        simp [LaneState.ahead, hunwritten']
      have hsound : t.segment.writeFailure = none := hflushed.sound_of_head (by
        intro r hr
        rw [hunwritten'] at hr
        cases hr)
      have hbehind : InOrder sha256 c items drains future batch t :=
        hflushed.of_ahead _ rfl rfl rfl rfl rfl (by
          rw [hahead, hahead']
          exact List.sublist_cons_self _ _) fun hbroken => (hbroken hsound).elim
      have hrotated := rotateTo_inOrder hbehind hsound hmarker.1 hmarker.2.1.1 hmarker.2.1.2 (by
        rw [hahead']
        exact from_of_rotate (hahead ▸ hflushed.order))
      apply hrotated.bind
      intro _ u hu
      exact ih [] hu.1 (hu.2.1.trans hunwritten') fun _ hr => nomatch hr
    | record r =>
      apply Yields.read_bind
      split
      · rename_i hlate
        apply (flush_inOrder h hunwritten hwindow).bind
        intro _ t ht
        obtain ⟨hflushed, hunwritten', hplacement⟩ := ht
        have hahead : t.ahead (.record r :: batch) future =
            .record r :: (batch ++ (t.lane.queue ++ future)) := by
          simp [LaneState.ahead, hunwritten']
        have hmem := hflushed.items (.record r) (hahead ▸ List.mem_cons_self)
        have hplaced := hflushed.disk.placed
        -- the window of a record that is not in the current one is a later one
        have hforward : t.placement.startNs ≤ windowStartNs r.visibleNs c.segmentSeconds := by
          rw [← windowStartNs_self hplaced.aligned]
          exact windowStartNs_mono _ hmem.1
        have hsound : t.segment.writeFailure = none := hflushed.sound_of_head (by
          intro r' hr'
          rw [hunwritten'] at hr'
          cases hr'
          rw [hplacement]
          exact hlate)
        have hrotated := rotateTo_inOrder hflushed hsound hforward (dvd_windowStartNs _ _) hmem.2.1 (by
          rw [hahead]
          exact from_of_record (hahead ▸ hflushed.order))
        apply hrotated.bind
        intro _ u hu
        obtain ⟨hopened, hunwritten'', hstart⟩ := hu
        refine ih [r] hopened (hunwritten''.trans hunwritten') ?_
        intro r' hr'
        rw [List.mem_singleton.mp hr', Placement.endNs, hstart, hopened.disk.placed.segmentSeconds]
        exact lt_windowStartNs_add c.positive
      · rename_i hearly
        apply ih
        · simpa using h
        · exact hunwritten
        · intro r' hr'
          rcases List.mem_append.mp hr' with hpending | hlast
          · exact hwindow r' hpending
          · rw [List.mem_singleton.mp hlast]
            exact Nat.lt_of_not_le hearly

theorem apply_inOrder {batch : List Item} (drained : Bool)
    (h : InOrder sha256 c items drains future batch s) (hunwritten : s.lane.unwritten = []) :
    Yields (OnDisk sha256 c items)
      (fun _ t => InOrder sha256 c items drains future [] t ∧ t.lane.unwritten = [])
      (fun _ => InOrder sha256 c items drains future []) (apply sha256 c batch drained) s := by
  apply (consume_inOrder [] h hunwritten fun _ hr => nomatch hr).bind
  intro _ t ht
  obtain ⟨hend, hunwritten'⟩ := ht
  split
  · obtain ⟨previous, records, htaking, hrecords, hleast⟩ := hend.current
    have hsynced : ∀ u, On (fun w f => Taking (WindowSeal sha256 t.placement) previous records w f ∧
        w.writeFailure = t.segment.writeFailure) u →
        InOrder sha256 c items drains future [] (t.withCurrent u) := by
      intro u hu
      refine hend.of_segment hu.1 hrecords hleast (List.Sublist.refl _) rfl fun hbroken => ?_
      rw [hu.2] at hbroken
      exact hend.sound hbroken
    have hsegment := SegmentWriter.fsyncIfDue_taking true (s := t.current) htaking
    apply Yields.bind (Q := fun _ u => InOrder sha256 c items drains future [] u ∧ u.lane.unwritten = [])
    · apply Yields.onSegment
      refine hsegment.mono ?_ ?_ ?_
      · exact fun u hu => hend.disk.of_files hrecords hu
      · exact fun _ u hu => ⟨hsynced u hu, hunwritten'⟩
      · exact fun _ u hu => hsynced u hu
    · exact fun _ u hu => Yields.pure hu
  · exact Yields.pure ⟨hend, hunwritten'⟩

end LaneWriter

/-- What holds between two events: a writer that still drains has nothing unwritten. -/
def Ordered (sha256 : List UInt8 → String) (c : LaneConfig) (items future : List Item)
    (s : LaneState) : Prop :=
  InOrder sha256 c items s.lane.draining future [] s ∧
    (s.lane.draining = true → s.lane.unwritten = [])

namespace LaneWriter

theorem drain_ordered {size : Nat} (h : Ordered sha256 c items future s) :
    Yields (OnDisk sha256 c items) (fun _ => Ordered sha256 c items future)
      (fun _ => Ordered sha256 c items future) (drain sha256 c size) s := by
  apply Yields.read_bind
  split
  · exact Yields.pure h
  · rename_i hturn
    have hdraining : s.lane.draining = true := by
      simp only [Bool.or_eq_true, Bool.not_eq_true', not_or, Bool.not_eq_false] at hturn
      exact hturn.1.1
    have hunwritten := h.2 hdraining
    have hsound : s.segment.writeFailure = none := h.1.sound_of_head (by
      intro r hr
      rw [hunwritten] at hr
      cases hr)
    have htaken := h.1.of_ahead (t := { s with lane := { s.lane with
      queue := s.lane.queue.drop (size + 1) } }) (s.lane.queue.take (size + 1))
      rfl rfl rfl rfl rfl (by
        rw [LaneState.ahead, LaneState.ahead, ← List.append_assoc (List.take _ _),
          List.take_append_drop]
        exact List.Sublist.refl _) fun hbroken => (hbroken hsound).elim
    apply Yields.assignLane_bind htaken.disk
    have happly := apply_inOrder (s.lane.queue.drop (size + 1)).isEmpty htaken
      hunwritten
    apply Yields.bind (Q := fun answer t => InOrder sha256 c items true future [] t ∧
      ∀ u, answer = .ok u → t.lane.unwritten = [])
    · apply Yields.caught
      rw [hdraining] at happly
      refine happly.mono (fun _ => id) ?_ ?_
      · exact fun _ t ht => ⟨ht.1, fun _ _ => ht.2⟩
      · exact fun _ t ht => ⟨ht, fun _ heq => nomatch heq⟩
    · intro answer t ht
      obtain ⟨hend, hdone⟩ := ht
      cases answer with
      | error e =>
        have hstopped : Ordered sha256 c items future
            { t with lane := { t.lane with draining := false } } := by
          refine ⟨?_, fun hfalse => nomatch hfalse⟩
          exact ⟨rfl, hend.disk.of_segments rfl, hend.current, hend.sound, hend.order, hend.items⟩
        exact Yields.write hstopped.1.disk hstopped
      | ok u =>
        apply Yields.pure
        refine ⟨?_, fun _ => hdone u rfl⟩
        rw [hend.draining]
        exact hend

theorem put_ordered {item : Item}
    (h : Ordered sha256 c items (((LaneEvent.put item).accepts c s).toList ++ future) s) :
    Yields (OnDisk sha256 c items) (fun _ => Ordered sha256 c items future)
      (fun _ => Ordered sha256 c items future) (put c item) s := by
  -- an item that is refused is not accepted
  have hqueued : ∀ w : LaneWriter, w.queue = s.lane.queue ++ [item] → w.unwritten = s.lane.unwritten →
      w.draining = s.lane.draining → (LaneEvent.put item).accepts c s = some item →
      Ordered sha256 c items future { s with lane := w } := by
    intro w hqueue hunwritten hdraining haccepts
    rw [haccepts] at h
    refine ⟨?_, fun hdrains => hunwritten.trans (h.2 (hdraining ▸ hdrains))⟩
    have hahead : LaneState.ahead { s with lane := w } [] future =
        s.ahead [] ((some item).toList ++ future) := by
      simp [LaneState.ahead, hqueue, hunwritten]
    have hkept := h.1
    exact ⟨rfl, hkept.disk.of_segments rfl, hahead ▸ hkept.current, hunwritten ▸ hkept.sound,
      hahead ▸ hkept.order, hahead ▸ hkept.items⟩
  have hrefused : (LaneEvent.put item).accepts c s = none → Ordered sha256 c items future s := by
    intro hnone
    rw [hnone] at h
    exact h
  unfold put
  apply Yields.read_bind
  cases item with
  | rotate startNs =>
    have hend := hqueued { s.lane with queue := s.lane.queue ++ [.rotate startNs] } rfl rfl rfl rfl
    exact Yields.write hend.1.disk hend
  | record r =>
    dsimp only
    cases hclosed : s.lane.closed with
    | true =>
      refine Yields.fail (hrefused ?_)
      simp [accepts_record, hclosed]
    | false =>
      cases hfatal : s.lane.fatal with
      | some error =>
        refine Yields.fail (hrefused ?_)
        simp [accepts_record, hfatal]
      | none =>
        have hend := hqueued { s.lane with
          queue := s.lane.queue ++ [.record r]
          queueFullEvents := s.lane.queueFullEvents +
            if c.queueCapacity ≤ s.lane.queue.length then 1 else 0
          queueHighWater := max s.lane.queueHighWater (s.lane.queue.length + 1) } rfl rfl rfl
          (by simp [accepts_record, hclosed, hfatal])
        exact Yields.write hend.1.disk hend

theorem close_ordered {reason : String} (h : Ordered sha256 c items future s)
    (hreason : reason ≠ "") :
    Yields (OnDisk sha256 c items) (fun _ => Ordered sha256 c items future)
      (fun _ => Ordered sha256 c items future) (close sha256 c reason) s := by
  have hstopped : ∀ t, InOrder sha256 c items false future [] t → Ordered sha256 c items future t := by
    intro t ht
    refine ⟨?_, fun hdrains => ?_⟩
    · rw [ht.draining]
      exact ht
    · rw [ht.draining] at hdrains
      cases hdrains
  apply Yields.read_bind
  split
  · exact Yields.pure h
  · have hkept := h.1
    have hahead : LaneState.ahead { s with lane := { s.lane with
        closed := true, draining := false, unwritten := [], queue := [] } }
        (s.lane.unwritten.map .record ++ s.lane.queue) future = s.ahead [] future := by
      simp [LaneState.ahead]
    -- what was refused comes first
    have hhead : s.segment.writeFailure ≠ none → ∃ r,
        (([] : List Record).map Item.record ++ (s.lane.unwritten.map Item.record ++ s.lane.queue)).head? =
          some (.record r) ∧ r.visibleNs < s.placement.endNs := by
      intro hbroken
      obtain ⟨r, hr, hwindow⟩ := hkept.sound hbroken
      refine ⟨r, ?_, hwindow⟩
      rw [List.append_nil] at hr
      rw [List.map_nil, List.nil_append, List.head?_append, hr]
      rfl
    have hclosed : InOrder sha256 c items false future
        (s.lane.unwritten.map .record ++ s.lane.queue)
        { s with lane := { s.lane with
          closed := true, draining := false, unwritten := [], queue := [] } } :=
      ⟨rfl, hkept.disk.of_segments rfl, hahead ▸ hkept.current, hhead, hahead ▸ hkept.order,
        hahead ▸ hkept.items⟩
    apply Yields.assignLane_bind hclosed.disk
    have hconsumed := consume_inOrder [] hclosed rfl fun _ hr => nomatch hr
    apply (hconsumed.mono (fun _ => id) (fun _ _ => id) fun _ _ he => hstopped _ he).bind
    intro _ t ht
    apply Yields.read_bind
    split
    · exact Yields.fail (hstopped t ht.1)
    · have hsound : t.segment.writeFailure = none := ht.1.sound_of_head (by
        intro r hr
        rw [ht.2] at hr
        cases hr)
      have hsealed := sealCurrent_inOrder reason ht.1 hsound hreason
      apply (hsealed.mono (fun _ => id) (fun _ _ => id) fun _ _ he => hstopped _ he).bind
      exact fun sidecar u hu => Yields.pure (hstopped u hu.1)

end LaneWriter

/-- Every close has a reason. -/
def LaneEvent.Named : LaneEvent → Prop
  | .close reason => reason ≠ ""
  | _ => True

theorem perform_ordered {e : LaneEvent} (hnamed : e.Named)
    (h : Ordered sha256 c items ((e.accepts c s).toList ++ future) s) :
    Yields (OnDisk sha256 c items) (fun _ => Ordered sha256 c items future)
      (fun _ => Ordered sha256 c items future) (e.perform sha256 c) s := by
  cases e with
  | put item => exact (LaneWriter.put_ordered h).bind fun _ _ hend => Yields.pure hend
  | drain size => exact (LaneWriter.drain_ordered h).bind fun _ _ hend => Yields.pure hend
  | close reason => exact LaneWriter.close_ordered h hnamed

/-- A run, by induction on the events still to come. -/
theorem run_ordered {events : List LaneEvent} (hnamed : ∀ e ∈ events, e.Named)
    (h : Ordered sha256 c items (LaneEvent.accepted sha256 c events s) s) :
    Yields (OnDisk sha256 c items) (fun _ => Ordered sha256 c items [])
      (fun _ => Ordered sha256 c items []) (LaneEvent.run sha256 c events) s := by
  induction events generalizing s with
  | nil => exact Yields.pure h
  | cons e events ih =>
    have hevent : Yields (OnDisk sha256 c items)
        (fun _ => Ordered sha256 c items (LaneEvent.accepted sha256 c events (e.next sha256 c s)))
        (fun _ => Ordered sha256 c items []) (caught (e.perform sha256 c)) s :=
      Yields.caught (perform_ordered (hnamed e List.mem_cons_self) h)
    apply (hevent.traced.mono (fun _ => id) (fun _ _ => id) fun _ _ => And.left).bind
    intro _ t ht
    obtain ⟨hordered, _, hfinal⟩ := ht
    apply ih (fun e' he' => hnamed e' (List.mem_cons_of_mem _ he'))
    rw [hfinal] at hordered ⊢
    exact hordered

/-- What is on disk is as the archiver and the finalizer ask. -/
theorem OnDisk.sealedInWindows (hsha256 : ∀ bytes, IsDigest (sha256 bytes))
    (h : OnDisk sha256 c items s) : SealedInWindows sha256 c items s := by
  refine ⟨h.windows, ?_⟩
  intro p f hmem sidecar hsidecar
  obtain ⟨hplaced, records, hrecords, htells⟩ := h.segments p f hmem
  obtain ⟨file, hfile, hcontent⟩ := Option.map_eq_some_iff.mp hsidecar
  have hsealed := htells.seals.sealFile (some file) (hfile ▸ List.mem_cons_self) sidecar file.synced
    (by rw [← hcontent])
  obtain ⟨previous, reason, extra, createdNs, hreason, hextra, rfl⟩ := hsealed
  constructor
  · refine ⟨records, hrecords.accepted, ?_, ?_, htells.data (by rw [hfile]; rfl)⟩
    · intro r hr
      obtain ⟨hfrom, hto⟩ := hrecords.window r hr
      exact ⟨Int.ofNat_le.mpr hfrom, Int.ofNat_lt.mpr hto⟩
    · have hmatches := (names_describe (observed previous records) reason extra createdNs :
        SealNamesData.Names sha256 p _ _).2
      rwa [digested_observed] at hmatches
  · have hname : parseSegmentName p.dataName = some ⟨p.startNs, p.segmentIndex, p.segmentId⟩ :=
      parseSegmentName_segmentFilename (segmentStem_data _) hplaced.reads hplaced.id.dash_notMem
    have hperiod : 0 < p.segmentSeconds := by
      rw [hplaced.segmentSeconds]
      exact c.positive
    rw [← hplaced.lane]
    exact validateSealDocument_describe createdNs hsha256 hperiod hname hplaced.id hreason hextra
      hrecords.window hrecords.least

end Steps

/-- The condition on the items: they come in order, from the first window on, and open windows of the
    lane whose names read back. -/
structure InTurn (c : LaneConfig) (startNs : Nat) (items : List Item) : Prop where
  order : items.Pairwise (Item.Before c.segmentSeconds)
  forward : ∀ x ∈ items, x.From startNs
  opens : ∀ x ∈ items, x.Opens c.segmentSeconds

variable {sha256 : List UInt8 → String} {c : LaneConfig} {startNs : Nat} {segmentId : String}

theorem ordered_opened (sha256 : List UInt8 → String) {items : List Item} (previousVisibleNs : Option Nat) (host : Host)
    (present : List String) (haligned : c.segmentSeconds * nanoseconds ∣ startNs)
    (hreads : Moment.ReadsBack startNs) (hid : IsHex segmentId) (h : InTurn c startNs items) :
    Ordered sha256 c items items
      (.opened c startNs segmentId previousVisibleNs host present) := by
  generalize hs : LaneState.opened c startNs segmentId previousVisibleNs host present = s
  have hempty : InWindow items s.placement [] :=
    ⟨(fun _ hr => nomatch hr), (fun _ hr => nomatch hr), (fun _ hfirst => nomatch hfirst)⟩
  have htaking : Taking (WindowSeal sha256 s.placement) previousVisibleNs [] s.segment s.files := by
    subst hs
    exact taking_opened _ _ host
  have hplaced : Placed c s.placement := by
    subst hs
    exact ⟨rfl, rfl, haligned, hreads, hid⟩
  have hsegments : s.segments = [(s.placement, s.files)] := by
    subst hs
    rfl
  refine ⟨⟨rfl, ⟨?_, ?_⟩, ⟨previousVisibleNs, [], htaking, hempty, fun _ hfirst => nomatch hfirst⟩,
    ?_, ?_, ?_⟩, ?_⟩
  · intro p f hmem
    rw [hsegments] at hmem
    cases List.mem_singleton.mp hmem
    exact ⟨hplaced, [], hempty, htaking.tells⟩
  · rw [hsegments]
    exact List.isChain_singleton _
  · subst hs
    exact fun hbroken => (hbroken rfl).elim
  · subst hs
    exact h.order
  · subst hs
    exact fun x hx => ⟨h.forward x hx, h.opens x hx, hx⟩
  · subst hs
    exact fun _ => rfl

/-- In every run whose items come in order, whatever the host answers and in every state on the
    way. -/
theorem run_sealedInWindows (hsha256 : ∀ bytes, IsDigest (sha256 bytes))
    (haligned : c.segmentSeconds * nanoseconds ∣ startNs) (hreads : Moment.ReadsBack startNs)
    (hid : IsHex segmentId) (previousVisibleNs : Option Nat) (host : Host) (present : List String)
    {events : List LaneEvent} (hnamed : ∀ e ∈ events, e.Named)
    (horder : InTurn c startNs (LaneEvent.accepted sha256 c events
      (.opened c startNs segmentId previousVisibleNs host present))) :
    ∀ s ∈ ((LaneEvent.run sha256 c events)
        (.opened c startNs segmentId previousVisibleNs host present)).states
        (.opened c startNs segmentId previousVisibleNs host present),
      SealedInWindows sha256 c (LaneEvent.accepted sha256 c events
        (.opened c startNs segmentId previousVisibleNs host present)) s := by
  intro s hs
  have hopened := ordered_opened sha256 previousVisibleNs host present haligned hreads hid
    horder
  rcases List.mem_cons.mp hs with rfl | htrail
  · exact hopened.1.disk.sealedInWindows hsha256
  · exact ((run_ordered hnamed hopened).1 s htrail).sealedInWindows hsha256


/-- A marker for the next window behind a record, and the end. -/
def inTurnEvents : List LaneEvent :=
  [.put (.record sampleRecord), .put (.rotate 1800000000000), .drain 5, .close "shutdown"]

theorem isDigest_sampleSha256 (bytes : List UInt8) : IsDigest (sampleSha256 bytes) := by
  unfold sampleSha256
  split
  · decide
  · decide

theorem run_sealedInWindows_rotated : SealedInWindows sampleSha256 { lane := "lane" }
    (LaneEvent.accepted sampleSha256 { lane := "lane" } inTurnEvents
      (.opened { lane := "lane" } 0 "1d" none {} []))
    (((LaneEvent.run sampleSha256 { lane := "lane" } inTurnEvents)
      (.opened { lane := "lane" } 0 "1d" none {} [])).final
      (.opened { lane := "lane" } 0 "1d" none {} [])) := by
  have haccepted : LaneEvent.accepted sampleSha256 { lane := "lane" } inTurnEvents
      (.opened { lane := "lane" } 0 "1d" none {} []) =
      [.record sampleRecord, .rotate 1800000000000] := by decide +kernel
  apply run_sealedInWindows isDigest_sampleSha256 (by decide) (by decide) (by decide)
  · simp [inTurnEvents, LaneEvent.Named]
  · rw [haccepted]
    refine ⟨?_, ?_, ?_⟩
    · simp [Item.Before, windowStartNs, sampleRecord, defaultSegmentSeconds, nanoseconds]
    · simp [Item.From]
    · simp only [List.mem_cons, List.not_mem_nil, or_false, forall_eq_or_imp, forall_eq]
      exact ⟨by decide, by decide, by decide⟩
  · exact Outcome.final_mem_states _ _

/-- What the claim asks of the items: records in order, the first of them inside the first window,
    and markers of windows of the lane, anywhere between them. -/
structure Interleaved (c : LaneConfig) (startNs : Nat) (items : List Item) : Prop where
  records : (items.filterMap Item.record?).Pairwise fun r r' =>
    r.visibleNs ≤ r'.visibleNs ∧ r.deliveryIndex < r'.deliveryIndex
  first : ∀ r ∈ (items.filterMap Item.record?).head?,
    windowStartNs r.visibleNs c.segmentSeconds = startNs
  forward : ∀ x ∈ items, x.From startNs
  opens : ∀ x ∈ items, x.Opens c.segmentSeconds

/-- A marker that is early, and a record of the window it leaves. -/
def earlyEvents : List LaneEvent :=
  [.put (.rotate 1800000000000), .put (.record sampleRecord), .drain 5, .close "shutdown"]

/-- What is left at the end. -/
def earlySealed : LaneState :=
  ((LaneEvent.run sampleSha256 { lane := "lane" } earlyEvents)
    (.opened { lane := "lane" } 0 "1d" none {} [])).final
    (.opened { lane := "lane" } 0 "1d" none {} [])

/-- The record behind an early marker is sealed in the wrong window, and the validator says so. -/
theorem not_sealedInWindows : ¬∀ (sha256 : List UInt8 → String) (c : LaneConfig) (startNs : Nat)
    (segmentId : String) (previousVisibleNs : Option Nat) (host : Host) (present : List String)
    (events : List LaneEvent), (∀ bytes, IsDigest (sha256 bytes)) →
    c.segmentSeconds * nanoseconds ∣ startNs → Moment.ReadsBack startNs → IsHex segmentId →
    (∀ e ∈ events, e.Named) → Interleaved c startNs (LaneEvent.accepted sha256 c events
      (.opened c startNs segmentId previousVisibleNs host present)) →
    ∀ s ∈ ((LaneEvent.run sha256 c events)
        (.opened c startNs segmentId previousVisibleNs host present)).states
        (.opened c startNs segmentId previousVisibleNs host present),
      SealedInWindows sha256 c (LaneEvent.accepted sha256 c events
        (.opened c startNs segmentId previousVisibleNs host present)) s := by
  intro h
  have haccepted : LaneEvent.accepted sampleSha256 { lane := "lane" } earlyEvents
      (.opened { lane := "lane" } 0 "1d" none {} []) =
      [.rotate 1800000000000, .record sampleRecord] := by decide +kernel
  have hend := h sampleSha256 { lane := "lane" } 0 "1d" none {} [] earlyEvents
    isDigest_sampleSha256 (by decide) (by decide) (by decide)
    (by simp [earlyEvents, LaneEvent.Named]) (by
      rw [haccepted]
      refine ⟨List.pairwise_singleton _ _, ?_, ?_, ?_⟩
      · intro r hr
        cases hr
        rfl
      · simp [Item.From]
      · simp only [List.mem_cons, List.not_mem_nil, or_false, forall_eq_or_imp, forall_eq]
        exact ⟨by decide, by decide⟩) earlySealed (Outcome.final_mem_states _ _)
  have hverdict : earlySealed.files.sealFile.content.map (·.map fun sidecar =>
      Archive.validateSealDocument sidecar.asRecord "lane" ⟨"lane=lane",
        dateDirectory earlySealed.placement.startNs, earlySealed.placement.dataName⟩) =
      some (some (.error "invalid seal: records span outside the declared window")) := by decide +kernel
  obtain ⟨sidecar?, hcontent, hverdict'⟩ := Option.map_eq_some_iff.mp hverdict
  obtain ⟨sidecar, rfl, hrefused⟩ := Option.map_eq_some_iff.mp hverdict'
  have hvalid := (hend.2 earlySealed.placement earlySealed.files
    (List.mem_append_right _ List.mem_cons_self) sidecar hcontent).2
  cases hrefused.symm.trans hvalid

end PredictionIndexer.Splices
