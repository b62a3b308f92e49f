import PredictionIndexer.Engine.Reader

/-!
# The derivative walker

`DerivativeWalker` of `engine/crates/tape`: it opens the pinned windows of a request one after
the other, reports each with a status, and joins consecutive deliveries of one tie value into an
atomic group. The delivery behind a group has to be read to see that the group ends; it waits in
`pending` for the next call.
-/

namespace PredictionIndexer.Engine

open Fallible

inductive LowerBoundPolicy where
  | clip
  | expandToWindowStart
  | requireWindowBoundary
deriving DecidableEq

structure WalkRequest where
  startNs : Nat
  endNs : Nat
  lowerBound : LowerBoundPolicy
  scope : ScopeFilter

structure PinnedDerivative where
  directory : String
  pin : DerivativePin
deriving DecidableEq

/-- The derivatives on disk: the metadata `inspect_pinned` verifies when a walk is planned, and
    what `open_pinned` finds when the walk gets there. -/
structure Derivatives where
  inspectPinned : PinnedDerivative → Except Halt DerivativeMetadata
  snapshot : PinnedDerivative → Except Halt (DerivativeMetadata × Snapshot)

/-- `open_pinned`. -/
def Derivatives.openPinned (store : Derivatives) (input : PinnedDerivative) :
    Except Halt VerifiedWindowReader := do
  let (metadata, stream) ← store.snapshot input
  pure { metadata := metadata, stream := stream }

/-- `WindowStatus`, from the metadata of the opened reader. -/
def DerivativeMetadata.status (m : DerivativeMetadata) : WindowStatus where
  pin := m.pin
  effectiveStartNs := m.effectiveStartNs
  effectiveEndNs := m.effectiveEndNs
  coverage := m.coverage.map BoundCoverage.toCoverageEvidence

structure DerivativeWalker where
  windows : List (PinnedDerivative × DerivativeMetadata)
  request : WalkRequest
  effectiveStartNs : Nat
  limits : ReadLimits
  index : Nat := 0
  reader : Option VerifiedWindowReader := none
  pending : Option MeasuredDelivery := none
  previousSeq : Option Int := none
  laneDeliveries : Std.ExtTreeMap LaneId Nat := ∅
  laneBytes : Nat := 0
  counts : WalkCounts := {}
  poisoned : Bool := false
  exhausted : Bool := false

/-! ## Planning -/

/-- The metadata of every input, charged to one budget. -/
def inspectAll (store : Derivatives) (limits : ReadLimits) (inputs : List PinnedDerivative)
    (metadataBytes : Nat) : Except Halt (List (PinnedDerivative × DerivativeMetadata)) :=
  match inputs with
  | [] => .ok []
  | input :: rest => do
    let bytes ← add metadataBytes input.directory.utf8ByteSize limits.maxMetadataBytes
      "path metadata bytes"
    let metadata ← store.inspectPinned input
    let bytes ← add bytes metadata.metadataBytes limits.maxMetadataBytes "window metadata bytes"
    let windows ← inspectAll store limits rest bytes
    pure ((input, metadata) :: windows)

/-- The windows meet the requested interval and each starts where the one before it ends. The
    result is the end of the last one. -/
def adjacentWindows (request : WalkRequest) (windows : List DerivativeMetadata) :
    Except Halt (Option Nat) :=
  windows.foldlM (fun last m =>
    if m.effectiveEndNs ≤ request.startNs || request.endNs ≤ m.effectiveStartNs then
      .error (.err "redundant window outside requested interval")
    else if last.any (m.effectiveStartNs ≠ ·) then
      .error (.err "derivative windows are not uniquely adjacent")
    else
      .ok (some m.effectiveEndNs)) none

/-- Where the effective interval starts. -/
def effectiveStart (request : WalkRequest) (start : Nat) : Except Halt Nat :=
  match request.lowerBound with
  | .clip => .ok request.startNs
  | .expandToWindowStart => .ok start
  | .requireWindowBoundary =>
    if start = request.startNs then .ok start
    else .error (.err "requested start is not a window boundary")

/-- `DerivativeWalker::open`. -/
def openWalker (store : Derivatives) (inputs : List PinnedDerivative) (request : WalkRequest)
    (limits : ReadLimits) : Except Halt DerivativeWalker := do
  limits.validate
  failIf (inputs.isEmpty || limits.maxWindows < inputs.length) "invalid selected window count"
  failIf (request.endNs ≤ request.startNs) "invalid requested interval"
  failIf (limits.maxScopeEntries <
    min (request.scope.instruments.size + request.scope.lanes.size) u64Max)
    "scope exceeds entry limit"
  let scopeBytes := fun bytes (name : String) =>
    add bytes name.utf8ByteSize limits.maxMetadataBytes "scope metadata bytes"
  let bytes ← (request.scope.instruments.toList.map (·.val)).foldlM scopeBytes 0
  let bytes ← (request.scope.lanes.toList.map (·.val)).foldlM scopeBytes bytes
  let windows ← inspectAll store limits inputs bytes
  let windows := windows.mergeSort fun a b => a.2.effectiveStartNs ≤ b.2.effectiveStartNs
  let last ← adjacentWindows request (windows.map (·.2))
  let first ← unwrap windows.head?
  let start := first.2.effectiveStartNs
  let last ← unwrap last
  failIf (request.startNs < start || last < request.endNs)
    "derivatives do not cover requested interval"
  let effectiveStartNs ← effectiveStart request start
  pure {
    windows := windows
    request := request
    effectiveStartNs := effectiveStartNs
    limits := limits }

namespace DerivativeWalker

/-! ## One delivery -/

/-- The lane of a delivery, against the walk so far. -/
def admitLane (w : DerivativeWalker) (a : EventAddress) : Except Halt DerivativeWalker := do
  let known := w.laneDeliveries[a.lane]?
  let bytes ← (
    if w.laneDeliveries.contains a.lane then .ok w.laneBytes
    else if w.laneDeliveries.size = w.limits.maxLanes then
      .error (.err "lane count exceeds walk limit")
    else
      add w.laneBytes a.lane.val.utf8ByteSize w.limits.maxMetadataBytes "lane metadata bytes")
  if known.any (a.deliveryIndex ≤ ·) then
    .error (.err "source delivery index repeats or decreases across windows")
  else
    .ok { w with
      laneBytes := bytes
      laneDeliveries := w.laneDeliveries.insert a.lane a.deliveryIndex }

theorem admitLane_eq_ok {w w' : DerivativeWalker} {a : EventAddress}
    (h : w.admitLane a = .ok w') :
    ∃ bytes lanes, w' = { w with laneBytes := bytes, laneDeliveries := lanes } := by
  unfold admitLane at h
  obtain ⟨bytes, _, h⟩ := Except.bind_eq_ok.mp h
  split at h
  · cases h
  · exact ⟨bytes, _, (Except.ok.inj h).symm⟩

/-- `DerivativeWalker::source`: the next delivery of the open window, checked against the walk
    so far. -/
def source (w : DerivativeWalker) : Except Halt (Option MeasuredDelivery × DerivativeWalker) := do
  let reader ← unwrap w.reader
  let (delivery, reader) ← reader.nextDelivery w.limits
  let w := { w with reader := some reader }
  match delivery with
  | none => pure (none, w)
  | some d =>
    let w ← w.admitLane d.header.address
    let seq := d.header.address.canonicalSeq
    if w.previousSeq.any fun p => checkedSucc p ≠ some seq then
      .error (.err "source canonical sequence is not adjacent across windows")
    else
      pure (some d, { w with previousSeq := some seq })

end DerivativeWalker

/-- The address of a delivery's last child, or its own when it has none. -/
def lastAddress (d : SourceDelivery) : EventAddress :=
  (d.records.getLast?.map (·.header.address)).getD d.header.address

/-- The group with one more delivery behind it and what the filter keeps of that. -/
def AtomicGroup.take (group : AtomicGroup) (d : SourceDelivery) (kept : Option FilteredDelivery) :
    AtomicGroup :=
  { group with last := lastAddress d, deliveries := group.deliveries ++ kept.toList }

namespace DerivativeWalker

/-- What is still to come of the open window: the delivery read ahead and the lines behind it. -/
def remaining (w : DerivativeWalker) : Nat :=
  (if w.pending.isSome then 1 else 0) +
    (w.reader.map (·.stream.deliveries.length)).getD 0

theorem nextDelivery_length {r r' : VerifiedWindowReader} {limits : ReadLimits}
    {d : Option MeasuredDelivery} (h : r.nextDelivery limits = .ok (d, r')) :
    r'.stream.deliveries.length + d.toList.length ≤ r.stream.deliveries.length := by
  unfold VerifiedWindowReader.nextDelivery at h
  split at h
  · cases h
    simp
  · split at h
    · next hdeliveries =>
      obtain ⟨_, _, h⟩ := Except.bind_eq_ok.mp h
      obtain ⟨_, _, h⟩ := Except.bind_eq_ok.mp h
      obtain ⟨_, _, h⟩ := Except.bind_eq_ok.mp h
      cases h
      simp [hdeliveries]
    · next hdeliveries =>
      obtain ⟨_, _, h⟩ := Except.bind_eq_ok.mp h
      obtain ⟨_, _, h⟩ := Except.bind_eq_ok.mp h
      cases h
      simp [hdeliveries]

/-- What the walk over a window leaves alone. -/
structure SamePlan (w w' : DerivativeWalker) : Prop where
  windows : w'.windows = w.windows
  request : w'.request = w.request
  effectiveStartNs : w'.effectiveStartNs = w.effectiveStartNs
  limits : w'.limits = w.limits

/-- Everything `source` does. -/
theorem source_eq_ok {w w' : DerivativeWalker} {d : Option MeasuredDelivery}
    (h : w.source = .ok (d, w')) :
    ∃ r r', w.reader = some r ∧ r.nextDelivery w.limits = .ok (d, r') ∧ w'.reader = some r' ∧
      SamePlan w w' ∧ w'.index = w.index ∧ w'.exhausted = w.exhausted ∧ w'.pending = w.pending ∧
      w'.counts = w.counts ∧
      w'.previousSeq = (d.map (·.header.address.canonicalSeq)).or w.previousSeq ∧
      ∀ next ∈ d, ∀ p ∈ w.previousSeq, next.header.address.canonicalSeq = p + 1 := by
  obtain ⟨r, hr, h⟩ := Except.bind_eq_ok.mp h
  obtain ⟨⟨d', r'⟩, hnext, h⟩ := Except.bind_eq_ok.mp h
  rw [unwrap_eq_ok] at hr
  cases d' with
  | none =>
    cases h
    exact ⟨r, r', hr, hnext, rfl, ⟨rfl, rfl, rfl, rfl⟩, rfl, rfl, rfl, rfl, rfl, by simp⟩
  | some next =>
    obtain ⟨w₁, hlane, h⟩ := Except.bind_eq_ok.mp h
    obtain ⟨bytes, lanes, rfl⟩ := admitLane_eq_ok hlane
    dsimp only at h
    split at h
    · cases h
    · next hseq =>
      cases h
      refine ⟨r, r', hr, hnext, rfl, ⟨rfl, rfl, rfl, rfl⟩, rfl, rfl, rfl, rfl, rfl, ?_⟩
      intro d hd p hp
      obtain rfl := Option.some.inj hd
      simp only [Option.mem_def.mp hp, Option.any_some, ne_eq, decide_not, Bool.not_eq_true',
        decide_eq_false_iff_not, not_not] at hseq
      exact checkedSucc_eq_some hseq

theorem source_remaining {w w' : DerivativeWalker} {d : Option MeasuredDelivery}
    (h : w.source = .ok (d, w')) : w'.remaining + d.toList.length ≤ w.remaining := by
  obtain ⟨r, r', hr, hnext, hr', _, _, _, hpending, _⟩ := source_eq_ok h
  have := nextDelivery_length hnext
  simp only [remaining, hr, hr', hpending, Option.map_some, Option.getD_some]
  omega

/-! ## One group -/

/-- The inner loop of `next_inner`: takes `current` into the group and reads on for as long as
    the deliveries carry the group's tie value. -/
def collect (w : DerivativeWalker) (group : AtomicGroup) (bytes records : Nat)
    (current : MeasuredDelivery) : Except Halt (AtomicGroup × DerivativeWalker) := do
  let bytes ← add bytes current.logicalBytes w.limits.maxGroupBytes "group bytes"
  let records ← add records current.recordCount w.limits.maxGroupRecords "group records"
  let (counts, kept) ← walkerFilter w.request.scope w.effectiveStartNs w.request.endNs w.counts
    current.toSourceDelivery
  let group := group.take current.toSourceDelivery kept
  match _hsource : source { w with counts := counts } with
  | .error e => .error e
  | .ok (none, w') => .ok (group, { w' with pending := none })
  | .ok (some next, w') =>
    if group.tie.isSome && next.header.visibleTieGroup = group.tie then
      collect w' group bytes records next
    else
      .ok (group, { w' with pending := some next })
termination_by w.remaining
decreasing_by
  have := source_remaining _hsource
  simp only [remaining, Option.toList_some, List.length_singleton] at this ⊢
  omega

/-- The group that a delivery starts, before it is taken in. -/
def groupAt (pin : DerivativePin) (first : SourceDelivery) : AtomicGroup where
  pin := pin
  first := first.header.address
  last := first.header.address
  visibleNs := first.header.visibleNs
  tie := first.header.visibleTieGroup
  deliveries := []

/-- The first delivery of the next group: the one read ahead, or a new one. -/
def takeFirst (w : DerivativeWalker) : Except Halt (Option MeasuredDelivery × DerivativeWalker) :=
  match w.pending with
  | some d => .ok (some d, { w with pending := none })
  | none => w.source

theorem takeFirst_remaining {w w' : DerivativeWalker} {d : MeasuredDelivery}
    (h : w.takeFirst = .ok (some d, w')) : w'.remaining < w.remaining := by
  unfold takeFirst at h
  split at h
  · next hpending =>
    cases h
    simp [remaining, hpending]
  · have := source_remaining h
    simp only [Option.toList_some, List.length_singleton] at this
    omega

/-! ## One item -/

/-- `next_inner` without a reader: the status of the next window, or the end of the input. -/
def enterWindow (store : Derivatives) (w : DerivativeWalker) :
    Except Halt (Option WalkItem × DerivativeWalker) :=
  if w.index = w.windows.length then
    .ok (none, { w with exhausted := true })
  else do
    let (input, expected) ← unwrap w.windows[w.index]?
    let reader ← store.openPinned input
    if reader.metadata ≠ expected then
      .error (.err "derivative metadata changed since planning")
    else
      pure (some (.windowStatus reader.metadata.status), { w with reader := some reader })

/-- The deliveries of one group share its tie value. -/
def Joins (group : AtomicGroup) (d : SourceDelivery) : Prop :=
  group.tie.isSome ∧ d.header.visibleTieGroup = group.tie

/-- Everything one round of the inner loop does. -/
theorem collect_eq_ok {w w' : DerivativeWalker} {group group' : AtomicGroup} {bytes records : Nat}
    {current : MeasuredDelivery}
    (h : w.collect group bytes records current = .ok (group', w')) :
    ∃ counts kept next w₁,
      walkerFilter w.request.scope w.effectiveStartNs w.request.endNs w.counts
        current.toSourceDelivery = .ok (counts, kept) ∧
      source { w with counts := counts } = .ok (next, w₁) ∧
      ((∃ d bytes' records', next = some d ∧ Joins group d.toSourceDelivery ∧
          w₁.collect (group.take current.toSourceDelivery kept) bytes' records' d =
            .ok (group', w')) ∨
        ((∀ d ∈ next, ¬Joins group d.toSourceDelivery) ∧
          group' = group.take current.toSourceDelivery kept ∧
          w' = { w₁ with pending := next })) := by
  unfold collect at h
  obtain ⟨bytes', _, h⟩ := Except.bind_eq_ok.mp h
  obtain ⟨records', _, h⟩ := Except.bind_eq_ok.mp h
  obtain ⟨⟨counts, kept⟩, hfilter, h⟩ := Except.bind_eq_ok.mp h
  dsimp only at h
  split at h
  · cases h
  · next w₁ hsource =>
    cases h
    exact ⟨counts, kept, none, w₁, hfilter, hsource, .inr ⟨by simp, rfl, rfl⟩⟩
  · next d w₁ hsource =>
    refine ⟨counts, kept, some d, w₁, hfilter, hsource, ?_⟩
    split at h
    · next hjoins =>
      simp only [Bool.and_eq_true, decide_eq_true_eq] at hjoins
      exact .inl ⟨d, bytes', records', rfl, hjoins, h⟩
    · next hjoins =>
      simp only [Bool.and_eq_true, decide_eq_true_eq] at hjoins
      cases h
      refine .inr ⟨?_, rfl, rfl⟩
      intro d' hd'
      obtain rfl := Option.some.inj hd'
      exact hjoins

theorem collect_remaining {w w' : DerivativeWalker} {group group' : AtomicGroup}
    {bytes records : Nat} {current : MeasuredDelivery}
    (h : w.collect group bytes records current = .ok (group', w')) :
    w'.remaining ≤ w.remaining := by
  induction hn : w.remaining using Nat.strong_induction_on
    generalizing w group bytes records current with
  | _ n ih =>
    subst hn
    obtain ⟨counts, kept, next, w₁, _, hsource, hstep⟩ := collect_eq_ok h
    have hread := source_remaining hsource
    change w₁.remaining + next.toList.length ≤ w.remaining at hread
    rcases hstep with ⟨d, bytes, records, rfl, _, hrest⟩ | ⟨_, _, rfl⟩
    · simp only [Option.toList_some, List.length_singleton] at hread
      exact (ih _ (by omega) hrest rfl).trans (by omega)
    · simp only [remaining] at hread ⊢
      cases next <;> simp at hread ⊢ <;> omega

/-- The loop of `next_inner` over an open window: groups that nothing of is kept are passed over,
    and behind the last group the next window is entered. -/
def nextGroup (store : Derivatives) (w : DerivativeWalker) :
    Except Halt (Option WalkItem × DerivativeWalker) :=
  match _hfirst : w.takeFirst with
  | .error e => .error e
  | .ok (none, w) => do
    let reader ← unwrap w.reader
    reader.finish
    enterWindow store { w with reader := none, pending := none, index := w.index + 1 }
  | .ok (some first, w₁) => do
    let (input, _) ← unwrap w₁.windows[w₁.index]?
    match _hcollect : w₁.collect (groupAt input.pin first.toSourceDelivery) 0 0 first with
    | .error e => .error e
    | .ok (group, w₂) =>
      if group.deliveries.isEmpty then
        nextGroup store w₂
      else do
        let n ← add w₂.counts.groups 1 u64Max "groups"
        pure (some (.group group), { w₂ with counts := { w₂.counts with groups := n } })
termination_by w.remaining
decreasing_by exact lt_of_le_of_lt (collect_remaining _hcollect) (takeFirst_remaining _hfirst)

/-- `DerivativeWalker::next_inner`. -/
def nextInner (store : Derivatives) (w : DerivativeWalker) :
    Except Halt (Option WalkItem × DerivativeWalker) :=
  if w.reader.isNone then w.enterWindow store else w.nextGroup store

/-- `DerivativeWalker::next_item`: an error poisons the walker, and nothing but the flag is read
    of a poisoned one. -/
def nextItem (store : Derivatives) (w : DerivativeWalker) :
    Except Halt (Option WalkItem) × DerivativeWalker :=
  if w.poisoned then
    (.error (.err "derivative walker is poisoned"), w)
  else if w.exhausted then
    (.ok none, w)
  else
    match w.nextInner store with
    | .ok (item, w') => (.ok item, w')
    | .error e => (.error e, { w with poisoned := true })

/-- `FinishedWalk`. -/
structure FinishedWalk where
  request : WalkRequest
  effectiveStartNs : Nat
  pins : List DerivativePin
  counts : WalkCounts
  sourceEvidenceComplete : Bool

/-- `DerivativeWalker::finish`. -/
def finish (w : DerivativeWalker) : Except Halt FinishedWalk :=
  if w.poisoned || !w.exhausted then
    .error (.err "walker requires verified EOF before finish")
  else
    .ok {
      request := w.request
      effectiveStartNs := w.effectiveStartNs
      pins := w.windows.map (·.1.pin)
      counts := w.counts
      sourceEvidenceComplete := w.windows.all (·.2.coverage.isSome) }

/-- A caller that asks for items until there are none, at most `calls` times: what it got, when
    it did get to the end of the input. -/
def drain (store : Derivatives) (w : DerivativeWalker) :
    Nat → Except Halt (Option (List WalkItem × DerivativeWalker))
  | 0 => .ok none
  | calls + 1 =>
    match w.nextItem store with
    | (.error e, _) => .error e
    | (.ok none, w') => .ok (some ([], w'))
    | (.ok (some item), w') => do
      let rest ← w'.drain store calls
      pure (rest.map fun (items, w'') => (item :: items, w''))

end DerivativeWalker

end PredictionIndexer.Engine
