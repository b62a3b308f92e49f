import PredictionIndexer.Engine.Walker
import PredictionIndexer.Spec.WindowChecks

/-!
# A walk partitions its source deliveries

The walker reads one delivery ahead, passes over groups that nothing of is kept, and counts on
five branches. What it comes to is simple: per window a status, and behind it the runs of one tie
value (`LabelRuns.runs`) of which the interval and the scope leave something.

`Sourced` is the invariant of reading (what has been read of which window), `Walked` that of the
items and the counts. Each call of `next_item` keeps them (`nextInner_walked`), and a walk that
gets to the end of its input is `Partitioned`.
-/

namespace PredictionIndexer.Engine

open Fallible LabelRuns

/-- The canonical sequence of a delivery. -/
abbrev MeasuredDelivery.seq (d : MeasuredDelivery) : Int := d.header.address.canonicalSeq

/-! ## What a walk should yield -/

namespace DerivativeWalker

/-- What the effective interval and the scope leave of a delivery. -/
def kept (w : DerivativeWalker) (d : MeasuredDelivery) : Option FilteredDelivery :=
  if d.time < w.effectiveStartNs || w.request.endNs ≤ d.time then none
  else w.request.scope.delivery d.toSourceDelivery

/-- A group that has taken the deliveries of a run. -/
def taken (w : DerivativeWalker) (group : AtomicGroup) (run : List MeasuredDelivery) :
    AtomicGroup :=
  run.foldl (fun g d => g.take d.toSourceDelivery (w.kept d)) group

/-- The group of a run, unless nothing of the run is kept. -/
def groupOf (w : DerivativeWalker) (pin : DerivativePin) : List MeasuredDelivery → Option AtomicGroup
  | [] => none
  | first :: more =>
    let group := w.taken (groupAt pin first.toSourceDelivery) (first :: more)
    if group.deliveries.isEmpty then none else some group

/-- The groups of a window. -/
def windowGroups (w : DerivativeWalker) (pin : DerivativePin) (sources : List MeasuredDelivery) :
    List AtomicGroup :=
  (runs MeasuredDelivery.tie sources).filterMap (w.groupOf pin)

/-- The items of a window. -/
def windowItems (w : DerivativeWalker) (planned : PinnedDerivative × DerivativeMetadata)
    (sources : List MeasuredDelivery) : List WalkItem :=
  .windowStatus planned.2.status :: (w.windowGroups planned.1.pin sources).map .group

theorem taken_deliveries (w : DerivativeWalker) (group : AtomicGroup)
    (run : List MeasuredDelivery) :
    (w.taken group run).deliveries = group.deliveries ++ run.filterMap w.kept := by
  induction run generalizing group with
  | nil => simp [taken]
  | cons d run ih =>
    have hstep := ih (group.take d.toSourceDelivery (w.kept d))
    simp only [taken, List.foldl_cons] at hstep ⊢
    rw [hstep]
    cases hd : w.kept d <;> simp [AtomicGroup.take, hd]

theorem taken_frame (w : DerivativeWalker) (group : AtomicGroup) (run : List MeasuredDelivery) :
    (w.taken group run).first = group.first ∧ (w.taken group run).tie = group.tie ∧
      (w.taken group run).pin = group.pin := by
  induction run generalizing group with
  | nil => exact ⟨rfl, rfl, rfl⟩
  | cons d run ih => exact ih (group.take d.toSourceDelivery (w.kept d))

theorem taken_last (w : DerivativeWalker) (group : AtomicGroup) (run : List MeasuredDelivery)
    (d : MeasuredDelivery) :
    (w.taken group (run ++ [d])).last = lastAddress d.toSourceDelivery := by
  simp [taken, List.foldl_append, AtomicGroup.take]

/-- The address of the last child of a delivery is at the delivery's own place. -/
theorem lastAddress_seq (d : SourceDelivery) :
    (lastAddress d).canonicalSeq = d.header.address.canonicalSeq := by
  unfold lastAddress
  cases hlast : d.records.getLast? with
  | none => rfl
  | some r =>
    have hsame := List.all_eq_true.mp d.same r (List.mem_of_getLast? hlast)
    simp only [sameSource, Bool.and_eq_true, decide_eq_true_eq] at hsame
    simpa using (congrArg EventAddress.canonicalSeq hsame.2).symm

/-! ## The counts of a walk -/

/-- What the deliveries of a list add to the counts. -/
structure Counted (w : DerivativeWalker) (c c' : WalkCounts) (ds : List MeasuredDelivery) :
    Prop where
  sources : c'.sourceDeliveries = c.sourceDeliveries + ds.length
  included : c'.includedSources = c.includedSources + (ds.filterMap w.kept).length
  parts : c'.includedSources + c'.scopeExcludedSources + c'.intervalExcludedSources =
    c.includedSources + c.scopeExcludedSources + c.intervalExcludedSources + ds.length
  events : c'.includedEvents + c'.excludedEvents =
    c.includedEvents + c.excludedEvents + (ds.map (·.records.length)).sum
  groups : c'.groups = c.groups

theorem Counted.nil (w : DerivativeWalker) (c : WalkCounts) : Counted w c c [] := by
  constructor <;> simp

theorem Counted.append {w : DerivativeWalker} {c c₁ c₂ : WalkCounts}
    {ds es : List MeasuredDelivery} (h : Counted w c c₁ ds) (h' : Counted w c₁ c₂ es) :
    Counted w c c₂ (ds ++ es) := by
  obtain ⟨hs, hi, hp, he, hg⟩ := h
  obtain ⟨hs', hi', hp', he', hg'⟩ := h'
  constructor
  · simp only [List.length_append]
    omega
  · simp only [List.filterMap_append, List.length_append]
    omega
  · simp only [List.length_append]
    omega
  · simp only [List.map_append, List.sum_append]
    omega
  · omega

theorem add_eq_ok {total count maximum n : Nat} {label : String}
    (h : add total count maximum label = .ok n) : n = total + count := by
  unfold add at h
  rw [okOr_eq_ok, Option.filter_eq_some_iff, checkedAdd_eq_some] at h
  exact h.1.2

theorem disposition_eq_ok {c c' : WalkCounts} {disposition : Option RejectDisposition}
    (h : c.disposition disposition = .ok c') :
    ∃ rejected ignored, c' = { c with rejectedSources := rejected, ignoredSources := ignored } := by
  unfold WalkCounts.disposition at h
  split at h
  · obtain ⟨n, _, h⟩ := Except.bind_eq_ok.mp h
    exact ⟨n, c.ignoredSources, (Except.ok.inj h).symm⟩
  · obtain ⟨n, _, h⟩ := Except.bind_eq_ok.mp h
    exact ⟨c.rejectedSources, n, (Except.ok.inj h).symm⟩
  · exact ⟨c.rejectedSources, c.ignoredSources, (Except.ok.inj h).symm⟩

/-- One delivery through the filter. -/
theorem walkerFilter_eq_ok {w : DerivativeWalker} {c c' : WalkCounts} {d : MeasuredDelivery}
    {k : Option FilteredDelivery}
    (h : walkerFilter w.request.scope w.effectiveStartNs w.request.endNs c d.toSourceDelivery =
      .ok (c', k)) : k = w.kept d ∧ Counted w c c' [d] := by
  unfold walkerFilter at h
  obtain ⟨n, hn, h⟩ := Except.bind_eq_ok.mp h
  obtain ⟨c₁, hc₁, h⟩ := Except.bind_eq_ok.mp h
  obtain ⟨rejected, ignored, rfl⟩ := disposition_eq_ok hc₁
  obtain rfl := add_eq_ok hn
  split at h
  · next hout =>
    obtain ⟨c₂, hc₂, h⟩ := Except.bind_eq_ok.mp h
    obtain ⟨m₁, hm₁, hc₂⟩ := Except.bind_eq_ok.mp hc₂
    obtain ⟨m₂, hm₂, hc₂⟩ := Except.bind_eq_ok.mp hc₂
    obtain rfl := add_eq_ok hm₁
    obtain rfl := add_eq_ok hm₂
    cases hc₂
    cases h
    have hkept : w.kept d = none := if_pos hout
    refine ⟨hkept.symm, ?_⟩
    constructor <;> simp [hkept] <;> omega
  · next hin =>
    have hkept : w.kept d = w.request.scope.delivery d.toSourceDelivery := if_neg hin
    have hle := List.length_filter_le w.request.scope.event d.records
    obtain ⟨c₂, hc₂, h⟩ := Except.bind_eq_ok.mp h
    cases h
    refine ⟨hkept.symm, ?_⟩
    unfold WalkCounts.inside at hc₂
    obtain ⟨m₁, hm₁, hc₂⟩ := Except.bind_eq_ok.mp hc₂
    obtain ⟨m₂, hm₂, hc₂⟩ := Except.bind_eq_ok.mp hc₂
    obtain rfl := add_eq_ok hm₁
    obtain rfl := add_eq_ok hm₂
    cases hdelivery : w.request.scope.delivery d.toSourceDelivery with
    | none =>
      rw [hdelivery] at hc₂ hkept
      obtain ⟨m₃, hm₃, hc₂⟩ := Except.bind_eq_ok.mp hc₂
      obtain rfl := add_eq_ok hm₃
      cases hc₂
      constructor <;> simp [hkept] <;> omega
    | some f =>
      rw [hdelivery] at hc₂ hkept
      obtain ⟨m₃, hm₃, hc₂⟩ := Except.bind_eq_ok.mp hc₂
      obtain rfl := add_eq_ok hm₃
      cases hc₂
      constructor <;> simp [hkept] <;> omega

/-! ## Reading -/

/-- The window was read to its end and verified. -/
structure WindowRead (store : Derivatives) (planned : PinnedDerivative × DerivativeMetadata)
    (sources : List MeasuredDelivery) : Prop where
  stream : ∃ s, store.snapshot planned.1 = .ok (planned.2, s) ∧ s.deliveries = sources.map .ok
  verified : VerifiedWindow sources

/-- The open window: `read` are its deliveries so far. -/
structure Reading (store : Derivatives) (planned : PinnedDerivative × DerivativeMetadata)
    (r : VerifiedWindowReader) (read : List MeasuredDelivery) : Prop where
  metadata : r.metadata = planned.2
  stream : ∃ s, store.snapshot planned.1 = .ok (planned.2, s) ∧
    s.deliveries = read.map .ok ++ r.stream.deliveries
  observed : Observed read r.checks
  exhausted : r.exhausted = true → r.stream.deliveries = [] ∧ VerifiedWindow read

/-- Canonical sequences without a gap. -/
def Dense (ds : List MeasuredDelivery) : Prop := ds.IsChain fun a b => b.seq = a.seq + 1

/-- What a walk has read: `done` of the windows before the current one and `read` of that. -/
structure Sourced (store : Derivatives) (w₀ w : DerivativeWalker)
    (done : List (List MeasuredDelivery)) (read : List MeasuredDelivery) : Prop where
  plan : SamePlan w₀ w
  live : w.exhausted = false
  index : w.index = done.length
  windows : List.Forall₂ (WindowRead store) (w₀.windows.take done.length) done
  previous : w.previousSeq = (done.flatten ++ read).getLast?.map (·.seq)
  dense : Dense (done.flatten ++ read)
  idle : w.reader = none → read = []
  current : ∀ r ∈ w.reader, ∃ planned, w₀.windows[done.length]? = some planned ∧
    Reading store planned r read

section Reader

variable {store : Derivatives} {planned : PinnedDerivative × DerivativeMetadata}
  {r r' : VerifiedWindowReader} {read : List MeasuredDelivery} {limits : ReadLimits}

theorem Reading.nextDelivery {d : Option MeasuredDelivery} (h : Reading store planned r read)
    (hnext : r.nextDelivery limits = .ok (d, r')) :
    Reading store planned r' (read ++ d.toList) ∧ (d = none → r'.exhausted = true) ∧
      (r.exhausted = true → d = none) := by
  obtain ⟨s, hs, hstream⟩ := h.stream
  unfold VerifiedWindowReader.nextDelivery at hnext
  split at hnext
  · next hexhausted =>
    cases hnext
    simpa using ⟨h, hexhausted⟩
  · next hexhausted =>
    split at hnext
    · next hdeliveries =>
      obtain ⟨_, _, hnext⟩ := Except.bind_eq_ok.mp hnext
      obtain ⟨_, hfinish, hnext⟩ := Except.bind_eq_ok.mp hnext
      obtain ⟨_, _, hnext⟩ := Except.bind_eq_ok.mp hnext
      cases hnext
      rw [Option.toList_none, List.append_nil]
      refine ⟨⟨h.metadata, ⟨s, hs, hstream⟩, h.observed, fun _ => ⟨hdeliveries, ?_⟩⟩,
        fun _ => rfl, fun _ => rfl⟩
      exact DeliveryChecks.finish_verified h.observed hfinish
    · next delivery rest hdeliveries =>
      obtain ⟨d', hd', hnext⟩ := Except.bind_eq_ok.mp hnext
      obtain ⟨checks, hchecks, hnext⟩ := Except.bind_eq_ok.mp hnext
      cases hnext
      refine ⟨⟨h.metadata, ⟨s, hs, ?_⟩, ?_, ?_⟩, ?_, ?_⟩
      · simp [hstream, hdeliveries, hd']
      · exact DeliveryChecks.observe_observed h.observed hchecks
      · exact fun hr => absurd hr hexhausted
      · exact fun hnone => nomatch hnone
      · exact fun hr => absurd hr hexhausted

end Reader

section Steps

variable {store : Derivatives} {w₀ w w' : DerivativeWalker} {done : List (List MeasuredDelivery)}
  {read : List MeasuredDelivery}

theorem Dense.concat {ds : List MeasuredDelivery} {d : MeasuredDelivery} (h : Dense ds)
    (hd : ∀ p ∈ ds.getLast?.map (·.seq), d.seq = p + 1) : Dense (ds ++ [d]) := by
  refine List.isChain_append.mpr ⟨h, List.isChain_singleton _, fun a ha b hb => ?_⟩
  obtain rfl : b = d := by simpa [eq_comm] using hb
  exact hd _ (by simp [Option.mem_def.mp ha])

/-- `source` reads one delivery further, or sees the end of the window. -/
theorem Sourced.source {d : Option MeasuredDelivery} (h : Sourced store w₀ w done read)
    (hsource : w.source = .ok (d, w')) :
    Sourced store w₀ w' done (read ++ d.toList) ∧ w'.pending = w.pending ∧
      w'.counts = w.counts ∧ w'.reader.isSome ∧
      (d = none → ∀ r ∈ w'.reader, r.exhausted = true) ∧
      ((∀ r ∈ w.reader, r.exhausted = true) → d = none) := by
  obtain ⟨r, r', hr, hnext, hr', hplan, hindex, hexhausted, hpending, hcounts, hprevious, hseq⟩ :=
    source_eq_ok hsource
  obtain ⟨planned, hplanned, hreading⟩ := h.current r hr
  obtain ⟨hreading', hnone, hsome⟩ := hreading.nextDelivery hnext
  refine ⟨?_, hpending, hcounts, by simp [hr'], ?_, fun hall => hsome (hall r hr)⟩
  · constructor
    case plan =>
      obtain ⟨hw, hq, hs, hl⟩ := hplan
      exact ⟨hw.trans h.plan.windows, hq.trans h.plan.request, hs.trans h.plan.effectiveStartNs,
        hl.trans h.plan.limits⟩
    case live => exact hexhausted.trans h.live
    case index => exact hindex.trans h.index
    case windows => exact h.windows
    case previous =>
      rw [hprevious, h.previous]
      cases d <;> simp
    case dense =>
      cases d with
      | none => simpa using h.dense
      | some next =>
        rw [Option.toList_some, ← List.append_assoc]
        apply h.dense.concat
        intro p hp
        exact hseq next rfl p (by rwa [h.previous])
    case idle => simp [hr']
    case current =>
      intro r₁ hr₁
      obtain rfl := Option.some.inj (hr'.symm.trans (Option.mem_def.mp hr₁))
      exact ⟨planned, hplanned, hreading'⟩
  · intro hd r₁ hr₁
    obtain rfl := Option.some.inj (hr'.symm.trans (Option.mem_def.mp hr₁))
    exact hnone hd

/-- What is read does not depend on the counts or on where the delivery read ahead is kept. -/
theorem Sourced.congr (h : Sourced store w₀ w done read) (counts : WalkCounts)
    (pending : Option MeasuredDelivery) :
    Sourced store w₀ { w with counts := counts, pending := pending } done read :=
  ⟨⟨h.plan.windows, h.plan.request, h.plan.effectiveStartNs, h.plan.limits⟩, h.live, h.index,
    h.windows, h.previous, h.dense, h.idle, h.current⟩

/-! ## Collecting one group -/

theorem SamePlan.kept (h : SamePlan w₀ w) : w.kept = w₀.kept := by
  funext d
  simp only [DerivativeWalker.kept, h.effectiveStartNs, h.request]

theorem SamePlan.counted {c c' : WalkCounts} {ds : List MeasuredDelivery} (h : SamePlan w₀ w)
    (hcounted : Counted w c c' ds) : Counted w₀ c c' ds := by
  obtain ⟨hs, hi, hp, he, hg⟩ := hcounted
  rw [h.kept] at hi
  exact ⟨hs, hi, hp, he, hg⟩

/-- The inner loop takes the deliveries that share the group's tie value, and reads one more. -/
theorem Sourced.collect {group group' : AtomicGroup} {bytes records : Nat}
    {current : MeasuredDelivery} (h : Sourced store w₀ w done read)
    (hcollect : w.collect group bytes records current = .ok (group', w')) :
    ∃ more : List MeasuredDelivery,
      Sourced store w₀ w' done (read ++ more ++ w'.pending.toList) ∧
      (∀ d ∈ more, Joins group d.toSourceDelivery) ∧
      (∀ d ∈ w'.pending, ¬Joins group d.toSourceDelivery) ∧
      group' = w₀.taken group (current :: more) ∧
      Counted w₀ w.counts w'.counts (current :: more) ∧ w'.reader.isSome ∧
      (w'.pending = none → ∀ r ∈ w'.reader, r.exhausted = true) := by
  induction hn : w.remaining using Nat.strong_induction_on
    generalizing w read group bytes records current with
  | _ n ih =>
    subst hn
    obtain ⟨counts, kept, next, w₁, hfilter, hsource, hstep⟩ := collect_eq_ok hcollect
    obtain ⟨rfl, hcounted⟩ := walkerFilter_eq_ok hfilter
    rw [h.plan.kept] at hstep
    replace hcounted := h.plan.counted hcounted
    obtain ⟨hread, _, hcounts, hreader, hend, _⟩ := (h.congr counts w.pending).source hsource
    have hlength := source_remaining hsource
    change w₁.remaining + next.toList.length ≤ w.remaining at hlength
    rcases hstep with ⟨d, bytes', records', rfl, hjoins, hrest⟩ | ⟨hjoins, rfl, rfl⟩
    · simp only [Option.toList_some, List.length_singleton] at hlength
      obtain ⟨more, hmore, hall, hpending, htaken, hcounted', hreader', hend'⟩ :=
        ih _ (by omega) hread hrest rfl
      refine ⟨d :: more, ?_, ?_, hpending, htaken, ?_, hreader', hend'⟩
      · simpa using hmore
      · intro e he
        rcases List.mem_cons.mp he with rfl | he
        · exact hjoins
        · exact hall e he
      · rw [hcounts] at hcounted'
        exact hcounted.append hcounted'
    · refine ⟨[], ?_, by simp, hjoins, rfl, ?_, hreader, hend⟩
      · simpa using hread.congr w₁.counts next
      · change Counted w₀ w.counts w₁.counts [current]
        rw [hcounts]
        exact hcounted

/-! ## Items -/

/-- The items of the first windows of a plan, as far as they have been read. -/
def itemsOf (w₀ : DerivativeWalker) (sources : List (List MeasuredDelivery)) : List WalkItem :=
  (List.zipWith w₀.windowItems w₀.windows sources).flatten

theorem itemsOf_concat {planned : PinnedDerivative × DerivativeMetadata}
    (h : w₀.windows[done.length]? = some planned) (sources : List MeasuredDelivery) :
    itemsOf w₀ (done ++ [sources]) = itemsOf w₀ done ++ w₀.windowItems planned sources := by
  have hlt : done.length < w₀.windows.length := (List.getElem?_eq_some_iff.mp h).1
  have hsplit : w₀.windows = w₀.windows.take done.length ++ w₀.windows.drop done.length := by simp
  have hdrop : w₀.windows.drop done.length = planned :: w₀.windows.drop (done.length + 1) := by
    rw [List.drop_eq_getElem_cons hlt, (List.getElem?_eq_some_iff.mp h).2]
  have hlength : (w₀.windows.take done.length).length = done.length := by
    simp
    omega
  have hzip : List.zipWith w₀.windowItems w₀.windows done =
      List.zipWith w₀.windowItems (w₀.windows.take done.length) done := by
    calc List.zipWith w₀.windowItems w₀.windows done
      _ = List.zipWith w₀.windowItems
            (w₀.windows.take done.length ++ w₀.windows.drop done.length) (done ++ []) := by
          rw [← hsplit, List.append_nil]
      _ = List.zipWith w₀.windowItems (w₀.windows.take done.length) done := by
          rw [List.zipWith_append hlength]
          simp
  have hone : List.zipWith w₀.windowItems w₀.windows (done ++ [sources]) =
      List.zipWith w₀.windowItems (w₀.windows.take done.length) done ++
        [w₀.windowItems planned sources] := by
    calc List.zipWith w₀.windowItems w₀.windows (done ++ [sources])
      _ = List.zipWith w₀.windowItems
            (w₀.windows.take done.length ++ planned :: w₀.windows.drop (done.length + 1))
            (done ++ [sources]) := by
          rw [← hdrop, ← hsplit]
      _ = List.zipWith w₀.windowItems (w₀.windows.take done.length) done ++
            [w₀.windowItems planned sources] := by
          rw [List.zipWith_append hlength]
          simp
  simp [itemsOf, hzip, hone]

/-- The number of groups among items. -/
def groupCount (items : List WalkItem) : Nat :=
  items.countP fun | .group _ => true | .windowStatus _ => false

/-- The walk so far: `past` are the deliveries of the open window that are in groups, yielded or
    passed over; one more may have been read ahead. -/
structure Walked (store : Derivatives) (w₀ w : DerivativeWalker) (items : List WalkItem)
    (done : List (List MeasuredDelivery)) (past : List MeasuredDelivery) : Prop where
  sourced : Sourced store w₀ w done (past ++ w.pending.toList)
  ahead : ∀ x ∈ past.getLast?, ∀ d ∈ w.pending, joined MeasuredDelivery.tie x d = false
  ended : past ≠ [] → w.pending = none → ∀ r ∈ w.reader, r.exhausted = true
  counts : Counted w₀ { groups := w.counts.groups } w.counts (done.flatten ++ past)
  groups : w.counts.groups = groupCount items
  items : items = itemsOf w₀ (done ++ (w.reader.map fun _ => past).toList)

/-- The walk at the end of its input. -/
structure Complete (store : Derivatives) (w₀ w : DerivativeWalker) (items : List WalkItem)
    (done : List (List MeasuredDelivery)) : Prop where
  windows : List.Forall₂ (WindowRead store) w₀.windows done
  dense : Dense done.flatten
  counts : Counted w₀ { groups := w.counts.groups } w.counts done.flatten
  groups : w.counts.groups = groupCount items
  items : items = itemsOf w₀ done

/-- What a call that returns `item` leaves behind. -/
def After (store : Derivatives) (w₀ w : DerivativeWalker) (items : List WalkItem) :
    Option WalkItem → Prop
  | none => ∃ done, Complete store w₀ w items done
  | some item => ∃ done past, Walked store w₀ w (items ++ [item]) done past

variable {items : List WalkItem} {item : Option WalkItem} {past : List MeasuredDelivery}

theorem Walked.enterWindow (h : Walked store w₀ w items done past) (hreader : w.reader = none)
    (hok : enterWindow store w = .ok (item, w')) : After store w₀ w' items item := by
  have hidle : past ++ w.pending.toList = [] := h.sourced.idle hreader
  obtain ⟨rfl, hpending⟩ := List.append_eq_nil_iff.mp hidle
  have hpending : w.pending = none := by simpa using hpending
  have hitems := h.items
  simp only [hreader, Option.map_none, Option.toList_none, List.append_nil] at hitems
  have hcounts := h.counts
  rw [List.append_nil] at hcounts
  unfold DerivativeWalker.enterWindow at hok
  split at hok
  · next hlast =>
    cases hok
    rw [h.sourced.index, h.sourced.plan.windows] at hlast
    have hwindows := h.sourced.windows
    rw [hlast, List.take_length] at hwindows
    refine ⟨done, hwindows, ?_, hcounts, h.groups, hitems⟩
    simpa [hpending] using h.sourced.dense
  · obtain ⟨⟨input, expected⟩, hplanned, hok⟩ := Except.bind_eq_ok.mp hok
    obtain ⟨reader, hopen, hok⟩ := Except.bind_eq_ok.mp hok
    obtain ⟨⟨metadata, stream⟩, hsnapshot, hopen⟩ := Except.bind_eq_ok.mp hopen
    cases hopen
    dsimp only at hok
    split at hok
    · cases hok
    · next hmetadata =>
      cases hok
      simp only [ne_eq, not_not] at hmetadata
      subst hmetadata
      rw [unwrap_eq_ok, h.sourced.plan.windows, h.sourced.index] at hplanned
      refine ⟨done, [], ?_⟩
      constructor
      case sourced =>
        have hs := h.sourced
        refine ⟨⟨hs.plan.windows, hs.plan.request, hs.plan.effectiveStartNs, hs.plan.limits⟩,
          hs.live, hs.index, hs.windows, hs.previous, hs.dense, ?_, ?_⟩
        · exact fun hnone => nomatch hnone
        · intro r hr
          obtain rfl := Option.some.inj hr
          refine ⟨(input, metadata), hplanned, rfl, ⟨stream, hsnapshot, ?_⟩, ?_, ?_⟩
          · simp [hpending]
          · simpa [hpending] using observed_nil
          · exact fun hr => nomatch hr
      case ahead => simp
      case ended => simp
      case counts => simpa using hcounts
      case groups => simpa [groupCount] using h.groups
      case items =>
        simp only [Option.map_some, Option.toList_some]
        rw [itemsOf_concat hplanned, ← hitems]
        simp [windowItems, windowGroups, runs]

/-- One more run of the open window. -/
theorem windowGroups_append_run {pin : DerivativePin} {first : MeasuredDelivery}
    {more : List MeasuredDelivery}
    (hlast : ∀ x ∈ past.getLast?, joined MeasuredDelivery.tie x first = false)
    (hmore : ∀ d ∈ more, joined MeasuredDelivery.tie first d = true) :
    w₀.windowGroups pin (past ++ first :: more) =
      w₀.windowGroups pin past ++ (w₀.groupOf pin (first :: more)).toList := by
  unfold windowGroups
  rw [runs_append_run hlast hmore, List.filterMap_append]
  cases hgroup : w₀.groupOf pin (first :: more) <;> simp [hgroup]

/-- The deliveries of a window that has been read to its end are done. -/
theorem Walked.closeWindow {r : VerifiedWindowReader} (h : Walked store w₀ w items done past)
    (hreader : w.reader = some r) (hexhausted : r.exhausted = true) (hpending : w.pending = none) :
    Walked store w₀ { w with reader := none, pending := none, index := w.index + 1 } items
      (done ++ [past]) [] := by
  obtain ⟨planned, hplanned, hreading⟩ := h.sourced.current r hreader
  rw [hpending, Option.toList_none, List.append_nil] at hreading
  obtain ⟨hlines, hverified⟩ := hreading.exhausted hexhausted
  obtain ⟨s, hs, hstream⟩ := hreading.stream
  rw [hlines, List.append_nil] at hstream
  have hlt : done.length < w₀.windows.length := (List.getElem?_eq_some_iff.mp hplanned).1
  have hs' := h.sourced
  rw [hpending, Option.toList_none, List.append_nil] at hs'
  constructor
  case sourced =>
    refine ⟨⟨hs'.plan.windows, hs'.plan.request, hs'.plan.effectiveStartNs, hs'.plan.limits⟩,
      hs'.live, ?_, ?_, ?_, ?_, fun _ => rfl, ?_⟩
    · simp [hs'.index]
    · rw [List.length_append, List.length_singleton, List.take_add_one, hplanned]
      exact List.rel_append hs'.windows
        (List.Forall₂.cons ⟨⟨s, hs, hstream⟩, hverified⟩ List.Forall₂.nil)
    · simpa using hs'.previous
    · simpa using hs'.dense
    · exact fun _ hr => nomatch hr
  case ahead => simp
  case ended => simp
  case counts => simpa using h.counts
  case groups => exact h.groups
  case items => simpa [hreader] using h.items

/-- Everything one round of the outer loop does. -/
theorem nextGroup_eq_ok (hok : nextGroup store w = .ok (item, w')) :
    (∃ w₁ r, w.takeFirst = .ok (none, w₁) ∧ w₁.reader = some r ∧
      enterWindow store { w₁ with reader := none, pending := none, index := w₁.index + 1 } =
        .ok (item, w')) ∨
    ∃ first w₁ planned group w₂, w.takeFirst = .ok (some first, w₁) ∧
      w₁.windows[w₁.index]? = some planned ∧
      w₁.collect (groupAt planned.1.pin first.toSourceDelivery) 0 0 first = .ok (group, w₂) ∧
      ((group.deliveries.isEmpty ∧ nextGroup store w₂ = .ok (item, w')) ∨
        (¬group.deliveries.isEmpty ∧ item = some (.group group) ∧
          w' = { w₂ with counts := { w₂.counts with groups := w₂.counts.groups + 1 } })) := by
  unfold nextGroup at hok
  split at hok
  · cases hok
  · next w₁ hfirst =>
    obtain ⟨r, hr, hok⟩ := Except.bind_eq_ok.mp hok
    obtain ⟨_, _, hok⟩ := Except.bind_eq_ok.mp hok
    exact .inl ⟨w₁, r, hfirst, unwrap_eq_ok.mp hr, hok⟩
  · next first w₁ hfirst =>
    obtain ⟨planned, hplanned, hok⟩ := Except.bind_eq_ok.mp hok
    dsimp only at hok
    split at hok
    · cases hok
    · next group w₂ hcollect =>
      refine .inr ⟨first, w₁, planned, group, w₂, hfirst, unwrap_eq_ok.mp hplanned, hcollect, ?_⟩
      split at hok
      · next hempty => exact .inl ⟨hempty, hok⟩
      · next hempty =>
        obtain ⟨n, hn, hok⟩ := Except.bind_eq_ok.mp hok
        obtain rfl := add_eq_ok hn
        cases hok
        exact .inr ⟨hempty, rfl, rfl⟩

/-- The first delivery of the next group starts a run of its own. -/
theorem Walked.takeFirst {first : MeasuredDelivery} (h : Walked store w₀ w items done past)
    (hok : w.takeFirst = .ok (some first, w')) :
    Sourced store w₀ w' done (past ++ [first]) ∧ w'.counts = w.counts ∧ w'.reader.isSome ∧
      ∀ x ∈ past.getLast?, joined MeasuredDelivery.tie x first = false := by
  unfold DerivativeWalker.takeFirst at hok
  split at hok
  · next d hpending =>
    cases hok
    have hsourced := h.sourced
    rw [hpending, Option.toList_some] at hsourced
    refine ⟨hsourced.congr w.counts none, rfl, ?_, fun x hx => h.ahead x hx first hpending⟩
    cases hreader : w.reader with
    | some r => rfl
    | none => simpa using hsourced.idle hreader
  · next hpending =>
    have hsourced := h.sourced
    rw [hpending, Option.toList_none, List.append_nil] at hsourced
    obtain ⟨hread, _, hcounts, hreader, _, hend⟩ := hsourced.source hok
    refine ⟨hread, hcounts, hreader, fun x hx => ?_⟩
    -- After a run that the end of the window closed nothing more is read.
    have hne : past ≠ [] := by
      rintro rfl
      cases hx
    cases hend (h.ended hne hpending)

/-- The window that nothing more comes of. -/
theorem Walked.takeFirst_none (h : Walked store w₀ w items done past)
    (hok : w.takeFirst = .ok (none, w')) :
    Walked store w₀ w' items done past ∧ w'.pending = none ∧
      ∀ r ∈ w'.reader, r.exhausted = true := by
  unfold DerivativeWalker.takeFirst at hok
  split at hok
  · cases hok
  · next hpending =>
    have hsourced := h.sourced
    rw [hpending, Option.toList_none, List.append_nil] at hsourced
    obtain ⟨hread, hpending', hcounts, hreader, hend, _⟩ := hsourced.source hok
    rw [hpending] at hpending'
    have hreader₀ : w.reader.isSome := by
      obtain ⟨r, _, hr, _⟩ := source_eq_ok hok
      simp [hr]
    refine ⟨⟨?_, ?_, fun _ _ => hend rfl, ?_, ?_, ?_⟩, hpending', hend rfl⟩
    · simpa [hpending'] using hread
    · simp [hpending']
    · rw [hcounts]
      exact h.counts
    · rw [hcounts]
      exact h.groups
    · rw [h.items]
      obtain ⟨r, hr⟩ := Option.isSome_iff_exists.mp hreader
      obtain ⟨r₀, hr₀⟩ := Option.isSome_iff_exists.mp hreader₀
      simp [hr, hr₀]

theorem joined_of_joins {pin : DerivativePin} {first d : MeasuredDelivery} :
    Joins (groupAt pin first.toSourceDelivery) d.toSourceDelivery ↔
      joined MeasuredDelivery.tie first d = true := by
  simp [Joins, groupAt, joined]

/-- The last delivery of a run carries the tie value of the first. -/
theorem joined_last {first : MeasuredDelivery} {more : List MeasuredDelivery}
    (hmore : ∀ d ∈ more, joined MeasuredDelivery.tie first d = true)
    {x : MeasuredDelivery} (hx : x ∈ (first :: more).getLast?) : x.tie = first.tie := by
  rcases List.mem_cons.mp (List.mem_of_getLast? hx) with rfl | hx
  · rfl
  · obtain ⟨k, hk, hxk⟩ := joined_iff.mp (hmore x hx)
    exact hxk.trans hk.symm

/-- The group that `collect` closed is behind the items, or nothing of it is kept. -/
theorem Walked.collect {group : AtomicGroup} {first : MeasuredDelivery} {w₁ w₂ : DerivativeWalker}
    {planned : PinnedDerivative × DerivativeMetadata} (h : Walked store w₀ w items done past)
    (hreader : w.reader.isSome) (hfirst : w.takeFirst = .ok (some first, w₁))
    (hplanned : w₁.windows[w₁.index]? = some planned)
    (hcollect : w₁.collect (groupAt planned.1.pin first.toSourceDelivery) 0 0 first =
      .ok (group, w₂)) :
    w₂.reader.isSome ∧ ∃ more, group = w₀.taken (groupAt planned.1.pin first.toSourceDelivery)
        (first :: more) ∧
      ∀ counts : WalkCounts, (∃ n, counts = { w₂.counts with groups := n }) →
        counts.groups = groupCount (items ++ (w₀.groupOf planned.1.pin (first :: more)).toList.map
          WalkItem.group) →
        Walked store w₀ { w₂ with counts := counts }
          (items ++ (w₀.groupOf planned.1.pin (first :: more)).toList.map WalkItem.group) done
          (past ++ first :: more) := by
  obtain ⟨hread, hcounts₁, _, hahead⟩ := h.takeFirst hfirst
  rw [hread.plan.windows, hread.index] at hplanned
  obtain ⟨more, hsourced, hmore, hpending, htaken, hcounted, hreader₂, hend⟩ :=
    hread.collect hcollect
  replace hmore : ∀ d ∈ more, joined MeasuredDelivery.tie first d = true := fun d hd =>
    joined_of_joins.mp (hmore d hd)
  replace hpending : ∀ d ∈ w₂.pending, ¬joined MeasuredDelivery.tie first d = true := fun d hd =>
    fun hj => hpending d hd (joined_of_joins.mpr hj)
  refine ⟨hreader₂, more, htaken, ?_⟩
  rintro counts ⟨n, rfl⟩ hgroups
  constructor
  case sourced =>
    have hsourced' := hsourced.congr { w₂.counts with groups := n } w₂.pending
    simpa using hsourced'
  case ahead =>
    intro x hx d hd
    rw [List.getLast?_append_cons] at hx
    have htie := joined_last hmore hx
    have hnot := hpending d hd
    simp only [joined, htie, Bool.not_eq_true] at hnot ⊢
    exact hnot
  case ended => exact fun _ => hend
  case counts =>
    have hall := h.counts.append (hcounts₁ ▸ hcounted)
    rw [← List.append_assoc]
    exact ⟨hall.sources, hall.included, hall.parts, hall.events, rfl⟩
  case groups => exact hgroups
  case items =>
    obtain ⟨r, hr⟩ := Option.isSome_iff_exists.mp hreader
    obtain ⟨r₂, hr₂⟩ := Option.isSome_iff_exists.mp hreader₂
    have hitems := h.items
    simp only [hr, hr₂, Option.map_some, Option.toList_some] at hitems ⊢
    rw [itemsOf_concat hplanned] at hitems ⊢
    rw [hitems, windowItems, windowItems, windowGroups_append_run hahead hmore]
    simp

theorem groupOf_cons {pin : DerivativePin} {first : MeasuredDelivery}
    {more : List MeasuredDelivery} :
    w₀.groupOf pin (first :: more) =
      if (w₀.taken (groupAt pin first.toSourceDelivery) (first :: more)).deliveries.isEmpty then
        none
      else some (w₀.taken (groupAt pin first.toSourceDelivery) (first :: more)) := rfl

theorem Walked.nextGroup (h : Walked store w₀ w items done past) (hreader : w.reader.isSome)
    (hok : nextGroup store w = .ok (item, w')) : After store w₀ w' items item := by
  induction hn : w.remaining using Nat.strong_induction_on generalizing w past with
  | _ n ih =>
    subst hn
    rcases nextGroup_eq_ok hok with
      ⟨w₁, r, hfirst, hr, henter⟩ | ⟨first, w₁, planned, group, w₂, hfirst, hplanned, hcollect, hgo⟩
    · obtain ⟨h₁, hpending, hexhausted⟩ := h.takeFirst_none hfirst
      exact (h₁.closeWindow hr (hexhausted r hr) hpending).enterWindow rfl henter
    · obtain ⟨hreader₂, more, hgroup, hwalked⟩ := h.collect hreader hfirst hplanned hcollect
      have hcounts₂ : w₂.counts.groups = groupCount items := by
        obtain ⟨_, hcounts₁, _, _⟩ := h.takeFirst hfirst
        obtain ⟨_, _, _, _, _, hcounted, _⟩ := (h.takeFirst hfirst).1.collect hcollect
        rw [hcounted.groups, hcounts₁, h.groups]
      rcases hgo with ⟨hempty, hrest⟩ | ⟨hempty, rfl, rfl⟩
      · have hnone : w₀.groupOf planned.1.pin (first :: more) = none := by
          rw [groupOf_cons, ← hgroup, if_pos hempty]
        have h₂ := hwalked w₂.counts ⟨w₂.counts.groups, rfl⟩ (by simpa [hnone] using hcounts₂)
        rw [hnone, Option.toList_none, List.map_nil, List.append_nil] at h₂
        have hlt := lt_of_le_of_lt (collect_remaining hcollect) (takeFirst_remaining hfirst)
        exact ih _ hlt h₂ hreader₂ hrest rfl
      · have hsome : w₀.groupOf planned.1.pin (first :: more) = some group := by
          rw [groupOf_cons, ← hgroup, if_neg hempty]
        refine ⟨done, past ++ first :: more, ?_⟩
        have h₂ := hwalked { w₂.counts with groups := w₂.counts.groups + 1 } ⟨_, rfl⟩
          (by simp [hsome, groupCount, hcounts₂])
        simpa [hsome] using h₂

/-- One call keeps the walk, or is the last one. -/
theorem nextInner_walked (h : Walked store w₀ w items done past)
    (hok : nextInner store w = .ok (item, w')) : After store w₀ w' items item := by
  unfold nextInner at hok
  split at hok
  · next hnone => exact h.enterWindow (Option.isNone_iff_eq_none.mp hnone) hok
  · next hsome => exact h.nextGroup (by simpa [Option.isNone_iff_eq_none, Option.isSome_iff_ne_none]
      using hsome) hok

end Steps

theorem nextItem_eq_ok {store : Derivatives} {w w' : DerivativeWalker} {item : Option WalkItem}
    (hlive : w.exhausted = false) (h : w.nextItem store = (.ok item, w')) :
    nextInner store w = .ok (item, w') := by
  unfold nextItem at h
  rw [hlive] at h
  split at h
  · cases h
  · simp only [Bool.false_eq_true, if_false] at h
    split at h
    · next hinner =>
      cases h
      exact hinner
    · cases h

/-- A walk that gets to the end of its input, from any of its states on. -/
theorem drain_complete {store : Derivatives} {w₀ w w' : DerivativeWalker}
    {done : List (List MeasuredDelivery)} {past : List MeasuredDelivery}
    {items rest : List WalkItem} {calls : Nat} (h : Walked store w₀ w items done past)
    (hdrain : w.drain store calls = .ok (some (rest, w'))) :
    ∃ done, Complete store w₀ w' (items ++ rest) done := by
  induction calls generalizing w items done past rest with
  | zero => cases hdrain
  | succ calls ih =>
    unfold drain at hdrain
    split at hdrain
    · cases hdrain
    · next hitem =>
      cases hdrain
      rw [List.append_nil]
      exact nextInner_walked h (nextItem_eq_ok h.sourced.live hitem)
    · next item w₁ hitem =>
      obtain ⟨tail, htail, hdrain⟩ := Except.bind_eq_ok.mp hdrain
      cases tail with
      | none => cases hdrain
      | some tail =>
        cases hdrain
        obtain ⟨done₁, past₁, h₁⟩ := nextInner_walked h (nextItem_eq_ok h.sourced.live hitem)
        have hcomplete := ih h₁ htail
        rwa [List.append_assoc] at hcomplete

/-- A walker that was just opened has walked nothing. -/
theorem openWalker_walked {store : Derivatives} {inputs : List PinnedDerivative}
    {request : WalkRequest} {limits : ReadLimits} {w : DerivativeWalker}
    (hopen : openWalker store inputs request limits = .ok w) : Walked store w w [] [] [] := by
  obtain ⟨_, _, hopen⟩ := Except.bind_eq_ok.mp hopen
  obtain ⟨_, _, hopen⟩ := Except.bind_eq_ok.mp hopen
  obtain ⟨_, _, hopen⟩ := Except.bind_eq_ok.mp hopen
  obtain ⟨_, _, hopen⟩ := Except.bind_eq_ok.mp hopen
  obtain ⟨_, _, hopen⟩ := Except.bind_eq_ok.mp hopen
  obtain ⟨_, _, hopen⟩ := Except.bind_eq_ok.mp hopen
  obtain ⟨windows, _, hopen⟩ := Except.bind_eq_ok.mp hopen
  obtain ⟨_, _, hopen⟩ := Except.bind_eq_ok.mp hopen
  obtain ⟨_, _, hopen⟩ := Except.bind_eq_ok.mp hopen
  obtain ⟨_, _, hopen⟩ := Except.bind_eq_ok.mp hopen
  obtain ⟨_, _, hopen⟩ := Except.bind_eq_ok.mp hopen
  obtain ⟨start, _, hopen⟩ := Except.bind_eq_ok.mp hopen
  cases hopen
  refine ⟨⟨⟨rfl, rfl, rfl, rfl⟩, rfl, rfl, ?_, rfl, List.isChain_nil, fun _ => rfl, ?_⟩, ?_, ?_, ?_,
    rfl, ?_⟩
  · simp
  · exact fun _ hr => nomatch hr
  · simp
  · simp
  · exact Counted.nil _ _
  · simp [itemsOf]

/-! ## The partition -/

/-- A window of a finished walk: its sources and the groups it yielded. -/
structure WalkedWindow where
  planned : PinnedDerivative × DerivativeMetadata
  sources : List MeasuredDelivery
  groups : List AtomicGroup

/-- What a walk to the end of its input comes to: the items `items` and the counts `counts`. -/
structure Partitioned (store : Derivatives) (w : DerivativeWalker) (items : List WalkItem)
    (counts : WalkCounts) (windows : List WalkedWindow) : Prop where
  /-- Every planned window was read, whole. -/
  planned : windows.map (·.planned) = w.windows
  read : ∀ x ∈ windows, ∃ s, store.snapshot x.planned.1 = .ok (x.planned.2, s) ∧
    s.deliveries = x.sources.map .ok
  /-- One status per window, before its groups. -/
  items : items = windows.flatMap fun x =>
    .windowStatus x.planned.2.status :: x.groups.map .group
  /-- The groups hold what is kept of the sources, which are in strict canonical order. -/
  deliveries : (windows.flatMap (·.groups)).flatMap (·.deliveries) =
    (windows.flatMap (·.sources)).filterMap w.kept
  ordered : (windows.flatMap (·.sources)).Pairwise fun a b => a.seq < b.seq
  /-- What lies between the ends of a group is of its window and its tie value. -/
  span : ∀ x ∈ windows, ∀ g ∈ x.groups, ∀ d ∈ windows.flatMap (·.sources),
    g.first.canonicalSeq ≤ d.seq → d.seq ≤ g.last.canonicalSeq → d ∈ x.sources ∧ d.tie = g.tie
  /-- No two groups of a window have one tie value. -/
  ties : ∀ x ∈ windows, x.groups.Pairwise fun g g' => ∀ k, g.tie = some k → g'.tie ≠ some k
  total : counts.sourceDeliveries = (windows.flatMap (·.sources)).length
  sources : counts.sourceDeliveries = counts.includedSources + counts.scopeExcludedSources +
    counts.intervalExcludedSources
  included : counts.includedSources = ((windows.flatMap (·.groups)).flatMap (·.deliveries)).length
  events : counts.includedEvents + counts.excludedEvents =
    ((windows.flatMap (·.sources)).map (·.records.length)).sum
  groups : counts.groups = (windows.flatMap (·.groups)).length

section Windows

variable {w : DerivativeWalker} {pin : DerivativePin} {sources : List MeasuredDelivery}

/-- A group is that of a run. -/
theorem groupOf_eq_some {run : List MeasuredDelivery} {g : AtomicGroup}
    (h : w.groupOf pin run = some g) : ∃ first more, run = first :: more ∧
      g = w.taken (groupAt pin first.toSourceDelivery) (first :: more) := by
  cases run with
  | nil => cases h
  | cons first more =>
    rw [groupOf_cons] at h
    split at h
    · cases h
    · exact ⟨first, more, rfl, (Option.some.inj h).symm⟩

theorem groupOf_deliveries (pin : DerivativePin) (run : List MeasuredDelivery) :
    (w.groupOf pin run).toList.flatMap (·.deliveries) = run.filterMap w.kept := by
  cases run with
  | nil => rfl
  | cons first more =>
    have htaken := w.taken_deliveries (groupAt pin first.toSourceDelivery) (first :: more)
    rw [groupOf_cons]
    split
    · next hempty =>
      rw [htaken] at hempty
      simpa [groupAt] using (List.isEmpty_iff.mp hempty).symm
    · simpa [groupAt] using htaken

/-- The groups of a window hold what is kept of it. -/
theorem windowGroups_deliveries :
    (w.windowGroups pin sources).flatMap (·.deliveries) = sources.filterMap w.kept := by
  have hruns : ∀ rs : List (List MeasuredDelivery),
      (rs.filterMap (w.groupOf pin)).flatMap (·.deliveries) = rs.flatten.filterMap w.kept := by
    intro rs
    induction rs with
    | nil => rfl
    | cons run rs ih =>
      rw [List.flatten_cons, List.filterMap_append, ← groupOf_deliveries pin run, ← ih]
      cases hgroup : w.groupOf pin run <;> simp [hgroup]
  rw [windowGroups, hruns, flatten_runs]

/-- The ends of a group are those of a run, and so is its tie value. -/
theorem mem_windowGroups {g : AtomicGroup} (h : g ∈ w.windowGroups pin sources) :
    ∃ before first more after, sources = before ++ (first :: more) ++ after ∧
      (∀ d ∈ more, joined MeasuredDelivery.tie first d = true) ∧ g.tie = first.tie ∧
      g.first.canonicalSeq = first.seq ∧
      ∀ last ∈ (first :: more).getLast?, g.last.canonicalSeq = last.seq := by
  obtain ⟨run, hrun, hgroup⟩ := List.mem_filterMap.mp h
  obtain ⟨first, more, rfl, rfl⟩ := groupOf_eq_some hgroup
  obtain ⟨first', more', heq, hmore⟩ := exists_of_mem_runs hrun
  cases heq
  obtain ⟨as, bs, hsplit⟩ := List.mem_iff_append.mp hrun
  have hframe := w.taken_frame (groupAt pin first.toSourceDelivery) (first :: more)
  refine ⟨as.flatten, first, more, bs.flatten, ?_, hmore, hframe.2.1, ?_, ?_⟩
  · rw [← flatten_runs MeasuredDelivery.tie sources, hsplit]
    simp
  · rw [hframe.1]
    rfl
  · intro last hlast
    obtain ⟨init, hinit⟩ := List.getLast?_eq_some_iff.mp (Option.mem_def.mp hlast)
    rw [hinit, taken_last, lastAddress_seq]

theorem windowGroups_ties (hverified : VerifiedWindow sources) :
    (w.windowGroups pin sources).Pairwise fun g g' => ∀ k, g.tie = some k → g'.tie ≠ some k := by
  unfold windowGroups
  rw [List.pairwise_filterMap]
  refine (pairwise_runs hverified.follows hverified.tagged).imp ?_
  intro r r' hapart g hg g' hg' k hk
  obtain ⟨first, more, rfl, rfl⟩ := groupOf_eq_some hg
  obtain ⟨first', more', rfl, rfl⟩ := groupOf_eq_some hg'
  rw [(w.taken_frame _ _).2.1] at hk ⊢
  exact hapart first (by simp) first' (by simp) k hk

theorem Dense.pairwise {ds : List MeasuredDelivery} (h : Dense ds) :
    ds.Pairwise fun a b => a.seq < b.seq := by
  have hlt : ds.IsChain fun a b => a.seq < b.seq := h.imp fun a b hab => by
    rw [hab]
    exact lt_add_one _
  have : IsTrans MeasuredDelivery fun a b => a.seq < b.seq := ⟨fun _ _ _ => lt_trans⟩
  exact List.isChain_iff_pairwise.mp hlt

/-- The windows of a finished walk. -/
def walkedWindows (w : DerivativeWalker) :
    List (PinnedDerivative × DerivativeMetadata) → List (List MeasuredDelivery) → List WalkedWindow :=
  List.zipWith fun planned sources =>
    ⟨planned, sources, w.windowGroups planned.1.pin sources⟩

variable {store : Derivatives} {ws : List (PinnedDerivative × DerivativeMetadata)}
  {done : List (List MeasuredDelivery)}

theorem walkedWindows_mem (h : List.Forall₂ (WindowRead store) ws done) :
    ∀ x ∈ w.walkedWindows ws done, WindowRead store x.planned x.sources ∧
      x.groups = w.windowGroups x.planned.1.pin x.sources := by
  induction h with
  | nil => simp [walkedWindows]
  | cons hread _ ih =>
    intro x hx
    rcases List.mem_cons.mp hx with rfl | hx
    · exact ⟨hread, rfl⟩
    · exact ih x hx

theorem walkedWindows_flat (h : List.Forall₂ (WindowRead store) ws done) :
    (w.walkedWindows ws done).map (·.planned) = ws ∧
      (w.walkedWindows ws done).flatMap (·.sources) = done.flatten ∧
      (List.zipWith w.windowItems ws done).flatten =
        (w.walkedWindows ws done).flatMap fun x =>
          .windowStatus x.planned.2.status :: x.groups.map .group := by
  induction h with
  | nil => exact ⟨rfl, rfl, rfl⟩
  | cons _ _ ih =>
    obtain ⟨hplanned, hsources, hitems⟩ := ih
    simp only [walkedWindows] at hplanned hsources hitems
    simp [walkedWindows, windowItems, hplanned, hsources, hitems]

theorem walkedWindows_deliveries (h : List.Forall₂ (WindowRead store) ws done) :
    ((w.walkedWindows ws done).flatMap (·.groups)).flatMap (·.deliveries) =
      done.flatten.filterMap w.kept := by
  induction h with
  | nil => rfl
  | @cons planned sources ws done _ _ ih =>
    simp only [walkedWindows] at ih
    simp only [walkedWindows, List.zipWith_cons_cons, List.flatMap_cons, List.flatMap_append,
      List.flatten_cons, List.filterMap_append, ih, windowGroups_deliveries]

theorem groupCount_flatMap (windows : List WalkedWindow) :
    groupCount (windows.flatMap fun x => .windowStatus x.planned.2.status :: x.groups.map .group) =
      (windows.flatMap (·.groups)).length := by
  induction windows with
  | nil => rfl
  | cons x windows ih =>
    have hgroups : (x.groups.map WalkItem.group).countP
        (fun | .group _ => true | .windowStatus _ => false) = x.groups.length := by
      rw [List.countP_map]
      simp [Function.comp_def]
    simp only [groupCount] at ih
    simp [groupCount, List.countP_append, ih, hgroups]

/-- A strictly ordered list has nothing else between the ends of a stretch of it. -/
theorem mem_of_between {before run after : List MeasuredDelivery} {first last d : MeasuredDelivery}
    (hordered : (before ++ run ++ after).Pairwise fun a b => a.seq < b.seq)
    (hfirst : first ∈ run) (hlast : last ∈ run) (hd : d ∈ before ++ run ++ after)
    (hle : first.seq ≤ d.seq) (hge : d.seq ≤ last.seq) : d ∈ run := by
  rw [List.pairwise_append, List.pairwise_append] at hordered
  obtain ⟨⟨_, _, hbefore⟩, _, hafter⟩ := hordered
  rcases List.mem_append.mp hd with hd | hd
  · rcases List.mem_append.mp hd with hd | hd
    · exact absurd (hbefore d hd first hfirst) (not_lt.mpr hle)
    · exact hd
  · exact absurd (hafter last (List.mem_append_right _ hlast) d hd) (not_lt.mpr hge)

theorem Complete.partitioned {w' : DerivativeWalker} {items : List WalkItem}
    (h : Complete store w w' items done) :
    Partitioned store w items w'.counts (w.walkedWindows w.windows done) := by
  have hmem := walkedWindows_mem (w := w) h.windows
  obtain ⟨hplanned, hsources, hitems⟩ := walkedWindows_flat (w := w) h.windows
  have hdeliveries := walkedWindows_deliveries (w := w) h.windows
  have hordered := h.dense.pairwise
  have hcounts := h.counts
  constructor
  case planned => exact hplanned
  case read => exact fun x hx => (hmem x hx).1.stream
  case items => rw [h.items, ← hitems, itemsOf]
  case deliveries => rw [hdeliveries, hsources]
  case ordered => rwa [hsources]
  case span =>
    intro x hx g hg d hd hle hge
    rw [(hmem x hx).2] at hg
    obtain ⟨before, first, more, after, hsplit, hmore, htie, hfirst, hlast⟩ := mem_windowGroups hg
    obtain ⟨last, hmem_last⟩ : ∃ last, last ∈ (first :: more).getLast? :=
      ⟨_, List.getLast?_eq_getLast_of_ne_nil (List.cons_ne_nil first more)⟩
    -- The sources of the whole walk, cut at the run of the group.
    obtain ⟨xs, ys, hwindows⟩ := List.mem_iff_append.mp hx
    have hall : (w.walkedWindows w.windows done).flatMap (·.sources) =
        (xs.flatMap (·.sources) ++ before) ++ (first :: more) ++
          (after ++ ys.flatMap (·.sources)) := by
      rw [hwindows, List.flatMap_append, List.flatMap_cons, hsplit]
      simp
    rw [← hsources, hall] at hordered
    rw [hall] at hd
    have hrun : d ∈ first :: more := by
      apply mem_of_between hordered (List.mem_cons_self ..) (List.mem_of_getLast? hmem_last) hd
      · rwa [← hfirst]
      · rwa [← hlast last hmem_last]
    refine ⟨?_, ?_⟩
    · rw [hsplit]
      simp only [List.mem_append]
      exact .inl (.inr hrun)
    · rw [htie]
      rcases List.mem_cons.mp hrun with rfl | hd'
      · rfl
      · obtain ⟨k, hk, hdk⟩ := joined_iff.mp (hmore d hd')
        exact hdk.trans hk.symm
  case ties =>
    intro x hx
    rw [(hmem x hx).2]
    exact windowGroups_ties (hmem x hx).1.verified
  case total =>
    rw [hsources]
    simpa using hcounts.sources
  case sources =>
    have hparts := hcounts.parts
    have hall := hcounts.sources
    simp only at hparts hall
    omega
  case included =>
    rw [hdeliveries]
    simpa using hcounts.included
  case events =>
    rw [hsources]
    simpa using hcounts.events
  case groups => rw [h.groups, h.items, itemsOf, hitems, groupCount_flatMap]

end Windows

/-- A walk to the end of its input partitions its source deliveries. -/
theorem drain_partitioned {store : Derivatives} {inputs : List PinnedDerivative}
    {request : WalkRequest} {limits : ReadLimits} {w w' : DerivativeWalker} {calls : Nat}
    {items : List WalkItem} (hopen : openWalker store inputs request limits = .ok w)
    (hdrain : w.drain store calls = .ok (some (items, w'))) :
    ∃ windows, Partitioned store w items w'.counts windows := by
  obtain ⟨done, hcomplete⟩ := drain_complete (openWalker_walked hopen) hdrain
  exact ⟨_, hcomplete.partitioned⟩

/-- A lane. -/
def sampleLane : LaneId := ⟨"a", by decide⟩

/-- A delivery without records on that lane. -/
def sampleDelivery (seq : Nat) (visibleNs : Nat) : MeasuredDelivery where
  header := ⟨visibleNs, visibleNs, none, ⟨seq + 1, sampleLane, seq, 0, by omega⟩, .continuous, rfl⟩
  connectionEpoch := some "e"
  records := []
  disposition := none
  same := rfl
  logicalBytes := 1
  recordCount := 0

def sampleMetadata : DerivativeMetadata := ⟨⟨"d", "r"⟩, 0, 100, 3, none, 1⟩

/-- One window with three deliveries, the last of them behind the interval. -/
def sampleStore : Derivatives where
  inspectPinned _ := .ok sampleMetadata
  snapshot _ := .ok (sampleMetadata,
    ⟨[.ok (sampleDelivery 0 5), .ok (sampleDelivery 1 6), .ok (sampleDelivery 2 60)], .ok (), .ok ()⟩)

def sampleRequest : WalkRequest := ⟨0, 50, .clip, ⟨∅, Std.ExtTreeSet.ofList [sampleLane]⟩⟩

/-- The walker of the sample, its items and where it ends. -/
def sampleWalk : Option (DerivativeWalker × List WalkItem × DerivativeWalker) :=
  match openWalker sampleStore [⟨"w", ⟨"d", "r"⟩⟩] sampleRequest {} with
  | .error _ => none
  | .ok w =>
    match w.drain sampleStore 4 with
    | .ok (some (items, w')) => some (w, items, w')
    | _ => none

/-- A status and two groups. -/
theorem drain_partitioned_sample : ∃ w items w',
    openWalker sampleStore [⟨"w", ⟨"d", "r"⟩⟩] sampleRequest {} = .ok w ∧
      w.drain sampleStore 4 = .ok (some (items, w')) ∧ items.length = 3 ∧
      ∃ windows, Partitioned sampleStore w items w'.counts windows := by
  have hlength : sampleWalk.map (·.2.1.length) = some 3 := by decide +kernel
  obtain ⟨⟨w, items, w'⟩, hwalk, hitems⟩ := Option.map_eq_some_iff.mp hlength
  unfold sampleWalk at hwalk
  split at hwalk
  · cases hwalk
  · next hopen =>
    split at hwalk
    · next hdrain =>
      cases hwalk
      exact ⟨w, items, w', hopen, hdrain, hitems, drain_partitioned hopen hdrain⟩
    · cases hwalk

end DerivativeWalker

end PredictionIndexer.Engine
