import PredictionIndexer.Finalize.Attempt
import PredictionIndexer.Spec.WindowChecks

/-!
# Tie groups are exactly the cross-lane ties

Whether a record shares its instant with another lane is decided from the whole stream: the marker
holds the records of an instant back until the instant is over, and the reader of a derivative
settles an instant when the next one begins.

## Key results

- `items_eq`: what the marker yields over a stream in time order
- `checked_of_tied`: the reader's checks find no fault in the ties of such a stream
- `tie_groups_exact`: both, for one stream
-/

namespace PredictionIndexer.Spec

open Fallible Finalize
open Engine (MeasuredDelivery DeliveryChecks DerivativeMetadata ReadLimits EventHeader validateTie)

/-! ## Instants of several lanes -/

section Spans

variable {α κ : Type} {time : α → Nat} {lane : α → κ} {l : List α} {t : Nat}

/-- At least two lanes have an element at the time. -/
def Spans (time : α → Nat) (lane : α → κ) (l : List α) (t : Nat) : Prop :=
  ∃ a ∈ l, ∃ b ∈ l, time a = t ∧ time b = t ∧ lane a ≠ lane b

instance [DecidableEq κ] (time : α → Nat) (lane : α → κ) (l : List α) (t : Nat) : Decidable (Spans time lane l t) :=
  inferInstanceAs (Decidable (∃ a ∈ l, ∃ b ∈ l, _))

/-- The tie value of a time: the time, where several lanes meet. -/
def tieOf [DecidableEq κ] (time : α → Nat) (lane : α → κ) (l : List α) (t : Nat) : Option Nat :=
  if Spans time lane l t then some t else none

/-- Two lanes meet just if one of them is not the lane of a given element. -/
theorem spans_iff {first : α} (hmem : first ∈ l) :
    Spans time lane l (time first) ↔
      ∃ b ∈ l, time b = time first ∧ lane b ≠ lane first := by
  constructor
  · rintro ⟨a, ha, b, hb, hta, htb, hne⟩
    by_cases hlane : lane a = lane first
    · exact ⟨b, hb, htb, fun h => hne (hlane.trans h.symm)⟩
    · exact ⟨a, ha, hta, hlane⟩
  · rintro ⟨b, hb, htb, hne⟩
    exact ⟨b, hb, first, hmem, htb, rfl, hne⟩

/-- Elements of other times do not matter. -/
theorem spans_congr {l' : List α} (h : ∀ a, time a = t → (a ∈ l ↔ a ∈ l')) :
    Spans time lane l t ↔ Spans time lane l' t := by
  constructor
  · rintro ⟨a, ha, b, hb, hta, htb, hne⟩
    exact ⟨a, (h a hta).mp ha, b, (h b htb).mp hb, hta, htb, hne⟩
  · rintro ⟨a, ha, b, hb, hta, htb, hne⟩
    exact ⟨a, (h a hta).mpr ha, b, (h b htb).mpr hb, hta, htb, hne⟩

theorem tieOf_congr [DecidableEq κ] {l' : List α} (h : ∀ a, time a = t → (a ∈ l ↔ a ∈ l')) :
    tieOf time lane l t = tieOf time lane l' t := by
  simp only [tieOf, spans_congr h]

end Spans

/-! ## The marker -/

/-- The record as the marker is to yield it within a stream. -/
def marked (l : List LaneRecord) (r : LaneRecord) : MergedRecord :=
  ⟨r, tieOf LaneRecord.visibleNs (·.source.lane) l r.visibleNs⟩

theorem marked_congr {l l' : List LaneRecord} {r : LaneRecord}
    (h : ∀ a, a.visibleNs = r.visibleNs → (a ∈ l ↔ a ∈ l')) : marked l r = marked l' r := by
  rw [marked, marked, tieOf_congr h]

/-- A run of one instant is closed with the ties that it has by itself. -/
theorem closeRun_eq {run : List LaneRecord} (hrun : ∀ a ∈ run, ∀ b ∈ run,
    a.visibleNs = b.visibleNs) : TieGroups.closeRun run = run.map (marked run) := by
  cases run with
  | nil => rfl
  | cons first rest =>
    have hfirst : ∀ a ∈ first :: rest, a.visibleNs = first.visibleNs := fun a ha =>
      hrun a ha first List.mem_cons_self
    have hcross : ((first :: rest).any fun held => held.source.lane ≠ first.source.lane) = true ↔
        Spans LaneRecord.visibleNs (·.source.lane) (first :: rest) first.visibleNs := by
      rw [spans_iff List.mem_cons_self, List.any_eq_true]
      constructor
      · rintro ⟨b, hb, hne⟩
        exact ⟨b, hb, hfirst b hb, by simpa using hne⟩
      · rintro ⟨b, hb, -, hne⟩
        exact ⟨b, hb, by simpa using hne⟩
    refine List.map_congr_left fun r hr => ?_
    rw [marked, tieOf, hfirst r hr]
    simp only [hcross]

/-- Over a stream in time order the marker yields every record once, in order, with its tie. The
    open run is what is left of the instant at hand. -/
theorem items_eq {run inner : List LaneRecord}
    (hrun : ∀ a ∈ run, ∀ b ∈ run, a.visibleNs = b.visibleNs)
    (hsorted : (run ++ inner).Pairwise fun a b => a.visibleNs ≤ b.visibleNs) :
    TieGroups.items run (inner.map .ok) = ((run ++ inner).map (marked (run ++ inner))).map .ok := by
  induction inner generalizing run with
  | nil => simp only [List.map_nil, List.append_nil, TieGroups.items, closeRun_eq hrun]
  | cons record inner ih =>
    rw [List.map_cons, TieGroups.items]
    by_cases hends : run.head?.any (·.visibleNs ≠ record.visibleNs) = true
    · rw [if_pos hends, closeRun_eq hrun]
      obtain ⟨first, hhead, hne⟩ := Option.any_eq_true _ _ |>.mp hends
      have hfirst : first ∈ run := List.mem_of_mem_head? hhead
      obtain ⟨-, hrest, hbetween⟩ := List.pairwise_append.mp hsorted
      replace hne : first.visibleNs ≠ record.visibleNs := by simpa using hne
      -- the instant of the run is over: what follows is later
      have hlater : ∀ a ∈ run, ∀ b ∈ record :: inner, a.visibleNs < b.visibleNs := by
        intro a ha b hb
        have hle := hbetween first hfirst record List.mem_cons_self
        have hsame := hrun a ha first hfirst
        rcases List.mem_cons.mp hb with rfl | hb
        · omega
        · have := (List.pairwise_cons.mp hrest).1 b hb
          omega
      have hleft : run.map (marked run) = run.map (marked (run ++ record :: inner)) := by
        refine List.map_congr_left fun r hr => marked_congr fun a ha => ?_
        rw [List.mem_append]
        refine ⟨.inl, fun h => h.resolve_right fun hlate => ?_⟩
        have := hlater r hr a hlate
        omega
      have hright : (record :: inner).map (marked (record :: inner)) =
          (record :: inner).map (marked (run ++ record :: inner)) := by
        refine List.map_congr_left fun r hr => marked_congr fun a ha => ?_
        rw [List.mem_append]
        refine ⟨.inr, fun h => h.resolve_left fun hearly => ?_⟩
        have := hlater a hearly r hr
        omega
      have hone : ∀ a ∈ [record], ∀ b ∈ [record], a.visibleNs = b.visibleNs := by simp
      rw [ih hone hrest, List.singleton_append, hleft, hright, List.map_append, List.map_append]
    · rw [if_neg hends]
      have hjoin : ∀ a ∈ run ++ [record], ∀ b ∈ run ++ [record], a.visibleNs = b.visibleNs := by
        have hsame : ∀ a ∈ run, a.visibleNs = record.visibleNs := by
          intro a ha
          cases hhead : run.head? with
          | none => simp [List.head?_eq_none_iff.mp hhead] at ha
          | some first =>
            have heq : first.visibleNs = record.visibleNs := by simpa [hhead] using hends
            rw [hrun a ha first (List.mem_of_mem_head? hhead), heq]
        have hall : ∀ a ∈ run ++ [record], a.visibleNs = record.visibleNs := by
          simpa [or_imp, forall_and] using hsame
        intro a ha b hb
        rw [hall a ha, hall b hb]
      have happend : run ++ [record] ++ inner = run ++ record :: inner := by simp
      rw [ih hjoin (by rwa [happend]), happend]

/-! ## The reader's checks -/

/-- What the reader says of ties that are not those of the stream. -/
def tieFaults : List Halt :=
  [.err "tie group disagrees with complete equal-time source run",
    .err "inconsistent equal-time tie tags"]

/-- The checks over all deliveries of a window. -/
def checkAll (limits : ReadLimits) (m : DerivativeMetadata) (ds : List MeasuredDelivery) :
    Except Halt Unit := do
  (← ds.foldlM (fun c d => c.observe d m limits) ({} : DeliveryChecks)).finish m

/-- A part of the checks that leaves the run in progress alone and knows nothing of ties. -/
def Untied (c : DeliveryChecks) : Except Halt DeliveryChecks → Prop :=
  Except.Meets (· ∉ tieFaults) fun c' => c'.runFirst = c.runFirst ∧ c'.crossLane = c.crossLane

theorem meets_okOr {α : Type} {x : Option α} {message : String}
    (h : Halt.err message ∉ tieFaults) :
    (okOr x message).Meets (· ∉ tieFaults) fun _ => True := by
  cases x with
  | none => exact h
  | some a => trivial

theorem meets_addSize (total amount maximum : Nat) :
    (Engine.addSize total amount maximum).Meets (· ∉ tieFaults) fun _ => True :=
  meets_okOr (by decide)

theorem meets_failIf {condition : Bool} {message : String} (h : Halt.err message ∉ tieFaults) :
    (Engine.failIf condition message).Meets (· ∉ tieFaults) fun _ => True := by
  cases condition with
  | true => exact h
  | false => trivial

theorem meets_forM {α : Type} {f : α → Except Halt Unit} {l : List α}
    (step : ∀ a ∈ l, (f a).Meets (· ∉ tieFaults) fun _ => True) :
    (l.forM f).Meets (· ∉ tieFaults) fun _ => True := by
  induction l with
  | nil => trivial
  | cons a l ih =>
    show Except.Meets _ _ (f a >>= fun _ => l.forM f)
    exact (step a List.mem_cons_self).bind fun _ _ _ =>
      ih fun b hb => step b (List.mem_cons_of_mem a hb)

section Checks

variable {c : DeliveryChecks} {h : EventHeader} {limits : ReadLimits} {m : DerivativeMetadata}

theorem untied_admitLane : Untied c (c.admitLane h limits) := by
  unfold DeliveryChecks.admitLane
  split
  · exact ⟨rfl, rfl⟩
  · split
    · show _ ∉ tieFaults
      decide
    · refine (meets_addSize _ _ _).bind fun bytes _ _ => ?_
      exact ⟨rfl, rfl⟩

theorem untied_observeLane : Untied c (c.observeLane h limits) := by
  refine (meets_okOr (by decide)).bind fun count _ _ => ?_
  refine Except.Meets.bind (untied_admitLane (c := { c with
    laneCounts := c.laneCounts.insert h.address.lane count })) fun c' _ hc' => ?_
  dsimp only
  split
  · show _ ∉ tieFaults
    decide
  · exact hc'

theorem untied_observeOrder :
    (c.observeOrder h m).Meets (· ∉ tieFaults) fun _ => True := by
  unfold DeliveryChecks.observeOrder
  split
  · show _ ∉ tieFaults
    decide
  · split
    · trivial
    · split
      · show _ ∉ tieFaults
        decide
      · split
        · show _ ∉ tieFaults
          decide
        · trivial

theorem untied_chargeRun {d : MeasuredDelivery} : Untied c (c.chargeRun d limits) := by
  unfold DeliveryChecks.chargeRun
  split
  · refine (meets_addSize _ _ _).bind fun bytes _ _ => ?_
    refine (meets_addSize _ _ _).bind fun records _ _ => ?_
    exact ⟨rfl, rfl⟩
  · exact ⟨rfl, rfl⟩

theorem untied_settleCoverage {inputRecords : Nat} {coverage : Engine.BoundCoverage} :
    (c.settleCoverage inputRecords coverage).Meets (· ∉ tieFaults) fun _ => True := by
  refine (meets_failIf (by decide)).bind fun _ _ _ => ?_
  refine (meets_failIf (by decide)).bind fun _ _ _ => ?_
  refine Except.Meets.bind (P := fun _ => True) ?_ fun counts _ _ => ?_
  · refine Except.meets_foldlM trivial fun lane _ counts _ => ?_
    obtain ⟨lane, expected, state⟩ := lane
    cases state with
    | present records =>
      dsimp only
      split
      · show _ ∉ tieFaults
        decide
      · trivial
    | _ => trivial
  · refine (meets_failIf (by decide)).bind fun _ _ _ => ?_
    refine meets_forM fun fault _ => ?_
    split
    · exact meets_failIf (by decide)
    · trivial

/-- The end of the window, when the run in progress is in order. -/
theorem finish_of_tie (h : ∀ first, c.runFirst = some first →
    validateTie first c.crossLane = .ok ()) :
    (c.finish m).Meets (· ∉ tieFaults) fun _ => True := by
  unfold DeliveryChecks.finish
  cases hfirst : c.runFirst with
  | none =>
    dsimp only
    split
    · exact untied_settleCoverage
    · trivial
  | some first =>
    dsimp only
    rw [h first hfirst, Except.ok_bind]
    split
    · exact untied_settleCoverage
    · trivial

end Checks

/-! ## Tied streams -/

/-- The lane of a delivery. -/
abbrev laneOf (d : MeasuredDelivery) : Engine.LaneId := d.header.address.lane

/-- Deliveries in time order, each with the tie that it has in the stream. -/
structure Tied (ds : List MeasuredDelivery) : Prop where
  sorted : ds.Pairwise fun a b => a.time ≤ b.time
  tie : ∀ d ∈ ds, d.tie = tieOf MeasuredDelivery.time laneOf ds d.time

/-- The run in progress after some deliveries: the first of the last instant, and whether one of
    its lanes is another. -/
structure RunOpen (past : List MeasuredDelivery) (runFirst : Option EventHeader)
    (crossLane : Bool) : Prop where
  fresh : runFirst = none → past = []
  first : ∀ h, runFirst = some h → ∃ d ∈ past, d.header = h ∧ (∀ e ∈ past, e.time ≤ h.visibleNs) ∧
    (crossLane = true ↔ ∃ e ∈ past, e.time = h.visibleNs ∧ laneOf e ≠ h.address.lane)

/-- A run begins behind an instant that is over. -/
theorem RunOpen.start {past : List MeasuredDelivery} {d : MeasuredDelivery}
    (h : ∀ e ∈ past, e.time < d.time) : RunOpen (past ++ [d]) (some d.header) false := by
  refine ⟨fun h => (by cases h), fun first hfirst => ?_⟩
  cases hfirst
  refine ⟨d, by simp, rfl, fun e he => ?_, fun h => (by cases h), ?_⟩
  · rcases List.mem_append.mp he with he | he
    · exact (h e he).le
    · rw [List.mem_singleton.mp he]
  · rintro ⟨e, he, htime, hne⟩
    rcases List.mem_append.mp he with he | he
    · exact absurd htime (h e he).ne
    · rw [List.mem_singleton.mp he] at hne
      exact absurd rfl hne

/-- A run goes on at its own time. -/
theorem RunOpen.join {past : List MeasuredDelivery} {first : EventHeader} {crossLane : Bool}
    {d : MeasuredDelivery} (h : RunOpen past (some first) crossLane)
    (htime : first.visibleNs = d.time) :
    RunOpen (past ++ [d]) (some first) (crossLane || decide (first.address.lane ≠ laneOf d)) := by
  obtain ⟨d', hd', rfl, hmax, hcross⟩ := h.first _ rfl
  refine ⟨fun h => (by cases h), fun first hfirst => ?_⟩
  cases hfirst
  refine ⟨d', List.mem_append_left _ hd', rfl, fun e he => ?_, ?_⟩
  · rcases List.mem_append.mp he with he | he
    · exact hmax e he
    · rw [List.mem_singleton.mp he]
      exact htime.symm.le
  · rw [Bool.or_eq_true, hcross, decide_eq_true_eq]
    constructor
    · rintro (⟨e, he, htime, hne⟩ | hne)
      · exact ⟨e, List.mem_append_left _ he, htime, hne⟩
      · exact ⟨d, by simp, htime.symm, hne.symm⟩
    · rintro ⟨e, he, htime, hne⟩
      rcases List.mem_append.mp he with he | he
      · exact .inl ⟨e, he, htime, hne⟩
      · rw [List.mem_singleton.mp he] at hne
        exact .inr hne.symm

theorem validateTie_of_eq {first : EventHeader} {crossLane : Bool}
    (h : first.visibleTieGroup = if crossLane then some first.visibleNs else none) :
    validateTie first crossLane = .ok () := if_neg (not_not.mpr h)

section Tied

variable {past rest : List MeasuredDelivery} {d : MeasuredDelivery} {c : DeliveryChecks}

/-- A run that several lanes meet in is tagged with its time. -/
theorem tie_of_cross {l : List MeasuredDelivery} (ht : Tied (past ++ l)) {first : EventHeader}
    (hrun : RunOpen past (some first) true) : first.visibleTieGroup = some first.visibleNs := by
  obtain ⟨d, hd, rfl, -, hcross⟩ := hrun.first _ rfl
  obtain ⟨e, he, htime, hne⟩ := hcross.mp rfl
  refine (ht.tie d (List.mem_append_left _ hd)).trans ?_
  exact if_pos ((spans_iff (List.mem_append_left _ hd)).mpr
    ⟨e, List.mem_append_left _ he, htime, hne⟩)

/-- A run whose instant is over is tagged with what the checks have seen of it. -/
theorem tie_of_past (ht : Tied (past ++ rest)) {first : EventHeader} {crossLane : Bool}
    (hrun : RunOpen past (some first) crossLane) (hlater : ∀ e ∈ rest, first.visibleNs < e.time) :
    first.visibleTieGroup = if crossLane then some first.visibleNs else none := by
  obtain ⟨d, hd, rfl, -, hcross⟩ := hrun.first _ rfl
  have hspans : Spans MeasuredDelivery.time laneOf (past ++ rest) d.time ↔ crossLane = true := by
    rw [spans_iff (List.mem_append_left _ hd), hcross]
    constructor
    · rintro ⟨e, he, htime, hne⟩
      refine ⟨e, (List.mem_append.mp he).resolve_right fun hrest => ?_, htime, hne⟩
      exact (hlater e hrest).ne' htime
    · rintro ⟨e, he, htime, hne⟩
      exact ⟨e, List.mem_append_left _ he, htime, hne⟩
  refine (ht.tie d (List.mem_append_left _ hd)).trans ?_
  simp only [tieOf, hspans]

/-- The next delivery finds the run before it in order: it is over, or at the same time. -/
theorem closeRun_of_tied (ht : Tied (past ++ d :: rest))
    (hrun : RunOpen past c.runFirst c.crossLane) :
    ∃ c', c.closeRun d.header = .ok c' ∧ ((c'.runFirst = none ∧ ∀ e ∈ past, e.time < d.time) ∨
      ∃ first, c'.runFirst = some first ∧ first.visibleNs = d.time ∧
        RunOpen past (some first) c'.crossLane) := by
  obtain ⟨-, hrest, hbetween⟩ := List.pairwise_append.mp ht.sorted
  unfold DeliveryChecks.closeRun
  cases hfirst : c.runFirst with
  | none =>
    refine ⟨c, rfl, .inl ⟨hfirst, ?_⟩⟩
    rw [hrun.fresh hfirst]
    simp
  | some first =>
    rw [hfirst] at hrun
    obtain ⟨d', hd', rfl, hmax, -⟩ := hrun.first _ rfl
    dsimp only
    split
    · rename_i hne
      have hlt : d'.time < d.time :=
        lt_of_le_of_ne (hbetween d' hd' d List.mem_cons_self) hne
      have hlater : ∀ e ∈ d :: rest, d'.header.visibleNs < e.time := by
        intro e he
        rcases List.mem_cons.mp he with rfl | he
        · exact hlt
        · exact lt_of_lt_of_le hlt ((List.pairwise_cons.mp hrest).1 e he)
      rw [validateTie_of_eq (tie_of_past ht hrun hlater)]
      exact ⟨_, rfl, .inl ⟨rfl, fun e he => lt_of_le_of_lt (hmax e he) hlt⟩⟩
    · rename_i heq
      exact ⟨c, rfl, .inr ⟨d'.header, hfirst, not_not.mp heq, hrun⟩⟩

/-- The next delivery begins a run or joins the one in progress. -/
theorem joinRun_of_tied (ht : Tied (past ++ d :: rest))
    (hat : (c.runFirst = none ∧ ∀ e ∈ past, e.time < d.time) ∨
      ∃ first, c.runFirst = some first ∧ first.visibleNs = d.time ∧
        RunOpen past (some first) c.crossLane) :
    ∃ c', c.joinRun d.header = .ok c' ∧ RunOpen (past ++ [d]) c'.runFirst c'.crossLane := by
  unfold DeliveryChecks.joinRun
  rcases hat with ⟨hnone, hearlier⟩ | ⟨first, hfirst, htime, hrun⟩
  · rw [hnone]
    exact ⟨_, rfl, .start hearlier⟩
  · have hjoin := hrun.join htime
    have ht' : Tied ((past ++ [d]) ++ rest) := by simpa using ht
    obtain ⟨d', hd', rfl, -, -⟩ := hrun.first _ rfl
    have htie : d'.header.visibleTieGroup = d.header.visibleTieGroup := by
      have h' := ht.tie d' (List.mem_append_left _ hd')
      rw [show d'.time = d.time from htime] at h'
      exact h'.trans (ht.tie d (List.mem_append_right _ List.mem_cons_self)).symm
    rw [hfirst]
    dsimp only
    rw [if_neg (not_not.mpr htie)]
    have hvalid : (if (c.crossLane || decide (d'.header.address.lane ≠ d.header.address.lane)) = true
        then validateTie d'.header true else .ok ()) = .ok () := by
      split
      · rename_i hcross
        rw [hcross] at hjoin
        exact validateTie_of_eq (tie_of_cross ht' hjoin)
      · rfl
    rw [hvalid]
    exact ⟨_, rfl, hjoin⟩

/-- One delivery: the checks go on, or stop for another reason than its tie. -/
theorem observe_of_tied {m : DerivativeMetadata} {limits : ReadLimits}
    (ht : Tied (past ++ d :: rest)) (hrun : RunOpen past c.runFirst c.crossLane) :
    (c.observe d m limits).Meets (· ∉ tieFaults)
      fun c' => RunOpen (past ++ [d]) c'.runFirst c'.crossLane := by
  unfold DeliveryChecks.observe
  refine Except.Meets.bind untied_observeLane fun c₁ _ h₁ => ?_
  rw [← h₁.1, ← h₁.2] at hrun
  refine untied_observeOrder.bind fun _ _ _ => ?_
  obtain ⟨c₂, hclose, hat⟩ := closeRun_of_tied ht hrun
  obtain ⟨c₃, hjoin, hrun₃⟩ := joinRun_of_tied ht hat
  rw [hclose, Except.ok_bind, hjoin, Except.ok_bind]
  refine untied_chargeRun.bind fun c₄ _ h₄ => ?_
  rw [← h₄.1, ← h₄.2] at hrun₃
  exact hrun₃

theorem foldlM_of_tied {m : DerivativeMetadata} {limits : ReadLimits} (ht : Tied (past ++ rest))
    (hrun : RunOpen past c.runFirst c.crossLane) :
    (rest.foldlM (fun (c : DeliveryChecks) d => c.observe d m limits) c).Meets (· ∉ tieFaults)
      fun c' => RunOpen (past ++ rest) c'.runFirst c'.crossLane := by
  induction rest generalizing past c with
  | nil => simpa using hrun
  | cons d rest ih =>
    rw [List.foldlM_cons]
    refine (observe_of_tied ht hrun).bind fun c' _ hc' => ?_
    have happend : past ++ d :: rest = past ++ [d] ++ rest := by simp
    rw [happend] at ht ⊢
    exact ih ht hc'

/-- The reader's checks find no fault in the ties of a tied stream. -/
theorem checked_of_tied {ds : List MeasuredDelivery} (ht : Tied ds) (limits : ReadLimits)
    (m : DerivativeMetadata) : (checkAll limits m ds).Meets (· ∉ tieFaults) fun _ => True := by
  have hopen : RunOpen [] none false := ⟨fun _ => rfl, fun h hh => (by cases hh)⟩
  have ht' : Tied ([] ++ ds) := ht
  refine (foldlM_of_tied (c := {}) ht' hopen).bind fun c _ hc => ?_
  refine finish_of_tie fun first hfirst => ?_
  rw [hfirst] at hc
  have hall : Tied (ds ++ []) := by simpa using ht
  exact validateTie_of_eq (tie_of_past hall hc (by simp))

end Tied

/-! ## One stream through both -/

/-- The delivery that is made of a marked record. -/
structure Carries (lane : Nat → Engine.LaneId) (m : MergedRecord) (d : MeasuredDelivery) : Prop where
  time : d.time = m.record.visibleNs
  tie : d.tie = m.visibleTieGroup
  lane : laneOf d = lane m.record.source.lane

/-- The deliveries of a marked stream are tied, as long as lanes keep their names apart. -/
theorem tied_of_carries {rs : List LaneRecord} {lane : Nat → Engine.LaneId}
    (hsorted : rs.Pairwise fun a b => a.visibleNs ≤ b.visibleNs)
    (hlane : ∀ a ∈ rs, ∀ b ∈ rs, lane a.source.lane = lane b.source.lane →
      a.source.lane = b.source.lane) {ds : List MeasuredDelivery}
    (hds : List.Forall₂ (Carries lane) (rs.map (marked rs)) ds) : Tied ds := by
  have htimes : ds.map (·.time) = rs.map (·.visibleNs) := by
    have hall : ∀ {ms : List MergedRecord} {ds : List MeasuredDelivery},
        List.Forall₂ (Carries lane) ms ds → ds.map (·.time) = ms.map (·.record.visibleNs) := by
      intro ms ds h
      induction h with
      | nil => rfl
      | cons hmd _ ih => rw [List.map_cons, List.map_cons, ih, hmd.time]
    rw [hall hds, List.map_map]
    rfl
  have hspans : ∀ t, Spans MeasuredDelivery.time laneOf ds t ↔
      Spans LaneRecord.visibleNs (·.source.lane) rs t := by
    intro t
    constructor
    · rintro ⟨a, ha, b, hb, hta, htb, hne⟩
      obtain ⟨ma, hma, hca⟩ := hds.exists_of_mem_right ha
      obtain ⟨mb, hmb, hcb⟩ := hds.exists_of_mem_right hb
      obtain ⟨ra, hra, rfl⟩ := List.mem_map.mp hma
      obtain ⟨rb, hrb, rfl⟩ := List.mem_map.mp hmb
      refine ⟨ra, hra, rb, hrb, hca.time.symm.trans hta, hcb.time.symm.trans htb, fun h => hne ?_⟩
      rw [hca.lane, hcb.lane]
      exact congrArg lane h
    · rintro ⟨a, ha, b, hb, hta, htb, hne⟩
      obtain ⟨da, hda, hca⟩ := hds.exists_of_mem_left (List.mem_map_of_mem ha)
      obtain ⟨db, hdb, hcb⟩ := hds.exists_of_mem_left (List.mem_map_of_mem hb)
      refine ⟨da, hda, db, hdb, hca.time.trans hta, hcb.time.trans htb, fun h => hne ?_⟩
      rw [hca.lane, hcb.lane] at h
      exact hlane a ha b hb h
  refine ⟨?_, fun d hd => ?_⟩
  · rw [← List.pairwise_map (f := MeasuredDelivery.time) (R := (· ≤ ·)), htimes, List.pairwise_map]
    exact hsorted
  · obtain ⟨m, hm, hc⟩ := hds.exists_of_mem_right hd
    obtain ⟨r, hr, rfl⟩ := List.mem_map.mp hm
    rw [hc.tie, hc.time]
    simp only [marked, tieOf, hspans]

/-- Over a stream in time order every record comes out once and in order, tagged with its time just
    if several lanes meet there, and the reader finds no fault in the ties of what is made of it,
    whatever else it checks. -/
theorem tie_groups_exact (rs : List LaneRecord)
    (hsorted : rs.Pairwise fun a b => a.visibleNs ≤ b.visibleNs) :
    ∃ ms : List MergedRecord, TieGroups.items [] (rs.map .ok) = ms.map .ok ∧
      ms.map (·.record) = rs ∧
      (∀ m ∈ ms, m.visibleTieGroup =
        if ∃ a ∈ rs, ∃ b ∈ rs, a.visibleNs = m.record.visibleNs ∧
          b.visibleNs = m.record.visibleNs ∧ a.source.lane ≠ b.source.lane
        then some m.record.visibleNs else none) ∧
      ∀ lane : Nat → Engine.LaneId,
        (∀ a ∈ rs, ∀ b ∈ rs, lane a.source.lane = lane b.source.lane →
          a.source.lane = b.source.lane) →
        ∀ ds : List MeasuredDelivery, List.Forall₂ (Carries lane) ms ds →
          ∀ (limits : ReadLimits) (m : DerivativeMetadata),
            (checkAll limits m ds).Meets (· ∉ tieFaults) fun _ => True := by
  refine ⟨rs.map (marked rs), ?_, ?_, ?_, ?_⟩
  · have hopen : ∀ a ∈ ([] : List LaneRecord), ∀ b ∈ ([] : List LaneRecord),
        a.visibleNs = b.visibleNs := by simp
    exact items_eq hopen hsorted
  · rw [List.map_map]
    exact List.map_id' rs
  · intro m hm
    obtain ⟨r, hr, rfl⟩ := List.mem_map.mp hm
    rfl
  · intro lane hlane ds hds limits m
    exact checked_of_tied (tied_of_carries hsorted hlane hds) limits m

/-- A record of a lane at a time. -/
def recordAt (lane visibleNs : Nat) : LaneRecord :=
  ⟨visibleNs, 1, ⟨lane, 0, 1⟩, "r", "c", [], by decide⟩

/-- Two lanes meet at the first instant and one lane stays alone at the second. -/
theorem tie_groups_exact_sample :
    ∃ ms : List MergedRecord,
      TieGroups.items [] ([recordAt 0 5, recordAt 1 5, recordAt 1 6].map .ok) = ms.map .ok ∧
        ms.map (·.visibleTieGroup) = [some 5, some 5, none] := by
  obtain ⟨ms, hitems, hrecords, htags, -⟩ :=
    tie_groups_exact [recordAt 0 5, recordAt 1 5, recordAt 1 6] (by decide)
  have htie : ms.map (·.visibleTieGroup) = (ms.map (·.record)).map fun r =>
      (if ∃ a ∈ [recordAt 0 5, recordAt 1 5, recordAt 1 6],
          ∃ b ∈ [recordAt 0 5, recordAt 1 5, recordAt 1 6], a.visibleNs = r.visibleNs ∧
            b.visibleNs = r.visibleNs ∧ a.source.lane ≠ b.source.lane
        then some r.visibleNs else none) := by
    rw [List.map_map]
    exact List.map_congr_left htags
  refine ⟨ms, hitems, ?_⟩
  rw [htie, hrecords]
  decide

end PredictionIndexer.Spec
