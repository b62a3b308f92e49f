import PredictionIndexer.ForStd.Pairs
import PredictionIndexer.Replay.ImplicationCover
import PredictionIndexer.Spec.CompleteSets

/-!
# Covers are found once and pay their floor

A pair is a candidate in one order only, so that a pair that covers is emitted once for each size. The
masks of its legs leave every outcome in one of three regions, none of them empty, and the least of
the three payouts is the smaller of the two received quantities.
-/

namespace PredictionIndexer.Replay.ImplicationCover

open Fallible Analysis

/-! ## Candidates -/

/-- What a mode pairs: two books of one venue, or of two. -/
def VenueMode.relates (mode : VenueMode) (a b : CoverLeg) : Prop :=
  match mode with
  | .sameVenue => venueOf a.book = venueOf b.book
  | .crossVenue => venueOf a.book ≠ venueOf b.book

/-- The order in which a mode has the legs of a pair. -/
def VenueMode.before (mode : VenueMode) (a b : CoverLeg) : Prop :=
  match mode with
  | .sameVenue => venueOf a.book = venueOf b.book ∧ a.book < b.book
  | .crossVenue => venueOf a.book < venueOf b.book

section Candidates

variable {mode : VenueMode} {legs : List CoverLeg} {pairs : List (CoverLeg × CoverLeg)}
  {a b : CoverLeg}

theorem relates_comm (h : mode.relates a b) : mode.relates b a := by
  cases mode with
  | sameVenue => exact Eq.symm h
  | crossVenue => exact Ne.symm h

theorem before_asymm (h : mode.before a b) : ¬ mode.before b a := by
  cases mode with
  | sameVenue => exact fun h' => lt_asymm h.2 h'.2
  | crossVenue => exact fun h' => lt_asymm h h'

theorem relates_of_before (h : mode.before a b) : mode.relates a b := by
  cases mode with
  | sameVenue => exact h.1
  | crossVenue => exact ne_of_lt h

theorem before_or_before (h : mode.relates a b) (hne : a.book ≠ b.book) :
    mode.before a b ∨ mode.before b a := by
  cases mode with
  | sameVenue => exact (lt_or_gt_of_ne hne).imp (fun hlt => ⟨h, hlt⟩) fun hlt => ⟨Eq.symm h, hlt⟩
  | crossVenue => exact lt_or_gt_of_ne h

/-- The books of a venue. -/
def ofVenue (legs : List CoverLeg) (venue : String) : List CoverLeg :=
  legs.filter fun leg => venueOf leg.book = venue

def venues (legs : List CoverLeg) : List String :=
  (legs.map fun leg => venueOf leg.book).sortedSet

theorem byVenue_eq : byVenue legs = (venues legs).map (ofVenue legs) := rfl

theorem mem_ofVenue {venue : String} : a ∈ ofVenue legs venue ↔ a ∈ legs ∧ venueOf a.book = venue := by
  rw [ofVenue, List.mem_filter, decide_eq_true_eq]

theorem mem_venues (h : a ∈ legs) : venueOf a.book ∈ venues legs :=
  List.mem_sortedSet.mpr (List.mem_map_of_mem h)

/-- The candidates are the pairs of the mode, each in its order and once. -/
theorem candidates_spec (hlegs : legs.Pairwise (·.book < ·.book))
    (h : candidates mode legs = .ok pairs) : pairs.Nodup ∧
      ∀ a b, (a, b) ∈ pairs ↔ a ∈ legs ∧ b ∈ legs ∧ mode.before a b := by
  have hnodup : legs.Nodup := List.nodup_iff_pairwise_ne.mpr
    (hlegs.imp fun hlt => ne_of_apply_ne CoverLeg.book (ne_of_lt hlt))
  have hvenues : (venues legs).Pairwise (· < ·) := List.pairwise_sortedSet _
  have hbooks : ∀ venue, (ofVenue legs venue).Pairwise (·.book < ·.book) := fun _ => hlegs.filter _
  have hmem : ∀ {venue p}, p ∈ (ofVenue legs venue).pairs ↔
      p.1 ∈ ofVenue legs venue ∧ p.2 ∈ ofVenue legs venue ∧ p.1.book < p.2.book := fun {venue _} =>
    List.mem_pairs_iff (fun _ _ => lt_asymm) (hbooks venue)
  unfold candidates at h
  cases mode with
  | sameVenue =>
    simp only at h
    split at h
    · cases h
      rw [byVenue_eq, List.flatMap_map]
      constructor
      · refine List.nodup_flatMap_of_tag (fun p => venueOf p.1.book) (hvenues.imp ne_of_lt)
          (fun venue _ => List.nodup_pairs (hnodup.filter _)) fun venue _ p hp => ?_
        exact (mem_ofVenue.mp (hmem.mp hp).1).2
      · intro a b
        rw [List.mem_flatMap]
        constructor
        · intro ⟨venue, _, hp⟩
          obtain ⟨ha, hb, hlt⟩ := hmem.mp hp
          have ha := mem_ofVenue.mp ha
          have hb := mem_ofVenue.mp hb
          exact ⟨ha.1, hb.1, ha.2.trans hb.2.symm, hlt⟩
        · intro ⟨ha, hb, hvenue, hlt⟩
          exact ⟨_, mem_venues ha, hmem.mpr
            ⟨mem_ofVenue.mpr ⟨ha, rfl⟩, mem_ofVenue.mpr ⟨hb, hvenue.symm⟩, hlt⟩⟩
    · cases h
  | crossVenue =>
    simp only at h
    split at h
    · cases h
      rw [byVenue_eq, List.pairs_map, List.flatMap_map]
      have hpair : ∀ {p : String × String}, p ∈ (venues legs).pairs ↔
          p.1 ∈ venues legs ∧ p.2 ∈ venues legs ∧ p.1 < p.2 :=
        List.mem_pairs_iff (fun _ _ => lt_asymm) hvenues
      constructor
      · refine List.nodup_flatMap_of_tag (fun p => (venueOf p.1.book, venueOf p.2.book))
          (List.nodup_pairs (hvenues.imp ne_of_lt))
          (fun p _ => (hnodup.filter _).product (hnodup.filter _)) fun p _ q hq => ?_
        have hq := List.mem_product.mp hq
        exact Prod.ext (mem_ofVenue.mp hq.1).2 (mem_ofVenue.mp hq.2).2
      · intro a b
        rw [List.mem_flatMap]
        constructor
        · intro ⟨p, hp, hq⟩
          obtain ⟨ha, hb⟩ := List.mem_product.mp hq
          have ha := mem_ofVenue.mp ha
          have hb := mem_ofVenue.mp hb
          refine ⟨ha.1, hb.1, ?_⟩
          show venueOf a.book < venueOf b.book
          rw [ha.2, hb.2]
          exact (hpair.mp hp).2.2
        · intro ⟨ha, hb, hlt⟩
          exact ⟨(venueOf a.book, venueOf b.book), hpair.mpr ⟨mem_venues ha, mem_venues hb, hlt⟩,
            List.mem_product.mpr ⟨mem_ofVenue.mpr ⟨ha, rfl⟩, mem_ofVenue.mpr ⟨hb, rfl⟩⟩⟩
    · cases h

end Candidates

/-! ## Verdicts -/

/-- The masks cover an exhaustive space and overlap. -/
structure Covers (scope : OutcomeScope) (left right : Leg) : Prop where
  space : ∃ space, scope.space left.shapeId = some space ∧ space.coverage = .exhaustive ∧
    left.keys ∪ right.keys = space.keys.toFinset
  shared : left.shapeId = right.shapeId
  overlap : (left.keys ∩ right.keys).Nonempty

/-- What the two books of a cover are. -/
structure Admissible (ctx : Context) (scope : OutcomeScope) (left right : Leg) (a b : CoverLeg) :
    Prop where
  captured : a.captured = true ∧ b.captured = true
  masks : ctx.masks = some scope
  first : scope.leg a.book = some left
  second : scope.leg b.book = some right
  markets : a.marketId ≠ b.marketId
  covers : Covers scope left right
  planned : sourceKey a.book ∈ ctx.plans ∧ sourceKey b.book ∈ ctx.plans

section Verdict

variable {ctx : Context} {scope : OutcomeScope} {left right : Leg} {a b : CoverLeg}

theorem covers_iff : Covers scope left right ↔ left.shapeId = right.shapeId ∧
    scope.isExhaustive left.shapeId = true ∧
    left.keys ∪ right.keys = (scope.keysOf left.shapeId).toFinset ∧
    left.keys ∩ right.keys ≠ ∅ := by
  constructor
  · intro h
    obtain ⟨space, hspace, hcoverage, hunion⟩ := h.space
    refine ⟨h.shared, OutcomeScope.isExhaustive_iff.mpr ⟨space, hspace, hcoverage⟩, ?_, h.overlap.ne_empty⟩
    rw [OutcomeScope.keysOf_eq hspace]
    exact hunion
  · intro ⟨hshared, hexhaustive, hunion, hoverlap⟩
    obtain ⟨space, hspace, hcoverage⟩ := OutcomeScope.isExhaustive_iff.mp hexhaustive
    rw [OutcomeScope.keysOf_eq hspace] at hunion
    exact ⟨⟨space, hspace, hcoverage, hunion⟩, hshared, Finset.nonempty_iff_ne_empty.mpr hoverlap⟩

theorem covers_symm (h : Covers scope left right) : Covers scope right left where
  space := by
    rw [← h.shared, Finset.union_comm]
    exact h.space
  shared := h.shared.symm
  overlap := by
    rw [Finset.inter_comm]
    exact h.overlap

theorem admissible_symm (h : Admissible ctx scope left right a b) :
    Admissible ctx scope right left b a :=
  ⟨h.captured.symm, h.masks, h.second, h.first, h.markets.symm, covers_symm h.covers, h.planned.symm⟩

theorem verdict_of_admissible (h : Admissible ctx scope left right a b)
    (hvenues : venueOf a.book ∈ supportedVenues ∧ venueOf b.book ∈ supportedVenues) :
    verdict ctx a b = (none, [], some (coverProof scope left right)) := by
  obtain ⟨hshared, hexhaustive, hunion, hoverlap⟩ := covers_iff.mp h.covers
  simp [verdict, h.captured, h.masks, h.first, h.second, h.markets, hshared.symm, hexhaustive, hunion,
    hoverlap, h.planned, hvenues]

/-- The checks in their order leave just the covers. -/
theorem admissible_of_verdict (h : (verdict ctx a b).1 = none) :
    ∃ scope left right, Admissible ctx scope left right a b := by
  unfold verdict at h
  simp only at h
  split at h
  · cases h
  rename_i hcaptured
  split at h
  · cases h
  rename_i scope hmasks
  split at h
  · cases h
  · cases h
  · cases h
  rename_i left right hfirst hsecond
  split at h
  · cases h
  rename_i hmarkets
  split at h
  · cases h
  rename_i hshared
  split at h
  · cases h
  rename_i hexhaustive
  split at h
  · cases h
  rename_i hunion
  split at h
  · cases h
  rename_i hoverlap
  split at h
  · cases h
  rename_i hplanned
  have hcovers := covers_iff.mpr
    ⟨not_not.mp hshared, by simpa using hexhaustive, not_not.mp hunion, hoverlap⟩
  exact ⟨scope, left, right, by simpa using hcaptured, hmasks, hfirst, hsecond, hmarkets, hcovers,
    by simpa using hplanned⟩

end Verdict

/-! ## Rows -/

/-- The unordered pairs that a mode admits. -/
def Admitted (ctx : Context) (scope : ScopeMembers) (mode : VenueMode) (a b : CoverLeg) : Prop :=
  a ∈ coverLegs scope ∧ b ∈ coverLegs scope ∧ mode.relates a b ∧
    ∃ masks left right, Admissible ctx masks left right a b

/-- The row is admitted, of this size and these legs in either order. -/
def isRowOf (a b : CoverLeg) (size : Nat) (row : CoverBasket) : Bool :=
  row.admission = none ∧ row.size = some size ∧ (row.legs = [a, b] ∨ row.legs = [b, a])

/-- The rows of a pair. -/
def pairRows (ctx : Context) (pair : CoverLeg × CoverLeg) : List CoverBasket :=
  let (admission, reasons, proof) := verdict ctx pair.1 pair.2
  emit ctx.sizes [pair.1, pair.2] admission reasons proof none

section Rows

variable {ctx : Context} {scope : ScopeMembers} {mode : VenueMode} {masks : OutcomeScope}
  {left right : Leg} {a b : CoverLeg} {rows : List CoverBasket} {row : CoverBasket}

theorem pairwise_coverLegs : (coverLegs scope).Pairwise (·.book < ·.book) := by
  refine List.pairwise_lt_sortByKey ?_
  rw [List.map_flatMap]
  simpa only [List.map_map, Function.comp_def, List.map_id'] using scope.distinct

theorem supported_of_mem (ha : a ∈ coverLegs scope) : venueOf a.book ∈ supportedVenues := by
  obtain ⟨member, hmember, hleg⟩ :=
    List.mem_flatMap.mp ((List.sortByKey_perm _ _).mem_iff.mp ha)
  obtain ⟨book, hbook, rfl⟩ := List.mem_map.mp hleg
  exact scope.venues member hmember book hbook

theorem admission_of_mem_emit {sizes : List Nat} {legs : List CoverLeg} {admission : Option Admission}
    {reasons : List Reason} {proof : Option CoverProof} {missing : Option String}
    (h : row ∈ emit sizes legs admission reasons proof missing) :
    row.admission = admission ∧ row.legs = legs := by
  obtain ⟨size, -, rfl⟩ := List.mem_map.mp h
  exact ⟨rfl, rfl⟩

/-- What the rows are: one refusal for want of pairs, or those of the members and the pairs. -/
theorem baskets_eq (h : baskets ctx scope mode = .ok rows) :
    ∃ refused pairs, candidates mode (coverLegs scope) = .ok pairs ∧
      rows = refused ++ (pairs.sortByKey fun pair => toLex (pair.1.book, pair.2.book)).flatMap
        (pairRows ctx) ∧ ∀ row ∈ refused, row.admission ≠ none := by
  unfold baskets at h
  cases hpairs : candidates mode (coverLegs scope) with
  | error e =>
    rw [hpairs] at h
    cases h
  | ok pairs =>
    rw [hpairs, Except.ok_bind] at h
    have hmissing : ∀ row ∈ missingRows ctx scope, row.admission ≠ none := by
      intro row hrow
      obtain ⟨member, -, hrow⟩ := List.mem_flatMap.mp hrow
      rw [(admission_of_mem_emit hrow).1]
      exact Option.some_ne_none _
    dsimp only at h
    split at h
    next hempty =>
      have hcore : (pairs.sortByKey fun pair => toLex (pair.1.book, pair.2.book)).flatMap
          (pairRows ctx) = [] := (List.append_eq_nil_iff.mp (List.isEmpty_iff.mp hempty)).2
      cases h
      refine ⟨emit ctx.sizes [] (some .unsupportedShape) [.noPair] none none, pairs, rfl, ?_,
        fun row hrow => ?_⟩
      · rw [hcore, List.append_nil]
      · rw [(admission_of_mem_emit hrow).1]
        exact Option.some_ne_none _
    next =>
      cases h
      exact ⟨_, pairs, rfl, rfl, hmissing⟩

theorem pairRows_eq (h : Admissible ctx masks left right a b) (ha : a ∈ coverLegs scope)
    (hb : b ∈ coverLegs scope) : pairRows ctx (a, b) = ctx.sizes.map fun size =>
      ⟨[a, b], [sourceKey a.book, sourceKey b.book], some size, none, [],
        some (coverProof masks left right), none⟩ := by
  unfold pairRows
  rw [verdict_of_admissible h ⟨supported_of_mem ha, supported_of_mem hb⟩]
  simp [emit, Function.comp_def]

theorem countP_map_eq_count {sizes : List Nat} {size : Nat} {f : Nat → CoverBasket}
    (h : ∀ n, isRowOf a b size (f n) = true ↔ n = size) :
    (sizes.map f).countP (isRowOf a b size) = sizes.count size := by
  rw [List.countP_map, List.count]
  refine List.countP_congr fun n _ => ?_
  rw [Function.comp_apply, h, beq_iff_eq]

/-- A pair that is no candidate in either order has no row, and neither has one that is refused. -/
theorem countP_pairRows_eq_zero {pair : CoverLeg × CoverLeg} {size : Nat}
    (h : (verdict ctx pair.1 pair.2).1 ≠ none ∨ pair ≠ (a, b) ∧ pair ≠ (b, a)) :
    (pairRows ctx pair).countP (isRowOf a b size) = 0 := by
  refine List.countP_eq_zero.mpr fun row hrow hrowof => ?_
  obtain ⟨hadmission, hlegs⟩ := admission_of_mem_emit hrow
  simp only [isRowOf, decide_eq_true_eq] at hrowof
  rw [hlegs, hadmission] at hrowof
  obtain ⟨hnone, -, heq⟩ := hrowof
  rcases h with h | ⟨hne, hne'⟩
  · exact h hnone
  · simp only [List.cons.injEq, and_true] at heq
    exact heq.elim (fun heq => hne (Prod.ext heq.1 heq.2)) fun heq => hne' (Prod.ext heq.1 heq.2)

theorem isRowOf_comm {size : Nat} : isRowOf a b size = isRowOf b a size := by
  funext row
  exact decide_eq_decide.mpr (and_congr_right fun _ => and_congr_right fun _ => or_comm)

/-- A pair that is admitted in its order has its rows there. -/
theorem countP_of_before {refused : List CoverBasket} {pairs : List (CoverLeg × CoverLeg)}
    (hcandidates : candidates mode (coverLegs scope) = .ok pairs)
    (hrefused : ∀ row ∈ refused, row.admission ≠ none)
    (ha : a ∈ coverLegs scope) (hb : b ∈ coverLegs scope) (hbefore : mode.before a b)
    (h : Admissible ctx masks left right a b) (size : Nat) :
    (refused ++ (pairs.sortByKey fun pair => toLex (pair.1.book, pair.2.book)).flatMap
      (pairRows ctx)).countP (isRowOf a b size) = ctx.sizes.count size := by
  obtain ⟨hnodup, hmem⟩ := candidates_spec pairwise_coverLegs hcandidates
  have hzero : refused.countP (isRowOf a b size) = 0 := by
    refine List.countP_eq_zero.mpr fun row hrow hrowof => hrefused row hrow ?_
    simp only [isRowOf, decide_eq_true_eq] at hrowof
    exact hrowof.1
  have hsorted := List.sortByKey_perm
    (fun pair : CoverLeg × CoverLeg => toLex (pair.1.book, pair.2.book)) pairs
  have hpair : (a, b) ∈ pairs.sortByKey fun pair => toLex (pair.1.book, pair.2.book) :=
    hsorted.mem_iff.mpr ((hmem a b).mpr ⟨ha, hb, hbefore⟩)
  rw [List.countP_append, hzero, Nat.zero_add, List.countP_flatMap_of_mem
    (hsorted.nodup_iff.mpr hnodup) hpair, pairRows_eq h ha hb]
  · exact countP_map_eq_count fun n => by simp [isRowOf]
  · intro pair hin hne
    -- the other order is no candidate
    have hne' : pair ≠ (b, a) := by
      intro heq
      rw [heq] at hin
      exact before_asymm hbefore ((hmem b a).mp (hsorted.mem_iff.mp hin)).2.2
    exact countP_pairRows_eq_zero (.inr ⟨hne, hne'⟩)

/-- An admitted pair is emitted once for each size. -/
theorem countP_of_admitted (h : baskets ctx scope mode = .ok rows) (hpair : Admitted ctx scope mode a b)
    (size : Nat) : rows.countP (isRowOf a b size) = ctx.sizes.count size := by
  obtain ⟨refused, pairs, hcandidates, rfl, hrefused⟩ := baskets_eq h
  obtain ⟨ha, hb, hrelates, masks, left, right, hadmissible⟩ := hpair
  have hne : a.book ≠ b.book := by
    intro heq
    have hsame := List.inj_on_of_nodup_map
      (List.pairwise_map.mpr (pairwise_coverLegs.imp ne_of_lt)) ha hb heq
    exact hadmissible.markets (congrArg _ hsame)
  rcases before_or_before hrelates hne with hbefore | hbefore
  · exact countP_of_before hcandidates hrefused ha hb hbefore hadmissible size
  · rw [isRowOf_comm]
    exact countP_of_before hcandidates hrefused hb ha hbefore (admissible_symm hadmissible) size

/-- An admitted row is that of an admitted pair, with the proof of its masks. -/
theorem admitted_of_mem (h : baskets ctx scope mode = .ok rows) (hrow : row ∈ rows)
    (hnone : row.admission = none) : ∃ a b masks left right, Admitted ctx scope mode a b ∧
      Admissible ctx masks left right a b ∧ ∃ size ∈ ctx.sizes,
        row = ⟨[a, b], [sourceKey a.book, sourceKey b.book], some size, none, [],
          some (coverProof masks left right), none⟩ := by
  obtain ⟨refused, pairs, hcandidates, rfl, hrefused⟩ := baskets_eq h
  rcases List.mem_append.mp hrow with hrow | hrow
  · exact absurd hnone (hrefused row hrow)
  · obtain ⟨⟨a, b⟩, hin, hrow⟩ := List.mem_flatMap.mp hrow
    obtain ⟨ha, hb, hbefore⟩ := ((candidates_spec pairwise_coverLegs hcandidates).2 a b).mp
      ((List.sortByKey_perm _ _).mem_iff.mp hin)
    have hverdict : (verdict ctx a b).1 = none := (admission_of_mem_emit hrow).1.symm.trans hnone
    obtain ⟨masks, left, right, hadmissible⟩ := admissible_of_verdict hverdict
    rw [pairRows_eq hadmissible ha hb] at hrow
    obtain ⟨size, hsize, rfl⟩ := List.mem_map.mp hrow
    exact ⟨a, b, masks, left, right,
      ⟨ha, hb, relates_of_before hbefore, masks, left, right, hadmissible⟩, hadmissible, size, hsize,
      rfl⟩

end Rows

/-! ## Payoffs -/

/-- A space in three regions: what only leg 1 pays, what both pay and what only leg 0 pays. -/
structure ThreeRegions (proof : CoverProof) : Prop where
  antecedent : proof.antecedentKeys ≠ []
  middle : proof.middleKeys ≠ []
  outside : ∃ k ∈ proof.outcomeKeys, k ∉ proof.consequentKeys
  least : ∀ q₀ q₁, 0 ≤ q₀ → 0 ≤ q₁ → (payoff proof (q₀, q₁)).min? = some (min q₀ q₁)
  most : ∀ q₀ q₁, 0 ≤ q₀ → 0 ≤ q₁ → (payoff proof (q₀, q₁)).max? = some (q₀ + q₁)

/-- The reported net is what the basket earns at least: some outcome earns it and none earns less. -/
def NetIsFloor (proof : CoverProof) : Prop :=
  ∀ size threshold first second assess payload net,
    (evaluate proof size threshold first second assess).payload = some payload →
    payload.gapNet = some net →
    ∃ legs payoffs, assess = some legs ∧ payload.payoffsNet = some payoffs ∧
      (0 ≤ legs.1.received → 0 ≤ legs.2.received →
        IsLeast { earned | ∃ paid ∈ payoffs, earned = paid + (legs.1.cash + legs.2.cash) } net)

section Payoffs

variable {scope : OutcomeScope} {left right : Leg} {proof : CoverProof} {q₀ q₁ : Int}

theorem payoff_coverProof : payoff (coverProof scope left right) (q₀, q₁) =
    (scope.keysOf left.shapeId).map fun k =>
      (if k ∈ left.keys then q₀ else 0) + (if k ∈ right.keys then q₁ else 0) := by
  show ((scope.keysOf left.shapeId).map _).map _ = _
  rw [List.map_map]
  refine List.map_congr_left fun k _ => ?_
  simp only [Function.comp_apply]
  split <;> split <;> omega

/-- The payouts of a cover: one quantity outside the middle, both in it. -/
theorem mem_payoff (h : Covers scope left right) {paid : Int}
    (hpaid : paid ∈ payoff (coverProof scope left right) (q₀, q₁)) :
    paid = q₀ ∨ paid = q₁ ∨ paid = q₀ + q₁ := by
  obtain ⟨-, -, hunion, -⟩ := covers_iff.mp h
  rw [payoff_coverProof] at hpaid
  obtain ⟨k, hk, rfl⟩ := List.mem_map.mp hpaid
  have hpays : k ∈ left.keys ∨ k ∈ right.keys := by
    rw [← Finset.mem_union, hunion]
    exact List.mem_toFinset.mpr hk
  by_cases hleft : k ∈ left.keys <;> by_cases hright : k ∈ right.keys
  · simp [hleft, hright]
  · simp [hleft, hright]
  · simp [hleft, hright]
  · exact absurd hpays (not_or.mpr ⟨hleft, hright⟩)

theorem payoff_of_key {k : String} (hk : k ∈ scope.keysOf left.shapeId) :
    (if k ∈ left.keys then q₀ else 0) + (if k ∈ right.keys then q₁ else 0) ∈
      payoff (coverProof scope left right) (q₀, q₁) := by
  rw [payoff_coverProof]
  exact List.mem_map_of_mem hk

/-- A leg that does not pay everywhere leaves a region to the other. -/
theorem threeRegions (h : Covers scope left right)
    (hleft : left.keys ⊂ (scope.keysOf left.shapeId).toFinset)
    (hright : right.keys ⊂ (scope.keysOf left.shapeId).toFinset) :
    ThreeRegions (coverProof scope left right) := by
  obtain ⟨-, -, hunion, -⟩ := covers_iff.mp h
  obtain ⟨k, hkmid⟩ := h.overlap
  obtain ⟨l, hlall, hlleft⟩ := Finset.exists_of_ssubset hleft
  obtain ⟨m, hmall, hmright⟩ := Finset.exists_of_ssubset hright
  have hkleft := Finset.mem_of_mem_inter_left hkmid
  have hkright := Finset.mem_of_mem_inter_right hkmid
  have hlright : l ∈ right.keys :=
    (Finset.mem_union.mp (hunion ▸ hlall)).resolve_left hlleft
  have hmleft : m ∈ left.keys :=
    (Finset.mem_union.mp (hunion ▸ hmall)).resolve_right hmright
  have hlist {k : String} : k ∈ (scope.keysOf left.shapeId).toFinset ↔
      k ∈ scope.keysOf left.shapeId := List.mem_toFinset
  have hmiddle (q₀ q₁ : Int) : q₀ + q₁ ∈ payoff (coverProof scope left right) (q₀, q₁) := by
    simpa [hkleft, hkright] using
      @payoff_of_key _ left right q₀ q₁ k (hlist.mp (hleft.subset hkleft))
  have houtside (q₀ q₁ : Int) : q₁ ∈ payoff (coverProof scope left right) (q₀, q₁) := by
    simpa [hlleft, hlright] using @payoff_of_key _ left right q₀ q₁ l (hlist.mp hlall)
  have hantecedent (q₀ q₁ : Int) : q₀ ∈ payoff (coverProof scope left right) (q₀, q₁) := by
    simpa [hmleft, hmright] using @payoff_of_key _ left right q₀ q₁ m (hlist.mp hmall)
  refine ⟨?_, ?_, ⟨l, hlist.mp hlall, ?_⟩, fun q₀ q₁ h₀ h₁ => ?_, fun q₀ q₁ h₀ h₁ => ?_⟩
  · exact List.ne_nil_of_mem (mem_orderedKeys.mpr (Finset.mem_sdiff.mpr ⟨hmall, hmright⟩))
  · exact List.ne_nil_of_mem (mem_orderedKeys.mpr hkmid)
  · exact fun hl => hlleft (mem_orderedKeys.mp hl)
  · refine List.min?_eq_some_iff.mpr ⟨?_, fun paid hpaid => ?_⟩
    · rcases min_choice q₀ q₁ with hmin | hmin
      · rw [hmin]
        exact hantecedent q₀ q₁
      · rw [hmin]
        exact houtside q₀ q₁
    · rcases mem_payoff h hpaid with rfl | rfl | rfl <;> omega
  · refine List.max?_eq_some_iff.mpr ⟨hmiddle q₀ q₁, fun paid hpaid => ?_⟩
    rcases mem_payoff h hpaid with rfl | rfl | rfl <;> omega

/-- A net is reported with the legs it nets and their payoffs. -/
theorem legs_of_gapNet {size : Nat} {threshold net : Int} {first second : LegView}
    {assess : Option (NetLeg × NetLeg)} {payload : Payload}
    (h : (evaluate proof size threshold first second assess).payload = some payload)
    (hnet : payload.gapNet = some net) : ∃ legs, assess = some legs ∧ net = netOf legs.1 legs.2 ∧
      payload.payoffsNet = some (payoff proof (legs.1.received, legs.2.received)) := by
  unfold evaluate at h
  split at h
  · cases h
  split at h
  · cases h
  split at h
  · cases h
  split at h
  · cases h
  split at h
  next =>
    split at h
    · cases h
    dsimp only at h
    split at h
    · cases h
      cases hnet
    split at h
    next =>
      cases h
      cases hnet
    next legs =>
      cases h
      cases hnet
      exact ⟨legs, rfl, rfl, rfl⟩
  next => cases h

theorem netIsFloor (h : ThreeRegions proof) : NetIsFloor proof := by
  intro size threshold first second assess payload net hpayload hnet
  obtain ⟨legs, hassess, rfl, hpayoffs⟩ := legs_of_gapNet hpayload hnet
  refine ⟨legs, _, hassess, hpayoffs, fun h₀ h₁ => ?_⟩
  obtain ⟨hmem, hle⟩ := List.min?_eq_some_iff.mp (h.least _ _ h₀ h₁)
  constructor
  · exact ⟨_, hmem, rfl⟩
  · intro earned ⟨paid, hpaid, heq⟩
    have := hle paid hpaid
    rw [netOf, heq]
    omega

end Payoffs

/-! ## Covers of a document -/

section Document

variable {doc : Document} {masked : List (BookRow doc)} {a b : CoverLeg} {ctx : Context}
  {left right : Leg}

/-- A mask and its negation leave out some outcome. -/
theorem rowLeg_ssubset (row : BookRow doc) {space : Space}
    (h : findSpace doc.spaces (doc.rowLeg row).shapeId = some space) :
    (doc.rowLeg row).keys ⊂ space.keys.toFinset := by
  obtain ⟨hne, found, hfound, hid, hsub⟩ := doc.claim_keys row.claim row.claim_mem
  have hfind : findSpace doc.spaces row.claim.spaceShapeId = some found := by
    rw [← hid]
    exact Document.findSpace_eq_some hfound
  cases hfind.symm.trans h
  show doc.rowKeys row ⊂ _
  unfold Document.rowKeys
  rw [hfind]
  cases row.negated with
  | false => simpa using hsub
  | true =>
    simp only [if_true]
    obtain ⟨k, hk⟩ := List.exists_mem_of_ne_nil _ hne
    have hk := List.mem_toFinset.mpr hk
    refine Finset.ssubset_iff_subset_ne.mpr ⟨Finset.sdiff_subset, fun heq => ?_⟩
    have hin := hsub.subset hk
    rw [← heq] at hin
    exact (Finset.mem_sdiff.mp hin).2 hk

theorem leg_ssubset {book : BookKey} {leg : Leg}
    (h : (OutcomeScope.new doc masked).leg book = some leg) {space : Space}
    (hspace : (OutcomeScope.new doc masked).space leg.shapeId = some space) :
    leg.keys ⊂ space.keys.toFinset := by
  obtain ⟨row, -, rfl⟩ := List.mem_map.mp (OutcomeScope.leg_eq_some h).2
  exact rowLeg_ssubset row hspace

theorem threeRegions_of_admissible
    (h : Admissible ctx (OutcomeScope.new doc masked) left right a b) :
    ThreeRegions (coverProof (OutcomeScope.new doc masked) left right) := by
  obtain ⟨space, hspace, -, -⟩ := h.covers.space
  have hkeys := OutcomeScope.keysOf_eq hspace
  refine threeRegions h.covers ?_ ?_
  · rw [hkeys]
    exact leg_ssubset h.first hspace
  · rw [hkeys]
    exact leg_ssubset h.second (by rwa [← h.covers.shared])

/-- An overlap is no complete set. -/
theorem not_isPartition {masks : OutcomeScope} (h : Admissible ctx masks left right a b) :
    masks.isPartition [a.book, b.book] = false := by
  rw [Bool.eq_false_iff]
  intro hpartition
  obtain ⟨space, legs, -, -, hlegs, -, hcover⟩ := OutcomeScope.isPartition_iff.mp hpartition
  have hpair : [a.book, b.book].mapM masks.leg = some [left, right] := by
    simp [h.first, h.second]
  cases hpair.symm.trans hlegs
  have hdisjoint : Disjoint left.keys right.keys :=
    (List.pairwise_cons.mp hcover.disjoint).1 right (List.mem_singleton.mpr rfl)
  exact h.covers.overlap.ne_empty (Finset.disjoint_iff_inter_eq_empty.mp hdisjoint)

/-- The baskets admit the pairs of the mode whose masks cover their space and overlap, each once for a
    size. None is a complete set, and the reported net of one is what it earns at least. -/
theorem implication_covers_exact (doc : Document) (masked : List (BookRow doc)) (plans : List BookKey)
    (sizes : List Nat) (scope : ScopeMembers) (mode : VenueMode) {rows : List CoverBasket}
    (h : baskets ⟨some (OutcomeScope.new doc masked), plans, sizes⟩ scope mode = .ok rows) :
    (∀ a b size, Admitted ⟨some (OutcomeScope.new doc masked), plans, sizes⟩ scope mode a b →
      rows.countP (isRowOf a b size) = sizes.count size) ∧
    ∀ row ∈ rows, row.admission = none → ∃ a b left right,
      Admitted ⟨some (OutcomeScope.new doc masked), plans, sizes⟩ scope mode a b ∧
      (OutcomeScope.new doc masked).leg a.book = some left ∧
      (OutcomeScope.new doc masked).leg b.book = some right ∧
      (∃ size ∈ sizes, row = ⟨[a, b], [sourceKey a.book, sourceKey b.book], some size, none, [],
        some (coverProof (OutcomeScope.new doc masked) left right), none⟩) ∧
      (OutcomeScope.new doc masked).isPartition [a.book, b.book] = false ∧
      ThreeRegions (coverProof (OutcomeScope.new doc masked) left right) ∧
      NetIsFloor (coverProof (OutcomeScope.new doc masked) left right) := by
  refine ⟨fun a b size hpair => countP_of_admitted h hpair size, fun row hrow hnone => ?_⟩
  obtain ⟨a, b, masks, left, right, hadmitted, hadmissible, hsize⟩ := admitted_of_mem h hrow hnone
  cases hadmissible.masks
  have hregions := threeRegions_of_admissible hadmissible
  exact ⟨a, b, left, right, hadmitted, hadmissible.first, hadmissible.second, hsize,
    not_isPartition hadmissible, hregions, netIsFloor hregions⟩

end Document

/-! ## Two overlapping masks -/

def raceSpace : Space := ⟨"race", .exhaustive, ["A", "B", "C"]⟩
def notC : ClaimRow := ⟨"not C", "race", ["A", "B"]⟩
def onlyA : ClaimRow := ⟨"only A", "race", ["A"]⟩

theorem race_claims : ∀ claim ∈ [notC, onlyA], claim.outcomeKeys ≠ [] ∧
    ∃ space ∈ [raceSpace], space.shapeId = claim.spaceShapeId ∧
      claim.outcomeKeys.toFinset ⊂ space.keys.toFinset := by decide

theorem race_claims_sorted : ([notC, onlyA].map (·.claimId)).Pairwise (· < ·) := by decide

theorem race_space_sorted : ([raceSpace].map (·.shapeId)).Pairwise (· < ·) := by decide

theorem race_keys :
    ∀ space ∈ [raceSpace], space.keys.Pairwise (· < ·) ∧ space.keys ≠ [] := by decide

def race : Document :=
  ⟨[raceSpace], [notC, onlyA], race_space_sorted, race_claims_sorted, race_keys, race_claims⟩

theorem notC_mem : notC ∈ race.claims := by decide

theorem onlyA_mem : onlyA ∈ race.claims := by decide

def legNotC : CoverLeg := ⟨"kalshi:C", toLex ("kalshi:C", "complement"), true⟩
def legNotA : CoverLeg := ⟨"polymarket:A", toLex ("polymarket:A", "no"), true⟩

/-- Leg 0 pays unless the outcome is `C`, and leg 1, a negated mask, unless it is `A`. -/
def raceRows : List (BookRow race) :=
  [⟨legNotC.book, "kalshi:C", notC, notC_mem, false⟩,
    ⟨legNotA.book, "polymarket:A", onlyA, onlyA_mem, true⟩]

def raceMembers : List ScopeMember :=
  [⟨"kalshi:C", true, [legNotC.book]⟩, ⟨"polymarket:A", true, [legNotA.book]⟩]

theorem race_distinct : (raceMembers.flatMap (·.books)).Nodup := by decide

theorem race_venues : ∀ member ∈ raceMembers, ∀ book ∈ member.books,
    venueOf book ∈ supportedVenues := by decide

def raceScope : ScopeMembers := ⟨raceMembers, race_distinct, race_venues⟩

def raceContext : Context :=
  ⟨some (OutcomeScope.new race raceRows), [sourceKey legNotC.book, legNotA.book], [1, 10]⟩

/-- The two books are admitted, once for each size. -/
theorem implication_covers_exact_sample : ∃ rows,
    baskets raceContext raceScope .crossVenue = .ok rows ∧
      rows.countP (isRowOf legNotA legNotC 10) = 1 := by
  have hlegs : coverLegs raceScope = [legNotC, legNotA] :=
    List.sortByKey_of_pairwise (by decide)
  have hvenues : venues [legNotC, legNotA] = ["kalshi", "polymarket"] :=
    (List.eq_sortedSet_iff.mpr (by decide)).symm
  have hcandidates : candidates .crossVenue (coverLegs raceScope) = .ok [(legNotC, legNotA)] := by
    rw [hlegs, candidates, byVenue_eq, hvenues]
    rfl
  obtain ⟨rows, hrows⟩ : ∃ rows, baskets raceContext raceScope .crossVenue = .ok rows := by
    unfold baskets
    rw [hcandidates, Except.ok_bind]
    dsimp only
    split <;> exact ⟨_, rfl⟩
  have hmem (leg : CoverLeg) (h : leg ∈ [legNotC, legNotA]) : leg ∈ coverLegs raceScope := by
    rw [hlegs]
    exact h
  have hadmitted : Admitted raceContext raceScope .crossVenue legNotA legNotC := by
    have hvenue : venueOf legNotA.book ≠ venueOf legNotC.book := by decide
    refine ⟨hmem _ (by decide), hmem _ (by decide), hvenue, OutcomeScope.new race raceRows,
      race.rowLeg ⟨legNotA.book, "polymarket:A", onlyA, onlyA_mem, true⟩,
      race.rowLeg ⟨legNotC.book, "kalshi:C", notC, notC_mem, false⟩,
      by decide, rfl, rfl, rfl, by decide, ?_, by decide⟩
    exact covers_iff.mpr ⟨by decide, by decide, by decide, by decide⟩
  exact ⟨rows, hrows,
    (implication_covers_exact race raceRows _ _ raceScope .crossVenue hrows).1 _ _ 10 hadmitted⟩

end PredictionIndexer.Replay.ImplicationCover
