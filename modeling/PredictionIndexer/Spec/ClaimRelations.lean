import PredictionIndexer.Analysis.Claims

/-!
# Claims reproduce the relations of markets

The relation of two masks is that of their outcome sets. A claim is one such set with every mask of
it, so a pair of claims in either order, turned to an implication and spelt out for its members in
either order, says of two markets what their own masks say.
-/

namespace PredictionIndexer.Analysis

open Fallible

/-! ## Relations of outcome sets -/

/-- How two outcome sets relate. -/
def classify (a b : Finset String) : Relation :=
  if a = b then .identity
  else if a ⊂ b then .implication
  else if b ⊂ a then .reverseImplication
  else if a ∩ b = ∅ then .mutualExclusion
  else .overlap

section Classify

variable {a b : Finset String} {left right : Mask}

theorem classify_eq_identity_iff : classify a b = .identity ↔ a = b := by
  unfold classify
  split_ifs <;> simp_all

theorem classify_eq_implication_iff : classify a b = .implication ↔ a ⊂ b := by
  unfold classify
  split_ifs with heq <;> simp_all

theorem flipped_flipped (kind : Relation) : flipped (flipped kind) = kind := by
  cases kind <;> rfl

/-- Seen from the other set only an implication turns. -/
theorem classify_swap : classify b a = flipped (classify a b) := by
  unfold classify
  by_cases heq : a = b
  · rw [if_pos heq, if_pos heq.symm]
    rfl
  by_cases hlt : a ⊂ b
  · rw [if_neg heq, if_neg (Ne.symm heq), if_pos hlt, if_neg (fun h => h.2 hlt.1), if_pos hlt]
    rfl
  by_cases hgt : b ⊂ a
  · rw [if_neg (Ne.symm heq), if_neg heq, if_pos hgt, if_neg hlt, if_pos hgt]
    rfl
  rw [if_neg heq, if_neg (Ne.symm heq), if_neg hlt, if_neg hgt, if_neg hgt, if_neg hlt,
    Finset.inter_comm b a]
  split_ifs <;> rfl

/-- What `relationship` reads are the outcome sets. -/
theorem relationship_eq (hleft : left.derivable = true) (hright : right.derivable = true)
    (hscope : left.scope = right.scope) (hne : left.outcomeKeys ≠ ∅) (hne' : right.outcomeKeys ≠ ∅) :
    relationship left right none = some (classify left.outcomeKeys right.outcomeKeys) := by
  unfold relationship classify
  simp only [hleft, hright, hscope, hne, hne', Bool.and_self, Bool.not_true, ne_eq,
    not_true_eq_false, decide_false, Bool.or_self, Bool.false_eq_true, if_false, or_self]
  split_ifs <;> rfl

end Classify

/-- The relations of cross-venue pairs of usable masks, read from the smaller market key; overlaps are
left out. -/
def MarketRelation {π : Type} (masks : List Mask) (space : OutcomeSpace π)
    (relation : String × String × Relation) : Prop :=
  ∃ a ∈ usableMasks masks space, ∃ b ∈ usableMasks masks space, a.venue ≠ b.venue ∧
    relationship a b none = some relation.2.2 ∧ relation.2.2 ≠ .overlap ∧
    relation.1 = a.marketKey ∧ relation.2.1 = b.marketKey ∧
    -- of two masks with one key the implication is kept
    (a.marketKey < b.marketKey ∨ a.marketKey = b.marketKey ∧ relation.2.2 ≠ .reverseImplication)

section Claims

variable {π : Type} {d : Digest} {masks : List Mask} {space : OutcomeSpace π} {mask a b : Mask}
  {kind : Relation} {claim claim' : Claim}

theorem mem_usableMasks : mask ∈ usableMasks masks space ↔
    mask ∈ masks ∧ mask.derivable = true ∧ mask.outcomeKeys ≠ ∅ ∧
      mask.outcomeKeys.card < space.outcomes.length := by
  unfold usableMasks
  rw [List.mem_filter, Bool.and_eq_true, Bool.and_eq_true, decide_eq_true_eq, decide_eq_true_eq,
    Finset.card_pos, Finset.nonempty_iff_ne_empty, and_assoc]

/-- The masks of a list are of one scope. -/
theorem relationship_usable (hscope : ∀ mask ∈ masks, mask.scope = space.scope)
    (ha : a ∈ usableMasks masks space) (hb : b ∈ usableMasks masks space) :
    relationship a b none = some (classify a.outcomeKeys b.outcomeKeys) := by
  obtain ⟨hmema, hderivablea, hnea, -⟩ := mem_usableMasks.mp ha
  obtain ⟨hmemb, hderivableb, hneb, -⟩ := mem_usableMasks.mp hb
  exact relationship_eq hderivablea hderivableb ((hscope a hmema).trans (hscope b hmemb).symm) hnea
    hneb

theorem idOf_injective (hd : Function.Injective d.hex) : Function.Injective (idOf d space) := by
  intro keys keys' h
  have hdigested := hd h
  simp only [Digested.claim.injEq, true_and] at hdigested
  rw [← Finset.sort_toFinset keys (· ≤ ·), ← Finset.sort_toFinset keys' (· ≤ ·), hdigested]

theorem claimId_eq {keys : Finset String} (hne : keys ≠ ∅) :
    claimId d keys (spaceShapeId d space) = .ok (idOf d space keys) := by
  have hkeys : keys.sort (· ≤ ·) ≠ [] := by
    intro hnil
    have hempty := congrArg List.toFinset hnil
    rw [Finset.sort_toFinset] at hempty
    exact hne hempty
  have hshape : spaceShapeId d space ≠ "" := d.hex_ne_empty _
  rw [claimId, if_neg hkeys, if_neg hshape]
  rfl

theorem mapM_eq_ok {α β ε : Type} {f : α → Except ε β} {g : α → β} {l : List α}
    (h : ∀ a ∈ l, f a = .ok (g a)) : l.mapM f = .ok (l.map g) := by
  induction l with
  | nil => rfl
  | cons a l ih =>
    rw [List.mapM_cons, h a List.mem_cons_self, ih fun b hb => h b (List.mem_cons_of_mem a hb)]
    rfl

/-- The usable masks with their identifiers. -/
def identified (d : Digest) (masks : List Mask) (space : OutcomeSpace π) : List (String × Mask) :=
  (usableMasks masks space).map fun mask => (idOf d space mask.outcomeKeys, mask)

/-- The claims of the masks. -/
def claimsOf (d : Digest) (masks : List Mask) (space : OutcomeSpace π) : List Claim :=
  ((identified d masks space).map Prod.fst).sortedSet.map
    (claimOf (spaceShapeId d space) space.scope (identified d masks space))

theorem deriveClaims_eq : deriveClaims d masks space = .ok (claimsOf d masks space) := by
  have hidentified : (usableMasks masks space).mapM (fun mask => do
      let id ← claimId d mask.outcomeKeys (spaceShapeId d space)
      return (id, mask)) = .ok (identified d masks space) := by
    apply mapM_eq_ok
    intro mask hmask
    rw [claimId_eq (mem_usableMasks.mp hmask).2.2.1]
    rfl
  unfold deriveClaims
  simp only [hidentified]
  rfl

/-- A claim is an outcome set with all its masks. -/
structure IsClaim (d : Digest) (masks : List Mask) (space : OutcomeSpace π) (claim : Claim) :
    Prop where
  id_eq : claim.claimId = idOf d space claim.outcomeKeys
  shape_eq : claim.spaceShapeId = spaceShapeId d space
  scope_eq : claim.scope = space.scope
  nonempty : claim.outcomeKeys ≠ ∅
  members : ∀ mask, mask ∈ claim.members ↔
    mask ∈ usableMasks masks space ∧ mask.outcomeKeys = claim.outcomeKeys

theorem isClaim_claimOf (hd : Function.Injective d.hex) (hmask : mask ∈ usableMasks masks space) :
    IsClaim d masks space (claimOf (spaceShapeId d space) space.scope (identified d masks space)
        (idOf d space mask.outcomeKeys)) ∧
      (claimOf (spaceShapeId d space) space.scope (identified d masks space)
        (idOf d space mask.outcomeKeys)).outcomeKeys = mask.outcomeKeys := by
  -- the masks of the identifier are those of the outcome set
  have hmembers : ∀ other, other ∈ ((identified d masks space).filter
      (·.1 = idOf d space mask.outcomeKeys)).map Prod.snd ↔
      other ∈ usableMasks masks space ∧ other.outcomeKeys = mask.outcomeKeys := by
    intro other
    simp only [identified, List.mem_map, List.mem_filter, decide_eq_true_eq]
    constructor
    · rintro ⟨_, ⟨⟨other, hother, rfl⟩, hid⟩, rfl⟩
      exact ⟨hother, idOf_injective hd hid⟩
    · rintro ⟨hother, hkeys⟩
      exact ⟨_, ⟨⟨other, hother, rfl⟩, by rw [hkeys]⟩, rfl⟩
  have hkeys : (claimOf (spaceShapeId d space) space.scope (identified d masks space)
      (idOf d space mask.outcomeKeys)).outcomeKeys = mask.outcomeKeys := by
    have hne := List.ne_nil_of_mem ((hmembers mask).mpr ⟨hmask, rfl⟩)
    have hlast := (hmembers _).mp (List.getLast_mem hne)
    simp only [claimOf, List.getLast?_eq_some_getLast hne, Option.map_some, Option.getD_some]
    exact hlast.2
  refine ⟨⟨?_, rfl, rfl, ?_, fun other => ?_⟩, hkeys⟩
  · rw [hkeys]
    rfl
  · rw [hkeys]
    exact (mem_usableMasks.mp hmask).2.2.1
  · rw [hkeys, ← hmembers]
    exact (List.sortByKey_perm _ _).mem_iff

theorem isClaim_of_mem (hd : Function.Injective d.hex) (h : claim ∈ claimsOf d masks space) :
    IsClaim d masks space claim := by
  obtain ⟨id, hid, rfl⟩ := List.mem_map.mp h
  obtain ⟨_, hpair, rfl⟩ := List.mem_map.mp (List.mem_sortedSet.mp hid)
  obtain ⟨mask, hmask, rfl⟩ := List.mem_map.mp hpair
  exact (isClaim_claimOf hd hmask).1

/-- Every usable mask is in a claim. -/
theorem exists_claim (hd : Function.Injective d.hex) (hmask : mask ∈ usableMasks masks space) :
    ∃ claim ∈ claimsOf d masks space, claim.outcomeKeys = mask.outcomeKeys ∧ mask ∈ claim.members := by
  have hof := isClaim_claimOf hd hmask
  obtain ⟨hclaim, hkeys⟩ := hof
  refine ⟨_, List.mem_map.mpr ⟨_, ?_, rfl⟩, hkeys, (hclaim.members mask).mpr ⟨hmask, hkeys.symm⟩⟩
  rw [List.mem_sortedSet]
  exact List.mem_map.mpr ⟨_, List.mem_map.mpr ⟨mask, hmask, rfl⟩, rfl⟩

/-- Claims ascend by their identifiers. -/
theorem pairwise_claimsOf : (claimsOf d masks space).Pairwise fun a b => a.claimId < b.claimId := by
  unfold claimsOf
  rw [List.pairwise_map]
  exact List.pairwise_sortedSet _

theorem eq_of_claimId (h : claim ∈ claimsOf d masks space)
    (h' : claim' ∈ claimsOf d masks space) (heq : claim.claimId = claim'.claimId) :
    claim = claim' := by
  obtain ⟨id, -, rfl⟩ := List.mem_map.mp h
  obtain ⟨id', -, rfl⟩ := List.mem_map.mp h'
  obtain rfl : id = id' := heq
  rfl

/-- What a pair of claims says of its members, the antecedent of an implication first. -/
def relationOf (a b : Claim) : ClaimRelation :=
  ⟨a.spaceShapeId, a.claimId, b.claimId, classify a.outcomeKeys b.outcomeKeys⟩

/-- The kinds that are stored. -/
def Stored (kind : Relation) : Prop := kind ≠ .overlap ∧ kind ≠ .reverseImplication

theorem relateClaims_eq (h : IsClaim d masks space claim) (h' : IsClaim d masks space claim') :
    relateClaims true (claim, claim') =
      if classify claim.outcomeKeys claim'.outcomeKeys = .overlap then none
      else if classify claim.outcomeKeys claim'.outcomeKeys = .reverseImplication then
        some (relationOf claim' claim)
      else some (relationOf claim claim') := by
  have hrelationship : relationship (probe claim) (probe claim') none =
      some (classify claim.outcomeKeys claim'.outcomeKeys) :=
    relationship_eq rfl rfl (h.scope_eq.trans h'.scope_eq.symm) h.nonempty h'.nonempty
  unfold relateClaims
  rw [hrelationship]
  simp only [Bool.true_and, decide_eq_true_eq]
  by_cases hreverse : classify claim.outcomeKeys claim'.outcomeKeys = .reverseImplication
  · have hforward : classify claim'.outcomeKeys claim.outcomeKeys = .implication := by
      rw [classify_swap, hreverse]
      rfl
    rw [relationOf, hforward]
    rfl
  · simp only [hreverse, if_false]
    rfl

/-- The relations of the claims. -/
def relationsOf (d : Digest) (masks : List Mask) (space : OutcomeSpace π) : List ClaimRelation :=
  (claimsOf d masks space).pairs.filterMap (relateClaims true)

theorem length_dedup_le_one {x : String} {l : List String} (h : ∀ a ∈ l, a = x) :
    l.dedup.length ≤ 1 := by
  have hall : ∀ a ∈ l.dedup, a = x := fun a ha => h a (List.mem_dedup.mp ha)
  have hnodup := l.nodup_dedup
  generalize l.dedup = l' at hall hnodup
  match l' with
  | [] => simp
  | [a] => simp
  | a :: b :: _ =>
    have hne := (List.pairwise_cons.mp hnodup).1 b List.mem_cons_self
    have ha := hall a List.mem_cons_self
    have hb := hall b (List.mem_cons_of_mem a List.mem_cons_self)
    exact absurd (ha.trans hb.symm) hne

theorem deriveClaimAlgebra_eq (hd : Function.Injective d.hex) :
    deriveClaimAlgebra (claimsOf d masks space) true = .ok (relationsOf d masks space) := by
  have hshape : ((claimsOf d masks space).map (·.spaceShapeId)).dedup.length ≤ 1 := by
    apply length_dedup_le_one (x := spaceShapeId d space)
    intro shape hmem
    obtain ⟨claim, hclaim, rfl⟩ := List.mem_map.mp hmem
    exact (isClaim_of_mem hd hclaim).shape_eq
  have hsorted : (claimsOf d masks space).sortByKey (·.claimId) = claimsOf d masks space :=
    List.sortByKey_of_pairwise (pairwise_claimsOf.imp le_of_lt)
  rw [deriveClaimAlgebra, if_neg (by omega), hsorted]
  rfl

/-- A relation is of two claims in a stored direction. -/
theorem exists_claims (hd : Function.Injective d.hex) {relation : ClaimRelation}
    (h : relation ∈ relationsOf d masks space) :
    ∃ a ∈ claimsOf d masks space, ∃ b ∈ claimsOf d masks space, relation = relationOf a b ∧
      Stored (classify a.outcomeKeys b.outcomeKeys) := by
  obtain ⟨⟨a, b⟩, hpair, hrelate⟩ := List.mem_filterMap.mp h
  obtain ⟨ha, hb, -⟩ := List.mem_pairs_of_pairwise pairwise_claimsOf hpair
  rw [relateClaims_eq (isClaim_of_mem hd ha) (isClaim_of_mem hd hb)] at hrelate
  split_ifs at hrelate with hoverlap hreverse
  · cases hrelate
    refine ⟨b, hb, a, ha, rfl, ?_⟩
    rw [classify_swap, hreverse]
    exact ⟨by decide, by decide⟩
  · cases hrelate
    exact ⟨a, ha, b, hb, rfl, hoverlap, hreverse⟩

/-- Two claims in a stored direction are related so, or the other way where it makes no difference. -/
theorem relationOf_mem (hd : Function.Injective d.hex) (ha : claim ∈ claimsOf d masks space)
    (hb : claim' ∈ claimsOf d masks space) (hne : claim ≠ claim')
    (hstored : Stored (classify claim.outcomeKeys claim'.outcomeKeys)) :
    relationOf claim claim' ∈ relationsOf d masks space ∨
      relationOf claim' claim ∈ relationsOf d masks space ∧
        flipped (classify claim.outcomeKeys claim'.outcomeKeys) =
          classify claim.outcomeKeys claim'.outcomeKeys := by
  have hswap := classify_swap (a := claim.outcomeKeys) (b := claim'.outcomeKeys)
  rcases List.pair_mem_pairs ha hb hne with hpair | hpair
  · left
    refine List.mem_filterMap.mpr ⟨_, hpair, ?_⟩
    rw [relateClaims_eq (isClaim_of_mem hd ha) (isClaim_of_mem hd hb), if_neg hstored.1,
      if_neg hstored.2]
  · have hrelate := relateClaims_eq (isClaim_of_mem hd hb) (isClaim_of_mem hd ha)
    rw [hswap] at hrelate
    cases hkind : classify claim.outcomeKeys claim'.outcomeKeys with
    | overlap => exact absurd hkind hstored.1
    | reverseImplication => exact absurd hkind hstored.2
    | implication =>
      rw [hkind] at hrelate
      exact .inl (List.mem_filterMap.mpr ⟨_, hpair, hrelate⟩)
    | identity =>
      rw [hkind] at hrelate
      exact .inr ⟨List.mem_filterMap.mpr ⟨_, hpair, hrelate⟩, rfl⟩
    | mutualExclusion =>
      rw [hkind] at hrelate
      exact .inr ⟨List.mem_filterMap.mpr ⟨_, hpair, hrelate⟩, rfl⟩

theorem claimById_eq (h : claim ∈ claimsOf d masks space) :
    claimById (claimsOf d masks space) claim.claimId = .ok claim := by
  have hsome : ((claimsOf d masks space).reverse.find? (·.claimId = claim.claimId)).isSome :=
    List.find?_isSome.mpr ⟨claim, List.mem_reverse.mpr h, decide_eq_true rfl⟩
  obtain ⟨found, hfound⟩ := Option.isSome_iff_exists.mp hsome
  have hid : found.claimId = claim.claimId := by simpa using List.find?_some hfound
  have hmem := List.mem_reverse.mp (List.mem_of_find?_eq_some hfound)
  rw [claimById, hfound, eq_of_claimId hmem h hid]

/-! ## Market pairs -/

theorem relationPairs_eq (ha : claim ∈ claimsOf d masks space) (hb : claim' ∈ claimsOf d masks space) :
    relationPairs (claimsOf d masks space) (relationOf claim claim') =
      .ok (claim.members.flatMap fun left => claim'.members.filterMap
        (memberPair (classify claim.outcomeKeys claim'.outcomeKeys) left)) := by
  unfold relationPairs
  have hleft : claimById (claimsOf d masks space) (relationOf claim claim').leftClaimId =
      .ok claim := claimById_eq ha
  have hright : claimById (claimsOf d masks space) (relationOf claim claim').rightClaimId =
      .ok claim' := claimById_eq hb
  rw [hleft, hright]
  rfl

/-- A pair without direction is the same from either member. -/
theorem memberPair_comm (hkind : flipped kind = kind) : memberPair kind a b = memberPair kind b a := by
  have hsorted : sortedKeys a.marketKey b.marketKey = sortedKeys b.marketKey a.marketKey := by
    unfold sortedKeys
    rcases lt_trichotomy a.marketKey b.marketKey with hlt | heq | hgt
    · rw [if_neg (not_lt.mpr hlt.le), if_pos hlt]
    · rw [heq]
    · rw [if_pos hgt, if_neg (not_lt.mpr hgt.le)]
  unfold memberPair
  rw [hkind, hsorted]
  simp only [ite_self, eq_comm]

/-- Two members in a stored direction give the relation of their masks, from the smaller key. -/
theorem memberPair_eq (hscope : ∀ mask ∈ masks, mask.scope = space.scope)
    (ha : a ∈ usableMasks masks space) (hb : b ∈ usableMasks masks space)
    (hstored : Stored (classify a.outcomeKeys b.outcomeKeys)) {relation : String × String × Relation}
    (h : memberPair (classify a.outcomeKeys b.outcomeKeys) a b = some relation) :
    MarketRelation masks space relation := by
  unfold memberPair at h
  split_ifs at h with hvenue
  obtain rfl := Option.some.inj h
  by_cases hlt : b.marketKey < a.marketKey
  · have hsorted : sortedKeys a.marketKey b.marketKey = (b.marketKey, a.marketKey) := if_pos hlt
    have hfirst : b.marketKey ≠ a.marketKey := ne_of_lt hlt
    simp only [hsorted, hfirst, ne_eq, not_false_eq_true, if_true]
    have hswap := classify_swap (a := a.outcomeKeys) (b := b.outcomeKeys)
    refine ⟨b, hb, a, ha, Ne.symm hvenue, ?_, ?_, rfl, rfl, .inl hlt⟩
    · rw [relationship_usable hscope hb ha, hswap]
    · intro hoverlap
      have hback := congrArg flipped hoverlap
      rw [flipped_flipped] at hback
      exact hstored.1 hback
  · have hsorted : sortedKeys a.marketKey b.marketKey = (a.marketKey, b.marketKey) := if_neg hlt
    simp only [hsorted, ne_eq, not_true_eq_false, if_false]
    refine ⟨a, ha, b, hb, hvenue, relationship_usable hscope ha hb, hstored.1, rfl, rfl, ?_⟩
    rcases lt_or_eq_of_le (not_lt.mp hlt) with hlt' | heq
    · exact .inl hlt'
    · exact .inr ⟨heq, hstored.2⟩

/-- Every relation of two masks is given by its members in a stored direction. -/
theorem exists_memberPair (hscope : ∀ mask ∈ masks, mask.scope = space.scope)
    {relation : String × String × Relation} (h : MarketRelation masks space relation) :
    ∃ a ∈ usableMasks masks space, ∃ b ∈ usableMasks masks space,
      Stored (classify a.outcomeKeys b.outcomeKeys) ∧
        memberPair (classify a.outcomeKeys b.outcomeKeys) a b = some relation := by
  obtain ⟨a, ha, b, hb, hvenue, hkind, hoverlap, hfirst, hsecond, horder⟩ := h
  obtain ⟨x, y, kind⟩ := relation
  simp only at hkind hoverlap hfirst hsecond horder
  subst hfirst hsecond
  rw [relationship_usable hscope ha hb, Option.some.injEq] at hkind
  by_cases hreverse : kind = .reverseImplication
  · -- the subset comes second: turned, it is stored
    have hlt : a.marketKey < b.marketKey := by
      rcases horder with hlt | ⟨-, hne⟩
      · exact hlt
      · exact absurd hreverse hne
    have hswap := classify_swap (a := a.outcomeKeys) (b := b.outcomeKeys)
    rw [hkind, hreverse] at hswap
    refine ⟨b, hb, a, ha, ?_, ?_⟩
    · rw [hswap]
      exact ⟨by decide, by decide⟩
    · have hsorted : sortedKeys b.marketKey a.marketKey = (a.marketKey, b.marketKey) := if_pos hlt
      have hne : a.marketKey ≠ b.marketKey := ne_of_lt hlt
      rw [hswap, memberPair, if_neg (Ne.symm hvenue), hsorted, hreverse]
      simp only [hne, ne_eq, not_false_eq_true, if_true]
      rfl
  · refine ⟨a, ha, b, hb, ⟨by rw [hkind]; exact hoverlap, by rw [hkind]; exact hreverse⟩, ?_⟩
    have hle : ¬b.marketKey < a.marketKey := by
      rcases horder with hlt | ⟨heq, -⟩
      · exact not_lt.mpr hlt.le
      · rw [heq]
        exact lt_irrefl _
    have hsorted : sortedKeys a.marketKey b.marketKey = (a.marketKey, b.marketKey) := if_neg hle
    rw [memberPair, if_neg hvenue, hsorted, hkind]
    simp only [ne_eq, not_true_eq_false, if_false]

theorem mem_identityPairs {relation : String × String × Relation} :
    relation ∈ identityPairs claim ↔
      ∃ pair ∈ claim.members.pairs, memberPair .identity pair.1 pair.2 = some relation := by
  unfold identityPairs
  rw [List.mem_filterMap]
  refine exists_congr fun pair => and_congr_right fun _ => ?_
  unfold memberPair
  by_cases hvenue : pair.1.venue = pair.2.venue <;> simp [hvenue, flipped]

/-- The market pairs of the claims and of their relations. -/
def impliedPairs (d : Digest) (masks : List Mask) (space : OutcomeSpace π) :
    List (String × String × Relation) :=
  (claimsOf d masks space).flatMap identityPairs ++
    (relationsOf d masks space).flatMap fun relation =>
      (relationPairs (claimsOf d masks space) relation).toOption.getD []

theorem impliedMarketRelations_eq (hd : Function.Injective d.hex) :
    impliedMarketRelations [⟨claimsOf d masks space, relationsOf d masks space⟩] =
      .ok (impliedPairs d masks space).dedup := by
  have hrelated : (relationsOf d masks space).mapM (relationPairs (claimsOf d masks space)) =
      .ok ((relationsOf d masks space).map fun relation =>
        (relationPairs (claimsOf d masks space) relation).toOption.getD []) := by
    apply mapM_eq_ok
    intro relation hmem
    obtain ⟨a, ha, b, hb, rfl, -⟩ := exists_claims hd hmem
    rw [relationPairs_eq ha hb]
    rfl
  unfold impliedMarketRelations
  rw [List.mapM_cons]
  simp only [hrelated]
  show Except.ok ([_] : List (List _)).flatten.dedup = _
  rw [impliedPairs, List.flatMap_def (l := relationsOf d masks space), List.flatten_singleton]

theorem mem_members_pair {relation : String × String × Relation}
    (ha : claim ∈ claimsOf d masks space) (hb : claim' ∈ claimsOf d masks space)
    (hrelation : relationOf claim claim' ∈ relationsOf d masks space)
    (hmema : a ∈ claim.members) (hmemb : b ∈ claim'.members)
    (h : memberPair (classify claim.outcomeKeys claim'.outcomeKeys) a b = some relation) :
    relation ∈ impliedPairs d masks space := by
  apply List.mem_append_right
  refine List.mem_flatMap.mpr ⟨_, hrelation, ?_⟩
  rw [relationPairs_eq ha hb]
  show relation ∈ claim.members.flatMap fun left => claim'.members.filterMap
    (memberPair (classify claim.outcomeKeys claim'.outcomeKeys) left)
  exact List.mem_flatMap.mpr ⟨a, hmema, List.mem_filterMap.mpr ⟨b, hmemb, h⟩⟩

/-- Members of claims in a stored direction are all there is. -/
theorem mem_impliedPairs (hd : Function.Injective d.hex) {relation : String × String × Relation} :
    relation ∈ impliedPairs d masks space ↔
      ∃ a ∈ usableMasks masks space, ∃ b ∈ usableMasks masks space,
        Stored (classify a.outcomeKeys b.outcomeKeys) ∧
          memberPair (classify a.outcomeKeys b.outcomeKeys) a b = some relation := by
  constructor
  · intro h
    rcases List.mem_append.mp h with h | h
    · obtain ⟨claim, hclaim, hpairs⟩ := List.mem_flatMap.mp h
      obtain ⟨⟨a, b⟩, hpair, hmember⟩ := mem_identityPairs.mp hpairs
      obtain ⟨ha, hb, -⟩ := List.mem_pairs_of_pairwise (R := fun _ _ => True)
        (List.pairwise_of_forall fun _ _ => trivial) hpair
      have hmembers := (isClaim_of_mem hd hclaim).members
      obtain ⟨ha, hkeys⟩ := (hmembers a).mp ha
      obtain ⟨hb, hkeys'⟩ := (hmembers b).mp hb
      have hidentity := classify_eq_identity_iff.mpr (hkeys.trans hkeys'.symm)
      rw [← hidentity] at hmember
      exact ⟨a, ha, b, hb, by rw [hidentity]; exact ⟨by decide, by decide⟩, hmember⟩
    · obtain ⟨stored, hstored, hpairs⟩ := List.mem_flatMap.mp h
      obtain ⟨claim, hclaim, claim', hclaim', rfl, hkind⟩ := exists_claims hd hstored
      rw [relationPairs_eq hclaim hclaim'] at hpairs
      obtain ⟨a, ha, hb⟩ := List.mem_flatMap.mp hpairs
      obtain ⟨b, hb, hmember⟩ := List.mem_filterMap.mp hb
      obtain ⟨ha, hkeys⟩ := ((isClaim_of_mem hd hclaim).members a).mp ha
      obtain ⟨hb, hkeys'⟩ := ((isClaim_of_mem hd hclaim').members b).mp hb
      rw [← hkeys, ← hkeys'] at hkind hmember
      exact ⟨a, ha, b, hb, hkind, hmember⟩
  · intro ⟨a, ha, b, hb, hstored, hmember⟩
    obtain ⟨claim, hclaim, hkeys, hmema⟩ := exists_claim hd ha
    obtain ⟨claim', hclaim', hkeys', hmemb⟩ := exists_claim hd hb
    by_cases heq : claim = claim'
    · -- one claim: the masks are identical, and a pair of it in one order or the other
      subst heq
      have hidentity := classify_eq_identity_iff.mpr (hkeys.symm.trans hkeys')
      rw [hidentity] at hmember
      have hne : a ≠ b := by
        intro hab
        rw [hab, memberPair, if_pos rfl] at hmember
        cases hmember
      apply List.mem_append_left
      refine List.mem_flatMap.mpr ⟨claim, hclaim, mem_identityPairs.mpr ?_⟩
      rcases List.pair_mem_pairs hmema hmemb hne with hpair | hpair
      · exact ⟨_, hpair, hmember⟩
      · exact ⟨_, hpair, by rwa [memberPair_comm rfl]⟩
    · rw [← hkeys, ← hkeys'] at hstored hmember
      rcases relationOf_mem hd hclaim hclaim' heq hstored with hrelation | ⟨hrelation, hflipped⟩
      · exact mem_members_pair hclaim hclaim' hrelation hmema hmemb hmember
      · apply mem_members_pair hclaim' hclaim hrelation hmemb hmema
        rw [classify_swap, hflipped, memberPair_comm hflipped]
        exact hmember

end Claims

/-- The relations rebuilt from the claims and their algebra are the relations of the masks. -/
theorem implied_eq_pairwise {π : Type} (d : Digest) (hd : Function.Injective d.hex)
    (space : OutcomeSpace π) (masks : List Mask)
    (hscope : ∀ mask ∈ masks, mask.scope = space.scope) :
    ∃ claims relations implied, deriveClaims d masks space = .ok claims ∧
      deriveClaimAlgebra claims true = .ok relations ∧
      impliedMarketRelations [⟨claims, relations⟩] = .ok implied ∧
      implied.Nodup ∧ ∀ relation, relation ∈ implied ↔ MarketRelation masks space relation := by
  refine ⟨_, _, _, deriveClaims_eq, deriveClaimAlgebra_eq hd, impliedMarketRelations_eq hd,
    List.nodup_dedup _, ?_⟩
  intro relation
  rw [List.mem_dedup, mem_impliedPairs hd]
  constructor
  · intro ⟨a, ha, b, hb, hstored, hmember⟩
    exact memberPair_eq hscope ha hb hstored hmember
  · intro h
    exact exists_memberPair hscope h

/-! A digest without collisions: the value spelt in numbers, and the numbers counted out. -/

def textCodes (text : String) : List Nat := text.toList.map Char.toNat

def scopeCode : Scope → Nat
  | .regulationFulltime => 0
  | .firstHalf => 1
  | .series => 2

def digestedCodes : Digested → List (List Nat)
  | .claim version shape keys => [0] :: [version] :: textCodes shape :: keys.map textCodes
  | .shape version scope keys => [1] :: [version] :: [scopeCode scope] :: keys.map textCodes

theorem textCodes_injective : Function.Injective textCodes := by
  intro a b h
  have hchar : Function.Injective Char.toNat := fun c c' hc => Char.toNat_inj.mp hc
  exact String.toList_injective (List.map_injective_iff.mpr hchar h)

theorem digestedCodes_injective : Function.Injective digestedCodes := by
  intro a b h
  have hkeys := List.map_injective_iff.mpr textCodes_injective
  cases a with
  | claim version shape keys =>
    cases b with
    | claim version' shape' keys' =>
      simp only [digestedCodes, List.cons.injEq, and_true, true_and] at h
      rw [h.1, textCodes_injective h.2.1, hkeys h.2.2]
    | shape version' scope' keys' => simp [digestedCodes] at h
  | shape version scope keys =>
    cases b with
    | claim version' shape' keys' => simp [digestedCodes] at h
    | shape version' scope' keys' =>
      simp only [digestedCodes, List.cons.injEq, and_true, true_and] at h
      have hscope : scope = scope' := by
        have hcode := h.2.1
        cases scope <;> cases scope' <;> simp_all [scopeCode]
      rw [h.1, hscope, hkeys h.2.2]

/-- As many zeros as the value's number, and one more. -/
def unaryHex (value : Digested) : String :=
  String.ofList (List.replicate (Encodable.encode (digestedCodes value) + 1) '0')

theorem unaryHex_ne_empty (value : Digested) : unaryHex value ≠ "" := by
  intro h
  have hlist := congrArg String.toList h
  simp [unaryHex, List.replicate_succ] at hlist

def unaryDigest : Digest := ⟨unaryHex, unaryHex_ne_empty⟩

theorem unaryDigest_injective : Function.Injective unaryDigest.hex := by
  intro a b h
  have hlength := congrArg List.length (congrArg String.toList h)
  simp only [unaryDigest, unaryHex, String.toList_ofList, List.length_replicate, Nat.add_right_cancel_iff]
    at hlength
  exact digestedCodes_injective (Encodable.encode_injective hlength)

/-- A winner at one venue and two of three outcomes at another. -/
theorem implied_eq_pairwise_two_venues :
    ∃ claims relations implied,
      deriveClaims unaryDigest
        [⟨"kalshi:a", "kalshi", .series, .derivable, {"seq:H"}⟩,
          ⟨"polymarket:b", "polymarket", .series, .derivable, {"seq:H", "seq:AH"}⟩]
        (⟨"m", .series, [⟨"seq:H", ()⟩, ⟨"seq:AH", ()⟩, ⟨"seq:AA", ()⟩], .exhaustive, "PARI", "TY"⟩ :
          OutcomeSpace Unit) = .ok claims ∧
      deriveClaimAlgebra claims true = .ok relations ∧
      impliedMarketRelations [⟨claims, relations⟩] = .ok implied ∧
      implied.Nodup ∧ ∀ relation, relation ∈ implied ↔ MarketRelation
        [⟨"kalshi:a", "kalshi", .series, .derivable, {"seq:H"}⟩,
          ⟨"polymarket:b", "polymarket", .series, .derivable, {"seq:H", "seq:AH"}⟩]
        (⟨"m", .series, [⟨"seq:H", ()⟩, ⟨"seq:AH", ()⟩, ⟨"seq:AA", ()⟩], .exhaustive, "PARI", "TY"⟩ :
          OutcomeSpace Unit) relation :=
  implied_eq_pairwise unaryDigest unaryDigest_injective _ _ (by decide)

end PredictionIndexer.Analysis
