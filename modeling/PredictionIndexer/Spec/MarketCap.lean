import PredictionIndexer.Targeter.Relationships

/-!
# The market cap

The cap order is gone through once, and every market that is taken has a partner among those that
are (`Paired`). The relationships are derived once more without the dropped markets. A mask depends
on its own market only, and a dropped market is never behind the key of a kept one, since a base ID
is a base ID of itself: so every relationship between kept markets is found again.

## Key results

- `market_cap_exact`: the cap strands no market, and the second derivation excludes none
-/

namespace PredictionIndexer.Targeter

open Analysis Fallible

/-! ## Base IDs -/

section Base

variable {c : Char} {rest : List Char}

/-- A marker whose first character does not come again cannot begin inside a text and end behind it,
    where the marker follows. -/
theorem marker_prefix_append (hc : c ∉ rest) {s t : List Char} (hs : s ≠ []) :
    c :: rest <+: s ++ (c :: rest ++ t) ↔ c :: rest <+: s := by
  constructor
  · intro h
    by_cases hlength : (c :: rest).length ≤ s.length
    · exact List.prefix_of_prefix_length_le h (List.prefix_append _ _) hlength
    · exfalso
      have hshort : s <+: c :: rest :=
        List.prefix_of_prefix_length_le (List.prefix_append _ _) h (by omega)
      obtain ⟨tail, htail⟩ := hshort
      obtain ⟨d, s, rfl⟩ := List.exists_cons_of_ne_nil hs
      have hlen := congrArg List.length htail
      have hne : tail ≠ [] := by
        intro hnil
        subst hnil
        simp only [List.length_append, List.length_nil, List.length_cons] at hlen hlength
        omega
      obtain ⟨e, tail, rfl⟩ := List.exists_cons_of_ne_nil hne
      rw [← htail, List.prefix_append_right_inj] at h
      -- what is left of the marker begins as the marker that follows does
      have he : e = c := by
        rw [htail, List.cons_append, List.cons_prefix_cons] at h
        exact h.1
      rw [List.cons_append, List.cons.injEq] at htail
      exact hc (he ▸ htail.2 ▸ List.mem_append_right _ List.mem_cons_self)
  · exact fun h => h.trans (List.prefix_append _ _)

theorem beforeMarker_append (hc : c ∉ rest) (s t : List Char) :
    beforeMarker (c :: rest) (s ++ (c :: rest ++ t)) = beforeMarker (c :: rest) s := by
  induction s with
  | nil =>
    have hhead : c :: rest <+: c :: (rest ++ t) := List.prefix_append (c :: rest) t
    exact if_pos hhead
  | cons d s ih =>
    have hiff := @marker_prefix_append c rest hc (d :: s) t (List.cons_ne_nil d s)
    rw [List.cons_append] at hiff ⊢
    rw [beforeMarker, beforeMarker, ih]
    exact if_congr hiff rfl rfl

/-- There is no marker in what stands before the first. -/
theorem beforeMarker_idem (marker s : List Char) :
    beforeMarker marker (beforeMarker marker s) = beforeMarker marker s := by
  induction s with
  | nil => rfl
  | cons d s ih =>
    have hprefix : beforeMarker marker s <+: s := by
      clear ih
      induction s with
      | nil => exact List.prefix_refl _
      | cons e s ih =>
        rw [beforeMarker]
        split
        · exact List.nil_prefix
        · exact List.cons_prefix_cons.mpr ⟨rfl, ih⟩
    by_cases hmarker : marker <+: d :: s
    · rw [beforeMarker, if_pos hmarker]
      rfl
    · have hnot : ¬ marker <+: d :: beforeMarker marker s := fun h =>
        hmarker (h.trans (List.cons_prefix_cons.mpr ⟨rfl, hprefix⟩))
      rw [beforeMarker, if_neg hmarker, beforeMarker, if_neg hnot, ih]

end Base

/-- A claim's base ID is that of its market. -/
theorem baseMarketId_claimKey (targetId : String) (index : Nat) :
    baseMarketId (claimKey targetId index) = baseMarketId targetId := by
  have hmarker : claimMarker = '#' :: "claim=".toList := by decide
  have hkey : (claimKey targetId index).toList =
      targetId.toList ++ ('#' :: "claim=".toList ++ (toString index).toList) := by
    rw [claimKey, String.toList_append, String.toList_append, List.append_assoc, ← hmarker]
    rfl
  rw [baseMarketId, baseMarketId, hkey, hmarker, beforeMarker_append (by decide)]

theorem baseMarketId_idem (claimId : String) :
    baseMarketId (baseMarketId claimId) = baseMarketId claimId := by
  rw [baseMarketId, baseMarketId, String.toList_ofList, beforeMarker_idem]

/-! ## Partners -/

/-- A cross-venue relationship connects the two. -/
def CrossPartners (crossRelationships : List Relationship) (a b : String) : Prop :=
  ∃ item ∈ crossRelationships, (baseMarketId item.left = a ∧ baseMarketId item.right = b) ∨
    (baseMarketId item.left = b ∧ baseMarketId item.right = a)

section Partners

variable {ordered : List String} {cross : List Relationship} {a b : String}

theorem mem_partnersOf : b ∈ partnersOf ordered cross a ↔
    a ≠ b ∧ a ∈ ordered ∧ b ∈ ordered ∧ CrossPartners cross a b := by
  have hfold (items : List Relationship) (start : String → Finset String) :
      b ∈ items.foldl (fun partners item =>
        let left := baseMarketId item.left
        let right := baseMarketId item.right
        if left ≠ right ∧ left ∈ ordered ∧ right ∈ ordered then
          let partners := Function.update partners left (insert right (partners left))
          Function.update partners right (insert left (partners right))
        else partners) start a ↔
      b ∈ start a ∨ (a ≠ b ∧ a ∈ ordered ∧ b ∈ ordered ∧ CrossPartners items a b) := by
    induction items generalizing start with
    | nil => simp [CrossPartners]
    | cons item items ih =>
      rw [List.foldl_cons, ih]
      have hcons : CrossPartners (item :: items) a b ↔
          ((baseMarketId item.left = a ∧ baseMarketId item.right = b) ∨
            (baseMarketId item.left = b ∧ baseMarketId item.right = a)) ∨
          CrossPartners items a b := by simp [CrossPartners]
      rw [hcons]
      generalize baseMarketId item.left = left
      generalize baseMarketId item.right = right
      simp only
      split
      · rename_i hnew
        obtain ⟨hne, hleft, hright⟩ := hnew
        have hstep : b ∈ Function.update (Function.update start left (insert right (start left)))
            right (insert left (Function.update start left (insert right (start left)) right)) a ↔
            b ∈ start a ∨ (left = a ∧ right = b) ∨ (left = b ∧ right = a) := by
          by_cases har : a = right
          · subst har
            rw [Function.update_self, Function.update_of_ne hne.symm, Finset.mem_insert]
            grind
          · by_cases hal : a = left
            · subst hal
              rw [Function.update_of_ne har, Function.update_self, Finset.mem_insert]
              grind
            · rw [Function.update_of_ne har, Function.update_of_ne hal]
              grind
        rw [hstep]
        grind
      · grind
  exact (hfold cross _).trans (by simp)

theorem partnersOf_symm (h : b ∈ partnersOf ordered cross a) : a ∈ partnersOf ordered cross b := by
  obtain ⟨hne, ha, hb, item, hitem, hends⟩ := mem_partnersOf.mp h
  exact mem_partnersOf.mpr ⟨hne.symm, hb, ha, item, hitem, hends.symm⟩

end Partners

/-! ## The loop -/

/-- Few enough ordered markets, each with a partner among them. -/
structure Paired (cap : Nat) (ordered : List String) (partners : String → Finset String)
    (kept : Finset String) : Prop where
  bounded : kept.card ≤ cap
  listed : ∀ id ∈ kept, id ∈ ordered
  partnered : ∀ id ∈ kept, ∃ other ∈ kept, other ∈ partners id

section Loop

variable {cap : Nat} {ordered : List String} {partners : String → Finset String}
  {kept : Finset String} {marketId : String} {rest : List String}

/-- Nothing is taken behind the cap. -/
theorem capLoop_full (hfull : cap ≤ kept.card) (rest : List String) :
    capLoop cap ordered partners rest kept = kept := by
  cases rest with
  | nil => rfl
  | cons marketId rest => rw [capLoop, if_pos hfull]

/-- The next market leaves what is kept, joins it, or brings its first partner. -/
theorem capLoop_cases (marketId : String) (rest : List String) :
    (capLoop cap ordered partners (marketId :: rest) kept = capLoop cap ordered partners rest kept ∧
      (marketId ∈ kept ∨ cap ≤ kept.card ∨
        partners marketId ∩ kept = ∅ ∧
          ∀ other ∈ ordered, other ∈ partners marketId → cap < kept.card + 2)) ∨
    (kept.card < cap ∧ partners marketId ∩ kept ≠ ∅ ∧
      capLoop cap ordered partners (marketId :: rest) kept =
        capLoop cap ordered partners rest (insert marketId kept)) ∨
    ∃ partner ∈ partners marketId, partner ∈ ordered ∧ kept.card + 2 ≤ cap ∧
      capLoop cap ordered partners (marketId :: rest) kept =
        capLoop cap ordered partners rest (insert partner (insert marketId kept)) := by
  rw [capLoop]
  by_cases hfull : cap ≤ kept.card
  · rw [if_pos hfull, capLoop_full hfull]
    exact .inl ⟨rfl, .inr (.inl hfull)⟩
  rw [if_neg hfull]
  by_cases hmem : marketId ∈ kept
  · rw [if_pos hmem]
    exact .inl ⟨rfl, .inl hmem⟩
  rw [if_neg hmem]
  by_cases hpartner : partners marketId ∩ kept = ∅
  · rw [if_neg (not_not.mpr hpartner)]
    cases hfind : ordered.find? fun other => other ∈ partners marketId ∧ other ∉ kept with
    | none =>
      refine .inl ⟨rfl, .inr (.inr ⟨hpartner, fun other hother hmem => ?_⟩)⟩
      have hnot := List.find?_eq_none.mp hfind other hother
      have hkept : other ∈ kept := by
        by_contra hno
        exact hnot (decide_eq_true ⟨hmem, hno⟩)
      have hinter := Finset.mem_inter.mpr ⟨hmem, hkept⟩
      rw [hpartner] at hinter
      exact absurd hinter (Finset.notMem_empty _)
    | some partner =>
      have hpartner' := List.find?_some hfind
      rw [decide_eq_true_iff] at hpartner'
      simp only
      split
      · rename_i hroom
        exact .inr (.inr ⟨partner, hpartner'.1, List.mem_of_find?_eq_some hfind, hroom, rfl⟩)
      · rename_i hroom
        exact .inl ⟨rfl, .inr (.inr ⟨hpartner, fun _ _ _ => by omega⟩)⟩
  · rw [if_pos hpartner]
    exact .inr (.inl ⟨by omega, hpartner, rfl⟩)

theorem subset_capLoop (rest : List String) (kept : Finset String) :
    kept ⊆ capLoop cap ordered partners rest kept := by
  induction rest generalizing kept with
  | nil => exact Finset.Subset.refl _
  | cons marketId rest ih =>
    rcases @capLoop_cases cap ordered partners kept marketId rest with
      ⟨heq, -⟩ | ⟨-, -, heq⟩ | ⟨partner, -, -, -, heq⟩
    · rw [heq]
      exact ih kept
    · rw [heq]
      exact (Finset.subset_insert _ _).trans (ih _)
    · rw [heq]
      exact ((Finset.subset_insert _ _).trans (Finset.subset_insert _ _)).trans (ih _)

theorem capLoop_append (pre post : List String) (kept : Finset String) :
    capLoop cap ordered partners (pre ++ post) kept =
      capLoop cap ordered partners post (capLoop cap ordered partners pre kept) := by
  induction pre generalizing kept with
  | nil => rfl
  | cons marketId pre ih =>
    by_cases hfull : cap ≤ kept.card
    · rw [capLoop_full hfull, capLoop_full hfull, capLoop_full hfull]
    · rw [List.cons_append, capLoop, capLoop, if_neg hfull, if_neg hfull]
      split
      · exact ih _
      · split
        · exact ih _
        · split
          · split
            · exact ih _
            · exact ih _
          · exact ih _

/-- Every round keeps the markets paired. -/
theorem Paired.capLoop (hsymm : ∀ a b, b ∈ partners a → a ∈ partners b)
    {rest : List String} (hrest : ∀ id ∈ rest, id ∈ ordered)
    (h : Paired cap ordered partners kept) :
    Paired cap ordered partners (capLoop cap ordered partners rest kept) := by
  induction rest generalizing kept with
  | nil => exact h
  | cons marketId rest ih =>
    have hnext := hrest marketId List.mem_cons_self
    have hrest := fun id hid => hrest id (List.mem_cons_of_mem marketId hid)
    rcases @capLoop_cases cap ordered partners kept marketId rest with
      ⟨heq, -⟩ | ⟨hroom, hpartner, heq⟩ | ⟨partner, hpartner, hlisted, hroom, heq⟩
    · rw [heq]
      exact ih hrest h
    · rw [heq]
      obtain ⟨other, hother⟩ := Finset.nonempty_of_ne_empty hpartner
      obtain ⟨hother, hkept⟩ := Finset.mem_inter.mp hother
      refine ih hrest ⟨?_, ?_, ?_⟩
      · have := Finset.card_insert_le marketId kept
        omega
      · intro id hid
        rcases Finset.mem_insert.mp hid with rfl | hid
        · exact hnext
        · exact h.listed id hid
      · intro id hid
        rcases Finset.mem_insert.mp hid with rfl | hid
        · exact ⟨other, Finset.mem_insert_of_mem hkept, hother⟩
        · obtain ⟨mate, hmate, hmem⟩ := h.partnered id hid
          exact ⟨mate, Finset.mem_insert_of_mem hmate, hmem⟩
    · rw [heq]
      refine ih hrest ⟨?_, ?_, ?_⟩
      · have hfirst := Finset.card_insert_le partner (insert marketId kept)
        have hsecond := Finset.card_insert_le marketId kept
        omega
      · intro id hid
        rcases Finset.mem_insert.mp hid with rfl | hid
        · exact hlisted
        · rcases Finset.mem_insert.mp hid with rfl | hid
          · exact hnext
          · exact h.listed id hid
      · intro id hid
        rcases Finset.mem_insert.mp hid with rfl | hid
        · exact ⟨marketId, by simp, hsymm _ _ hpartner⟩
        · rcases Finset.mem_insert.mp hid with rfl | hid
          · exact ⟨partner, by simp, hpartner⟩
          · obtain ⟨mate, hmate, hmem⟩ := h.partnered id hid
            exact ⟨mate, by simp [hmate], hmem⟩

/-- A market that is not taken had no partner among those taken before, and no room for a pair. -/
theorem skipped_at_turn {post : List String}
    (hnot : marketId ∉ capLoop cap ordered partners (marketId :: post) kept) :
    cap ≤ kept.card ∨ partners marketId ∩ kept = ∅ ∧
      ∀ other ∈ ordered, other ∈ partners marketId → cap < kept.card + 2 := by
  have hsub := @subset_capLoop cap ordered partners post
  rcases @capLoop_cases cap ordered partners kept marketId post with
    ⟨heq, hmem | h⟩ | ⟨-, -, heq⟩ | ⟨partner, -, -, -, heq⟩
  · exact absurd (heq ▸ hsub kept hmem) hnot
  · exact h
  · exact absurd (heq ▸ hsub _ (Finset.mem_insert_self _ _)) hnot
  · exact absurd (heq ▸ hsub _ (by simp)) hnot

end Loop

/-! ## Fewer markets -/

section Derivation

variable {τ π : Type} {m : MarketSemantics τ π} {bundle : EventBundle τ} {space : OutcomeSpace π}

/-- What one market contributes has keys that extend its ID. -/
theorem marketMasks_spec {market : BundleMarket τ}
    {result : BundleMarket τ × List Mask × Option String}
    (h : marketMasks m bundle space market = .ok result) :
    result.1 = market ∧ ∀ mask ∈ result.2.1, ∃ n, mask.marketKey = claimKey market.targetId n := by
  have hkeys (claims : List CompiledClaim) :
      ∀ mask ∈ claims.map (·.mask market.targetId), ∃ n, mask.marketKey = claimKey market.targetId n := by
    intro mask hmask
    obtain ⟨claim, -, rfl⟩ := List.mem_map.mp hmask
    exact ⟨claim.index, rfl⟩
  unfold marketMasks at h
  split at h
  · cases h
    exact ⟨rfl, fun _ hmask => absurd hmask List.not_mem_nil⟩
  · split at h
    · obtain ⟨⟨claims, reason⟩, -, h⟩ := Except.bind_eq_ok.mp h
      cases h
      exact ⟨rfl, hkeys claims⟩
    · obtain ⟨claims, -, h⟩ := Except.bind_eq_ok.mp h
      cases h
      exact ⟨rfl, hkeys claims⟩

variable {excluded dropped : String → Bool}

/-- Without some more markets the others contribute what they did. -/
theorem marketScopeMasks_drop {results : List (BundleMarket τ × List Mask × Option String)}
    (h : marketScopeMasks m bundle space excluded = .ok results) :
    marketScopeMasks m bundle space (fun id => excluded id || dropped id) =
      .ok (results.filter fun r => !dropped r.1.targetId) := by
  unfold marketScopeMasks at h ⊢
  rw [Except.mapM_eq_ok_iff] at h ⊢
  have hfilter : (bundle.markets.filter fun market =>
      !(excluded market.targetId || dropped market.targetId)) =
      (bundle.markets.filter fun market => !excluded market.targetId).filter
        fun market => !dropped market.targetId := by
    rw [List.filter_filter]
    refine List.filter_congr fun market _ => ?_
    rw [Bool.not_or, Bool.and_comm]
  rw [hfilter]
  refine List.rel_filter ?_ h
  intro market result hresult
  have hsame : result.1 = market := (marketMasks_spec hresult).1
  show (!dropped market.targetId) = true ↔ (!dropped result.1.targetId) = true
  rw [hsame]

/-- The masks with the markets they are of. -/
def tagged (results : List (BundleMarket τ × List Mask × Option String)) :
    List (BundleMarket τ × Mask) :=
  results.flatMap fun r => r.2.1.map fun mask => (r.1, mask)

theorem tagged_masks (results : List (BundleMarket τ × List Mask × Option String)) :
    (tagged results).map Prod.snd = results.flatMap (·.2.1) := by
  simp [tagged, List.map_flatMap, Function.comp_def]

theorem tagged_filter (p : BundleMarket τ → Bool)
    (results : List (BundleMarket τ × List Mask × Option String)) :
    tagged (results.filter fun r => p r.1) = (tagged results).filter fun t => p t.1 := by
  induction results with
  | nil => rfl
  | cons r results ih =>
    have hcons : tagged (r :: results) = r.2.1.map (fun mask => (r.1, mask)) ++ tagged results := rfl
    rw [hcons, List.filter_append, ← ih, List.filter_map]
    by_cases hr : p r.1 = true
    · simp [tagged, Function.comp_def, hr]
    · simp [Function.comp_def, hr]

/-- The relationships of a space's masks. -/
def relationshipsOn (bundleId : String) (space : OutcomeSpace π) (masks : List Mask) :
    List Relationship :=
  (usable space masks).pairs.filterMap (related bundleId space)

/-- Their masks may be tagged. -/
theorem relationshipsOn_tagged (bundleId : String) (l : List (BundleMarket τ × Mask)) :
    relationshipsOn bundleId space (l.map Prod.snd) =
      (l.filter fun t => t.2.derivable && 0 < t.2.outcomeKeys.card &&
          t.2.outcomeKeys.card < space.outcomes.length).pairs.filterMap fun pair =>
        related bundleId space (pair.1.2, pair.2.2) := by
  rw [relationshipsOn, usable, List.filter_map, List.pairs_map, List.filterMap_map]
  rfl

/-- A relationship comes from a mask of one market and a mask of another. -/
def Behind (item : Relationship) (a b : String) : Prop :=
  baseMarketId item.left = baseMarketId a ∧ baseMarketId item.right = baseMarketId b

/-- On one space, a relationship is found again unless one of its two markets is dropped. -/
theorem relationshipsOn_drop {masks : List Mask}
    (h : scopeMasks m bundle space excluded = .ok masks) :
    ∃ masks', scopeMasks m bundle space (fun id => excluded id || dropped id) = .ok masks' ∧
      ∀ item ∈ relationshipsOn bundle.bundleId space masks, ∃ a b, Behind item a b ∧
        (dropped a = false → dropped b = false →
          item ∈ relationshipsOn bundle.bundleId space masks') := by
  unfold scopeMasks at h ⊢
  obtain ⟨results, hresults, h⟩ := Except.bind_eq_ok.mp h
  cases h
  rw [marketScopeMasks_drop hresults, Except.ok_bind]
  refine ⟨_, rfl, ?_⟩
  have hrest := @relationshipsOn_tagged τ π space bundle.bundleId
    ((tagged results).filter fun t => !dropped t.1.targetId)
  rw [List.filter_comm, List.pairs_filter] at hrest
  rw [← tagged_masks, ← tagged_masks, tagged_filter fun market => !dropped market.targetId, hrest,
    relationshipsOn_tagged]
  intro item hitem
  obtain ⟨pair, hpair, hrelated⟩ := List.mem_filterMap.mp hitem
  have hkey {t : BundleMarket τ × Mask} (ht : t ∈ tagged results) :
      ∃ n, t.2.marketKey = claimKey t.1.targetId n := by
    obtain ⟨r, hr, ht⟩ := List.mem_flatMap.mp ht
    obtain ⟨mask, hmask, rfl⟩ := List.mem_map.mp ht
    obtain ⟨market, hmarket, hr⟩ := (Except.mapM_eq_ok_iff.mp hresults).exists_of_mem_right hr
    have hspec := marketMasks_spec hr
    rw [hspec.1]
    exact hspec.2 mask hmask
  obtain ⟨hleft, hright, -⟩ :=
    List.mem_pairs_of_pairwise (List.pairwise_of_forall fun _ _ => trivial) hpair
  obtain ⟨first, hfirst⟩ := hkey (List.mem_filter.mp hleft).1
  obtain ⟨second, hsecond⟩ := hkey (List.mem_filter.mp hright).1
  refine ⟨pair.1.1.targetId, pair.2.1.targetId, ?_, fun ha hb => ?_⟩
  · obtain ⟨kind, -, hitem⟩ := Option.map_eq_some_iff.mp hrelated
    rw [Behind, ← hitem, hfirst, hsecond, baseMarketId_claimKey, baseMarketId_claimKey]
    exact ⟨rfl, rfl⟩
  · refine List.mem_filterMap.mpr ⟨pair, List.mem_filter.mpr ⟨hpair, ?_⟩, hrelated⟩
    rw [ha, hb]
    rfl

/-- The relationships of a bundle, space by space. -/
theorem deriveBundleRelationships_eq_ok {relationships : List Relationship} :
    deriveBundleRelationships m bundle excluded = .ok relationships ↔
      ∃ found, List.Forall₂ (fun space items => ∃ masks,
          scopeMasks m bundle space excluded = .ok masks ∧
            relationshipsOn bundle.bundleId space masks = items) (m.spaces bundle) found ∧
        relationships = found.flatten.sortByKey fun item =>
          toLex (scopeName item.scope, toLex (item.left, item.right)) := by
  unfold deriveBundleRelationships
  rw [Except.bind_eq_ok]
  simp only [Except.mapM_eq_ok_iff, Except.bind_eq_ok, pure, Except.pure, Except.ok.injEq,
    relationshipsOn, @eq_comm _ _ relationships]

/-- A relationship is found again unless one of its two markets is dropped. -/
theorem deriveBundleRelationships_drop {relationships : List Relationship}
    (h : deriveBundleRelationships m bundle excluded = .ok relationships) :
    ∃ relationships', deriveBundleRelationships m bundle (fun id => excluded id || dropped id) =
        .ok relationships' ∧
      ∀ item ∈ relationships, ∃ a b, Behind item a b ∧
        (dropped a = false → dropped b = false → item ∈ relationships') := by
  obtain ⟨found, hfound, rfl⟩ := deriveBundleRelationships_eq_ok.mp h
  have hstep {spaces : List (OutcomeSpace π)} {found : List (List Relationship)}
      (hfound : List.Forall₂ (fun space items => ∃ masks,
        scopeMasks m bundle space excluded = .ok masks ∧
          relationshipsOn bundle.bundleId space masks = items) spaces found) :
      ∃ found', List.Forall₂ (fun space items => ∃ masks,
          scopeMasks m bundle space (fun id => excluded id || dropped id) = .ok masks ∧
            relationshipsOn bundle.bundleId space masks = items) spaces found' ∧
        ∀ item ∈ found.flatten, ∃ a b, Behind item a b ∧
          (dropped a = false → dropped b = false → item ∈ found'.flatten) := by
    induction hfound with
    | nil => exact ⟨[], List.Forall₂.nil, fun _ h => absurd h List.not_mem_nil⟩
    | cons hhead _ ih =>
      obtain ⟨masks, hmasks, rfl⟩ := hhead
      obtain ⟨masks', hmasks', hitems⟩ := @relationshipsOn_drop _ _ m bundle _ excluded dropped _ hmasks
      obtain ⟨found', hfound', hrest⟩ := ih
      refine ⟨_, List.Forall₂.cons ⟨masks', hmasks', rfl⟩ hfound', fun item hitem => ?_⟩
      rw [List.flatten_cons, List.mem_append] at hitem
      rcases hitem with hitem | hitem
      · obtain ⟨a, b, hbehind, hkeep⟩ := hitems item hitem
        exact ⟨a, b, hbehind, fun ha hb => by simp [hkeep ha hb]⟩
      · obtain ⟨a, b, hbehind, hkeep⟩ := hrest item hitem
        exact ⟨a, b, hbehind, fun ha hb => by
          rw [List.flatten_cons]
          exact List.mem_append_right _ (hkeep ha hb)⟩
  obtain ⟨found', hfound', hitems⟩ := hstep hfound
  refine ⟨_, deriveBundleRelationships_eq_ok.mpr ⟨found', hfound', rfl⟩, fun item hitem => ?_⟩
  obtain ⟨a, b, hbehind, hkeep⟩ := hitems item ((List.sortByKey_perm _ _).mem_iff.mp hitem)
  exact ⟨a, b, hbehind, fun ha hb => (List.sortByKey_perm _ _).mem_iff.mpr (hkeep ha hb)⟩

end Derivation

/-! ## What the cap keeps -/

section Kept

variable {τ : Type} (s : MarketLimits) (markets : List (BundleMarket τ))
  (cross : List Relationship) (cap : Nat)

/-- What is taken before a turn in the cap order. -/
def takenBefore (pre : List String) : Finset String :=
  capLoop cap (capOrder s markets) (partnersOf (capOrder s markets) cross) pre ∅

/-- The cap keeps few enough markets, each with a partner, and skips none that had one or had room
    for a pair. -/
structure CapKept : Prop where
  bounded : (cappedMarkets s markets cross cap).card ≤ cap
  listed : ∀ id ∈ cappedMarkets s markets cross cap, ∃ market ∈ markets, market.targetId = id
  partnered : ∀ id ∈ cappedMarkets s markets cross cap,
    ∃ other ∈ cappedMarkets s markets cross cap, id ≠ other ∧ CrossPartners cross id other
  greedy : ∀ pre id post, capOrder s markets = pre ++ id :: post →
    id ∉ cappedMarkets s markets cross cap →
      cap ≤ (takenBefore s markets cross cap pre).card ∨
        (∀ other ∈ takenBefore s markets cross cap pre, ¬ CrossPartners cross id other) ∧
        ∀ other ∈ capOrder s markets, id ≠ other → CrossPartners cross id other →
          cap < (takenBefore s markets cross cap pre).card + 2
  prior : ∀ pre post, capOrder s markets = pre ++ post →
    takenBefore s markets cross cap pre ⊆ cappedMarkets s markets cross cap

theorem paired_start (ordered : List String) (partners : String → Finset String) :
    Paired cap ordered partners ∅ :=
  ⟨Nat.zero_le cap, fun _ h => absurd h (Finset.notMem_empty _),
    fun _ h => absurd h (Finset.notMem_empty _)⟩

theorem capKept : CapKept s markets cross cap := by
  have hpaired {rest : List String} (hrest : ∀ id ∈ rest, id ∈ capOrder s markets) :=
    (paired_start cap (capOrder s markets) (partnersOf (capOrder s markets) cross)).capLoop
      (fun _ _ => partnersOf_symm) hrest
  have hkept := hpaired fun _ h => h
  have hsplit {pre post : List String} (h : capOrder s markets = pre ++ post) :
      cappedMarkets s markets cross cap =
        capLoop cap (capOrder s markets) (partnersOf (capOrder s markets) cross) post
          (takenBefore s markets cross cap pre) := by
    have happend := @capLoop_append cap (capOrder s markets)
      (partnersOf (capOrder s markets) cross) pre post ∅
    rw [← h] at happend
    exact happend
  exact {
    bounded := hkept.bounded
    listed := fun id hid => by
      obtain ⟨market, hmarket, hmid⟩ := List.mem_map.mp (hkept.listed id hid)
      exact ⟨market, (List.sortByKey_perm _ _).mem_iff.mp hmarket, hmid⟩
    partnered := fun id hid => by
      obtain ⟨other, hother, hmem⟩ := hkept.partnered id hid
      obtain ⟨hne, -, -, hcross⟩ := mem_partnersOf.mp hmem
      exact ⟨other, hother, hne, hcross⟩
    greedy := fun pre id post horder hnot => by
      have hid : id ∈ capOrder s markets := by simp [horder]
      have hfront := hpaired fun other (h : other ∈ pre) => by simp [horder, h]
      rw [hsplit horder] at hnot
      rcases skipped_at_turn hnot with hfull | ⟨hnone, hroom⟩
      · exact .inl hfull
      · refine .inr ⟨fun other hother hcross => ?_, fun other hother hne hcross => ?_⟩
        · have hne : id ≠ other := fun heq =>
            hnot (subset_capLoop _ _ (heq ▸ hother))
          have hmem := mem_partnersOf.mpr ⟨hne, hid, hfront.listed other hother, hcross⟩
          have hinter := Finset.mem_inter.mpr ⟨hmem, hother⟩
          rw [hnone] at hinter
          exact Finset.notMem_empty _ hinter
        · exact hroom other hother (mem_partnersOf.mpr ⟨hne, hid, hother, hcross⟩)
    prior := fun pre post horder => by
      rw [hsplit horder]
      exact subset_capLoop _ _ }

end Kept

/-! ## The second derivation -/

/-- Other markets' reasons leave an entry. -/
theorem appendAll_of_notMem {τ : Type} {exclusions : Exclusions} {reason id : String}
    {markets : List (BundleMarket τ)} (h : ∀ market ∈ markets, market.targetId ≠ id) :
    exclusions.appendAll reason markets id = exclusions id := by
  induction markets generalizing exclusions with
  | nil => rfl
  | cons market markets ih =>
    refine (ih fun other hother => h other (List.mem_cons_of_mem _ hother)).trans ?_
    exact Function.update_of_ne (h market List.mem_cons_self).symm _ _

theorem mem_relationshipMarketIds {cross : List Relationship} {id : String} :
    id ∈ relationshipMarketIds cross ↔
      ∃ item ∈ cross, id = baseMarketId item.left ∨ id = baseMarketId item.right := by
  simp [relationshipMarketIds]

section Candidate

variable {τ π : Type} (m : MarketSemantics τ π) (s : MarketLimits) (bundle : EventBundle τ)
  (exclusions : Exclusions)

/-- The participants before the cap. -/
def firstPass : Except Raised (ScopedMarkets τ) :=
  participants m bundle (classScope s bundle exclusions).1
    (fun id => ((classScope s bundle exclusions).2 id).isSome) (classScope s bundle exclusions).2

theorem participants_eq_ok {trusted : List (BundleMarket τ)} {excluded : String → Bool}
    {result : ScopedMarkets τ} :
    participants m bundle trusted excluded exclusions = .ok result ↔
      ∃ relationships, deriveBundleRelationships m bundle excluded = .ok relationships ∧
        result = ⟨(relationshipParticipants trusted (crossRelationships relationships) exclusions).1,
          crossRelationships relationships,
          (relationshipParticipants trusted (crossRelationships relationships) exclusions).2⟩ := by
  unfold participants
  rw [Except.bind_eq_ok]
  simp only [pure, Except.pure, Except.ok.injEq, @eq_comm _ _ result]

/-- No dropped market is behind a relationship of two kept ones: an ID that takes part is its own
    base ID. -/
theorem not_dropped {markets : List (BundleMarket τ)} {cross : List Relationship}
    {kept : Finset String} (hmarkets : ∀ market ∈ markets,
      market.targetId ∈ relationshipMarketIds cross) {a : String} (ha : baseMarketId a ∈ kept) :
    (markets.filter (·.targetId ∉ kept)).any (·.targetId = a) = false := by
  rw [List.any_eq_false]
  intro market hmarket heq
  obtain ⟨hmarket, hnot⟩ := List.mem_filter.mp hmarket
  have hid : market.targetId = a := of_decide_eq_true heq
  obtain ⟨item, -, hbase⟩ := mem_relationshipMarketIds.mp (hmarkets market hmarket)
  have hself : baseMarketId a = a := by
    rw [← hid]
    rcases hbase with hbase | hbase
    · rw [hbase, baseMarketId_idem]
    · rw [hbase, baseMarketId_idem]
  rw [hself, ← hid] at ha
  exact of_decide_eq_true hnot ha

/-- The kept markets take part in the relationships derived without the dropped ones. -/
theorem kept_takes_part {markets : List (BundleMarket τ)}
    {relationships relationships' : List Relationship} {kept : Finset String}
    (hmarkets : ∀ market ∈ markets,
      market.targetId ∈ relationshipMarketIds (crossRelationships relationships))
    (hpartnered : ∀ id ∈ kept, ∃ other ∈ kept,
      id ≠ other ∧ CrossPartners (crossRelationships relationships) id other)
    (hagain : ∀ item ∈ relationships, ∃ a b, Behind item a b ∧
      ((markets.filter (·.targetId ∉ kept)).any (·.targetId = a) = false →
        (markets.filter (·.targetId ∉ kept)).any (·.targetId = b) = false →
          item ∈ relationships')) {id : String} (hid : id ∈ kept) :
    id ∈ relationshipMarketIds (crossRelationships relationships') := by
  obtain ⟨other, hother, -, item, hitem, hends⟩ := hpartnered id hid
  obtain ⟨hitem, hcross⟩ := List.mem_filter.mp hitem
  obtain ⟨a, b, ⟨hleft, hright⟩, hkeep⟩ := hagain item hitem
  have hkept : baseMarketId item.left ∈ kept ∧ baseMarketId item.right ∈ kept := by
    rcases hends with ⟨hl, hr⟩ | ⟨hl, hr⟩
    · rw [hl, hr]
      exact ⟨hid, hother⟩
    · rw [hl, hr]
      exact ⟨hother, hid⟩
  have hagain := hkeep (not_dropped hmarkets (hleft ▸ hkept.1))
    (not_dropped hmarkets (hright ▸ hkept.2))
  refine mem_relationshipMarketIds.mpr ⟨item, List.mem_filter.mpr ⟨hagain, hcross⟩, ?_⟩
  rcases hends with ⟨hl, -⟩ | ⟨-, hr⟩
  · exact .inl hl.symm
  · exact .inr hr.symm

theorem candidateMarkets_capped {cap : Nat} (hcap : s.maximumMarketsPerBundle = some cap)
    {first : ScopedMarkets τ} (hfirst : firstPass m s bundle exclusions = .ok first)
    (hover : cap < first.markets.length) :
    candidateMarkets m s bundle exclusions = participants m bundle
      (first.markets.filter (·.targetId ∈
        cappedMarkets s first.markets first.crossRelationships cap))
      (fun id => ((classScope s bundle exclusions).2 id).isSome || (first.markets.filter
        (·.targetId ∉ cappedMarkets s first.markets first.crossRelationships cap)).any
          (·.targetId = id))
      (first.exclusions.appendAll "market_cap_per_bundle" (first.markets.filter
        (·.targetId ∉ cappedMarkets s first.markets first.crossRelationships cap))) := by
  unfold firstPass at hfirst
  simp only [candidateMarkets, hfirst, Except.ok_bind, hcap, if_neg (not_le.mpr hover)]

/-- The cap keeps every market with a partner; after the second derivation the kept markets are the
    candidate's, and the reasons of none of them have changed. -/
theorem market_cap_exact {cap : Nat} (hcap : s.maximumMarketsPerBundle = some cap)
    {first : ScopedMarkets τ} (hfirst : firstPass m s bundle exclusions = .ok first)
    (hover : cap < first.markets.length) :
    (∀ (markets : List (BundleMarket τ)) cross, CapKept s markets cross cap) ∧
      ∃ result, candidateMarkets m s bundle exclusions = .ok result ∧
        result.markets = first.markets.filter
          (·.targetId ∈ cappedMarkets s first.markets first.crossRelationships cap) ∧
        result.exclusions = first.exclusions.appendAll "market_cap_per_bundle"
          (first.markets.filter
            (·.targetId ∉ cappedMarkets s first.markets first.crossRelationships cap)) ∧
        ∀ id ∈ cappedMarkets s first.markets first.crossRelationships cap,
          result.exclusions id = (classScope s bundle exclusions).2 id := by
  refine ⟨fun markets cross => capKept s markets cross cap, ?_⟩
  have hkept := capKept s first.markets first.crossRelationships cap
  obtain ⟨relationships, hrelationships, hresult⟩ := (participants_eq_ok m bundle _).mp hfirst
  have hmarkets : ∀ market ∈ first.markets,
      market.targetId ∈ relationshipMarketIds (crossRelationships relationships) := by
    intro market hmarket
    rw [hresult] at hmarket
    exact of_decide_eq_true (List.mem_filter.mp hmarket).2
  have hcross : first.crossRelationships = crossRelationships relationships := by rw [hresult]
  have hreasons : first.exclusions = (classScope s bundle exclusions).2.appendAll
      "no_modeled_cross_venue_relationship" ((classScope s bundle exclusions).1.filter
        (·.targetId ∉ relationshipMarketIds (crossRelationships relationships))) := by
    rw [hresult]
    rfl
  have hpartnered := hkept.partnered
  rw [hcross] at hpartnered
  obtain ⟨relationships', hderive, hagain⟩ := deriveBundleRelationships_drop hrelationships
  -- what the second derivation finds still has every kept market
  have htakes : ∀ id ∈ cappedMarkets s first.markets (crossRelationships relationships) cap,
      id ∈ relationshipMarketIds (crossRelationships relationships') :=
    fun _ hid => kept_takes_part hmarkets hpartnered hagain hid
  have hall : (first.markets.filter (·.targetId ∈
      cappedMarkets s first.markets first.crossRelationships cap)).filter
        (·.targetId ∉ relationshipMarketIds (crossRelationships relationships')) = [] := by
    refine List.filter_eq_nil_iff.mpr fun market hmarket hnot => ?_
    rw [hcross] at hmarket
    exact of_decide_eq_true hnot (htakes _ (of_decide_eq_true (List.mem_filter.mp hmarket).2))
  have hsame (reasons : Exclusions) : (relationshipParticipants (first.markets.filter
      (·.targetId ∈ cappedMarkets s first.markets first.crossRelationships cap))
      (crossRelationships relationships') reasons).2 = reasons :=
    congrArg (reasons.appendAll _) hall
  rw [candidateMarkets_capped m s bundle exclusions hcap hfirst hover]
  refine ⟨_, (participants_eq_ok m bundle _).mpr ⟨relationships', ?_, rfl⟩, ?_, ?_, ?_⟩
  · rw [hcross]
    exact hderive
  · refine List.filter_eq_self.mpr fun market hmarket => decide_eq_true ?_
    rw [hcross] at hmarket
    exact htakes _ (of_decide_eq_true (List.mem_filter.mp hmarket).2)
  · exact hsame _
  · intro id hid
    have hown : ∀ market ∈ first.markets.filter
        (·.targetId ∉ cappedMarkets s first.markets first.crossRelationships cap),
        market.targetId ≠ id := by
      intro market hmarket heq
      exact of_decide_eq_true (List.mem_filter.mp hmarket).2 (heq ▸ hid)
    have hbefore : ∀ market ∈ (classScope s bundle exclusions).1.filter
        (·.targetId ∉ relationshipMarketIds (crossRelationships relationships)),
        market.targetId ≠ id := by
      intro market hmarket heq
      obtain ⟨kept, hkeptmem, hkid⟩ := hkept.listed id hid
      refine of_decide_eq_true (List.mem_filter.mp hmarket).2 ?_
      rw [heq, ← hkid]
      exact hmarkets kept hkeptmem
    refine (congrFun (hsame _) id).trans ?_
    rw [appendAll_of_notMem hown, hreasons, appendAll_of_notMem hbefore]

end Candidate

/-! ## Three equal markets -/

/-- A winner market whose masks are all the same. -/
def winnerMarket (targetId : String) (activity : ℚ) : BundleMarket String :=
  ⟨targetId, "esports.series_moneyline", "series_moneyline", "series", activity, targetId⟩

def threeMarkets : EventBundle String where
  bundleId := "bundle"
  hasGame := false
  markets := [winnerMarket "kalshi:a" 1, winnerMarket "limitless:c" 2, winnerMarket "polymarket:b" 3]

/-- Two outcomes, of which every market means the first. -/
def coin : OutcomeSpace Unit :=
  ⟨"bundle", .series, [⟨"H", ()⟩, ⟨"A", ()⟩], .exhaustive, "H", "A"⟩

def coinSemantics : MarketSemantics String Unit where
  spaces _ := [coin]
  validateEsportsMarket _ _ _ := .ok ([], none)
  compileViews _ market _ := .ok [⟨0, market.terms, .series, .derivable, {"H"}⟩]

def twoMarkets : MarketLimits := ⟨none, some 2, fun _ => 0⟩

/-- Of three equal markets the cap keeps the two most active. -/
theorem market_cap_exact_sample : ∃ first,
    firstPass coinSemantics twoMarkets threeMarkets (fun _ => none) = .ok first ∧
      ∃ result, candidateMarkets coinSemantics twoMarkets threeMarkets (fun _ => none) =
          .ok result ∧
        result.markets = first.markets.filter
          (·.targetId ∈ cappedMarkets twoMarkets first.markets first.crossRelationships 2) := by
  have hitems : deriveBundleRelationships coinSemantics threeMarkets (fun id =>
      ((classScope twoMarkets threeMarkets fun _ => none).2 id).isSome) = .ok _ :=
    deriveBundleRelationships_eq_ok.mpr ⟨_, List.Forall₂.cons ⟨_, rfl, rfl⟩ List.Forall₂.nil,
      (List.sortByKey_of_pairwise (by decide)).symm⟩
  have hfirst : firstPass coinSemantics twoMarkets threeMarkets (fun _ => none) = .ok _ :=
    (participants_eq_ok coinSemantics threeMarkets _).mpr ⟨_, hitems, rfl⟩
  obtain ⟨-, result, hresult, hmarkets, -⟩ :=
    market_cap_exact coinSemantics twoMarkets threeMarkets (fun _ => none) rfl hfirst (by decide)
  exact ⟨_, hfirst, result, hresult, hmarkets⟩

end PredictionIndexer.Targeter
