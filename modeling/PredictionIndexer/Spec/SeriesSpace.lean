import PredictionIndexer.Analysis.Masks

/-!
# Series spaces

The recursion over the maps lists the races to the majority. The keys of a space spell its plays, so
what holds of plays (each endless one begins with one, an open one goes on with either side) holds of
the outcomes, and a resolver that compares leaves nothing out between two strict comparisons.
-/

namespace PredictionIndexer.Analysis

open Fallible Race

section Sequences

variable {target homeWins awayWins : Nat} {played play : List Side} {bestOf : Int}

/-- The recursion plays the race that is left. -/
theorem seriesWalk_eq (hle : homeWins ≤ target ∧ awayWins ≤ target) :
    seriesWalk target played homeWins awayWins hle =
      (races (target - homeWins) (target - awayWins)).map (played ++ ·) := by
  obtain ⟨m, hm⟩ : ∃ m, m = target - homeWins := ⟨_, rfl⟩
  obtain ⟨n, hn⟩ : ∃ n, n = target - awayWins := ⟨_, rfl⟩
  rw [← hm, ← hn]
  induction m, n using races.induct generalizing played homeWins awayWins with
  | case1 n =>
    rw [seriesWalk, dif_pos (by omega)]
    simp [races]
  | case2 m =>
    rw [seriesWalk, dif_pos (by omega)]
    simp [races]
  | case3 m n ihhome ihaway =>
    rw [seriesWalk, dif_neg (by omega), ihhome _ (by omega) hn, ihaway _ hm (by omega), races]
    simp [Function.comp_def]

/-- The wins that decide a series. -/
def majority (bestOf : Int) : Nat := (bestOf / 2 + 1).toNat

/-- What `series_sequences` returns. -/
def sequencesOf (bestOf : Int) : List (List Side) :=
  (races (majority bestOf) (majority bestOf)).sortByKey id

theorem seriesSequences_eq (hpos : 0 < bestOf) (hodd : bestOf % 2 = 1) :
    seriesSequences bestOf = .ok (sequencesOf bestOf) := by
  rw [seriesSequences, if_neg (by omega)]
  simp only [seriesWalk_eq, Nat.sub_zero]
  simp [sequencesOf, majority]

theorem mem_sequencesOf : play ∈ sequencesOf bestOf ↔ Ends (majority bestOf) (majority bestOf) play :=
  (List.sortByKey_perm id _).mem_iff.trans mem_races

theorem pairwise_sequencesOf : (sequencesOf bestOf).Pairwise (· < ·) :=
  List.pairwise_lt_sortByKey_id nodup_races

end Sequences

/-! ## Keys -/

theorem seriesKey_injective : Function.Injective seriesKey := by
  intro a b h
  have htext : sequenceText a = sequenceText b := by
    have hlist := congrArg String.toList h
    simp only [seriesKey, String.toList_append] at hlist
    exact String.toList_injective (List.append_cancel_left hlist)
  have hletters := congrArg String.toList htext
  simp only [sequenceText, String.toList_ofList] at hletters
  exact List.map_injective_iff.mpr letter_injective hletters

/-- The space of a series. -/
def seriesSpace (eventKey : String) (bestOf : Int) (home away : String) :
    OutcomeSpace SeriesPayload where
  eventKey := eventKey
  scope := .series
  outcomes := (sequencesOf bestOf).map (seriesOutcome home away)
  coverage := .exhaustive
  home := home
  away := away

section Space

variable {eventKey home away : String} {bestOf : Int} {played : List Side}
  {predicate predicate' : SeriesPayload → Bool}

theorem buildSeriesSpace_eq (hpos : 0 < bestOf) (hodd : bestOf % 2 = 1) :
    buildSeriesSpace eventKey bestOf home away = .ok (seriesSpace eventKey bestOf home away) := by
  rw [buildSeriesSpace, seriesSequences_eq hpos hodd]
  rfl

theorem mem_keys_iff {key : String} : key ∈ (seriesSpace eventKey bestOf home away).keys ↔
    ∃ play ∈ sequencesOf bestOf, seriesKey play = key := by
  simp [OutcomeSpace.keys, seriesSpace, seriesOutcome]

theorem mem_select_iff {key : String} :
    key ∈ (seriesSpace eventKey bestOf home away).select predicate ↔
      ∃ play ∈ sequencesOf bestOf, predicate (seriesOutcome home away play).payload = true ∧
        seriesKey play = key := by
  simp only [OutcomeSpace.select, seriesSpace, List.mem_toFinset, List.mem_map, List.mem_filter]
  constructor
  · rintro ⟨_, ⟨⟨play, hplay, rfl⟩, hpredicate⟩, rfl⟩
    exact ⟨play, hplay, hpredicate, rfl⟩
  · rintro ⟨play, hplay, hpredicate, rfl⟩
    exact ⟨_, ⟨⟨play, hplay, rfl⟩, hpredicate⟩, rfl⟩

theorem mem_reachableKeys_iff {key : String} :
    key ∈ reachableKeys (seriesSpace eventKey bestOf home away) played ↔
      ∃ play ∈ sequencesOf bestOf, played <+: play ∧ seriesKey play = key := by
  have hscope : (seriesSpace eventKey bestOf home away).scope = .series := rfl
  rw [reachableKeys, if_neg (not_not.mpr hscope)]
  by_cases hnil : played = []
  · subst hnil
    rw [if_pos rfl, mem_keys_iff]
    simp
  · rw [if_neg hnil]
    simp only [seriesSpace, List.mem_toFinset, List.mem_map, List.mem_filter,
      List.isPrefixOf_iff_prefix]
    constructor
    · rintro ⟨_, ⟨⟨play, hplay, rfl⟩, hbefore⟩, rfl⟩
      exact ⟨play, hplay, hbefore, rfl⟩
    · rintro ⟨play, hplay, hbefore, rfl⟩
      exact ⟨_, ⟨⟨play, hplay, rfl⟩, hbefore⟩, rfl⟩

/-- Two masks make up the space and share no outcome. -/
def Halves (space : OutcomeSpace SeriesPayload) (a b : Finset String) : Prop :=
  Disjoint a b ∧ a ∪ b = space.keys

/-- Opposite selections are halves. -/
theorem halves_select (h : ∀ p : SeriesPayload, predicate' p = !predicate p) :
    Halves (seriesSpace eventKey bestOf home away)
      ((seriesSpace eventKey bestOf home away).select predicate)
      ((seriesSpace eventKey bestOf home away).select predicate') := by
  constructor
  · rw [Finset.disjoint_left]
    intro key hkey hkey'
    obtain ⟨play, -, hplay, heq⟩ := mem_select_iff.mp hkey
    obtain ⟨play', -, hplay', heq'⟩ := mem_select_iff.mp hkey'
    obtain rfl := seriesKey_injective (heq.trans heq'.symm)
    rw [h, hplay] at hplay'
    cases hplay'
  · ext key
    rw [Finset.mem_union, mem_select_iff, mem_select_iff, mem_keys_iff]
    constructor
    · rintro (⟨play, hplay, -, heq⟩ | ⟨play, hplay, -, heq⟩) <;> exact ⟨play, hplay, heq⟩
    · rintro ⟨play, hplay, heq⟩
      cases hcase : predicate (seriesOutcome home away play).payload with
      | true => exact .inl ⟨play, hplay, hcase, heq⟩
      | false => exact .inr ⟨play, hplay, by rw [h, hcase]; rfl, heq⟩

/-- An open play's outcomes are those of its two next maps. -/
theorem reachableKeys_split (hopen : played ∉ sequencesOf bestOf) :
    reachableKeys (seriesSpace eventKey bestOf home away) played =
        reachableKeys (seriesSpace eventKey bestOf home away) (played ++ [.home]) ∪
          reachableKeys (seriesSpace eventKey bestOf home away) (played ++ [.away]) ∧
      Disjoint (reachableKeys (seriesSpace eventKey bestOf home away) (played ++ [.home]))
        (reachableKeys (seriesSpace eventKey bestOf home away) (played ++ [.away])) := by
  constructor
  · ext key
    rw [Finset.mem_union, mem_reachableKeys_iff, mem_reachableKeys_iff, mem_reachableKeys_iff,
      ← exists_or]
    refine exists_congr fun play => ?_
    constructor
    · intro ⟨hplay, hbefore, heq⟩
      have hne : played ≠ play := fun h => hopen (h ▸ hplay)
      rcases (prefix_iff_of_ne hne).mp hbefore with hnext | hnext
      · exact .inl ⟨hplay, hnext, heq⟩
      · exact .inr ⟨hplay, hnext, heq⟩
    · rintro (⟨hplay, hnext, heq⟩ | ⟨hplay, hnext, heq⟩)
      · exact ⟨hplay, (List.prefix_append _ _).trans hnext, heq⟩
      · exact ⟨hplay, (List.prefix_append _ _).trans hnext, heq⟩
  · rw [Finset.disjoint_left]
    intro key hkey hkey'
    obtain ⟨play, -, hbefore, heq⟩ := mem_reachableKeys_iff.mp hkey
    obtain ⟨play', -, hbefore', heq'⟩ := mem_reachableKeys_iff.mp hkey'
    obtain rfl := seriesKey_injective (heq.trans heq'.symm)
    exact not_both_isPrefix hbefore hbefore'

/-! ## Resolvers -/

variable {r : Readings} {market market' : Market} {a b : Finset String} {line : Line} {side : Side}

theorem sideName_injective : Function.Injective sideName := by
  intro s t h
  cases s <;> cases t <;> simp_all [sideName]

theorem append_right_injective (text : String) : Function.Injective (text ++ ·) := by
  intro s t h
  have hlist := congrArg String.toList h
  simp only [String.toList_append] at hlist
  exact String.toList_injective (List.append_cancel_left hlist)

theorem series_moneyline_mask {space : OutcomeSpace SeriesPayload}
    (htype : market.marketType = "series_moneyline")
    (h : seriesMask r market space = .ok (some (a, "series_" ++ sideName side))) :
    a = space.select fun p => p.winnerSide = side := by
  unfold seriesMask at h
  rw [if_pos htype] at h
  split at h
  next => cases h
  next found _ =>
    simp only [Except.ok.injEq, Option.some.injEq, Prod.mk.injEq] at h
    obtain rfl := sideName_injective (append_right_injective "series_" h.2)
    exact h.1.symm

/-- A series has one winner. -/
theorem halves_winner (htype : market.marketType = "series_moneyline")
    (htype' : market'.marketType = "series_moneyline")
    (h : seriesMask r market (seriesSpace eventKey bestOf home away) =
      .ok (some (a, "series_home")))
    (h' : seriesMask r market' (seriesSpace eventKey bestOf home away) =
      .ok (some (b, "series_away"))) :
    Halves (seriesSpace eventKey bestOf home away) a b := by
  have ha : a = (seriesSpace eventKey bestOf home away).select fun p => p.winnerSide = .home :=
    series_moneyline_mask htype h
  have hb : b = (seriesSpace eventKey bestOf home away).select fun p => p.winnerSide = .away :=
    series_moneyline_mask htype' h'
  rw [ha, hb]
  apply halves_select
  intro p
  cases p.winnerSide <;> rfl

theorem total_maps_mask {space : OutcomeSpace SeriesPayload} {resolver : String}
    (htype : market.marketType = "total_maps") (hline : r.line market.label = some line)
    (h : seriesMask r market space = .ok (some (a, resolver))) :
    a = (if resolver = "maps_under" then space.select fun p => lineOfInt p.mapsPlayed < line
      else space.select fun p => line < lineOfInt p.mapsPlayed) ∧
      (resolver = "maps_under" ∨ resolver = "maps_over") := by
  unfold seriesMask at h
  rw [if_neg (by rw [htype]; decide), if_neg (by rw [htype]; decide), if_pos htype] at h
  simp only [hline] at h
  split at h
  next =>
    simp only [Except.ok.injEq, Option.some.injEq, Prod.mk.injEq] at h
    obtain ⟨rfl, rfl⟩ := h
    simp
  next =>
    simp only [Except.ok.injEq, Option.some.injEq, Prod.mk.injEq] at h
    obtain ⟨rfl, rfl⟩ := h
    simp

/-- A number of maps is on one side of a line that is no number of maps. -/
theorem halves_total (htype : market.marketType = "total_maps")
    (htype' : market'.marketType = "total_maps") (hline : r.line market.label = some line)
    (hline' : r.line market'.label = some line) (hfraction : ∀ n : Int, line ≠ lineOfInt n)
    (h : seriesMask r market (seriesSpace eventKey bestOf home away) = .ok (some (a, "maps_over")))
    (h' : seriesMask r market' (seriesSpace eventKey bestOf home away) =
      .ok (some (b, "maps_under"))) :
    Halves (seriesSpace eventKey bestOf home away) a b := by
  rw [(total_maps_mask htype hline h).1, (total_maps_mask htype' hline' h').1, if_pos rfl,
    if_neg (by decide)]
  apply halves_select
  intro p
  rw [← decide_not, decide_eq_decide, not_lt]
  constructor
  · exact le_of_lt
  · intro hle
    exact lt_of_le_of_ne hle (hfraction p.mapsPlayed).symm

theorem select_subset_keys {space : OutcomeSpace SeriesPayload} :
    space.select predicate ⊆ space.keys := by
  intro key hkey
  simp only [OutcomeSpace.select, OutcomeSpace.keys, List.mem_toFinset, List.mem_map,
    List.mem_filter] at hkey ⊢
  obtain ⟨o, ⟨ho, -⟩, rfl⟩ := hkey
  exact ⟨o, ho, rfl⟩

theorem covered_subset_keys {space : OutcomeSpace SeriesPayload} :
    covered space side line ⊆ space.keys := by
  cases side <;> exact select_subset_keys

/-- The favoured side of a handicap and its line, which are of the title. -/
def handicapOf (r : Readings) (market : Market) (space : OutcomeSpace SeriesPayload) :
    Option (Side × Line) := do
  let (name, line) ← r.favoured market.title
  let favoured ← favouredSide r market name space
  return (favoured, line)

/-- Either token is of the set the favoured side covers: that set, or its complement. -/
theorem map_handicap_mask {space : OutcomeSpace SeriesPayload} {resolver text : String}
    (htype : market.marketType = "map_handicap")
    (h : seriesMask r { market with outcomeLabel := text } space = .ok (some (a, resolver))) :
    ∃ favoured line, handicapOf r market space = some (favoured, line) ∧
      (a = covered space favoured line ∧
          (resolver = "handicap_" ++ sideName favoured ∨
            resolver = "handicap_" ++ sideName favoured ++ "_covers") ∨
        a = space.keys \ covered space favoured line ∧
          resolver = "handicap_" ++ sideName favoured ++ "_underdog") := by
  unfold seriesMask at h
  rw [if_neg (by rw [htype]; decide), if_neg (by rw [htype]; decide),
    if_neg (by rw [htype]; decide), if_pos htype] at h
  have htitle : Market.title { market with outcomeLabel := text } = market.title := rfl
  rw [htitle] at h
  cases hfavoured : r.favoured market.title with
  | none =>
    rw [hfavoured] at h
    cases h
  | some found =>
    obtain ⟨name, line⟩ := found
    have hown : favouredSide r { market with outcomeLabel := text } name space =
        favouredSide r market name space := rfl
    simp only [hfavoured, hown] at h
    cases hside : favouredSide r market name space with
    | none =>
      rw [hside] at h
      cases h
    | some favoured =>
      simp only [hside] at h
      refine ⟨favoured, line, by simp [handicapOf, hfavoured, hside], ?_⟩
      split at h
      next => cases h; exact .inl ⟨rfl, .inl rfl⟩
      next =>
        split at h
        next => cases h
        next =>
          split at h
          next => cases h; exact .inl ⟨rfl, .inr rfl⟩
          next => cases h; exact .inr ⟨rfl, rfl⟩

/-- The two tokens of a handicap. -/
theorem halves_handicap {text text' : String} (htype : market.marketType = "map_handicap")
    (h : seriesMask r { market with outcomeLabel := text } (seriesSpace eventKey bestOf home away) =
      .ok (some (a, "handicap_" ++ sideName side ++ "_covers")))
    (h' : seriesMask r { market with outcomeLabel := text' } (seriesSpace eventKey bestOf home away) =
      .ok (some (b, "handicap_" ++ sideName side ++ "_underdog"))) :
    Halves (seriesSpace eventKey bestOf home away) a b := by
  obtain ⟨favoured, line, hhandicap, hmask⟩ := map_handicap_mask htype h
  obtain ⟨favoured', line', hhandicap', hmask'⟩ := map_handicap_mask htype h'
  rw [hhandicap] at hhandicap'
  cases hhandicap'
  -- the resolver tells the tokens apart
  have hcovers : a = covered (seriesSpace eventKey bestOf home away) favoured line := by
    rcases hmask with ⟨ha, -⟩ | ⟨-, hresolver⟩
    · exact ha
    · cases side <;> cases favoured <;> exact absurd hresolver (by decide)
  have hunderdog : b = (seriesSpace eventKey bestOf home away).keys \
      covered (seriesSpace eventKey bestOf home away) favoured line := by
    rcases hmask' with ⟨-, hresolver | hresolver⟩ | ⟨hb, -⟩
    · cases side <;> cases favoured <;> exact absurd hresolver (by decide)
    · cases side <;> cases favoured <;> exact absurd hresolver (by decide)
    · exact hb
  rw [hcovers, hunderdog]
  exact ⟨Finset.disjoint_sdiff, Finset.union_sdiff_of_subset covered_subset_keys⟩

end Space

/-- The masks of a series space that leave nothing out and nothing double. -/
structure Splits (space : OutcomeSpace SeriesPayload) : Prop where
  winners : ∀ (r : Readings) (market market' : Market) (a b : Finset String),
    market.marketType = "series_moneyline" → market'.marketType = "series_moneyline" →
    seriesMask r market space = .ok (some (a, "series_home")) →
    seriesMask r market' space = .ok (some (b, "series_away")) → Halves space a b
  totals : ∀ (r : Readings) (market market' : Market) (a b : Finset String) (line : Line),
    market.marketType = "total_maps" → market'.marketType = "total_maps" → r.line market.label = some line →
    r.line market'.label = some line → (∀ n : Int, line ≠ lineOfInt n) →
    seriesMask r market space = .ok (some (a, "maps_over")) →
    seriesMask r market' space = .ok (some (b, "maps_under")) → Halves space a b
  handicaps : ∀ (r : Readings) (market : Market) (text text' : String) (a b : Finset String)
    (side : Side), market.marketType = "map_handicap" →
    seriesMask r { market with outcomeLabel := text } space =
      .ok (some (a, "handicap_" ++ sideName side ++ "_covers")) →
    seriesMask r { market with outcomeLabel := text' } space =
      .ok (some (b, "handicap_" ++ sideName side ++ "_underdog")) → Halves space a b

end PredictionIndexer.Analysis
