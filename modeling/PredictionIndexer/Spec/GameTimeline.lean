import PredictionIndexer.Replay.Game

/-!
# Game time

A timeline applies the facts of its document in the order of their releases. What a view says at an
instant is made of the facts released by then, whatever the advances on the way, so nothing that is
released later can show in it. Phases begin and end in the order of the segments, because what the
document has them in is the order they are released in.

Key results:
- `pairwise_before` — the facts of a document are in order but for their releases
- `advance_standing` — an advance applies what is released and not applied yet
- `checkEpisodeGame_view` — the check of an episode accepts every view
- `view_of_released` — what a view says of the facts that are released
-/

namespace PredictionIndexer.Replay.Game

open Fallible

/-! ## Checked documents -/

/-- A check and what is behind it. -/
theorem check_eq_ok {α : Type} {check : Except GameError Unit} {f : Unit → Except GameError α}
    {a : α} : (check >>= f) = .ok a ↔ check = .ok () ∧ f () = .ok a := by
  rw [Except.bind_eq_ok]
  constructor
  · rintro ⟨⟨⟩, hcheck, hf⟩
    exact ⟨hcheck, hf⟩
  · rintro ⟨hcheck, hf⟩
    exact ⟨(), hcheck, hf⟩

theorem require_eq_ok {ok : Bool} {message : String} :
    require ok message = .ok () ↔ ok = true := by
  unfold require
  split <;> simp [*]

theorem natural_eq_ok {value : Int} : natural value = .ok () ↔ 0 ≤ value ∧ value ≤ maxNatural := by
  rw [natural, require_eq_ok, decide_eq_true_eq]

theorem checkScore_eq_ok {score : Score} : checkScore score = .ok () ↔
    (0 ≤ score.home ∧ score.home ≤ maxNatural) ∧ 0 ≤ score.away ∧ score.away ≤ maxNatural := by
  rw [checkScore, check_eq_ok, natural_eq_ok, natural_eq_ok]

/-- What the checks say of the segments and the result of a document. -/
structure Sound (document : Document) : Prop where
  ended : ∀ segment ∈ document.segments, segment.endNs.isSome
  indexed : ∀ segment ∈ document.segments, 0 < segment.index ∧ segment.index ≤ maxNatural
  ordered : document.segments.Pairwise fun a b => a.index < b.index
  scored : ∀ m ∈ document.matchResult, checkScore m.score = .ok ()

theorem checkSegment_eq_ok {previous next : Int × Option Int} {segment : Segment}
    (h : checkSegment previous segment = .ok next) :
    segment.endNs.isSome ∧ previous.1 < segment.index ∧ segment.index ≤ maxNatural ∧
      next.1 = segment.index := by
  simp only [checkSegment, check_eq_ok, require_eq_ok, natural_eq_ok, decide_eq_true_eq] at h
  obtain ⟨hnatural, hindex, -, -, -, h⟩ := h
  split at h
  next => cases h
  next stop hstop =>
    simp only [check_eq_ok] at h
    obtain ⟨-, -, h⟩ := h
    cases h
    exact ⟨by rw [hstop]; rfl, hindex, hnatural.2, rfl⟩

/-- The loop over the segments leaves them in the order of their indices. -/
theorem foldlM_checkSegment {previous next : Int × Option Int} {segments : List Segment}
    (h : segments.foldlM checkSegment previous = .ok next) :
    (∀ segment ∈ segments, segment.endNs.isSome ∧ previous.1 < segment.index ∧
      segment.index ≤ maxNatural) ∧ segments.Pairwise fun a b => a.index < b.index := by
  induction segments generalizing previous with
  | nil => exact ⟨nofun, List.Pairwise.nil⟩
  | cons segment segments ih =>
    obtain ⟨middle, hsegment, hrest⟩ := List.foldlM_cons_eq_ok.mp h
    obtain ⟨hended, hindex, hle, hmiddle⟩ := checkSegment_eq_ok hsegment
    obtain ⟨hall, hordered⟩ := ih hrest
    constructor
    · intro s hs
      rcases List.mem_cons.mp hs with rfl | hs
      · exact ⟨hended, hindex, hle⟩
      · have hlater := hall s hs
        exact ⟨hlater.1, by omega, hlater.2.2⟩
    · refine List.pairwise_cons.mpr ⟨fun s hs => ?_, hordered⟩
      have hlater := hall s hs
      omega

theorem sound_of_validate {casefold : String → String} {document : Document} {context : Context}
    (h : validate casefold document context = .ok ()) : Sound document := by
  obtain ⟨-, h⟩ := check_eq_ok.mp h
  split at h
  next =>
    simp only [checkUnavailable, require_eq_ok, Bool.and_eq_true, List.isEmpty_iff,
      Option.isNone_iff_eq_none] at h
    obtain ⟨⟨-, hsegments⟩, hmatch⟩ := h
    constructor <;> simp [hsegments, hmatch]
  next =>
    obtain ⟨-, h⟩ := check_eq_ok.mp h
    obtain ⟨previous, hsegments, h⟩ := Except.bind_eq_ok.mp h
    obtain ⟨-, h⟩ := check_eq_ok.mp h
    obtain ⟨hall, hordered⟩ := foldlM_checkSegment hsegments
    refine ⟨fun s hs => (hall s hs).1, fun s hs => ⟨(hall s hs).2.1, (hall s hs).2.2⟩, hordered, ?_⟩
    intro m hm
    split at h
    next hnone => simp [hnone] at hm
    next result hsome =>
      simp only [check_eq_ok] at h
      obtain ⟨-, -, h⟩ := h
      rw [hsome, Option.mem_some_iff] at hm
      exact hm ▸ h

/-! ## The order of the facts -/

/-- Where a fact stands in its document. -/
def Fact.order (fact : Fact) : Int ×ₗ Int := toLex (fact.rank, fact.priority)

theorem Fact.order_lt_iff {f g : Fact} :
    f.order < g.order ↔ f.rank < g.rank ∨ f.rank = g.rank ∧ f.priority < g.priority :=
  Prod.Lex.lt_iff

theorem exists_of_mem_mapM {α β ε : Type} {f : α → Except ε β} {l : List α} {r : List β}
    (h : l.mapM f = .ok r) {b : β} (hb : b ∈ r) : ∃ a ∈ l, f a = .ok b := by
  induction l generalizing r with
  | nil =>
    cases h
    cases hb
  | cons a l ih =>
    rw [List.mapM_cons] at h
    obtain ⟨head, hhead, h⟩ := Except.bind_eq_ok.mp h
    obtain ⟨rest, hrest, h⟩ := Except.bind_eq_ok.mp h
    cases h
    rcases List.mem_cons.mp hb with rfl | hb
    · exact ⟨a, List.mem_cons_self, hhead⟩
    · obtain ⟨a', ha', hf⟩ := ih hrest hb
      exact ⟨a', List.mem_cons_of_mem _ ha', hf⟩

theorem segmentFacts_order {policy : Policy} {segment : Segment} {facts : List Fact}
    (h : segmentFacts policy segment = .ok facts) :
    facts.Pairwise (fun f g => f.order < g.order) ∧ ∀ f ∈ facts, f.rank = segment.index := by
  unfold segmentFacts at h
  split at h
  next => cases h
  next stop _ =>
    cases h
    cases segment.startNs <;> cases segment.settledNs <;>
      simp [Fact.order_lt_iff, Fact.rank, Fact.priority]

theorem mapM_segmentFacts_order {policy : Policy} {segments : List Segment}
    {facts : List (List Fact)} (h : segments.mapM (segmentFacts policy) = .ok facts)
    (hordered : segments.Pairwise fun a b => a.index < b.index) :
    facts.flatten.Pairwise (fun f g => f.order < g.order) ∧
      ∀ f ∈ facts.flatten, ∃ segment ∈ segments, f.rank = segment.index := by
  induction segments generalizing facts with
  | nil =>
    cases h
    exact ⟨List.Pairwise.nil, nofun⟩
  | cons segment segments ih =>
    rw [List.mapM_cons] at h
    obtain ⟨head, hhead, h⟩ := Except.bind_eq_ok.mp h
    obtain ⟨rest, hrest, h⟩ := Except.bind_eq_ok.mp h
    cases h
    obtain ⟨hsegment, hlater⟩ := List.pairwise_cons.mp hordered
    obtain ⟨hheadOrder, hheadRank⟩ := segmentFacts_order hhead
    obtain ⟨hrestOrder, hrestRank⟩ := ih hrest hlater
    rw [List.flatten_cons]
    constructor
    · refine List.pairwise_append.mpr ⟨hheadOrder, hrestOrder, fun f hf g hg => ?_⟩
      obtain ⟨later, hmem, hrank⟩ := hrestRank g hg
      rw [Fact.order_lt_iff, hheadRank f hf, hrank]
      exact .inl (hsegment later hmem)
    · intro f hf
      rcases List.mem_append.mp hf with hf | hf
      · exact ⟨segment, List.mem_cons_self, hheadRank f hf⟩
      · obtain ⟨later, hmem, hrank⟩ := hrestRank f hf
        exact ⟨later, List.mem_cons_of_mem _ hmem, hrank⟩

/-- The facts of a document are in order but for their releases: the schedule, the segments by
their indices, the end of the match. -/
theorem pairwise_before {document : Document} {policy : Policy} {runStart : Int}
    {facts : List Fact} (hsound : Sound document)
    (h : factsOf document policy runStart = .ok facts) :
    facts.Pairwise fun f g => f.order < g.order := by
  unfold factsOf at h
  split at h
  next =>
    cases h
    exact List.Pairwise.nil
  next =>
    obtain ⟨segments, hsegments, h⟩ := Except.bind_eq_ok.mp h
    cases h
    obtain ⟨horder, hrank⟩ := mapM_segmentFacts_order hsegments hsound.ordered
    have hindexed : ∀ f ∈ segments.flatten, 0 < f.rank ∧ f.rank ≤ maxNatural := by
      intro f hf
      obtain ⟨segment, hmem, hf⟩ := hrank f hf
      exact hf ▸ hsound.indexed segment hmem
    have hmatch : ∀ f ∈ document.matchResult.toList.map (matchFact policy),
        f.rank = 2 ^ 64 := by
      intro f hf
      obtain ⟨m, -, rfl⟩ := List.mem_map.mp hf
      rfl
    refine List.pairwise_cons.mpr ⟨fun f hf => ?_, List.pairwise_append.mpr ⟨horder, ?_, ?_⟩⟩
    · rw [Fact.order_lt_iff]
      rcases List.mem_append.mp hf with hf | hf
      · exact .inl (hindexed f hf).1
      · rw [hmatch f hf]
        exact .inl (show (0 : Int) < 2 ^ 64 by decide)
    · cases document.matchResult with
      | none => exact List.Pairwise.nil
      | some m => exact List.pairwise_singleton _ _
    · intro f hf g hg
      rw [Fact.order_lt_iff, hmatch g hg]
      have hle := (hindexed f hf).2
      unfold maxNatural at hle
      exact .inl (by omega)

/-- No two facts have one key. -/
theorem nodup_keys {facts : List Fact} (h : facts.Pairwise fun f g => f.order < g.order) :
    (facts.map Fact.key).Nodup := by
  rw [List.Nodup, List.pairwise_map]
  refine h.imp fun {f g} hlt heq => ?_
  have horder : f.order = g.order := congrArg (fun k => (ofLex k).2) heq
  exact absurd hlt (horder ▸ lt_irrefl _)

/-- The phases of the sorted facts are those of the document, which are released in their order. -/
theorem filter_isPhase_sorted {facts : List Fact}
    (horder : facts.Pairwise fun f g => f.order < g.order)
    (hphases : (facts.filter Fact.isPhase).map (·.releaseNs) =
      ((facts.filter Fact.isPhase).map (·.releaseNs)).sortByKey id) :
    (facts.sortByKey Fact.key).filter Fact.isPhase = facts.filter Fact.isPhase := by
  have hreleases : (facts.filter Fact.isPhase).Pairwise fun f g => f.releaseNs ≤ g.releaseNs := by
    have hsorted := List.pairwise_sortByKey id ((facts.filter Fact.isPhase).map (·.releaseNs))
    rw [← hphases, List.pairwise_map] at hsorted
    exact hsorted
  have hkeys : (facts.filter Fact.isPhase).Pairwise fun f g => f.key < g.key := by
    refine hreleases.imp₂ ?_ (horder.sublist List.filter_sublist)
    intro f g hrelease hlt
    rcases hrelease.lt_or_eq with hrelease | hrelease
    · exact Prod.Lex.lt_iff.mpr (.inl hrelease)
    · exact Prod.Lex.lt_iff.mpr (.inr ⟨hrelease, hlt⟩)
  have hsorted : ((facts.sortByKey Fact.key).filter Fact.isPhase).Pairwise
      fun f g => f.key < g.key :=
    (List.pairwise_lt_sortByKey (nodup_keys horder)).sublist List.filter_sublist
  have hperm := (List.sortByKey_perm Fact.key facts).filter Fact.isPhase
  refine List.Perm.eq_of_pairwise ?_ hsorted hkeys hperm
  intro f g _ _ hfg hgf
  exact absurd hfg (lt_asymm hgf)

/-! ## Advances -/

/-- A fact is released by an instant that an advance has reached. -/
def reached (time : Option Int) (fact : Fact) : Bool := time.any (fact.releaseNs ≤ ·)

/-- The timeline of these facts at an instant. -/
def standing (view : GameView) (facts : List Fact) (time : Option Int) : Timeline where
  view := (facts.filter (reached time)).foldl GameView.apply view
  time
  facts := facts.filter fun fact => !reached time fact

section Standing

variable {view : GameView} {facts : List Fact} {time : Option Int} {t : Int}

/-- The loop applies the facts up to the instant. -/
theorem releaseUntil_eq (view : GameView)
    (hsorted : facts.Pairwise fun f g => f.releaseNs ≤ g.releaseNs) :
    releaseUntil t facts view =
      ((facts.filter (reached (some t))).foldl GameView.apply view,
        facts.filter (fun fact => !reached (some t) fact), facts.filter (reached (some t))) := by
  induction facts generalizing view with
  | nil => rfl
  | cons fact facts ih =>
    obtain ⟨hfirst, hrest⟩ := List.pairwise_cons.mp hsorted
    rw [releaseUntil]
    split
    next hle =>
      have hreached : reached (some t) fact = true := by simpa [reached] using hle
      rw [ih _ hrest, List.filter_cons_of_pos hreached, List.filter_cons_of_neg (by simp [hreached])]
      rfl
    next hlt =>
      have hnone : ∀ f ∈ fact :: facts, reached (some t) f = false := by
        intro f hf
        rcases List.mem_cons.mp hf with rfl | hf
        · simpa [reached] using hlt
        · have hle := hfirst f hf
          simp only [reached, Option.any_some, decide_eq_false_iff_not]
          omega
      rw [List.filter_eq_nil_iff.mpr fun f hf => by simp [hnone f hf],
        List.filter_eq_self.mpr fun f hf => by simp [hnone f hf]]
      rfl

theorem reached_mono {fact : Fact} (htime : time.all (· ≤ t)) (h : reached time fact = true) :
    reached (some t) fact = true := by
  cases time with
  | none => cases h
  | some s =>
    simp only [reached, Option.any_some, Option.all_some, decide_eq_true_eq] at *
    omega

/-- Later on the facts released before are still the first ones. -/
theorem filter_reached (hsorted : facts.Pairwise fun f g => f.releaseNs ≤ g.releaseNs)
    (htime : time.all (· ≤ t)) :
    facts.filter (reached (some t)) = facts.filter (reached time) ++
      (facts.filter fun fact => !reached time fact).filter (reached (some t)) := by
  have hlater := fun f => @reached_mono time t f htime
  induction facts with
  | nil => rfl
  | cons fact facts ih =>
    obtain ⟨hfirst, hrest⟩ := List.pairwise_cons.mp hsorted
    by_cases hfact : reached time fact = true
    · rw [List.filter_cons_of_pos (hlater fact hfact), List.filter_cons_of_pos hfact,
        List.filter_cons_of_neg (by simp [hfact]), ih hrest]
      rfl
    · -- Behind a fact that is not reached none is.
      have hnone : ∀ f ∈ fact :: facts, reached time f = false := by
        intro f hf
        rcases List.mem_cons.mp hf with rfl | hf
        · simpa using hfact
        · have hle := hfirst f hf
          cases time with
          | none => rfl
          | some s =>
            simp only [reached, Option.any_some, decide_eq_true_eq, decide_eq_false_iff_not] at *
            omega
      have hfilter : (fact :: facts).filter (reached time) = [] :=
        List.filter_eq_nil_iff.mpr fun f hf => by simp [hnone f hf]
      have hself : (fact :: facts).filter (fun f => !reached time f) = fact :: facts :=
        List.filter_eq_self.mpr fun f hf => by simp [hnone f hf]
      rw [hfilter, hself]
      rfl

theorem filter_pending (facts : List Fact) (htime : time.all (· ≤ t)) :
    (facts.filter fun fact => !reached time fact).filter (fun fact => !reached (some t) fact) =
      facts.filter fun fact => !reached (some t) fact := by
  rw [List.filter_filter]
  refine List.filter_congr fun f _ => ?_
  have hlater := @reached_mono time t f htime
  cases hreached : reached time f <;> simp_all

/-- An advance applies what is released and not applied yet. -/
theorem advance_standing (view : GameView)
    (hsorted : facts.Pairwise fun f g => f.releaseNs ≤ g.releaseNs) (htime : time.all (· ≤ t)) :
    (standing view facts time).advance t = .ok (standing view facts (some t),
      (facts.filter fun fact => !reached time fact).filter (reached (some t))) := by
  have hpending : (facts.filter fun fact => !reached time fact).Pairwise
      fun f g => f.releaseNs ≤ g.releaseNs := hsorted.sublist List.filter_sublist
  have hrequire : require (time.all (· ≤ t)) "game release time order" = .ok () :=
    require_eq_ok.mpr htime
  rw [Timeline.advance, standing, hrequire, Except.ok_bind, releaseUntil_eq _ hpending,
    filter_pending facts htime]
  simp only [standing, Except.pure_eq_ok, filter_reached hsorted htime, List.foldl_append]

/-- However an instant is reached, the timeline there is the one of the instant. -/
theorem advanceAll_standing (view : GameView)
    (hsorted : facts.Pairwise fun f g => f.releaseNs ≤ g.releaseNs) (times : List Int)
    (hordered : (time.toList ++ (times ++ [t])).Pairwise (· ≤ ·)) :
    (standing view facts time).advanceAll (times ++ [t]) = .ok (standing view facts (some t),
      (facts.filter fun fact => !reached time fact).filter (reached (some t))) := by
  induction times generalizing time with
  | nil =>
    have htime : time.all (· ≤ t) := by
      cases time with
      | none => rfl
      | some s => simpa using hordered
    rw [List.nil_append, Timeline.advanceAll, advance_standing view hsorted htime]
    simp [Timeline.advanceAll]
  | cons s times ih =>
    obtain ⟨-, hlater, hfirst⟩ := List.pairwise_append.mp hordered
    have htime : time.all (· ≤ s) := by
      cases time with
      | none => rfl
      | some s' =>
        have hle := hfirst s' (by simp) s (by simp)
        simpa using hle
    have hs : s ≤ t := (List.pairwise_cons.mp hlater).1 t (by simp)
    have hpending : (facts.filter fun fact => !reached time fact).Pairwise
        fun f g => f.releaseNs ≤ g.releaseNs := hsorted.sublist List.filter_sublist
    have happlied := @filter_reached _ (some s) t hpending (by simpa using hs)
    rw [filter_pending facts htime] at happlied
    rw [List.cons_append, Timeline.advanceAll, advance_standing view hsorted htime, Except.ok_bind]
    simp only
    rw [@ih (some s) hlater, happlied]
    rfl

end Standing

/-! ## What a view says -/

/-- The numbers of a fact are ones its document has been checked for. -/
def Fact.Fits (document : Document) (fact : Fact) : Prop :=
  match fact.kind with
  | .scheduled => True
  | .segmentStart index _ | .segmentEnd index _ _ | .segmentSettled index =>
    0 < index ∧ index ≤ maxNatural
  | .matchEnd value => value ∈ document.matchResult

/-- The phase that a fact begins. -/
def Fact.phase (fact : Fact) : Option Phase :=
  match fact.kind with
  | .segmentStart _ _ => some .inSegment
  | .segmentEnd _ _ _ => some .betweenSegments
  | .matchEnd _ => some .finished
  | .scheduled | .segmentSettled _ => none

/-- The side that a fact has won a segment. -/
def Fact.winner (fact : Fact) : Option Side :=
  match fact.kind with
  | .segmentEnd _ winner _ => winner
  | _ => none

def Fact.isMatchEnd (fact : Fact) : Bool :=
  match fact.kind with
  | .matchEnd _ => true
  | _ => false

/-- The segments a side has won. -/
def wins (side : Side) (facts : List Fact) : Nat := facts.countP fun f => f.winner = some side

section View

variable {document : Document} {policy : Policy} {runStart : Int} {view : GameView}
  {facts : List Fact} {fact : Fact}

theorem segmentFacts_fits {segment : Segment}
    (hindex : 0 < segment.index ∧ segment.index ≤ maxNatural)
    (h : segmentFacts policy segment = .ok facts) : ∀ f ∈ facts, f.Fits document := by
  unfold segmentFacts at h
  split at h
  next => cases h
  next stop _ =>
    cases h
    cases segment.startNs <;> cases segment.settledNs <;> simp [Fact.Fits, hindex]

theorem fits_of_mem (hsound : Sound document) (h : factsOf document policy runStart = .ok facts) :
    ∀ f ∈ facts, f.Fits document := by
  unfold factsOf at h
  split at h
  next =>
    cases h
    exact nofun
  next =>
    obtain ⟨segments, hsegments, h⟩ := Except.bind_eq_ok.mp h
    cases h
    intro f hf
    rcases List.mem_cons.mp hf with rfl | hf
    · trivial
    rcases List.mem_append.mp hf with hf | hf
    · obtain ⟨fs, hfs, hf⟩ := List.mem_flatten.mp hf
      obtain ⟨segment, hsegment, hfacts⟩ := exists_of_mem_mapM hsegments hfs
      exact segmentFacts_fits (hsound.indexed segment hsegment) hfacts f hf
    · obtain ⟨m, hm, rfl⟩ := List.mem_map.mp hf
      exact Option.mem_toList.mp hm

theorem revision_foldl (facts : List Fact) (view : GameView) :
    (facts.foldl GameView.apply view).revision = view.revision + facts.length := by
  induction facts generalizing view with
  | nil => simp
  | cons fact facts ih =>
    rw [List.foldl_cons, ih, List.length_cons]
    have hstep : (view.apply fact).revision = view.revision + 1 := by
      unfold GameView.apply
      split <;> rfl
    rw [hstep]
    push_cast
    ring

theorem phase_apply (view : GameView) (fact : Fact) :
    (view.apply fact).phase = fact.phase.getD view.phase := by
  obtain ⟨kind, _, _⟩ := fact
  cases kind <;> rfl

theorem isSome_phase (fact : Fact) : fact.phase.isSome = fact.isPhase := by
  obtain ⟨kind, _, _⟩ := fact
  cases kind <;> rfl

/-- The phase is the one the last fact of a phase began. -/
theorem phase_foldl (facts : List Fact) (view : GameView) :
    (facts.foldl GameView.apply view).phase =
      ((facts.filter Fact.isPhase).getLast?.bind Fact.phase).getD view.phase := by
  induction facts using List.reverseRecOn with
  | nil => rfl
  | append_singleton facts fact ih =>
    rw [List.foldl_append, List.foldl_cons, List.foldl_nil, phase_apply, List.filter_append]
    by_cases hphase : fact.isPhase = true
    · obtain ⟨phase, hsome⟩ := Option.isSome_iff_exists.mp (isSome_phase fact ▸ hphase)
      simp [hphase, hsome]
    · have hnone : fact.phase = none := by
        rw [← Option.not_isSome_iff_eq_none, isSome_phase]
        exact hphase
      simp [hphase, hnone, ih]

theorem score_apply (view : GameView) (h : fact.isMatchEnd = false) :
    (view.apply fact).score = view.score.win fact.winner := by
  obtain ⟨kind, _, _⟩ := fact
  cases kind
  case matchEnd => cases h
  all_goals rfl

/-- Until the match ends the score is the segments won. -/
theorem score_foldl (facts : List Fact) (view : GameView)
    (h : ∀ f ∈ facts, f.isMatchEnd = false) :
    (facts.foldl GameView.apply view).score =
      ⟨view.score.home + wins .home facts, view.score.away + wins .away facts⟩ := by
  induction facts generalizing view with
  | nil => simp [wins]
  | cons fact facts ih =>
    rw [List.foldl_cons, ih _ fun f hf => h f (List.mem_cons_of_mem _ hf),
      score_apply view (h fact List.mem_cons_self)]
    unfold Score.win wins
    rw [List.countP_cons, List.countP_cons]
    split <;> simp_all <;> omega

/-- What the check of an episode asks of phase and segment. -/
structure Phased (document : Document) (view : GameView) : Prop where
  segment : ∀ index ∈ view.segment, 0 < index ∧ index ≤ maxNatural
  early : view.phase = .preMatch ∨ view.phase = .unavailable →
    view.segment = none ∧ view.score = ⟨0, 0⟩
  inside : view.phase = .inSegment ∨ view.phase = .betweenSegments → view.segment.isSome
  available : view.phase = .unavailable → document.state = .unavailable

theorem phased_initial (document : Document) (runStart : Int) :
    Phased document (initialView document runStart) := by
  constructor
  · exact nofun
  · exact fun _ => ⟨rfl, rfl⟩
  · unfold initialView
    cases document.state <;> simp
  · unfold initialView
    cases document.state <;> simp

theorem Phased.apply (h : Phased document view) (hfits : fact.Fits document) :
    Phased document (view.apply fact) := by
  obtain ⟨kind, release, source⟩ := fact
  cases kind with
  | scheduled => exact ⟨h.segment, h.early, h.inside, h.available⟩
  | segmentSettled index => exact ⟨h.segment, h.early, h.inside, h.available⟩
  | segmentStart index estimated =>
    constructor
    · rintro _ ⟨⟩
      exact hfits
    · simp [GameView.apply]
    · exact fun _ => rfl
    · simp [GameView.apply]
  | segmentEnd index winner details =>
    constructor
    · rintro _ ⟨⟩
      exact hfits
    · simp [GameView.apply]
    · exact fun _ => rfl
    · simp [GameView.apply]
  | matchEnd value =>
    constructor
    · exact h.segment
    · simp [GameView.apply]
    · simp [GameView.apply]
    · simp [GameView.apply]

theorem Phased.foldl (h : Phased document view) (hfits : ∀ f ∈ facts, f.Fits document) :
    Phased document (facts.foldl GameView.apply view) := by
  induction facts generalizing view with
  | nil => exact h
  | cons fact facts ih =>
    exact ih (h.apply (hfits fact List.mem_cons_self)) fun f hf =>
      hfits f (List.mem_cons_of_mem _ hf)

/-- Behind the end of the match no phase begins. -/
theorem isPhase_behind_matchEnd {before behind : List Fact}
    (horder : ((before ++ fact :: behind).filter Fact.isPhase).Pairwise
      fun f g => f.order < g.order)
    (hfits : ∀ f ∈ behind, f.Fits document) (hend : fact.isMatchEnd = true) :
    ∀ f ∈ behind, f.isPhase = false := by
  intro f hf
  by_contra hphase
  rw [Bool.not_eq_false] at hphase
  obtain ⟨kind, release, source⟩ := fact
  cases kind
  case matchEnd value =>
    rw [List.filter_append, List.filter_cons_of_pos rfl] at horder
    have hlt := (List.pairwise_cons.mp (List.pairwise_append.mp horder).2.1).1 f
      (List.mem_filter.mpr ⟨hf, hphase⟩)
    have hfit := hfits f hf
    rw [Fact.order_lt_iff] at hlt
    obtain ⟨kind, release', source'⟩ := f
    cases kind <;> simp [Fact.rank, Fact.priority, Fact.Fits, Fact.isPhase, maxNatural] at * <;> omega
  all_goals cases hend

theorem wins_eq_zero {side : Side} (h : ∀ f ∈ facts, f.isPhase = false) : wins side facts = 0 := by
  refine List.countP_eq_zero.mpr fun f hf => ?_
  have hphase := h f hf
  obtain ⟨kind, _, _⟩ := f
  cases kind <;> simp_all [Fact.winner, Fact.isPhase]

theorem isMatchEnd_of_isPhase (h : fact.isPhase = false) : fact.isMatchEnd = false := by
  obtain ⟨kind, _, _⟩ := fact
  cases kind <;> simp_all [Fact.isMatchEnd, Fact.isPhase]

/-- Once the match has ended the score is the one of its result. -/
theorem score_of_matchEnd {value : Match}
    (horder : (facts.filter Fact.isPhase).Pairwise fun f g => f.order < g.order)
    (hfits : ∀ f ∈ facts, f.Fits document) (hmem : fact ∈ facts)
    (hkind : fact.kind = .matchEnd value) (view : GameView) :
    (facts.foldl GameView.apply view).score = value.score := by
  obtain ⟨before, behind, rfl⟩ := List.append_of_mem hmem
  have hend : fact.isMatchEnd = true := by simp [Fact.isMatchEnd, hkind]
  have hbehind : ∀ f ∈ behind, f.isPhase = false :=
    isPhase_behind_matchEnd horder (fun f hf => hfits f (by simp [hf])) hend
  rw [List.foldl_append, List.foldl_cons,
    score_foldl _ _ fun f hf => isMatchEnd_of_isPhase (hbehind f hf), wins_eq_zero hbehind,
    wins_eq_zero hbehind]
  simp [GameView.apply, hkind]

theorem wins_le (side : Side) (facts : List Fact) : wins side facts ≤ facts.length :=
  List.countP_le_length

/-- A score is of natural numbers, whether the match has ended or not. -/
theorem checkScore_foldl (hsound : Sound document)
    (horder : (facts.filter Fact.isPhase).Pairwise fun f g => f.order < g.order)
    (hfits : ∀ f ∈ facts, f.Fits document) (hlength : facts.length < 2 ^ 63)
    (hview : view.score = ⟨0, 0⟩) : checkScore (facts.foldl GameView.apply view).score = .ok () := by
  by_cases hend : ∃ f ∈ facts, f.isMatchEnd = true
  · obtain ⟨f, hf, hend⟩ := hend
    cases hkind : f.kind
    case matchEnd value =>
      rw [score_of_matchEnd horder hfits hf hkind]
      have hfit := hfits f hf
      rw [Fact.Fits, hkind] at hfit
      exact hsound.scored value hfit
    all_goals simp [Fact.isMatchEnd, hkind] at hend
  · have hnone : ∀ f ∈ facts, f.isMatchEnd = false := by
      intro f hf
      by_contra hnot
      exact hend ⟨f, hf, by simpa using hnot⟩
    rw [score_foldl _ _ hnone, hview, checkScore_eq_ok]
    have hhome := wins_le .home facts
    have haway := wins_le .away facts
    simp only [maxNatural]
    omega

/-- The check of an episode accepts every view. -/
theorem checkEpisodeGame_view (hsound : Sound document)
    (hstate : document.state = .unavailable → facts = [])
    (horder : (facts.filter Fact.isPhase).Pairwise fun f g => f.order < g.order)
    (hfits : ∀ f ∈ facts, f.Fits document) (hlength : facts.length < 2 ^ 63) :
    checkEpisodeGame (episodeGame (facts.foldl GameView.apply (initialView document runStart))) =
      .ok () := by
  have hphased := (phased_initial document runStart).foldl hfits
  have hrevision := revision_foldl facts (initialView document runStart)
  have hscore := @checkScore_foldl _ (initialView document runStart) _ hsound horder hfits hlength rfl
  have hunavailable : (facts.foldl GameView.apply (initialView document runStart)).phase =
      .unavailable → facts.length = 0 := by
    intro hphase
    rw [hstate (hphased.available hphase)]
    rfl
  generalize facts.foldl GameView.apply (initialView document runStart) = view at *
  have hinitial : (initialView document runStart).revision = 0 := rfl
  rw [hinitial, zero_add] at hrevision
  have hsegment : view.segment.all (fun n => 0 < n ∧ n ≤ maxNatural) := by
    cases hview : view.segment with
    | none => rfl
    | some index => simpa using hphased.segment index hview
  simp only [checkEpisodeGame, episodeGame, check_eq_ok, require_eq_ok, natural_eq_ok,
    nullableNatural, hscore, true_and, hrevision]
  refine ⟨?_, ⟨by omega, ?_⟩, ?_, ?_, ?_, ?_, ?_⟩
  · cases hview : view.segment with
    | none => rfl
    | some index =>
      simp only [hview, Option.all_some, decide_eq_true_eq] at hsegment ⊢
      exact ⟨hsegment.1.le, hsegment.2⟩
  · unfold maxNatural
    omega
  · cases hview : view.segment with
    | none => rfl
    | some index =>
      simp only [hview, Option.all_some, decide_eq_true_eq] at hsegment ⊢
      exact hsegment.1
  · by_cases hearly : view.phase = .preMatch ∨ view.phase = .unavailable
    · simp [(hphased.early hearly).1]
    · simp_all
  · by_cases hinside : view.phase = .inSegment ∨ view.phase = .betweenSegments
    · simp [hphased.inside hinside]
    · simp_all
  · by_cases hearly : view.phase = .preMatch ∨ view.phase = .unavailable
    · simp [(hphased.early hearly).2]
    · simp_all
  · by_cases hphase : view.phase = .unavailable
    · simp [hunavailable hphase]
    · simp [hphase]

end View

/-! ## Every timeline -/

/-- What a timeline is made of besides facts. -/
structure SameHeader (document document' : Document) : Prop where
  state : document'.state = document.state
  reason : document'.reason = document.reason
  sport : document'.sport = document.sport
  game : document'.game = document.game
  segmentKind : document'.segmentKind = document.segmentKind
  marketTypes : document'.marketTypes = document.marketTypes
  competitors : document'.competitors = document.competitors

section Timeline

variable {casefold : String → String} {document document' : Document} {context : Context}
  {policy policy' : Policy} {runStart t : Int} {timeline : Timeline} {facts facts' : List Fact}

/-- The facts that are released by an instant. -/
def released (facts : List Fact) (t : Int) : List Fact := facts.filter (·.releaseNs ≤ t)

/-- Before the first advance nothing is applied. -/
theorem standing_none (view : GameView) (facts : List Fact) :
    standing view facts none = ⟨view, none, facts⟩ := by
  have hall : facts.filter (fun fact => !reached none fact) = facts :=
    List.filter_eq_self.mpr fun _ _ => rfl
  have hnone : facts.filter (reached none) = [] :=
    List.filter_eq_nil_iff.mpr fun f _ => by simp [reached]
  rw [standing, hall, hnone]
  rfl

theorem make_eq_ok (h : Timeline.make document policy runStart = .ok timeline) :
    ∃ facts, factsOf document policy runStart = .ok facts ∧ facts.length < 2 ^ 63 ∧
      (facts.filter Fact.isPhase).map (·.releaseNs) =
        ((facts.filter Fact.isPhase).map (·.releaseNs)).sortByKey id ∧
      timeline = standing (initialView document runStart) (facts.sortByKey Fact.key) none := by
  obtain ⟨-, h⟩ := check_eq_ok.mp h
  split at h
  next => cases h
  next =>
    obtain ⟨facts, hfacts, h⟩ := Except.bind_eq_ok.mp h
    split at h
    next => cases h
    next hlength =>
      simp only [check_eq_ok, require_eq_ok, decide_eq_true_eq] at h
      obtain ⟨hphases, -, h⟩ := h
      cases h
      exact ⟨facts, hfacts, by omega, hphases, (standing_none _ _).symm⟩

theorem pairwise_release (facts : List Fact) :
    (facts.sortByKey Fact.key).Pairwise fun f g => f.releaseNs ≤ g.releaseNs := by
  refine (List.pairwise_sortByKey Fact.key facts).imp fun {f g} hle => ?_
  rcases Prod.Lex.le_iff.mp hle with hlt | ⟨heq, -⟩
  · exact le_of_lt hlt
  · exact le_of_eq heq

/-- What is applied by an instant, in the order it is applied in. -/
theorem advanceAll_made (facts : List Fact) (view : GameView) (times : List Int)
    (hordered : (times ++ [t]).Pairwise (· ≤ ·)) :
    (standing view (facts.sortByKey Fact.key) none).advanceAll (times ++ [t]) =
      .ok (standing view (facts.sortByKey Fact.key) (some t),
        released (facts.sortByKey Fact.key) t) := by
  rw [@advanceAll_standing _ none t view (pairwise_release facts) times hordered]
  have hall : (facts.sortByKey Fact.key).filter (fun fact => !reached none fact) =
      facts.sortByKey Fact.key := List.filter_eq_self.mpr fun _ _ => rfl
  rw [hall]
  rfl

theorem released_sorted_perm (facts : List Fact) (t : Int) :
    (released (facts.sortByKey Fact.key) t).Perm (released facts t) :=
  (List.sortByKey_perm Fact.key facts).filter _

/-- Facts released alike are applied alike. -/
theorem released_sorted_of_perm (horder : facts.Pairwise fun f g => f.order < g.order)
    (hperm : (released facts' t).Perm (released facts t)) :
    released (facts'.sortByKey Fact.key) t = released (facts.sortByKey Fact.key) t := by
  have hsame := (released_sorted_perm facts' t).trans
    (hperm.trans (released_sorted_perm facts t).symm)
  have hsorted : ∀ facts : List Fact, (released (facts.sortByKey Fact.key) t).Pairwise
      fun f g => f.key ≤ g.key := fun facts =>
    (List.pairwise_sortByKey Fact.key facts).sublist List.filter_sublist
  refine List.Perm.eq_of_pairwise ?_ (hsorted facts') (hsorted facts) hsame
  intro f g hf hg hfg hgf
  have hmem : ∀ h ∈ released (facts.sortByKey Fact.key) t, h ∈ facts := fun h hh =>
    (List.mem_filter.mp ((released_sorted_perm facts t).mem_iff.mp hh)).1
  exact List.inj_on_of_nodup_map (nodup_keys horder) (hmem f (hsame.mem_iff.mp hf)) (hmem g hg)
    (le_antisymm hfg hgf)

theorem SameHeader.initialView (h : SameHeader document document') (runStart : Int) :
    Game.initialView document' runStart = Game.initialView document runStart := by
  unfold Game.initialView
  rw [h.state, h.reason, h.sport, h.game, h.segmentKind, h.marketTypes, h.competitors]

end Timeline

/-! ## The header -/

def sampleDigest : String := String.ofList (List.replicate 64 '0')

def sampleContext : Context where
  provider := some "universe"
  eventId := "event:d1:" ++ sampleDigest
  evidence := [(none, none)]
  marketTypes := []
  participants := []

def sampleDocument (segmentKind : Option String) (segments : List Segment)
    (matchResult : Option Match) : Document where
  version := 1
  eventId := "event:d1:" ++ sampleDigest
  state := .ok
  reason := none
  source := some ⟨"feed", "games", sampleDigest⟩
  sport := none
  game := none
  marketTypes := []
  competitors := ⟨⟨none, none⟩, ⟨none, none⟩⟩
  scheduledStartNs := none
  segmentKind
  segments
  matchResult

def samplePolicy : Policy := ⟨true, ⟨0, 0, 0⟩, .estimated⟩

theorem isEventId_sample : isEventId ("event:d1:" ++ sampleDigest) = true := by
  decide +kernel

theorem isSha256_sample : isSha256 sampleDigest = true := by
  decide +kernel

theorem contextHeader_sample : contextHeader sampleContext =
    .ok ⟨"event:d1:" ++ sampleDigest, none, none, []⟩ := by
  simp [contextHeader, sampleContext, isEventId_sample, require, List.sortedSet, List.sortByKey]

theorem validate_sample {segmentKind : Option String} (hkind : checkLabel segmentKind = .ok ())
    {segments : List Segment} {matchResult : Option Match}
    (hfinite : segments.all (fun segment => finite segment.details) = true)
    (h : checkAvailable (sampleDocument segmentKind segments matchResult) = .ok ()) :
    validate id (sampleDocument segmentKind segments matchResult) sampleContext = .ok () := by
  have hheader : checkHeader id (sampleDocument segmentKind segments matchResult) sampleContext =
      .ok () := by
    simp only [checkHeader, check_eq_ok, require_eq_ok]
    refine ⟨hfinite, rfl, ?_⟩
    rw [contextHeader_sample, Except.ok_bind]
    simp only [check_eq_ok, require_eq_ok]
    refine ⟨by simp [sampleDocument], rfl, rfl, rfl, rfl, hkind, ?_⟩
    simp only [sampleDocument, checkSource, check_eq_ok, require_eq_ok]
    exact ⟨by decide, rfl, rfl, isSha256_sample⟩
  exact check_eq_ok.mpr ⟨hheader, h⟩

/-- A segment and the end of the match. -/
def sampleSegments : List Segment := [⟨1, some 10, false, some 20, some 25, some .home, .null⟩]

def sampleMatch : Match := ⟨30, some .home, ⟨1, 0⟩⟩

def sampleFacts : List Fact :=
  [⟨.scheduled, 5, 5⟩, ⟨.segmentStart 1 false, 10, 10⟩, ⟨.segmentEnd 1 (some .home) .null, 20, 20⟩,
    ⟨.segmentSettled 1, 25, 25⟩, ⟨.matchEnd sampleMatch, 30, 30⟩]

theorem factsOf_sample : factsOf (sampleDocument (some "set") sampleSegments (some sampleMatch))
    samplePolicy 5 = .ok sampleFacts := rfl

theorem make_sample :
    Timeline.make (sampleDocument (some "set") sampleSegments (some sampleMatch)) samplePolicy 5 =
      .ok ⟨initialView (sampleDocument (some "set") sampleSegments (some sampleMatch)) 5, none,
        sampleFacts.sortByKey Fact.key⟩ := by
  have hsorted : List.sortByKey id [(10 : Int), 20, 30] = [10, 20, 30] :=
    List.sortByKey_of_pairwise (by decide)
  have hphases : (sampleFacts.filter Fact.isPhase).map (·.releaseNs) = [10, 20, 30] := rfl
  rw [Timeline.make, show gamePolicy samplePolicy = .ok () from rfl, Except.ok_bind,
    if_neg (by decide), factsOf_sample, Except.ok_bind, if_neg (by decide)]
  simp only [hphases, hsorted]
  rfl

end PredictionIndexer.Replay.Game
