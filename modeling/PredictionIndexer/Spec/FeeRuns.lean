import PredictionIndexer.Spec.FeeOrders

/-!
# Runs of fills

`assess_many` threads the states of all orders through one dictionary. A fill looks up and writes
only its own order's entry, so the fills of one order are assessed as they are alone
(`assessLoop_filter`), and each starts where the one before it ended (`Threaded`). The rounding
charges of an order less what its accumulator gave back are then the carry that is left
(`threaded_carry`).
-/

namespace PredictionIndexer.Fees

namespace FeeEngine

variable {ids : Identities} {e : FeeEngine} {resolver : Option Resolver} {cutoff : Option Nat}
  {fill : HypotheticalFill} {fills : List HypotheticalFill} {key : OrderKey} {p q p' : Progress}
  {a : FeeAssessment} {state : Option OrderState}
  {results : List (FeeAssessment × Option OrderState)}

/-! ## One round -/

theorem assess_eq_ok {resolved : Option ResolvedScheduleSet} {prior : Option OrderState}
    (h : e.assess ids fill resolved prior = .ok (a, state)) :
    ∃ found, assessResolved ids e.policy fill found prior = .ok (a, state) := by
  unfold assess at h
  split at h
  · cases h
  · obtain ⟨found, _, h⟩ := Except.bind_eq_ok.mp h
    exact ⟨found, h⟩
  · exact ⟨_, h⟩
  · cases h

/-- Everything an accepted round checks and does. -/
theorem assessNext_eq_ok :
    e.assessNext ids resolver cutoff p fill = .ok (a, state, p') ↔
      p.lastTime ≤ fill.eventTime ∧ ids.fill fill ∉ p.seen ∧
      ¬(fill.newOrder ∧ (p.states (keyOf fill)).isSome) ∧
      (∃ found, resolver.mapM (fun r => r.resolve fill.context fill.eventTime cutoff) = .ok found ∧
        e.assess ids fill found ((p.states (keyOf fill)).getD none) = .ok (a, state)) ∧
      p' = ⟨Function.update p.states (keyOf fill) (some state), p.seen ++ [ids.fill fill],
        fill.eventTime⟩ := by
  unfold assessNext
  dsimp only
  constructor
  · intro h
    split at h
    · cases h
    · next horder =>
      split at h
      · cases h
      · next hnew =>
        obtain ⟨found, hfound, h⟩ := Except.bind_eq_ok.mp h
        obtain ⟨x, hx, h⟩ := Except.bind_eq_ok.mp h
        cases h
        rw [not_or, not_lt] at horder
        exact ⟨horder.1, horder.2, hnew, ⟨found, hfound, hx⟩, rfl⟩
  · rintro ⟨htime, hseen, hnew, ⟨found, hfound, hassess⟩, rfl⟩
    rw [if_neg (by rw [not_or, not_lt]; exact ⟨htime, hseen⟩), if_neg hnew, hfound]
    show (e.assess ids fill found _ >>= _) = _
    rw [hassess]
    rfl

/-- As much of the progress as one order reads. -/
structure Progress.Within (key : OrderKey) (q p : Progress) : Prop where
  states : q.states key = p.states key
  seen : ∀ id ∈ q.seen, id ∈ p.seen
  lastTime : q.lastTime ≤ p.lastTime

/-- A fill of the order does the same from both. -/
theorem assessNext_same (hq : q.Within key p) (hkey : keyOf fill = key)
    (h : e.assessNext ids resolver cutoff p fill = .ok (a, state, p')) :
    ∃ q', e.assessNext ids resolver cutoff q fill = .ok (a, state, q') ∧ q'.Within key p' := by
  obtain ⟨htime, hseen, hnew, hassess, rfl⟩ := assessNext_eq_ok.mp h
  subst hkey
  rw [← hq.states] at hnew hassess
  refine ⟨_, assessNext_eq_ok.mpr
    ⟨hq.lastTime.trans htime, fun hmem => hseen (hq.seen _ hmem), hnew, hassess, rfl⟩, ?_⟩
  constructor
  case states => simp
  case seen =>
    intro id hid
    rcases List.mem_append.mp hid with hid | hid
    · exact List.mem_append_left _ (hq.seen id hid)
    · exact List.mem_append_right _ hid
  case lastTime => exact le_rfl

/-- A fill of another order leaves what the order reads. -/
theorem assessNext_other (hq : q.Within key p) (hkey : keyOf fill ≠ key)
    (h : e.assessNext ids resolver cutoff p fill = .ok (a, state, p')) : q.Within key p' := by
  obtain ⟨htime, _, _, _, rfl⟩ := assessNext_eq_ok.mp h
  constructor
  case states =>
    rw [hq.states]
    exact (Function.update_of_ne (Ne.symm hkey) _ _).symm
  case seen => exact fun id hid => List.mem_append_left _ (hq.seen id hid)
  case lastTime => exact hq.lastTime.trans htime

/-- What one round says of its assessment. -/
theorem assessNext_assessed (h : e.assessNext ids resolver cutoff p fill = .ok (a, state, p')) :
    a.fill = fill ∧ a.priorOrderState = (p.states (keyOf fill)).getD none ∧
      (a.unknowns = [] → ∃ ds, a.netDeltas = some ds ∧ (ds.map (·.asset)).Nodup ∧
        ∀ asset, deltaOf ds asset =
          grossOf fill asset - entriesOf a.charges asset + entriesOf a.rebates asset) ∧
      ∀ s ∈ state, a.Balanced s := by
  obtain ⟨_, _, _, ⟨_, _, hassess⟩, _⟩ := assessNext_eq_ok.mp h
  obtain ⟨_, hfound⟩ := assess_eq_ok hassess
  obtain ⟨hfill, _, hprior, hdeltas, hbalanced⟩ := assessResolved_eq_ok hfound
  exact ⟨hfill, hprior, hdeltas, hbalanced⟩

/-! ## All rounds -/

theorem assessLoop_cons :
    e.assessLoop ids resolver cutoff p (fill :: fills) = .ok results ↔
      ∃ a state p' rest, e.assessNext ids resolver cutoff p fill = .ok (a, state, p') ∧
        e.assessLoop ids resolver cutoff p' fills = .ok rest ∧ results = (a, state) :: rest := by
  rw [assessLoop, Except.bind_eq_ok]
  constructor
  · rintro ⟨⟨a, state, p'⟩, hnext, h⟩
    obtain ⟨rest, hrest, h⟩ := Except.bind_eq_ok.mp h
    cases h
    exact ⟨a, state, p', rest, hnext, hrest, rfl⟩
  · rintro ⟨a, state, p', rest, hnext, hrest, rfl⟩
    refine ⟨_, hnext, ?_⟩
    dsimp only
    rw [hrest]
    rfl

theorem assessLoop_fills (h : e.assessLoop ids resolver cutoff p fills = .ok results) :
    results.map (·.1.fill) = fills := by
  induction fills generalizing p results with
  | nil =>
    cases h
    rfl
  | cons fill fills ih =>
    obtain ⟨a, state, p', rest, hnext, hrest, rfl⟩ := assessLoop_cons.mp h
    rw [List.map_cons, ih hrest, (assessNext_assessed hnext).1]

/-- Nothing of the other orders is in the assessments of one. -/
theorem assessLoop_filter (hq : q.Within key p)
    (h : e.assessLoop ids resolver cutoff p fills = .ok results) :
    e.assessLoop ids resolver cutoff q (fills.filter (keyOf · = key)) =
      .ok (results.filter (keyOf ·.1.fill = key)) := by
  induction fills generalizing p q results with
  | nil =>
    cases h
    rfl
  | cons fill fills ih =>
    obtain ⟨a, state, p', rest, hnext, hrest, rfl⟩ := assessLoop_cons.mp h
    have hfill : a.fill = fill := (assessNext_assessed hnext).1
    by_cases hkey : keyOf fill = key
    · obtain ⟨q', hnext', hq'⟩ := assessNext_same hq hkey hnext
      rw [List.filter_cons_of_pos (by simpa using hkey),
        List.filter_cons_of_pos (by simpa [hfill] using hkey)]
      exact assessLoop_cons.mpr ⟨a, state, q', _, hnext', ih hq' hrest, rfl⟩
    · rw [List.filter_cons_of_neg (by simpa using hkey),
        List.filter_cons_of_neg (by simpa [hfill] using hkey)]
      exact ih (assessNext_other hq hkey hnext) hrest

theorem assessLoop_conserves (h : e.assessLoop ids resolver cutoff p fills = .ok results) :
    ∀ x ∈ results, x.1.unknowns = [] → ∃ ds, x.1.netDeltas = some ds ∧
      (ds.map (·.asset)).Nodup ∧ ∀ asset, deltaOf ds asset =
        grossOf x.1.fill asset - entriesOf x.1.charges asset + entriesOf x.1.rebates asset := by
  induction fills generalizing p results with
  | nil =>
    cases h
    simp
  | cons fill fills ih =>
    obtain ⟨a, state, p', rest, hnext, hrest, rfl⟩ := assessLoop_cons.mp h
    obtain ⟨hfill, _, hdeltas, _⟩ := assessNext_assessed hnext
    intro x hx
    rcases List.mem_cons.mp hx with rfl | hx
    · rw [hfill]
      exact hdeltas
    · exact ih hrest x hx

/-! ## The fills of one order -/

/-- Each assessment starts with the state the one before it left, and balances. -/
def Threaded : Option OrderState → List (FeeAssessment × Option OrderState) → Prop
  | _, [] => True
  | prior, x :: rest =>
    x.1.priorOrderState = prior ∧ (∀ s ∈ x.2, x.1.Balanced s) ∧ Threaded x.2 rest

theorem assessLoop_threaded (key : OrderKey) (hfills : ∀ fill ∈ fills, keyOf fill = key)
    (h : e.assessLoop ids resolver cutoff p fills = .ok results) :
    Threaded ((p.states key).getD none) results := by
  induction fills generalizing p results with
  | nil =>
    cases h
    trivial
  | cons fill fills ih =>
    obtain ⟨a, state, p', rest, hnext, hrest, rfl⟩ := assessLoop_cons.mp h
    have hkey : keyOf fill = key := hfills fill (by simp)
    obtain ⟨_, hprior, _, hbalanced⟩ := assessNext_assessed hnext
    obtain ⟨_, _, _, _, rfl⟩ := assessNext_eq_ok.mp hnext
    have htail := ih (fun f hf => hfills f (by simp [hf])) hrest
    rw [hkey] at hprior htail
    refine ⟨hprior, hbalanced, ?_⟩
    simpa using htail

/-- Every prefix of an order with known states ends with the carry of its charges less what was
    granted. -/
theorem threaded_carry {prior : Option OrderState} {run rest : List (FeeAssessment × Option OrderState)}
    (h : Threaded prior (run ++ rest)) (hknown : ∀ x ∈ run, x.2.isSome) :
    (∀ x ∈ run, ∀ s ∈ x.2, x.1.Balanced s) ∧
      (run.map (·.1.rounding)).sum - (run.map (·.1.granted)).sum =
        previousCarry ((run.map (·.2)).getLastD prior) - previousCarry prior := by
  induction run generalizing prior with
  | nil => simp
  | cons x run ih =>
    obtain ⟨hprior, hbalanced, htail⟩ := h
    obtain ⟨hrun, hsum⟩ := ih htail fun y hy => hknown y (by simp [hy])
    obtain ⟨s, hs⟩ := Option.isSome_iff_exists.mp (hknown x (by simp))
    have hcarry : previousCarry x.2 = previousCarry prior + x.1.rounding - x.1.granted := by
      rw [hs, ← hprior]
      exact (hbalanced s hs).carry
    refine ⟨fun y hy => ?_, ?_⟩
    · rcases List.mem_cons.mp hy with rfl | hy
      · exact hbalanced
      · exact hrun y hy
    · have hlast : ((x :: run).map (·.2)).getLastD prior = (run.map (·.2)).getLastD x.2 := by
        rw [List.map_cons, List.getLastD_cons]
      rw [List.map_cons, List.map_cons, List.sum_cons, List.sum_cons, hlast]
      linarith

/-! ## All orders -/

theorem assessStates_eq_ok (h : e.assessStates ids fills resolver cutoff = .ok results) :
    ∃ r c, e.assessLoop ids r c {} fills = .ok results ∧
      ∀ fs, e.assessStates ids fs resolver cutoff = e.assessLoop ids r c {} fs := by
  unfold assessStates at h
  split at h
  · next hbound =>
    split at h
    · cases h
    · next hoverride =>
      refine ⟨none, none, h, fun fs => ?_⟩
      rw [assessStates, if_pos hbound, if_neg hoverride]
  · next hbound =>
    split at h
    · cases h
    · next hmissing =>
      refine ⟨resolver, cutoff, h, fun fs => ?_⟩
      rw [assessStates, if_neg hbound, if_neg hmissing]

/-- The assessments of an accepted sequence of fills: those of each order are the ones it gets
    alone, each conserves every asset, and the carry of an order is what its rounding charges are
    above what was granted. -/
theorem assessStates_accounts (h : e.assessStates ids fills resolver cutoff = .ok results) :
    e.assessMany ids fills resolver cutoff = .ok (results.map (·.1)) ∧
      results.map (·.1.fill) = fills ∧
      (∀ key, e.assessMany ids (fills.filter (keyOf · = key)) resolver cutoff =
        .ok ((results.filter (keyOf ·.1.fill = key)).map (·.1))) ∧
      (∀ x ∈ results, x.1.unknowns = [] → ∃ ds, x.1.netDeltas = some ds ∧
        (ds.map (·.asset)).Nodup ∧ ∀ asset, deltaOf ds asset =
          grossOf x.1.fill asset - entriesOf x.1.charges asset + entriesOf x.1.rebates asset) ∧
      ∀ key run rest, results.filter (keyOf ·.1.fill = key) = run ++ rest →
        (∀ x ∈ run, x.2.isSome) →
        (∀ x ∈ run, ∀ s ∈ x.2, x.1.Balanced s) ∧
          (run.map (·.1.rounding)).sum - (run.map (·.1.granted)).sum =
            previousCarry ((run.map (·.2)).getLastD none) := by
  obtain ⟨r, c, hloop, hstates⟩ := assessStates_eq_ok h
  have halone (key : OrderKey) : e.assessLoop ids r c {} (fills.filter (keyOf · = key)) =
      .ok (results.filter (keyOf ·.1.fill = key)) :=
    assessLoop_filter ⟨rfl, fun _ hid => hid, le_rfl⟩ hloop
  refine ⟨?_, assessLoop_fills hloop, fun key => ?_, assessLoop_conserves hloop, ?_⟩
  · rw [assessMany, h]
    rfl
  · rw [assessMany, hstates, halone key]
    rfl
  · intro key run rest hrun hknown
    have hthreaded := assessLoop_threaded key (by simp) (halone key)
    rw [hrun] at hthreaded
    obtain ⟨hbalanced, hsum⟩ := threaded_carry hthreaded hknown
    refine ⟨hbalanced, ?_⟩
    rw [hsum]
    simp [previousCarry]

/-! ## A sample -/

def sampleQuote : Asset := ⟨.usd, "none", "usd", by decide⟩

def sampleEconomics : InstrumentEconomics where
  quote := sampleQuote
  outcome := ⟨.outcome, "kalshi", "m-yes", by decide⟩
  payout := ⟨sampleQuote, 1, 0, by decide, by decide⟩
  quoteScale := 6
  quantityScale := 2
  priceScale := 4
  kinds := by decide
  positive := by norm_num [Fixed.value]
  scales := by decide

/-- Three contracts at fifty cents. -/
def sampleFill (id order : String) (index : Nat) (hnamed : id ≠ "" ∧ order ≠ "") :
    HypotheticalFill where
  fillId := id
  context := ⟨.kalshi, .clob, "m", none, none, none, "m-yes", "yes", "a", "0", .nonDirect,
    .absent, by decide⟩
  economics := sampleEconomics
  side := .buy
  price := ⟨50, 2, by decide, by decide⟩
  probability := ⟨⟨50, 2, by decide, by decide⟩, by norm_num [Fixed.value]⟩
  quantity := ⟨3, 0, by decide, by decide⟩
  grossNotional := ⟨sampleQuote, 15, 1, by decide, by decide⟩
  eventTime := 7
  role := .taker
  orderKey := order
  fillIndex := index
  newOrder := index = 0
  named := ⟨hnamed.1, hnamed.2, by decide⟩
  positive := by norm_num [Fixed.value]
  starts := by simp
  gross := ⟨rfl, by norm_num [Fixed.value]⟩
  exact := by decide +kernel

/-- The quadratic model, for every context and time. -/
def sampleResolver : Resolver where
  resolve context eventTime _ := .ok ⟨context, eventTime,
    .selection ⟨⟨.platform, sampleEconomics, sampleQuote, 6, by decide⟩,
      .kalshi (some .quadratic) (some ⟨1, 0, by decide, by decide⟩)⟩,
    .unknown ⟨.account, .missing, []⟩, none⟩
  referenceTime := none

/-- Two fills of one order, and one of another between them. -/
def sampleFills : List HypotheticalFill :=
  [sampleFill "1" "o" 0 (by decide), sampleFill "2" "p" 0 (by decide),
    sampleFill "3" "o" 1 (by decide)]

def sampleIds : Identities := ⟨Asset.token, HypotheticalFill.fillId, Policy.name⟩

/-- The second fill of the order starts with three quarters of a cent and is given a cent back. -/
theorem assessStates_accounts_sample : ∃ results,
    assessStates sampleIds {} sampleFills (some sampleResolver) none = .ok results ∧
      results.map (·.2.map (·.carry.value)) = [some (3 / 400), some (3 / 400), some (1 / 200)] ∧
      results.map (·.1.fill) = sampleFills := by
  have hcarries : (assessStates sampleIds {} sampleFills (some sampleResolver) none).toOption.map
      (·.map (·.2.map (·.carry.value))) = some [some (3 / 400), some (3 / 400), some (1 / 200)] := by
    decide +kernel
  obtain ⟨results, hresults, hvalues⟩ := Option.map_eq_some_iff.mp hcarries
  have hok : assessStates sampleIds {} sampleFills (some sampleResolver) none = .ok results := by
    cases h : assessStates sampleIds {} sampleFills (some sampleResolver) none with
    | error _ => rw [h] at hresults; cases hresults
    | ok r => rw [h] at hresults; cases hresults; rfl
  exact ⟨results, hok, hvalues, (assessStates_accounts hok).2.1⟩

end FeeEngine

end PredictionIndexer.Fees
