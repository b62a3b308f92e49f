import PredictionIndexer.Engine.BookBuild
import PredictionIndexer.ForStd.Result

/-!
# Full books are canonical

Construction sorts and then looks for equal neighbours; validation looks at the neighbours of the
levels as they stand. Both accept just the levels of one price scale and one quantity scale whose
prices are distinct, and a canonical book has one form, whatever order its levels came in.

A book keeps the venue time it was given after its construction; `FullBook::new` knows none.
-/

namespace PredictionIndexer.Engine

/-! ## What the checks accept -/

/-- The levels of a book share one price scale and one quantity scale. -/
def SharedScales (levels : List Level) : Prop :=
  ∀ a ∈ levels, ∀ b ∈ levels, a.price.scale = b.price.scale ∧ a.quantity.scale = b.quantity.scale

/-- No two levels of a side have one price. -/
def PricesDistinct (levels : List Level) : Prop := (levels.map (·.price.atoms)).Nodup

/-- A level before another on its side: the better price first. -/
def Before : Side → Level → Level → Prop
  | .bid, a, b => b.price.atoms < a.price.atoms
  | .ask, a, b => a.price.atoms < b.price.atoms

instance (side : Side) : Trans (Before side) (Before side) (Before side) where
  trans := by
    intro a b c hab hbc
    cases side with
    | bid => exact lt_trans hbc hab
    | ask => exact lt_trans hab hbc

/-- The levels of a side in their order. -/
def Ordered (side : Side) (levels : List Level) : Prop := levels.Pairwise (Before side)

section Checks

variable {bids asks levels : List Level} {u : Unit}

theorem sharedScales_iff : validLevelScales bids asks = true ↔ SharedScales (bids ++ asks) := by
  unfold validLevelScales SharedScales
  cases h : bids ++ asks with
  | nil => simp
  | cons first rest =>
    simp only [List.all_eq_true, Bool.and_eq_true, decide_eq_true_eq]
    constructor
    · intro hall
      have hfirst : ∀ a ∈ first :: rest,
          a.price.scale = first.price.scale ∧ a.quantity.scale = first.quantity.scale := by
        intro a ha
        rcases List.mem_cons.mp ha with rfl | ha
        · exact ⟨rfl, rfl⟩
        · exact hall a ha
      intro a ha b hb
      obtain ⟨hprice, hquantity⟩ := hfirst a ha
      obtain ⟨hprice', hquantity'⟩ := hfirst b hb
      exact ⟨hprice.trans hprice'.symm, hquantity.trans hquantity'.symm⟩
    · intro hall a ha
      exact hall a (List.mem_cons_of_mem first ha) first List.mem_cons_self

theorem validateLevelScales_eq_ok :
    validateLevelScales bids asks = .ok u ↔ SharedScales (bids ++ asks) := by
  rw [← sharedScales_iff]
  unfold validateLevelScales
  split <;> simp_all

theorem rejectDuplicatePrices_eq_ok : rejectDuplicatePrices levels = .ok u ↔
    ∀ p ∈ levels.neighbours, p.1.price.atoms ≠ p.2.price.atoms := by
  unfold rejectDuplicatePrices
  split <;> simp_all

theorem ordered_iff_neighbours (side : Side) :
    Ordered side levels ↔ ∀ p ∈ levels.neighbours, Before side p.1 p.2 :=
  List.isChain_iff_pairwise.symm.trans List.forall_neighbours_iff.symm

/-- The two rules of a side come to its strict order. -/
theorem validateOrder_eq_ok (side : Side) :
    validateOrder levels side = .ok u ↔ Ordered side levels := by
  rw [ordered_iff_neighbours]
  unfold validateOrder
  rw [Except.bind_eq_ok]
  constructor
  · rintro ⟨_, -, horder⟩ p hp
    by_contra hbad
    rw [if_pos (List.any_eq_true.mpr ⟨p, hp, ?_⟩)] at horder
    · cases horder
    · cases side <;> simpa [Before] using hbad
  · intro hall
    refine ⟨(), rejectDuplicatePrices_eq_ok.mpr ?_, ?_⟩
    · intro p hp heq
      have hlt := hall p hp
      cases side <;> simp [Before, heq] at hlt
    · rw [if_neg]
      intro hany
      obtain ⟨p, hp, hbad⟩ := List.any_eq_true.mp hany
      have hlt := hall p hp
      cases side <;> simp only [Before, decide_eq_true_eq, ge_iff_le] at hbad hlt <;> omega

theorem validOrder_iff (side : Side) : validOrder side levels = true ↔ Ordered side levels := by
  rw [ordered_iff_neighbours]
  unfold validOrder
  rw [List.all_eq_true]
  cases side <;> simp [List.neighbours, Before]

end Checks

/-! ## Construction -/

/-- The key `FullBook::new` sorts the bids by, and the one for the asks. -/
def bidKey (level : Level) : Intᵒᵈ := OrderDual.toDual level.price.atoms

def askKey (level : Level) : Int := level.price.atoms

section New

variable {bids asks bids' asks' : List Level} {instrument : InstrumentId}
  {orientation : ContractOrientation} {snapshotHash : Option BookStateHash}
  {sourceObservedNs : Option Nat} {b : BookFields}

theorem pricesDistinct_bids : PricesDistinct bids ↔ (bids.map bidKey).Nodup := by
  unfold PricesDistinct
  rw [← List.nodup_map_iff OrderDual.toDual.injective, List.map_map]
  rfl

/-- Behind the sort equal neighbours are all there is to reject. -/
theorem rejectDuplicatePrices_bids {u : Unit} :
    rejectDuplicatePrices (bids.sortByKey bidKey) = .ok u ↔ PricesDistinct bids := by
  have hnodup := List.nodup_iff_neighbours (List.pairwise_sortByKey bidKey bids)
  rw [rejectDuplicatePrices_eq_ok, pricesDistinct_bids,
    ← ((List.sortByKey_perm bidKey bids).map bidKey).nodup_iff, hnodup]
  rfl

theorem rejectDuplicatePrices_asks {u : Unit} :
    rejectDuplicatePrices (asks.sortByKey askKey) = .ok u ↔ PricesDistinct asks := by
  have hnodup := List.nodup_iff_neighbours (List.pairwise_sortByKey askKey asks)
  rw [rejectDuplicatePrices_eq_ok, PricesDistinct, show (fun level : Level => level.price.atoms) =
    askKey from rfl, ← ((List.sortByKey_perm askKey asks).map askKey).nodup_iff, hnodup]
  rfl

/-- The construction accepts one scale and distinct prices, and sorts. -/
theorem new_eq_ok :
    BookFields.new instrument orientation bids asks snapshotHash sourceObservedNs = .ok b ↔
      (SharedScales (bids ++ asks) ∧ PricesDistinct bids ∧ PricesDistinct asks) ∧
      b = ⟨instrument, orientation, bids.sortByKey bidKey, asks.sortByKey askKey, snapshotHash,
        sourceObservedNs, none⟩ := by
  unfold BookFields.new
  constructor
  · intro h
    obtain ⟨_, hscales, h⟩ := Except.bind_eq_ok.mp h
    obtain ⟨_, hbids, h⟩ := Except.bind_eq_ok.mp h
    obtain ⟨_, hasks, h⟩ := Except.bind_eq_ok.mp h
    cases h
    exact ⟨⟨validateLevelScales_eq_ok.mp hscales, rejectDuplicatePrices_bids.mp hbids,
      rejectDuplicatePrices_asks.mp hasks⟩, rfl⟩
  · rintro ⟨⟨hscales, hbids, hasks⟩, rfl⟩
    refine Except.bind_eq_ok.mpr ⟨(), validateLevelScales_eq_ok.mpr hscales, ?_⟩
    refine Except.bind_eq_ok.mpr ⟨(), rejectDuplicatePrices_bids.mpr hbids, ?_⟩
    exact Except.bind_eq_ok.mpr ⟨(), rejectDuplicatePrices_asks.mpr hasks, rfl⟩

/-- A refusal names the rule that is broken, the scales before the prices. -/
theorem new_eq_error (h : ¬(SharedScales (bids ++ asks) ∧ PricesDistinct bids ∧
    PricesDistinct asks)) :
    BookFields.new instrument orientation bids asks snapshotHash sourceObservedNs =
      .error (if validLevelScales bids asks then .duplicatePrice else .scaleMismatch) := by
  have hreject : ∀ levels, ¬(∃ u, rejectDuplicatePrices levels = .ok u) →
      rejectDuplicatePrices levels = .error .duplicatePrice := by
    intro levels hnone
    unfold rejectDuplicatePrices at hnone ⊢
    split at hnone
    next hany => rw [if_pos hany]
    next => exact absurd ⟨(), rfl⟩ hnone
  unfold BookFields.new validateLevelScales
  cases hscales : validLevelScales bids asks with
  | false => rfl
  | true =>
    have hshared := sharedScales_iff.mp hscales
    simp only [if_true, Except.ok_bind]
    by_cases hbids : PricesDistinct bids
    · have hasks : ¬PricesDistinct asks := fun hasks => h ⟨hshared, hbids, hasks⟩
      have hok : rejectDuplicatePrices (bids.sortByKey bidKey) = .ok () :=
        rejectDuplicatePrices_bids.mpr hbids
      have herror := hreject (asks.sortByKey askKey) fun hok =>
        hasks (rejectDuplicatePrices_asks.mp hok.choose_spec)
      show (rejectDuplicatePrices (bids.sortByKey bidKey) >>= fun _ =>
        rejectDuplicatePrices (asks.sortByKey askKey) >>= fun _ => _) = _
      rw [hok, Except.ok_bind, herror]
      rfl
    · have herror := hreject (bids.sortByKey bidKey) fun hok =>
        hbids (rejectDuplicatePrices_bids.mp hok.choose_spec)
      show (rejectDuplicatePrices (bids.sortByKey bidKey) >>= fun _ => _) = _
      rw [herror]
      rfl

theorem sharedScales_perm (hbids : bids.Perm bids') (hasks : asks.Perm asks') :
    SharedScales (bids ++ asks) ↔ SharedScales (bids' ++ asks') := by
  have hmem : ∀ a, a ∈ bids ++ asks ↔ a ∈ bids' ++ asks' :=
    fun a => (hbids.append hasks).mem_iff
  unfold SharedScales
  simp only [hmem]

theorem pricesDistinct_perm (h : bids.Perm bids') : PricesDistinct bids ↔ PricesDistinct bids' :=
  (h.map _).nodup_iff

/-- The order in which the levels are given does not matter. -/
theorem new_eq_of_perm (hbids : bids.Perm bids') (hasks : asks.Perm asks') :
    BookFields.new instrument orientation bids asks snapshotHash sourceObservedNs =
      BookFields.new instrument orientation bids' asks' snapshotHash sourceObservedNs := by
  have hsame : (SharedScales (bids ++ asks) ∧ PricesDistinct bids ∧ PricesDistinct asks) ↔
      (SharedScales (bids' ++ asks') ∧ PricesDistinct bids' ∧ PricesDistinct asks') := by
    rw [sharedScales_perm hbids hasks, pricesDistinct_perm hbids, pricesDistinct_perm hasks]
  by_cases h : SharedScales (bids ++ asks) ∧ PricesDistinct bids ∧ PricesDistinct asks
  · have hsort : bids.sortByKey bidKey = bids'.sortByKey bidKey :=
      List.sortByKey_eq_of_perm hbids (pricesDistinct_bids.mp h.2.1)
    have hsort' : asks.sortByKey askKey = asks'.sortByKey askKey :=
      List.sortByKey_eq_of_perm hasks h.2.2
    rw [new_eq_ok.mpr ⟨h, rfl⟩, new_eq_ok.mpr ⟨hsame.mp h, rfl⟩, hsort, hsort']
  · have hscales : validLevelScales bids asks = validLevelScales bids' asks' := by
      rw [Bool.eq_iff_iff, sharedScales_iff, sharedScales_iff, sharedScales_perm hbids hasks]
    rw [new_eq_error h, new_eq_error fun h' => h (hsame.mpr h'), hscales]

theorem validate_eq_ok {u : Unit} : b.validate = .ok u ↔
    SharedScales (b.bids ++ b.asks) ∧ Ordered .bid b.bids ∧ Ordered .ask b.asks := by
  unfold BookFields.validate
  constructor
  · intro h
    obtain ⟨_, hscales, h⟩ := Except.bind_eq_ok.mp h
    obtain ⟨_, hbids, hasks⟩ := Except.bind_eq_ok.mp h
    exact ⟨validateLevelScales_eq_ok.mp hscales, (validateOrder_eq_ok .bid).mp hbids,
      (validateOrder_eq_ok .ask).mp hasks⟩
  · rintro ⟨hscales, hbids, hasks⟩
    refine Except.bind_eq_ok.mpr ⟨(), validateLevelScales_eq_ok.mpr hscales, ?_⟩
    exact Except.bind_eq_ok.mpr ⟨(), (validateOrder_eq_ok .bid).mpr hbids,
      (validateOrder_eq_ok .ask).mpr hasks⟩

/-- What the construction returns passes the checks of a decoded book. -/
theorem validate_of_new
    (h : BookFields.new instrument orientation bids asks snapshotHash sourceObservedNs = .ok b) :
    b.validate = .ok () := by
  obtain ⟨⟨hscales, hbids, hasks⟩, rfl⟩ := new_eq_ok.mp h
  have hbidPerm := List.sortByKey_perm bidKey bids
  have haskPerm := List.sortByKey_perm askKey asks
  apply validate_eq_ok.mpr
  constructor
  · exact (sharedScales_perm hbidPerm haskPerm).mpr hscales
  · constructor
    · exact List.pairwise_lt_sortByKey (pricesDistinct_bids.mp hbids)
    · have hkeys : (asks.map askKey).Nodup := hasks
      exact List.pairwise_lt_sortByKey hkeys

/-- A valid book rebuilt from its own levels is the same book, without its venue time. -/
theorem new_of_validate (h : b.validate = .ok ()) :
    BookFields.new b.instrument b.orientation b.bids b.asks b.snapshotHash b.sourceObservedNs =
      .ok (b.withVenueTime none) := by
  obtain ⟨hscales, hbids, hasks⟩ := validate_eq_ok.mp h
  -- a strict order has no equal prices
  have hbidsDistinct : PricesDistinct b.bids := by
    rw [PricesDistinct, List.Nodup, List.pairwise_map]
    exact hbids.imp fun hlt => (ne_of_lt hlt).symm
  have hasksDistinct : PricesDistinct b.asks := by
    rw [PricesDistinct, List.Nodup, List.pairwise_map]
    exact hasks.imp fun hlt => ne_of_lt hlt
  have hbidsSort : b.bids.sortByKey bidKey = b.bids :=
    List.sortByKey_of_pairwise (hbids.imp fun hlt => le_of_lt hlt)
  have hasksSort : b.asks.sortByKey askKey = b.asks :=
    List.sortByKey_of_pairwise (hasks.imp fun hlt => le_of_lt hlt)
  apply new_eq_ok.mpr
  exact ⟨⟨hscales, hbidsDistinct, hasksDistinct⟩, by rw [hbidsSort, hasksSort]; rfl⟩

/-- The valid field values are those of the books. -/
theorem validate_iff_fullBook : b.validate = .ok () ↔ ∃ book : FullBook, book.fields = b := by
  rw [validate_eq_ok, ← sharedScales_iff, ← validOrder_iff, ← validOrder_iff]
  constructor
  · intro ⟨hscales, hbids, hasks⟩
    exact ⟨⟨b.instrument, b.orientation, b.bids, b.asks, b.snapshotHash, b.sourceObservedNs,
      b.venueTime, hscales, hbids, hasks⟩, rfl⟩
  · intro ⟨book, hbook⟩
    rw [← hbook]
    exact ⟨book.scales, book.bidOrder, book.askOrder⟩

end New

/-- Construction is canonical: it accepts the levels of one scale whose prices are distinct on each
side, answers every order of them alike, returns a valid book of just these levels, and takes any
valid book back as it is but for the venue time, which it does not know. -/
theorem fullBook_new_canonical (instrument : InstrumentId) (orientation : ContractOrientation)
    (snapshotHash : Option BookStateHash) (sourceObservedNs : Option Nat) :
    (∀ bids asks : List Level,
      ((∃ b, BookFields.new instrument orientation bids asks snapshotHash sourceObservedNs =
          .ok b) ↔
        SharedScales (bids ++ asks) ∧ PricesDistinct bids ∧ PricesDistinct asks) ∧
      (∀ bids' asks', bids.Perm bids' → asks.Perm asks' →
        BookFields.new instrument orientation bids asks snapshotHash sourceObservedNs =
          BookFields.new instrument orientation bids' asks' snapshotHash sourceObservedNs) ∧
      (∀ b, BookFields.new instrument orientation bids asks snapshotHash sourceObservedNs = .ok b →
        b.validate = .ok () ∧ b.bids.Perm bids ∧ b.asks.Perm asks)) ∧
    (∀ b : BookFields, b.validate = .ok () →
      BookFields.new b.instrument b.orientation b.bids b.asks b.snapshotHash b.sourceObservedNs =
          .ok (b.withVenueTime none) ∧
      (b.withVenueTime none).withVenueTime b.venueTime = b) ∧
    (∀ b : BookFields, b.validate = .ok () ↔ ∃ book : FullBook, book.fields = b) := by
  refine ⟨fun bids asks => ⟨?_, ?_, ?_⟩, ?_, fun b => validate_iff_fullBook⟩
  · constructor
    · intro ⟨b, hb⟩
      exact (new_eq_ok.mp hb).1
    · intro h
      exact ⟨_, new_eq_ok.mpr ⟨h, rfl⟩⟩
  · intro bids' asks' hbids hasks
    exact new_eq_of_perm hbids hasks
  · intro b hb
    obtain ⟨-, hb'⟩ := new_eq_ok.mp hb
    refine ⟨validate_of_new hb, ?_, ?_⟩
    · rw [hb']
      exact List.sortByKey_perm bidKey bids
    · rw [hb']
      exact List.sortByKey_perm askKey asks
  · intro b hb
    exact ⟨new_of_validate hb, rfl⟩

/-- Rebuilt from its levels alone, a book with a venue time comes back without it. -/
theorem new_forgets_venueTime :
    (BookFields.mk ⟨"kalshi:a", by decide, by decide⟩ .outcome [] [] none none
      (some ⟨none, none, none, some 7, by decide⟩)).validate = .ok () ∧
    BookFields.new ⟨"kalshi:a", by decide, by decide⟩ .outcome [] [] none none ≠
      .ok (BookFields.mk ⟨"kalshi:a", by decide, by decide⟩ .outcome [] [] none none
        (some ⟨none, none, none, some 7, by decide⟩)) := by
  constructor
  · rfl
  · intro h
    obtain ⟨-, hb⟩ := new_eq_ok.mp h
    exact Option.some_ne_none _ (congrArg BookFields.venueTime hb)

end PredictionIndexer.Engine
