import PredictionIndexer.Engine.Wire
import PredictionIndexer.Spec.BookIndex
import PredictionIndexer.Spec.RiskReplay
import PredictionIndexer.Streams.Decoder

/-!
# Consumer books simulate the risk engine

The engine sends every cut as JSON, and the decoder rebuilds the books from it. A consumer book
agrees with the engine's view of its key (`Agrees`) when revision, validity and ladder are the
same; every transition the engine commits is accepted by the decoder and keeps the agreement,
so it holds after every record of every run. The lines under the terminal digest are then the
same on both sides, in the same order: Rust sorts UTF-8 bytes, Python code points.

Key results:
- `transition_agrees` — one transition, sent and applied
- `cut_agrees` — one cut
- `consumer_books_simulate` — every prefix of every run
-/

namespace PredictionIndexer.Spec

open Engine Streams

/-! ## Wire values as the decoder reads them -/

theorem exactItems_eq_map (items : List Json) : Wire.exactItems items = items.map Wire.exact := by
  induction items with
  | nil => rfl
  | cons v items ih =>
    rw [Wire.exactItems, ih]
    rfl

theorem iterate_exact_array (items : List Json) :
    iterate (Wire.exact (.array items)) = .ok (items.map Wire.exact) := by
  rw [Wire.exact, iterate, exactItems_eq_map]

theorem int_exact_number (n : Int) : int (Wire.exact (.number n)) = .ok n := by
  rw [Wire.exact, int, PyInt.parse_toString]
  rfl

theorem int_exact_nat (n : Nat) : int (Wire.exact (Wire.nat n)) = .ok (n : Int) :=
  int_exact_number n

/-- A side of a snapshot is read back as the entries of its map. -/
theorem side_reads (m : Std.ExtTreeMap Int Nat) :
    ∃ items, Wire.exact (Wire.side m) = .array items ∧
      List.Forall₂ ReadsLevel items m.toList := by
  refine ⟨_, by rw [Wire.side, Wire.exact, exactItems_eq_map, List.map_map], ?_⟩
  rw [List.forall₂_map_left_iff]
  refine List.forall₂_same.mpr ?_
  intro pq _
  exact ⟨_, _, rfl, int_exact_number pq.1, int_exact_nat pq.2⟩

theorem sideOf_spelling (s : Side) : sideOf (Wire.exact (.string s.spelling)) = .ok s := by
  cases s <;> rfl

/-- The consumer computes the quantity the engine computed. -/
theorem changed_eq {q : Quantities} {p : Int} {old new : Nat} (hget : q.get p = .ok (old : Int))
    {change : LevelChange} (h : change.new old = .ok new) :
    Book.changed q p (Wire.exact (Wire.change change)) = .ok (new : Int) := by
  have hatoms : ∀ (kind : String) (qty : PositiveQty), Book.changeAtoms (Wire.exact
      (.object [("kind", .string kind), ("value", Wire.quantity qty)])) = .ok (qty.atoms : Int) :=
    fun kind qty => int_exact_nat qty.atoms
  cases change with
  | delete =>
    obtain rfl := Except.ok.inj h
    rfl
  | set qty =>
    obtain rfl := Except.ok.inj h
    exact hatoms "set" qty
  | increase qty =>
    simp only [LevelChange.new] at h
    split at h
    · rename_i v hv
      obtain rfl := Except.ok.inj h
      obtain ⟨-, rfl⟩ := Fallible.checkedAdd_eq_some.mp (Option.filter_eq_some_iff.mp hv).1
      show (do let old ← q.get p; let n ← Book.changeAtoms _; pure (old + n)) = _
      rw [hget, Except.ok_bind, Wire.change, hatoms, Nat.cast_add]
      rfl
    · cases h
  | decrease qty =>
    simp only [LevelChange.new] at h
    split at h
    · rename_i hle
      obtain rfl := Except.ok.inj h
      show (do let old ← q.get p; let n ← Book.changeAtoms _; pure (old - n)) = _
      rw [hget, Except.ok_bind, Wire.change, hatoms, Nat.cast_sub hle]
      rfl
    · cases h

/-! ## Operations -/

/-- One operation does to the consumer's book what the delta does to the ladder. -/
theorem operation_holds {b : Book} {l l' : Ladder} (h : b.Holds l) (hsome : b.quantities.isSome)
    {delta : BookDelta} (hlimit : b.limit = 10 ^ delta.price.scale.exponent)
    (hstep : l.step delta = .ok l') :
    ∃ b', b.operation (Wire.exact (Wire.operation delta)) = .ok b' ∧ b.Restored b' ∧
      b'.quantities.isSome ∧ b'.Holds l' := by
  obtain ⟨quantities, hq⟩ := Option.isSome_iff_exists.mp hsome
  obtain ⟨new, hnew, hl'⟩ := Except.bind_eq_ok.mp hstep
  obtain rfl := Except.ok.inj hl'
  have h₀ := delta.price.atoms_nonneg
  have h₁ : delta.price.atoms ≤ b.limit := by
    rw [hlimit, Nat.cast_pow]
    exact delta.price.atoms_le
  have hget := ((h delta.side).storage quantities hq).get h₀ h₁
  obtain ⟨b', hplace, hrest⟩ := h.place hq (s := delta.side) h₀ h₁ new
  refine ⟨b', ?_, hrest⟩
  have hside : item (Wire.exact (Wire.operation delta)) "side" =
      .ok (Wire.exact (.string delta.side.spelling)) := rfl
  have hprice : item (Wire.exact (Wire.operation delta)) "price" =
      .ok (Wire.exact (Wire.price delta.price)) := rfl
  have hatoms : item (Wire.exact (Wire.price delta.price)) "atoms" =
      .ok (Wire.exact (.number delta.price.atoms)) := rfl
  have hchange : item (Wire.exact (Wire.operation delta)) "change" =
      .ok (Wire.exact (Wire.change delta.change)) := rfl
  simp only [Book.operation, hside, hprice, hatoms, hchange, Except.ok_bind, sideOf_spelling,
    int_exact_number, require, h₀, h₁, decide_true, Bool.and_self, if_true, hq, found,
    changed_eq hget hnew, hplace]

theorem operations_holds {b : Book} {l l' : Ladder} (h : b.Holds l) (hsome : b.quantities.isSome)
    {ops : List BookDelta} (hlimit : ∀ d ∈ ops, b.limit = 10 ^ d.price.scale.exponent)
    (hreplay : l.replay ops = .ok l') :
    ∃ b', b.operations (Wire.exact (.array (ops.map Wire.operation))) = .ok b' ∧ b.Restored b' ∧
      b'.quantities.isSome ∧ b'.Holds l' := by
  simp only [Book.operations, iterate_exact_array, Except.ok_bind, List.map_map]
  induction ops generalizing b l with
  | nil =>
    obtain rfl := Except.ok.inj hreplay
    exact ⟨b, rfl, Book.Restored.refl b, hsome, h⟩
  | cons delta ops ih =>
    obtain ⟨l₁, hstep, hreplay⟩ := List.foldlM_cons_eq_ok.mp hreplay
    obtain ⟨b₁, hrun₁, hr₁, hsome₁, hholds₁⟩ :=
      operation_holds h hsome (hlimit delta (by simp)) hstep
    have hlimit₁ : b₁.limit = b.limit := by rw [hr₁]
    obtain ⟨b', hrun, hr, hsome', hholds⟩ := ih hholds₁ hsome₁
      (fun d hd => by rw [hlimit₁, hlimit d (by simp [hd])]) hreplay
    refine ⟨b', ?_, hr₁.trans hr, hsome', hholds⟩
    rw [List.map_cons, List.foldlM_cons, Function.comp_apply, hrun₁]
    exact hrun

/-! ## One transition -/

/-- The decoder's key of a planned book. -/
def planKey (k : BookKey) : PlanKey := ⟨k.instrument.val, k.orientation.spelling⟩

theorem planKey_injective : Function.Injective planKey := by
  rintro ⟨i, o⟩ ⟨i', o'⟩ h
  obtain ⟨hi, ho⟩ := PlanKey.mk.inj h
  obtain rfl := InstrumentId.val_injective hi
  have hne : "outcome" ≠ "complement" := by decide
  cases o <;> cases o'
  · rfl
  · exact absurd ho hne
  · exact absurd ho hne.symm
  · rfl

/-- The consumer's name for a validity. -/
def consumerValidity : Engine.Validity → Streams.Validity
  | .notInitialized => .notInitialized
  | .usable => .usable
  | .unusable _ => .unusable

/-- A consumer book and the engine's view of the same key. -/
structure Agrees (plan : BookPlan) (book : Book) (view : BookView) : Prop where
  revision : book.revision = (view.revision : Int)
  validity : book.validity = consumerValidity view.validity
  limit : book.limit = 10 ^ plan.priceScale.exponent
  holds : book.Holds (view.ladder.getD ⟨∅, ∅⟩)
  allocated : view.validity = .usable → book.quantities.isSome

section Transition

variable {plan : BookPlan} {book : Book} {old : BookView} {t : BookTransition}

theorem inRange_of_sideOk {m : Std.ExtTreeMap Int Nat} (h : SideOk plan m) :
    InRange (10 ^ plan.priceScale.exponent) m := by
  intro p v hget
  obtain ⟨hpos, -, h₀, h₁⟩ := h p v hget
  refine ⟨hpos, h₀, ?_⟩
  rw [Nat.cast_pow]
  exact h₁

/-- What `decide` makes of a sent decision: it raises nothing, and the book holds the ladder of
    the new view. -/
theorem decide_agrees (h : Agrees plan book old) (hdecided : t.Decided plan old) :
    ∃ book', Decoder.decide book (Wire.exact (Wire.transition t)) = .ok book' ∧
      book'.validity = consumerValidity t.view.validity ∧ book'.limit = book.limit ∧
      book'.Holds (t.view.ladder.getD ⟨∅, ∅⟩) ∧
      (t.view.validity = .usable → book'.quantities.isSome) := by
  have hitem : item (Wire.exact (Wire.transition t)) "decision" =
      .ok (Wire.exact (Wire.decision t.decision)) := rfl
  have hdependency : item (Wire.exact (Wire.transition t)) "dependency" =
      .ok (Wire.exact (.ofOption Wire.dependency t.view.dependency)) := rfl
  cases hdecided with
  | snapshot l hdecision hvalidity hladder hrange =>
    obtain ⟨bids, hbids, hreadBids⟩ := side_reads l.bids
    obtain ⟨asks, hasks, hreadAsks⟩ := side_reads l.asks
    have hlimit := h.limit
    have hinRange : ∀ m, SideOk plan m → LevelsInRange book.limit m.toList := by
      intro m hm
      rw [hlimit]
      exact levelsInRange_toList (inRange_of_sideOk hm)
    obtain ⟨book', hrun, hr, hsome, hholds⟩ := h.holds.snapshot hreadBids hreadAsks
      (hinRange _ (hrange .bid)) (hinRange _ (hrange .ask)) (pairwise_toList _) (pairwise_toList _)
    rw [levelMap_toList, levelMap_toList] at hholds
    refine ⟨{ book' with
      validity := .usable
      dependency := Wire.exact (.ofOption Wire.dependency t.view.dependency)
      reason := .null }, ?_, by rw [hvalidity]; rfl, ?_, ?_, fun _ => hsome⟩
    · have hkind : item (Wire.exact (Wire.decision (.snapshot l))) "kind" =
          .ok (.string "snapshot") := rfl
      have hb : item (Wire.exact (Wire.decision (.snapshot l))) "bids" =
          .ok (Wire.exact (Wire.side l.bids)) := rfl
      have ha : item (Wire.exact (Wire.decision (.snapshot l))) "asks" =
          .ok (Wire.exact (Wire.side l.asks)) := rfl
      simp only [Decoder.decide, hitem, hdecision, Except.ok_bind, hkind, hb, ha, hbids, hasks,
        hrun, hdependency]
      rfl
    · show book'.limit = book.limit
      rw [hr]
    · rw [hladder]
      exact hholds.congr rfl rfl rfl rfl rfl
  | operations ops l₀ l hdecision hbefore hladder₀ hreplay hscales hvalidity hladder =>
    have hholds₀ := h.holds
    rw [hladder₀] at hholds₀
    have husable : book.validity = .usable := by rw [h.validity, hbefore]; rfl
    obtain ⟨book', hrun, hr, hsome, hholds⟩ := operations_holds hholds₀ (h.allocated hbefore)
      (fun d hd => by rw [h.limit, hscales d hd]) hreplay
    refine ⟨{ book' with
      dependency := Wire.exact (.ofOption Wire.dependency t.view.dependency) }, ?_, ?_, ?_, ?_,
      fun _ => hsome⟩
    · have hkind : item (Wire.exact (Wire.decision (.operations ops))) "kind" =
          .ok (.string "operations") := rfl
      have hops : item (Wire.exact (Wire.decision (.operations ops))) "operations" =
          .ok (Wire.exact (.array (ops.map Wire.operation))) := rfl
      simp only [Decoder.decide, hitem, hdecision, Except.ok_bind, hkind, hops, husable,
        require, decide_true, if_true, hrun, hdependency]
      rfl
    · show book'.validity = _
      rw [hr, hvalidity]
      exact husable
    · show book'.limit = book.limit
      rw [hr]
    · rw [hladder]
      exact hholds.congr rfl rfl rfl rfl rfl
  | invalidation reason hdecision hvalidity hladder =>
    obtain ⟨book', hrun, hr, -, hholds⟩ := h.holds.clear
    refine ⟨{ book' with
      validity := .unusable
      dependency := .null
      reason := Wire.exact (Wire.reason reason) }, ?_, by rw [hvalidity]; rfl, ?_, ?_, ?_⟩
    · have hkind : item (Wire.exact (Wire.decision (.invalidation reason))) "kind" =
          .ok (.string "invalidation") := rfl
      have hreason : item (Wire.exact (Wire.decision (.invalidation reason))) "reason" =
          .ok (Wire.exact (Wire.reason reason)) := rfl
      simp only [Decoder.decide, hitem, hdecision, Except.ok_bind, hkind, hrun, hreason]
      rfl
    · show book'.limit = book.limit
      rw [hr]
    · rw [hladder]
      exact hholds.congr rfl rfl rfl rfl rfl
    · intro husable
      rw [hvalidity] at husable
      cases husable

/-- A committed transition passes every guard of the decoder and keeps the agreement. -/
theorem transition_agrees (h : Agrees plan book old) (hdecided : t.Decided plan old)
    (hprevious : t.previousRevision = old.revision)
    (hrevision : t.view.revision = old.revision + 1) (origin : Json) {books : Books}
    (hbook : books[planKey t.key]? = some book) :
    ∃ book', Decoder.transition origin books (Wire.exact (Wire.transition t)) =
      .ok (books.insert (planKey t.key) book') ∧ Agrees plan book' t.view := by
  obtain ⟨book', hdecide, hvalidity, hlimit, hholds, hallocated⟩ := decide_agrees h hdecided
  refine ⟨{ book' with revision := (t.view.revision : Int), asOf := origin }, ?_,
    rfl, hvalidity, hlimit.trans h.limit, hholds.congr rfl rfl rfl rfl rfl, hallocated⟩
  have hkey : item (Wire.exact (Wire.transition t)) "key" = .ok (Wire.exact (Wire.key t.key)) := rfl
  have hinstrument : item (Wire.exact (Wire.key t.key)) "instrument" =
      .ok (.string t.key.instrument.val) := rfl
  have horientation : item (Wire.exact (Wire.key t.key)) "orientation" =
      .ok (.string t.key.orientation.spelling) := rfl
  have hrev : item (Wire.exact (Wire.transition t)) "revision" =
      .ok (Wire.exact (Wire.nat t.view.revision)) := rfl
  have hprev : item (Wire.exact (Wire.transition t)) "previous_revision" =
      .ok (Wire.exact (Wire.nat t.previousRevision)) := rfl
  have hlookup : lookup books (.string t.key.instrument.val) (.string t.key.orientation.spelling) =
      .ok (some (planKey t.key, book)) := by
    show Except.ok (books[planKey t.key]?.map _) = _
    rw [hbook]
    rfl
  have hchain : ((t.previousRevision : Int) = book.revision &&
      (t.view.revision : Int) = book.revision + 1 : Bool) = true := by
    rw [h.revision, hprevious, hrevision]
    simp
  simp only [Decoder.transition, hkey, hinstrument, horientation, hrev, hprev, hlookup,
    Except.ok_bind, int_exact_nat, hchain, require, if_true, hdecide]
  rfl

end Transition

/-! ## One cut -/

/-- The decoder's books are the planned ones, and each agrees with its view. -/
structure AllAgree (plans : Std.ExtTreeMap BookKey BookPlan)
    (views : Std.ExtTreeMap BookKey BookView) (books : Books) : Prop where
  planned : ∀ pk ∈ books, ∃ k ∈ plans, planKey k = pk
  agrees : ∀ (k : BookKey) (plan : BookPlan), plans[k]? = some plan →
    ∃ view book, views[k]? = some view ∧ books[planKey k]? = some book ∧ Agrees plan book view

section Cut

variable {plans : Std.ExtTreeMap BookKey BookPlan} {views : Std.ExtTreeMap BookKey BookView}
  {books : Books}

/-- Storing an agreeing book and view of one key. -/
theorem AllAgree.insert (h : AllAgree plans views books) {k : BookKey} {plan : BookPlan}
    (hplan : plans[k]? = some plan) {book : Book} {view : BookView}
    (hagrees : Agrees plan book view) :
    AllAgree plans (views.insert k view) (books.insert (planKey k) book) := by
  refine ⟨?_, ?_⟩
  · intro pk hpk
    rcases Std.ExtTreeMap.mem_insert.mp hpk with heq | hpk
    · refine ⟨k, Std.ExtTreeMap.mem_iff_isSome_getElem?.mpr (by simp [hplan]), ?_⟩
      exact Std.LawfulEqCmp.eq_of_compare heq
    · exact h.planned pk hpk
  · intro k' plan' hplan'
    by_cases hk : k = k'
    · subst hk
      rw [hplan] at hplan'
      obtain rfl := Option.some.inj hplan'
      exact ⟨view, book, by simp, by simp, hagrees⟩
    · obtain ⟨view', book', hview', hbook', hagrees'⟩ := h.agrees k' plan' hplan'
      have hpk : planKey k ≠ planKey k' := fun heq => hk (planKey_injective heq)
      refine ⟨view', book', ?_, ?_, hagrees'⟩
      · simp [Std.ExtTreeMap.getElem?_insert, hk, hview']
      · simp [Std.ExtTreeMap.getElem?_insert, hpk, hbook']

/-- The transition loop: each transition finds the view it was committed over, because the keys
    of a cut are distinct. -/
theorem transitions_agree (h : AllAgree plans views books) {ts : List BookTransition}
    (hts : ∀ t ∈ ts, ∃ plan old, plans[t.key]? = some plan ∧ views[t.key]? = some old ∧
      t.previousRevision = old.revision ∧ t.view.revision = old.revision + 1 ∧
      t.Decided plan old) (hkeys : ts.Pairwise fun a b => a.key ≠ b.key) (origin : Json) :
    ∃ books', (ts.map fun t => Wire.exact (Wire.transition t)).foldlM
        (Decoder.transition origin) books = .ok books' ∧
      AllAgree plans (ts.foldl (fun m t => m.insert t.key t.view) views) books' := by
  induction ts generalizing views books with
  | nil => exact ⟨books, rfl, h⟩
  | cons t ts ih =>
    obtain ⟨hdistinct, hkeys⟩ := List.pairwise_cons.mp hkeys
    obtain ⟨plan, old, hplan, hold, hprevious, hrevision, hdecided⟩ := hts t (by simp)
    obtain ⟨view, book, hview, hbook, hagrees⟩ := h.agrees t.key plan hplan
    rw [hold] at hview
    obtain rfl := Option.some.inj hview
    obtain ⟨book', hround, hagrees'⟩ :=
      transition_agrees hagrees hdecided hprevious hrevision origin hbook
    obtain ⟨books', hrun, hall⟩ := ih (h.insert hplan hagrees') (fun t' ht' => by
      obtain ⟨plan', old', hplan', hold', hrest⟩ := hts t' (by simp [ht'])
      refine ⟨plan', old', hplan', ?_, hrest⟩
      simp [Std.ExtTreeMap.getElem?_insert, hdistinct t' ht', hold']) hkeys
    refine ⟨books', ?_, hall⟩
    rw [List.map_cons, List.foldlM_cons, hround]
    exact hrun

end Cut

/-! ## Records -/

/-- The record of a cut, as the publisher sends it. -/
def cutRecord (runId attemptId : String) (c : RiskCut) : Json :=
  Wire.record runId attemptId c.sequence "cut" (Wire.cut c)

theorem item_cut_origin (c : RiskCut) :
    item (Wire.cut c) "origin" = .ok (Wire.exact (Wire.origin c.origin)) := by
  unfold Wire.cut
  split <;> rfl

theorem item_cut_transitions (c : RiskCut) :
    item (Wire.cut c) "book_transitions" =
      .ok (Wire.exact (.array (c.bookTransitions.map Wire.transition))) := by
  unfold Wire.cut
  split <;> rfl

/-- The decoder is where the engine is. -/
structure Follows (runId attemptId : String) (e : RiskEngine) (d : Decoder) : Prop where
  runId : d.runId = runId
  attemptId : d.attemptId = attemptId
  sequence : d.sequence = e.sequence
  isOpen : d.poisoned = false ∧ d.terminal = false
  books : AllAgree e.plans e.books d.books

theorem cut_agrees {runId attemptId : String} {e e' : RiskEngine} {d : Decoder} {cut : RiskCut}
    (h : Follows runId attemptId e d) (hcut : RiskEngine.CutSpec e e' cut)
    (sha256 : String → String) :
    ∃ d', d.apply sha256 (cutRecord runId attemptId cut) = (d', none) ∧
      Follows runId attemptId e' d' := by
  obtain ⟨books', hrun, hall⟩ := transitions_agree h.books hcut.transitions hcut.keys
    (Wire.exact (Wire.origin cut.origin))
  have hbody : d.cut (Wire.cut cut) = .ok { d with books := books' } := by
    simp only [Decoder.cut, item_cut_origin, item_cut_transitions, Except.ok_bind,
      iterate_exact_array, List.map_map]
    rw [show (Wire.exact ∘ Wire.transition) = fun t => Wire.exact (Wire.transition t) from rfl, hrun]
    rfl
  have hrecord : d.applyRecord sha256 (cutRecord runId attemptId cut) =
      .ok { d with books := books', sequence := d.sequence + 1 } := by
    have hseq : cut.sequence = d.sequence + 1 := by rw [hcut.sequence.1, h.sequence]
    have hobj : obj (cutRecord runId attemptId cut) Decoder.envelopeFields = .ok () := rfl
    have hversion : item (cutRecord runId attemptId cut) "version" = .ok (.string "2") := rfl
    have hrunId : item (cutRecord runId attemptId cut) "run_id" = .ok (.string d.runId) := by
      rw [h.runId]
      rfl
    have hattemptId : item (cutRecord runId attemptId cut) "attempt_id" =
        .ok (.string d.attemptId) := by
      rw [h.attemptId]
      rfl
    have hsequence : item (cutRecord runId attemptId cut) "sequence" =
        .ok (.string (toString (d.sequence + 1))) := by
      rw [← hseq]
      rfl
    have hkind : item (cutRecord runId attemptId cut) "kind" = .ok (.string "cut") := rfl
    have hitem : item (cutRecord runId attemptId cut) "body" = .ok (Wire.cut cut) := rfl
    simp only [Decoder.applyRecord, hobj, hversion, hrunId, hattemptId, hsequence, hkind, hitem,
      Except.ok_bind, equals, decide_true, Bool.and_self, require, if_true, hbody]
    rfl
  refine ⟨{ d with books := books', sequence := d.sequence + 1 }, ?_, h.runId, h.attemptId, ?_,
    h.isOpen, ?_⟩
  · simp only [Decoder.apply, h.isOpen.1, h.isOpen.2, Bool.or_self, Bool.false_eq_true, if_false,
      hrecord]
  · show d.sequence + 1 = e'.sequence
    rw [hcut.sequence.2, h.sequence]
  · rw [hcut.plans, hcut.books]
    exact hall

/-! ## The books at the start -/

/-- What the initial record says about a plan that its book needs. -/
def planEntry (plan : BookPlan) : PlanKey × Nat := (planKey plan.key, plan.priceScale.exponent)

/-- Every configured plan is stored under its key: a second one with that key is refused. -/
theorem openPlans_stored {plans : List BookPlan} {limits : RiskLimits} {e : RiskEngine}
    (h : RiskEngine.openPlans plans limits = .ok e) {plan : BookPlan} (hplan : plan ∈ plans) :
    e.plans[plan.key]? = some plan := by
  unfold RiskEngine.openPlans at h
  split at h
  · cases h
  · obtain ⟨⟨bytes, map⟩, hloop, h⟩ := Except.bind_eq_ok.mp h
    obtain rfl := Except.ok.inj h
    suffices ∀ p ∈ plans, map[p.key]? = some p from this plan hplan
    refine List.foldlM_prefix_inv (fun done (s : Nat × Std.ExtTreeMap BookKey BookPlan) =>
      ∀ p ∈ done, s.2[p.key]? = some p) hloop (by simp) ?_
    rintro done p _ ⟨n, m⟩ s' _ _ hm hround q hq
    obtain ⟨n', _, hround⟩ := Except.bind_eq_ok.mp hround
    split at hround
    · cases hround
    · split at hround
      · cases hround
      · rename_i hfresh
        obtain rfl := Except.ok.inj hround
        rcases List.mem_append.mp hq with hq | hq
        · have hstored := hm q hq
          have hne : p.key ≠ q.key := by
            intro heq
            rw [heq, Std.ExtTreeMap.contains_eq_isSome_getElem?, hstored] at hfresh
            exact hfresh rfl
          rw [Std.ExtTreeMap.getElem?_insert]
          simp [hne, hstored]
        · obtain rfl := List.mem_singleton.mp hq
          simp

/-- The decoder opens the books that the engine plans. -/
theorem initial_books {plans : List BookPlan} {limits : RiskLimits} {e : RiskEngine}
    (h : RiskEngine.openPlans plans limits = .ok e) (runId attemptId : String) :
    (∀ pk ∈ (Decoder.initial runId attemptId (plans.map planEntry)).books,
      ∃ k ∈ e.plans, planKey k = pk) ∧
    ∀ (k : BookKey) (plan : BookPlan), e.plans[k]? = some plan →
      (Decoder.initial runId attemptId (plans.map planEntry)).books[planKey k]? =
        some (Book.new plan.priceScale.exponent) := by
  unfold RiskEngine.openPlans at h
  split at h
  · cases h
  · obtain ⟨⟨bytes, map⟩, hloop, h⟩ := Except.bind_eq_ok.mp h
    obtain rfl := Except.ok.inj h
    -- both sides insert the plans one by one
    refine List.foldlM_prefix_inv (fun done (s : Nat × Std.ExtTreeMap BookKey BookPlan) =>
      (∀ pk ∈ (Decoder.initial runId attemptId (done.map planEntry)).books,
        ∃ k ∈ s.2, planKey k = pk) ∧
      ∀ (k : BookKey) (plan : BookPlan), s.2[k]? = some plan →
        (Decoder.initial runId attemptId (done.map planEntry)).books[planKey k]? =
          some (Book.new plan.priceScale.exponent)) hloop ?_ ?_
    · exact ⟨by simp [Decoder.initial], by simp⟩
    rintro done plan _ ⟨n, m⟩ s' _ _ ⟨hplanned, hbooks⟩ hround
    obtain ⟨n', _, hround⟩ := Except.bind_eq_ok.mp hround
    have hinsert : (Decoder.initial runId attemptId ((done ++ [plan]).map planEntry)).books =
        (Decoder.initial runId attemptId (done.map planEntry)).books.insert (planKey plan.key)
          (Book.new plan.priceScale.exponent) := by
      simp [Decoder.initial, planEntry]
    split at hround
    · cases hround
    · split at hround
      · cases hround
      · obtain rfl := Except.ok.inj hround
        rw [hinsert]
        refine ⟨?_, ?_⟩
        · intro pk hpk
          rcases Std.ExtTreeMap.mem_insert.mp hpk with heq | hpk
          · exact ⟨plan.key, by simp, Std.LawfulEqCmp.eq_of_compare heq⟩
          · obtain ⟨k, hk, hkey⟩ := hplanned pk hpk
            exact ⟨k, by simp [hk], hkey⟩
        · intro k plan' hplan'
          rw [Std.ExtTreeMap.getElem?_insert] at hplan' ⊢
          by_cases hk : plan.key = k
          · subst hk
            simp only [Std.ReflCmp.compare_self, if_true, Option.some.injEq] at hplan' ⊢
            rw [hplan']
          · have hpk : planKey plan.key ≠ planKey k := fun heq => hk (planKey_injective heq)
            simp only [Std.LawfulEqCmp.compare_eq_iff_eq, hk, hpk, if_false] at hplan' ⊢
            exact hbooks k plan' hplan'

theorem initial_follows {plans : List BookPlan} {limits : RiskLimits} {e : RiskEngine}
    (h : RiskEngine.openPlans plans limits = .ok e) (runId attemptId : String) :
    Follows runId attemptId e (Decoder.initial runId attemptId (plans.map planEntry)) := by
  have hspec := RiskEngine.openPlans_spec h
  obtain ⟨hplanned, hbooks⟩ := initial_books h runId attemptId
  refine ⟨rfl, rfl, hspec.sequence.symm, ⟨rfl, rfl⟩, hplanned, ?_⟩
  intro k plan hplan
  refine ⟨BookView.initial, _, ?_, hbooks k plan hplan, rfl, rfl, rfl, ?_, fun hv => nomatch hv⟩
  · rw [hspec.books, Std.ExtTreeMap.getElem?_map, hplan]
    rfl
  · exact Book.new_holds _

/-! ## The lines under the digest -/

section Lines

theorem toString_natCast (n : Nat) : toString (n : Int) = toString n := rfl

/-- Reading an agreeing book. -/
theorem Agrees.levels_eq {plan : BookPlan} {book : Book} {view : BookView}
    (h : Agrees plan book view) (hview : view.validity = .usable ↔ view.ladder.isSome)
    (s : Side) :
    book.levels s none =
      .ok ((view.ladder.elim [] (bestFirst · s)).map fun pq => (pq.1, (pq.2 : Int))) := by
  by_cases husable : view.validity = .usable
  · obtain ⟨l, hl⟩ := Option.isSome_iff_exists.mp (hview.mp husable)
    obtain ⟨quantities, hq⟩ := Option.isSome_iff_exists.mp (h.allocated husable)
    have hholds := h.holds
    rw [hl] at hholds ⊢
    exact hholds.levels_eq (by rw [h.validity, husable]; rfl) hq s
  · have hnone : view.ladder = none := by
      rw [← Option.not_isSome_iff_eq_none, ← hview]
      exact husable
    have hne : book.validity ≠ .usable := by
      rw [h.validity]
      cases hv : view.validity with
      | usable => exact absurd hv husable
      | notInitialized => simp [consumerValidity]
      | unusable reason => simp [consumerValidity]
    simp [Book.levels, hne, hnone]

theorem joinLevels_map (levels : List (Int × Nat)) :
    joinLevels (levels.map fun pq => (pq.1, (pq.2 : Int))) = Wire.join levels := by
  simp only [joinLevels, Wire.join, List.map_map]
  rfl

theorem consumerValidity_spelling (v : Engine.Validity) :
    (consumerValidity v).spelling = Wire.validity v := by
  cases v <;> rfl

/-- The two sides write the same line about an agreeing book. -/
theorem Agrees.line_eq {plan : BookPlan} {book : Book} {view : BookView}
    (h : Agrees plan book view) (hview : view.validity = .usable ↔ view.ladder.isSome)
    (k : BookKey) :
    bookLine (planKey k) book =
      .ok (Wire.Row.line (k.instrument.val, k.orientation.spelling, view)) := by
  simp only [bookLine, h.levels_eq hview, Except.ok_bind, joinLevels_map, h.revision,
    h.validity, consumerValidity_spelling, toString_natCast, Wire.Row.line]
  cases hl : view.ladder with
  | none =>
    have hv : view.validity ≠ .usable := by
      rw [ne_eq, hview, hl]
      simp
    cases hval : view.validity <;> first | exact absurd hval hv | rfl
  | some l =>
    have hv : view.validity = .usable := hview.mpr (by simp [hl])
    rw [hv]
    rfl

/-- The key a row is sorted by, in the decoder's terms. -/
def rowKey (r : Wire.Row) : PlanKey := ⟨r.1, r.2.1⟩

/-- Byte order of UTF-8 is code point order: the two sorts agree. -/
theorem row_le_iff (a b : Wire.Row) :
    a.le b = true ↔ (compare (rowKey a) (rowKey b)).isLE = true := by
  show _ ↔ ((compare a.1 b.1).then (compare a.2.1 b.2.1)).isLE = true
  rw [Ordering.isLE_then_iff_or, String.compare_eq_lt, Std.LawfulEqOrd.compare_eq_iff_eq,
    String.isLE_compare]
  simp only [Wire.Row.le, Bool.or_eq_true, Bool.and_eq_true, decide_eq_true_eq,
    String.utf8Bytes_lt_utf8Bytes, String.utf8Bytes_inj, String.utf8Bytes_le_utf8Bytes]

/-- The rows of the digest before they are sorted. -/
def digestRows (e : RiskEngine) : List Wire.Row :=
  e.plans.toList.filterMap fun kp =>
    (e.view kp.1).map fun view => (kp.1.instrument.val, kp.1.orientation.spelling, view)

theorem mem_digestRows {e : RiskEngine} {r : Wire.Row} :
    r ∈ digestRows e ↔ ∃ (k : BookKey) (plan : BookPlan) (view : BookView), e.plans[k]? = some plan ∧ e.books[k]? = some view ∧
      r = (k.instrument.val, k.orientation.spelling, view) := by
  unfold digestRows
  rw [List.mem_filterMap]
  constructor
  · rintro ⟨⟨k, plan⟩, hmem, hr⟩
    obtain ⟨view, hview, rfl⟩ := Option.map_eq_some_iff.mp hr
    exact ⟨k, plan, view, Std.ExtTreeMap.mem_toList_iff_getElem?_eq_some.mp hmem, hview, rfl⟩
  · rintro ⟨k, plan, view, hplan, hview, rfl⟩
    refine ⟨(k, plan), Std.ExtTreeMap.mem_toList_iff_getElem?_eq_some.mpr hplan, ?_⟩
    simp [RiskEngine.view, hview]

theorem nodup_digestRows (e : RiskEngine) : ((digestRows e).map rowKey).Nodup := by
  unfold digestRows
  rw [List.map_filterMap]
  refine List.Pairwise.filterMap _ ?_ (Std.ExtTreeMap.distinct_keys_toList (t := e.plans))
  rintro ⟨k, plan⟩ ⟨k', plan'⟩ hne pk hpk pk' hpk' rfl
  simp only [Option.map_map, Option.map_eq_some_iff, Function.comp_apply] at hpk hpk'
  obtain ⟨view, -, rfl⟩ := hpk
  obtain ⟨view', -, hkey⟩ := hpk'
  have heq : k' = k := planKey_injective hkey
  exact hne (by simp [heq])

/-- The sorted rows are in the order of the decoder's keys. -/
theorem sorted_digestRows (e : RiskEngine) :
    (((digestRows e).mergeSort Wire.Row.le).map rowKey).Pairwise
      fun a b => compare a b = .lt := by
  have hsorted : ((digestRows e).mergeSort Wire.Row.le).Pairwise fun a b => a.le b = true := by
    refine List.pairwise_mergeSort ?_ ?_ _
    · intro a b c hab hbc
      rw [row_le_iff] at hab hbc ⊢
      exact Std.TransCmp.isLE_trans hab hbc
    · intro a b
      rw [Bool.or_eq_true, row_le_iff, row_le_iff]
      by_cases hab : (compare (rowKey a) (rowKey b)).isLE = true
      · exact .inl hab
      · right
        rw [show compare (rowKey b) (rowKey a) = _ from Std.OrientedCmp.eq_swap]
        cases hc : compare (rowKey a) (rowKey b) <;> simp_all
  have hnodup : (((digestRows e).mergeSort Wire.Row.le).map rowKey).Nodup :=
    ((List.mergeSort_perm _ _).map rowKey).nodup_iff.mpr (nodup_digestRows e)
  refine List.pairwise_map.mpr ?_
  refine ((List.pairwise_map.mp hnodup).and hsorted).imp ?_
  rintro a b ⟨hne, hle⟩
  rw [row_le_iff] at hle
  cases hc : compare (rowKey a) (rowKey b) with
  | lt => rfl
  | eq => exact absurd (Std.LawfulEqCmp.eq_of_compare hc) hne
  | gt =>
    rw [hc] at hle
    cases hle

/-- The sorted rows and the decoder's books list the same keys in the same order. -/
theorem digestRows_keys {e : RiskEngine} {books : Books} (h : AllAgree e.plans e.books books) :
    ((digestRows e).mergeSort Wire.Row.le).map rowKey = books.toList.map (·.1) := by
  have hbooks : (books.toList.map (·.1)).Pairwise fun a b => compare a b = .lt :=
    List.pairwise_map.mpr (Std.ExtTreeMap.ordered_keys_toList (t := books))
  refine List.Perm.eq_of_pairwise ?_ (sorted_digestRows e) hbooks ?_
  · intro a b _ _ hab hba
    rw [show compare b a = (compare a b).swap from Std.OrientedCmp.eq_swap, hab] at hba
    cases hba
  · have hnodup : ∀ l : List PlanKey, l.Pairwise (fun a b => compare a b = .lt) → l.Nodup := by
      intro l hl
      refine hl.imp ?_
      rintro a b hab rfl
      exact absurd hab (by simp)
    rw [List.perm_ext_iff_of_nodup (hnodup _ (sorted_digestRows e)) (hnodup _ hbooks)]
    intro pk
    simp only [List.mem_map, List.mem_mergeSort, mem_digestRows]
    constructor
    · rintro ⟨r, ⟨k, plan, view, hplan, hview, rfl⟩, rfl⟩
      obtain ⟨_, book, _, hbook, -⟩ := h.agrees k plan hplan
      exact ⟨(planKey k, book), Std.ExtTreeMap.mem_toList_iff_getElem?_eq_some.mpr hbook, rfl⟩
    · rintro ⟨⟨pk, book⟩, hmem, rfl⟩
      have hbook := Std.ExtTreeMap.mem_toList_iff_getElem?_eq_some.mp hmem
      obtain ⟨k, hk, rfl⟩ := h.planned pk
        (Std.ExtTreeMap.mem_iff_isSome_getElem?.mpr (by simp [hbook]))
      have hplan : e.plans[k]? = some e.plans[k] := by simp [hk]
      obtain ⟨view, _, hview, -⟩ := h.agrees k _ hplan
      exact ⟨_, ⟨k, _, view, hplan, hview, rfl⟩, rfl⟩

/-- The lines under the terminal digest are the same on both sides. -/
theorem bookLines_eq {e : RiskEngine} {books : Books} (hok : e.Ok)
    (h : AllAgree e.plans e.books books) : bookLines books = .ok (Wire.bookLines e) := by
  have hkeys : List.Forall₂ (fun (r : Wire.Row) (kb : PlanKey × Book) => rowKey r = kb.1)
      ((digestRows e).mergeSort Wire.Row.le) books.toList := by
    have heq : List.Forall₂ (· = ·) (((digestRows e).mergeSort Wire.Row.le).map rowKey)
        (books.toList.map (·.1)) := by
      rw [List.forall₂_eq_eq_eq]
      exact digestRows_keys h
    exact List.forall₂_map_right_iff.mp (List.forall₂_map_left_iff.mp heq)
  have hmem : ∀ r ∈ (digestRows e).mergeSort Wire.Row.le, ∃ (k : BookKey) (plan : BookPlan)
      (view : BookView), e.plans[k]? = some plan ∧ e.books[k]? = some view ∧
        r = (k.instrument.val, k.orientation.spelling, view) :=
    fun r hr => mem_digestRows.mp (List.mem_mergeSort.mp hr)
  have hget : ∀ kb ∈ books.toList, books[kb.1]? = some kb.2 :=
    fun kb hkb => Std.ExtTreeMap.mem_toList_iff_getElem?_eq_some.mp hkb
  show books.toList.mapM (fun kb => bookLine kb.1 kb.2) =
    .ok (((digestRows e).mergeSort Wire.Row.le).map Wire.Row.line)
  -- row by row: a row's view and the book under the same key agree
  generalize (digestRows e).mergeSort Wire.Row.le = rows at hkeys hmem
  generalize books.toList = entries at hkeys hget
  induction hkeys with
  | nil => rfl
  | @cons r kb rows entries hkey _ ih =>
    obtain ⟨k, plan, view, hplan, hview, rfl⟩ := hmem r (by simp)
    obtain ⟨pk, book⟩ := kb
    obtain rfl : planKey k = pk := hkey
    obtain ⟨view', book', hview', hbook', hagrees⟩ := h.agrees k plan hplan
    rw [hview] at hview'
    obtain rfl := Option.some.inj hview'
    rw [hget (planKey k, book) (by simp)] at hbook'
    obtain rfl := Option.some.inj hbook'
    have hline := hagrees.line_eq (hok.view k plan view hplan hview).ladder_iff k
    have hrest := ih (fun r' hr' => hmem r' (by simp [hr'])) fun kb' hkb' => hget kb' (by simp [hkb'])
    rw [List.mapM_cons, hline, Except.ok_bind, hrest]
    rfl

end Lines

/-! ## Runs -/

/-- After every prefix of a run, the decoder that was given its records follows the engine. -/
theorem run_follows {runId attemptId : String} (sha256 : String → String) {e₀ e : RiskEngine}
    {d : Decoder} {items : List WalkItem} {cuts : List RiskCut} (hok : e₀.Ok)
    (hd : Follows runId attemptId e₀ d) (hrun : e₀.run items = .ok (e, cuts)) (n : Nat) :
    ∃ eₙ dₙ, e₀.run (items.take n) = .ok (eₙ, cuts.take n) ∧
      d.applyAll sha256 ((cuts.take n).map (cutRecord runId attemptId)) = (dₙ, none) ∧
      eₙ.Ok ∧ eₙ.plans = e₀.plans ∧ Follows runId attemptId eₙ dₙ := by
  induction items generalizing e₀ d cuts n with
  | nil =>
    obtain ⟨rfl, rfl⟩ := Prod.mk.inj (Except.ok.inj hrun)
    exact ⟨e₀, d, by simp [RiskEngine.run], by simp [Decoder.applyAll], hok, rfl, hd⟩
  | cons item items ih =>
    obtain ⟨⟨e₁, cut⟩, hitem, hrun⟩ := Except.bind_eq_ok.mp hrun
    obtain ⟨⟨e₂, cuts'⟩, htail, hrun⟩ := Except.bind_eq_ok.mp hrun
    obtain ⟨rfl, rfl⟩ := Prod.mk.inj (Except.ok.inj hrun)
    cases n with
    | zero => exact ⟨e₀, d, by simp [RiskEngine.run], by simp [Decoder.applyAll], hok, rfl, hd⟩
    | succ n =>
      have hcut := RiskEngine.nextInner_cut hok hitem
      obtain ⟨d₁, happly, hd₁⟩ := cut_agrees hd hcut sha256
      obtain ⟨eₙ, dₙ, hrunₙ, happlyₙ, hokₙ, hplans, hdₙ⟩ :=
        ih ((RiskEngine.nextInner_ok hok item).of_ok hitem) hd₁ htail n
      refine ⟨eₙ, dₙ, ?_, ?_, hokₙ, hplans.trans hcut.plans, hdₙ⟩
      · rw [List.take_succ_cons, RiskEngine.run, hitem, Except.ok_bind]
        simp only [hrunₙ, Except.ok_bind]
        rfl
      · rw [List.take_succ_cons, List.map_cons, Decoder.applyAll, happly]
        exact happlyₙ

/-- Consumer books simulate the risk engine: for every configuration and every accepted run, the
    records of the run's cuts raise nothing in the decoder, and after every one of them each
    planned book has the revision, the validity and the ladder of the engine's view; so the
    lines under the terminal digest are the same on both sides. -/
theorem consumer_books_simulate {plans : List BookPlan} {limits : RiskLimits}
    {e₀ e : RiskEngine} {items : List WalkItem} {cuts : List RiskCut}
    (hopen : RiskEngine.openPlans plans limits = .ok e₀) (hrun : e₀.run items = .ok (e, cuts))
    (sha256 : String → String) (runId attemptId : String) (n : Nat) :
    ∃ eₙ dₙ, e₀.run (items.take n) = .ok (eₙ, cuts.take n) ∧
      (Decoder.initial runId attemptId (plans.map planEntry)).applyAll sha256
        ((cuts.take n).map (cutRecord runId attemptId)) = (dₙ, none) ∧
      (∀ plan ∈ plans, ∃ view book, eₙ.view plan.key = some view ∧
        dₙ.books[planKey plan.key]? = some book ∧
        book.revision = (view.revision : Int) ∧
        book.validity.spelling = Wire.validity view.validity ∧
        ∀ side, book.levels side none =
          .ok ((view.ladder.elim [] (bestFirst · side)).map fun pq => (pq.1, (pq.2 : Int)))) ∧
      bookLines dₙ.books = .ok (Wire.bookLines eₙ) := by
  have hspec := RiskEngine.openPlans_spec hopen
  obtain ⟨eₙ, dₙ, hrunₙ, happlyₙ, hok, hplans, hd⟩ :=
    run_follows sha256 hspec.ok (initial_follows hopen runId attemptId) hrun n
  refine ⟨eₙ, dₙ, hrunₙ, happlyₙ, ?_, bookLines_eq hok hd.books⟩
  intro plan hplan
  have hstored : eₙ.plans[plan.key]? = some plan := hplans ▸ openPlans_stored hopen hplan
  obtain ⟨view, book, hview, hbook, hagrees⟩ := hd.books.agrees plan.key plan hstored
  refine ⟨view, book, hview, hbook, hagrees.revision, ?_, ?_⟩
  · rw [hagrees.validity, consumerValidity_spelling]
  · exact hagrees.levels_eq (hok.view plan.key plan view hstored hview).ladder_iff

/-- After the sample's Full, the consumer has its one bid under revision 1. -/
theorem consumer_books_simulate_sample :
    ∃ e cuts d book, RiskEngine.sampleRun [.group RiskEngine.sampleFullGroup] = .ok (e, cuts) ∧
      (Decoder.initial "run" "attempt" [planEntry RiskEngine.samplePlan]).applyAll id
        (cuts.map (cutRecord "run" "attempt")) = (d, none) ∧
      d.books[planKey RiskEngine.sampleKey]? = some book ∧ book.revision = 1 ∧
      book.levels .bid none = .ok [(45, 700)] ∧ bookLines d.books = .ok (Wire.bookLines e) := by
  have hsample : (RiskEngine.sampleRun [.group RiskEngine.sampleFullGroup]).toOption.any
      (fun r => r.2.length = 1 && (r.1.view RiskEngine.sampleKey).any fun v =>
        v.revision = 1 && (v.ladder.elim [] (bestFirst · .bid)) = [(45, 700)]) = true := by
    decide +kernel
  cases hrun : RiskEngine.sampleRun [.group RiskEngine.sampleFullGroup] with
  | error halt =>
    rw [hrun] at hsample
    cases hsample
  | ok r =>
    obtain ⟨e, cuts⟩ := r
    obtain ⟨e₀, hopen, hitems⟩ := Except.bind_eq_ok.mp hrun
    obtain ⟨e₁, d, hrun₁, happly, hbooks, hlines⟩ :=
      consumer_books_simulate hopen hitems id "run" "attempt" 1
    obtain ⟨view, book, hview, hbook, hrevision, -, hlevels⟩ :=
      hbooks RiskEngine.samplePlan (by simp)
    simp only [hrun, Except.toOption, Option.any_some, Bool.and_eq_true, decide_eq_true_eq] at hsample
    obtain ⟨hlength, hsample⟩ := hsample
    have hcuts : cuts.take 1 = cuts := List.take_of_length_le (by omega)
    rw [hcuts] at hrun₁ happly
    rw [show [WalkItem.group RiskEngine.sampleFullGroup].take 1 = [.group RiskEngine.sampleFullGroup]
      from rfl, hitems] at hrun₁
    obtain ⟨rfl, -⟩ := Prod.mk.inj (Except.ok.inj hrun₁)
    rw [show RiskEngine.sampleKey = RiskEngine.samplePlan.key from rfl, hview] at hsample
    simp only [Option.any_some, Bool.and_eq_true, decide_eq_true_eq] at hsample
    refine ⟨e, cuts, d, book, rfl, happly, hbook, ?_, ?_, hlines⟩
    · rw [hrevision, hsample.1]
      rfl
    · rw [hlevels .bid, hsample.2]
      rfl

end PredictionIndexer.Spec
