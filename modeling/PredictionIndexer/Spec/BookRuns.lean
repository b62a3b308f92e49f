import PredictionIndexer.Spec.BookIndex

/-!
# Runs of book calls

Any sequence of `_snapshot`, `_operations` and `_clear` on a new book, in either storage. A call
keeps a held ladder held (`BookCall.alike`), and two books that hold one ladder answer alike
whatever they store it in, errors included. What a book tells is read off the ladder it holds
(`Book.Holds.exact`).

## Key results

- `book_index_exact`: after every run the index is exact, and the storages cannot be told apart
-/

namespace PredictionIndexer.Streams

open Engine (Side Ladder setLevel)
open Fallible

/-! ## Calls -/

/-- A call of a method that changes what a book holds. -/
inductive BookCall where
  | snapshot (bids asks : Json)
  | operations (ops : Json)
  | clear

def BookCall.run (b : Book) : BookCall → Except Raise Book
  | snapshot bids asks => b.snapshot bids asks
  | operations ops => b.operations ops
  | clear => b.clear

/-- A ladder as a publisher sends it: ascending, in range, of positive quantities. -/
def PublishedLadder (limit : Nat) (ladder : Json) : Prop :=
  ∃ items levels, ladder = .array items ∧ List.Forall₂ ReadsLevel items levels ∧
    LevelsInRange limit levels ∧ levels.Pairwise fun a b => a.1 < b.1

/-- A snapshot sends published ladders; operations may be anything. -/
def BookCall.Published (limit : Nat) : BookCall → Prop
  | snapshot bids asks => PublishedLadder limit bids ∧ PublishedLadder limit asks
  | operations _ => True
  | clear => True

/-- A new book in one of the two storages. -/
def Book.create (dense : Bool) (priceScale : Nat) : Book :=
  { Book.new priceScale with dense := dense }

/-! ## One ladder in two books -/

/-- Both books hold one ladder. -/
structure SameLadder (limit : Nat) (b c : Book) : Prop where
  holds : ∃ l, b.Holds l ∧ c.Holds l
  left : b.limit = limit
  right : c.limit = limit
  allocated : b.quantities.isSome = c.quantities.isSome

section SameLadder

variable {limit : Nat} {b c b' c' : Book}

theorem SameLadder.of_restored {l : Ladder} (h : SameLadder limit b c)
    (hb : b.Restored b') (hc : c.Restored c') (hb' : b'.Holds l) (hc' : c'.Holds l)
    (hallocated : b'.quantities.isSome = c'.quantities.isSome) : SameLadder limit b' c' where
  holds := ⟨l, hb', hc'⟩
  left := by rw [hb]; exact h.left
  right := by rw [hc]; exact h.right
  allocated := hallocated

theorem changed_congr {q q' : Quantities} {p : Int} (h : q.get p = q'.get p) (change : Json) :
    Book.changed q p change = Book.changed q' p change := by
  unfold Book.changed
  rw [h]

/-- Storing one quantity answers alike: a negative one is refused, any other is stored. -/
theorem place_alike (h : SameLadder limit b c) {qb qc : Sides Quantities}
    (hb : b.quantities = some qb) (hc : c.quantities = some qc) {p : Int} (h₀ : 0 ≤ p)
    (h₁ : p ≤ limit) (s : Side) (new : Int) :
    Alike (SameLadder limit) (b.place qb s p new) (c.place qc s p new) := by
  obtain ⟨l, hbl, hcl⟩ := h.holds
  by_cases hneg : new < 0
  · -- `require(new == 0)` after `if new > 0`
    have hrefused (b : Book) (q : Sides Quantities) :
        b.place q s p new = .error (.protocol "invalid authoritative operation") := by
      unfold Book.place
      rw [if_neg (by omega)]
      simp [require, show new ≠ 0 by omega]
    rw [hrefused, hrefused]
    exact .error _
  · obtain ⟨n, rfl⟩ := Int.eq_ofNat_of_zero_le (Int.not_lt.mp hneg)
    obtain ⟨b', hrun, hr, hsome, hholds⟩ := hbl.place hb (s := s) h₀ (h.left ▸ h₁) n
    obtain ⟨c', hrun', hr', hsome', hholds'⟩ := hcl.place hc (s := s) h₀ (h.right ▸ h₁) n
    rw [hrun, hrun']
    exact .ok (h.of_restored hr hr' hholds hholds' (hsome.trans hsome'.symm))

theorem operation_alike (h : SameLadder limit b c) (op : Json) :
    Alike (SameLadder limit) (b.operation op) (c.operation op) := by
  unfold Book.operation
  refine Alike.same _ fun side => Alike.same _ fun s => Alike.same _ fun price => ?_
  refine Alike.same _ fun atoms => Alike.same _ fun p => ?_
  rw [h.left, h.right]
  by_cases hrange : (0 ≤ p && p ≤ limit) = true
  · rw [hrange, require, if_pos rfl, Except.ok_bind, Except.ok_bind]
    have hp : 0 ≤ p ∧ p ≤ limit := by simpa using hrange
    have hallocated := h.allocated
    cases hb : b.quantities with
    | none =>
      have hc : c.quantities = none := by simpa [hb] using hallocated.symm
      rw [hc]
      exact .error _
    | some qb =>
      obtain ⟨qc, hc⟩ := Option.isSome_iff_exists.mp (hallocated.symm.trans (by simp [hb]))
      rw [hc, found, Except.ok_bind, found, Except.ok_bind]
      refine Alike.same _ fun change => ?_
      obtain ⟨l, hbl, hcl⟩ := h.holds
      have hget := ((hbl s).storage qb hb).get hp.1 (h.left ▸ hp.2)
      have hget' := ((hcl s).storage qc hc).get hp.1 (h.right ▸ hp.2)
      rw [changed_congr (hget.trans hget'.symm)]
      exact Alike.same _ fun new => place_alike h hb hc hp.1 hp.2 s new
  · rw [Bool.not_eq_true] at hrange
    rw [hrange]
    exact .error _

/-- What one call does to two books that hold one ladder. -/
theorem BookCall.alike (h : SameLadder limit b c) {call : BookCall}
    (hcall : call.Published limit) : Alike (SameLadder limit) (call.run b) (call.run c) := by
  obtain ⟨l, hbl, hcl⟩ := h.holds
  cases call with
  | snapshot bids asks =>
    obtain ⟨⟨bidItems, bidLevels, rfl, hbid, hbidRange, hbidSorted⟩,
      ⟨askItems, askLevels, rfl, hask, haskRange, haskSorted⟩⟩ := hcall
    obtain ⟨b', hrun, hr, hsome, hholds⟩ :=
      hbl.snapshot hbid hask (h.left ▸ hbidRange) (h.left ▸ haskRange) hbidSorted haskSorted
    obtain ⟨c', hrun', hr', hsome', hholds'⟩ :=
      hcl.snapshot hbid hask (h.right ▸ hbidRange) (h.right ▸ haskRange) hbidSorted haskSorted
    rw [BookCall.run, BookCall.run, hrun, hrun']
    exact .ok (h.of_restored hr hr' hholds hholds' (hsome.trans hsome'.symm))
  | operations ops =>
    refine Alike.same _ fun items => ?_
    exact Alike.foldlM (fun op _ _ _ h => operation_alike h op) h
  | clear =>
    obtain ⟨b', hrun, hr, hsome, hholds⟩ := hbl.clear
    obtain ⟨c', hrun', hr', hsome', hholds'⟩ := hcl.clear
    rw [BookCall.run, BookCall.run, hrun, hrun']
    exact .ok (h.of_restored hr hr' hholds hholds' (by rw [hsome, hsome', h.allocated]))

/-- What a run does to two books that hold one ladder. -/
theorem runs_alike (h : SameLadder limit b c) {calls : List BookCall}
    (hcalls : ∀ call ∈ calls, call.Published limit) :
    Alike (SameLadder limit) (calls.foldlM BookCall.run b) (calls.foldlM BookCall.run c) :=
  Alike.foldlM (f := BookCall.run) (g := BookCall.run)
    (fun call hmem _ _ h => BookCall.alike h (hcalls call hmem)) h

theorem sameLadder_create (dense dense' : Bool) (priceScale : Nat) :
    SameLadder (10 ^ priceScale) (Book.create dense priceScale) (Book.create dense' priceScale) := by
  have hholds (dense : Bool) : (Book.create dense priceScale).Holds ⟨∅, ∅⟩ := by
    intro s
    obtain ⟨hrange, hoccupied, -, hunallocated, hbest⟩ := Book.new_holds priceScale s
    refine ⟨hrange, hoccupied, ?_, hunallocated, hbest⟩
    intro quantities hq
    cases hq
  exact ⟨⟨_, hholds dense, hholds dense'⟩, rfl, rfl, rfl⟩

end SameLadder

/-! ## What a book tells -/

/-- The quantity stored at a price of a side; nothing is stored before the first snapshot. -/
def Book.stored (b : Book) (s : Side) (p : Int) : Int :=
  match b.quantities with
  | none => 0
  | some quantities => ((quantities.get s).get p).toOption.getD 0

/-- The whole ladder of a side, best price first. -/
def Book.ladder (b : Book) (s : Side) : List (Int × Int) :=
  (b.sorted s).map fun p => (p, b.stored s p)

/-- `levels` of a book that its decoder has marked usable. -/
def Book.usableLevels (b : Book) (s : Side) (n : Option Nat) : Except Raise (List (Int × Int)) :=
  { b with validity := .usable }.levels s n

/-- The first `n` of a list, or all of it. -/
def first {α : Type} (n : Option Nat) (items : List α) : List α :=
  match n with
  | none => items
  | some n => items.take n

/-- The index of a book is exact. A decoder marks a book usable only behind a snapshot, which
    allocates the quantities. -/
structure Book.Exact (b : Book) : Prop where
  inRange : ∀ s, ∀ p ∈ b.occupied.get s, 0 ≤ p ∧ p ≤ b.limit
  stored : ∀ s (p : Int), 0 ≤ p → p ≤ b.limit → (0 < b.stored s p ↔ p ∈ b.occupied.get s)
  zero : ∀ s (p : Int), 0 ≤ p → p ≤ b.limit → p ∉ b.occupied.get s → b.stored s p = 0
  best : ∀ s, b.best.get s = Book.extreme s (b.occupied.get s)
  levels : b.quantities.isSome → ∀ s n, b.usableLevels s n = .ok (first n (b.ladder s))

section Exact

variable {b : Book} {l : Ladder} {s : Side}

theorem IsBest.unique {mem : Int → Prop} {t t' : Option Int} (h : IsBest s mem t)
    (h' : IsBest s mem t') : t = t' := by
  cases t with
  | none =>
    cases t' with
    | none => rfl
    | some p => exact absurd h'.1 (h p)
  | some p =>
    cases t' with
    | none => exact absurd h.1 (h' p)
    | some p' =>
      have hle := h.2 p' h'.1
      have hge := h'.2 p h.1
      cases s <;> simp only [Better] at hle hge <;> exact congrArg some (by omega)

/-- What a held ladder stores. -/
theorem Book.Holds.stored_eq (h : b.Holds l) (s : Side) {p : Int} (h₀ : 0 ≤ p)
    (h₁ : p ≤ b.limit) : b.stored s p = (((l.side s)[p]?.getD 0 : Nat) : Int) := by
  unfold Book.stored
  cases hq : b.quantities with
  | none => simp [(h s).unallocated hq]
  | some quantities =>
    simp only
    rw [((h s).storage quantities hq).get h₀ h₁]
    rfl

theorem Book.Holds.ladder_eq (h : b.Holds l) (s : Side) :
    b.ladder s = (bestFirst l s).map fun pv => (pv.1, (pv.2 : Int)) := by
  rw [Book.ladder, h.sorted_eq, List.map_map]
  refine List.map_congr_left fun pv hpv => ?_
  have hget := mem_bestFirst.mp hpv
  obtain ⟨-, h₀, h₁⟩ := (h s).inRange pv.1 pv.2 hget
  simp [h.stored_eq s h₀ h₁, hget]

/-- The cached best price heads the ladder. -/
theorem Book.Holds.best_eq_head (h : b.Holds l) (s : Side) :
    b.best.get s = ((bestFirst l s).map (·.1)).head? := by
  have htop := isBest_topLevel (s := s) (pairwise_toList (l.side s))
  rw [levelMap_toList] at htop
  rw [(h s).best.unique htop]
  cases s with
  | bid => rw [bestFirst, List.map_reverse, List.head?_reverse, List.getLast?_map]; rfl
  | ask => rw [bestFirst, List.head?_map]; rfl

/-- The prices that `levels` looks up. -/
def Book.pricesOf (b : Book) (s : Side) (n : Option Nat) : List Int :=
  match n with
  | none => b.sorted s
  | some 1 => (b.best.get s).toList
  | some n => (b.sorted s).take n

theorem Book.Holds.usableLevels_eq (h : b.Holds l) (hq : b.quantities.isSome) (s : Side)
    (n : Option Nat) : b.usableLevels s n = .ok (first n (b.ladder s)) := by
  obtain ⟨quantities, hq⟩ := Option.isSome_iff_exists.mp hq
  have hread {levels : List (Int × Nat)} (hsub : ∀ pv ∈ levels, pv ∈ bestFirst l s) :
      (levels.map (·.1)).mapM (fun p => do pure (p, ← (quantities.get s).get p)) =
        (.ok (levels.map fun pv => (pv.1, (pv.2 : Int))) : Except Raise _) := by
    induction levels with
    | nil => rfl
    | cons pv levels ih =>
      have hget := mem_bestFirst.mp (hsub pv List.mem_cons_self)
      obtain ⟨-, h₀, h₁⟩ := (h s).inRange pv.1 pv.2 hget
      have hstored := ((h s).storage quantities hq).get h₀ h₁
      rw [List.map_cons, List.mapM_cons, hstored,
        ih fun pv' hpv' => hsub pv' (List.mem_cons_of_mem pv hpv'), hget]
      rfl
  have hprices : b.pricesOf s n = (first n (bestFirst l s)).map (·.1) := by
    unfold Book.pricesOf
    rw [h.sorted_eq, h.best_eq_head]
    unfold first
    split
    · rfl
    · cases bestFirst l s <;> rfl
    · rw [List.map_take]
  have hsub : ∀ pv ∈ first n (bestFirst l s), pv ∈ bestFirst l s := by
    intro pv hpv
    unfold first at hpv
    split at hpv
    · exact hpv
    · exact List.mem_of_mem_take hpv
  have hfirst : first n (b.ladder s) =
      (first n (bestFirst l s)).map fun pv => (pv.1, (pv.2 : Int)) := by
    rw [h.ladder_eq]
    unfold first
    split
    · rfl
    · rw [List.map_take]
  rw [hfirst, ← hread hsub, ← hprices]
  simp only [Book.usableLevels, Book.levels, ne_eq, not_true_eq_false, if_false, hq, found,
    Except.ok_bind]
  rfl

/-- A held ladder is told exactly. -/
theorem Book.Holds.exact (h : b.Holds l) : b.Exact where
  inRange s p hp := (h s).inRange.of_mem (((h s).occupied p).mp hp)
  stored s p h₀ h₁ := by
    rw [h.stored_eq s h₀ h₁, (h s).occupied]
    cases hget : (l.side s)[p]? with
    | none => simp [Std.ExtTreeMap.mem_iff_isSome_getElem?, hget]
    | some v => simpa [Std.ExtTreeMap.mem_iff_isSome_getElem?, hget] using ((h s).inRange p v hget).1
  zero s p h₀ h₁ hp := by
    rw [(h s).occupied] at hp
    rw [h.stored_eq s h₀ h₁, Std.ExtTreeMap.getElem?_eq_none hp]
    rfl
  best s := (h s).best.unique (by simpa only [(h s).occupied] using isBest_extreme s (b.occupied.get s))
  levels hq s n := h.usableLevels_eq hq s n

end Exact

/-! ## Every run -/

/-- Everything a book lets a strategy see of a side. -/
def Book.observed (b : Book) (s : Side) :
    List (Int × Int) × Option Int × (Option Nat → Except Raise (List (Int × Int))) :=
  (b.ladder s, b.best.get s, b.usableLevels s)

theorem SameLadder.observed_eq {limit : Nat} {b c : Book} (h : SameLadder limit b c) :
    b.observed = c.observed := by
  obtain ⟨l, hb, hc⟩ := h.holds
  funext s
  have hladder : b.ladder s = c.ladder s := by rw [hb.ladder_eq, hc.ladder_eq]
  have hbest : b.best.get s = c.best.get s := by rw [hb.best_eq_head, hc.best_eq_head]
  have hlevels : b.usableLevels s = c.usableLevels s := by
    funext n
    cases hq : b.quantities with
    | none =>
      have hq' : c.quantities = none := by simpa [hq] using h.allocated.symm
      simp [Book.usableLevels, Book.levels, hq, hq', found]
    | some quantities =>
      have hsome : b.quantities.isSome := by simp [hq]
      rw [hb.usableLevels_eq hsome, hc.usableLevels_eq (h.allocated ▸ hsome), hladder]
  simp only [Book.observed, hladder, hbest, hlevels]

/-- After any run on a new book the index is exact, and a list and a dict of quantities answer the
    run alike: the same observations, or the same exception. -/
theorem book_index_exact (priceScale : Nat) (calls : List BookCall)
    (hcalls : ∀ call ∈ calls, call.Published (10 ^ priceScale)) :
    (∀ dense b, calls.foldlM BookCall.run (Book.create dense priceScale) = .ok b → b.Exact) ∧
      (calls.foldlM BookCall.run (Book.create true priceScale)).map Book.observed =
        (calls.foldlM BookCall.run (Book.create false priceScale)).map Book.observed := by
  constructor
  · intro dense b hrun
    have halike := runs_alike (sameLadder_create dense dense priceScale) hcalls
    rw [hrun] at halike
    cases halike with
    | ok h =>
      obtain ⟨l, hholds, -⟩ := h.holds
      exact hholds.exact
  · exact (runs_alike (sameLadder_create true false priceScale) hcalls).map_eq
      fun _ _ h => h.observed_eq

/-- One bid at 2, then nothing. -/
def bidThenClear : List BookCall :=
  [.snapshot (.array [.array [.string "2", .string "7"]]) (.array []), .clear]

theorem book_index_exact_sample :
    (∀ dense b, bidThenClear.foldlM BookCall.run (Book.create dense 1) = .ok b → b.Exact) ∧
      (bidThenClear.foldlM BookCall.run (Book.create true 1)).map Book.observed =
        (bidThenClear.foldlM BookCall.run (Book.create false 1)).map Book.observed := by
  apply book_index_exact 1 bidThenClear
  intro call hcall
  simp only [bidThenClear, List.mem_cons, List.not_mem_nil, or_false] at hcall
  rcases hcall with rfl | rfl
  · have htwo : ReadsLevel (.array [.string "2", .string "7"]) (2, 7) :=
      ⟨_, _, rfl, rfl, rfl⟩
    refine ⟨⟨_, [(2, 7)], rfl, .cons htwo .nil, ?_, List.pairwise_singleton _ _⟩,
      ⟨_, [], rfl, .nil, ?_, .nil⟩⟩
    · simp [LevelsInRange]
    · simp [LevelsInRange]
  · trivial

end PredictionIndexer.Streams
