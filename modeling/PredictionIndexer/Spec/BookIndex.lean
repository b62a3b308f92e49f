import PredictionIndexer.Engine.Risk
import PredictionIndexer.Streams.Book

/-!
# The consumer's book holds a ladder

The book keeps quantities, occupied prices and a best price per side. This file says when that
state holds a ladder (`Book.Holds`), in either storage, and that clearing, snapshots and
operations keep it that way: each does to the held ladder what it says, and raises nothing.

Key results:
- `Book.Holds.clear` — clearing leaves the empty ladder
- `Book.Holds.snapshot` — a snapshot of in-range levels is held afterwards
- `Book.Holds.place` — one stored quantity changes one level
- `Book.Holds.levels_eq` — `levels` reads the ladder back, best first
-/

namespace PredictionIndexer.Streams

open Engine (Side Ladder setLevel)

/-! ## Storage -/

theorem slot_of_bounds {n : Nat} {p : Int} (h₀ : 0 ≤ p) (h₁ : p < n) :
    slot n p = .ok p.toNat := by
  simp [slot, h₀, h₁]

/-- The storage of a side holds the quantities of a price map. -/
def Quantities.Fits (limit : Nat) (dense : Bool) (m : Std.ExtTreeMap Int Nat) :
    Quantities → Prop
  | .dense slots => dense = true ∧ slots.size = limit + 1 ∧
      ∀ i : Nat, i ≤ limit → slots[i]? = some ((m[(i : Int)]?.getD 0 : Nat) : Int)
  | .sparse entries => dense = false ∧ ∀ p : Int, entries[p]? = m[p]?.map Nat.cast

namespace Quantities.Fits

variable {limit : Nat} {dense : Bool} {m : Std.ExtTreeMap Int Nat} {q : Quantities} {p : Int}

theorem fresh (limit : Nat) (dense : Bool) : (Quantities.fresh dense limit).Fits limit dense ∅ := by
  cases dense with
  | true =>
    refine ⟨rfl, by simp, ?_⟩
    intro i hi
    have hlt : i < limit + 1 := by omega
    simp [hlt]
  | false => exact ⟨rfl, by simp⟩

theorem get (h : q.Fits limit dense m) (h₀ : 0 ≤ p) (h₁ : p ≤ limit) :
    q.get p = .ok ((m[p]?.getD 0 : Nat) : Int) := by
  cases q with
  | dense slots =>
    obtain ⟨-, hsize, hslots⟩ := h
    have hslot : slot slots.size p = .ok p.toNat := slot_of_bounds h₀ (by omega)
    have hread := hslots p.toNat (by omega)
    rw [Int.toNat_of_nonneg h₀] at hread
    simp [Quantities.get, hslot, hread, found]
  | sparse entries =>
    rw [Quantities.get, h.2 p]
    cases m[p]? <;> rfl

/-- A list slot is set to any quantity; the map forgets a level that is set to zero. -/
theorem set_dense (h : q.Fits limit true m) (h₀ : 0 ≤ p) (h₁ : p ≤ limit) (v : Nat) :
    ∃ q', q.set p v = .ok q' ∧ q'.Fits limit true (setLevel m p v) := by
  cases q with
  | sparse entries => exact absurd h.1 (by simp)
  | dense slots =>
    obtain ⟨-, hsize, hslots⟩ := h
    have hslot : slot slots.size p = .ok p.toNat := slot_of_bounds h₀ (by omega)
    refine ⟨.dense (slots.setIfInBounds p.toNat v), by simp [Quantities.set, hslot], rfl, ?_, ?_⟩
    · simp [hsize]
    · intro i hi
      rw [Array.getElem?_setIfInBounds]
      by_cases hip : p.toNat = i
      · have hp : (i : Int) = p := by omega
        have hlt : p.toNat < slots.size := by omega
        rw [if_pos hip, if_pos hlt, hp]
        by_cases hv : v = 0 <;> simp [setLevel, hv]
      · have hp : p ≠ (i : Int) := by omega
        rw [if_neg hip, hslots i hi]
        by_cases hv : v = 0 <;>
          simp [setLevel, hv, Std.ExtTreeMap.getElem?_insert, Std.ExtTreeMap.getElem?_erase, hp]

/-- Storing a positive quantity. -/
theorem set (h : q.Fits limit dense m) (h₀ : 0 ≤ p) (h₁ : p ≤ limit) {v : Nat} (hv : 0 < v) :
    ∃ q', q.set p v = .ok q' ∧ q'.Fits limit dense (m.insert p v) := by
  have hlevel : setLevel m p v = m.insert p v := if_neg (by omega)
  cases dense with
  | true =>
    obtain ⟨q', hq', hfits⟩ := h.set_dense h₀ h₁ v
    exact ⟨q', hq', hlevel ▸ hfits⟩
  | false =>
    cases q with
    | dense slots => exact absurd h.1 (by simp)
    | sparse entries =>
      refine ⟨.sparse (entries.insert p v), rfl, rfl, ?_⟩
      intro p'
      rw [Std.ExtTreeMap.getElem?_insert, Std.ExtTreeMap.getElem?_insert, h.2 p']
      split <;> simp

/-- Removing an occupied price. -/
theorem remove (h : q.Fits limit dense m) (h₀ : 0 ≤ p) (h₁ : p ≤ limit) (hp : p ∈ m) :
    ∃ q', q.remove dense p = .ok q' ∧ q'.Fits limit dense (m.erase p) := by
  cases dense with
  | true => exact h.set_dense h₀ h₁ 0
  | false =>
    cases q with
    | dense slots => exact absurd h.1 (by simp)
    | sparse entries =>
      have hmem : p ∈ entries := by
        rw [Std.ExtTreeMap.mem_iff_isSome_getElem?, h.2 p, Option.isSome_map]
        exact Std.ExtTreeMap.mem_iff_isSome_getElem?.mp hp
      refine ⟨.sparse (entries.erase p), by simp [Quantities.remove, hmem], rfl, ?_⟩
      intro p'
      rw [Std.ExtTreeMap.getElem?_erase, Std.ExtTreeMap.getElem?_erase, h.2 p']
      split <;> simp

/-- Zeroing a list of slots. -/
theorem zero_all (h : q.Fits limit true m) (prices : List Int)
    (hp : ∀ p ∈ prices, 0 ≤ p ∧ p ≤ limit) :
    ∃ q', prices.foldlM (fun q p => q.set p 0) q = .ok q' ∧
      q'.Fits limit true (prices.foldl (fun m p => m.erase p) m) := by
  induction prices generalizing q m with
  | nil => exact ⟨q, rfl, h⟩
  | cons p prices ih =>
    obtain ⟨h₀, h₁⟩ := hp p (by simp)
    obtain ⟨q₁, hq₁, hfits⟩ := h.set_dense h₀ h₁ 0
    obtain ⟨q', hq', hfits'⟩ := ih hfits fun p' hp' => hp p' (by simp [hp'])
    refine ⟨q', ?_, hfits'⟩
    rw [List.foldlM_cons]
    show (q.set p (0 : Nat) >>= _) = _
    rw [hq₁]
    exact hq'

end Quantities.Fits

/-! ## Best prices -/

/-- `p` is at least as good a price as `p'`. -/
def Better (s : Side) (p p' : Int) : Prop :=
  match s with
  | .bid => p' ≤ p
  | .ask => p ≤ p'

/-- The best of a set of prices, if there is one. -/
def IsBest (s : Side) (mem : Int → Prop) : Option Int → Prop
  | none => ∀ p, ¬mem p
  | some b => mem b ∧ ∀ p, mem p → Better s b p

section Best

variable {s : Side} {mem : Int → Prop} {p : Int}

theorem Better.refl (s : Side) (p : Int) : Better s p p := by
  cases s <;> exact Int.le_refl p

/-- A newly occupied price is compared with the best one only. -/
theorem IsBest.add {top : Option Int} (h : IsBest s mem top) (p : Int) :
    IsBest s (fun p' => p' = p ∨ mem p') (if Book.improves s p top then some p else top) := by
  cases top with
  | none =>
    refine ⟨.inl rfl, ?_⟩
    rintro p' (rfl | hp')
    · exact Better.refl s p'
    · exact absurd hp' (h p')
  | some t =>
    obtain ⟨ht, hall⟩ := h
    by_cases himp : Book.improves s p (some t) = true
    · rw [if_pos himp]
      refine ⟨.inl rfl, ?_⟩
      rintro p' (rfl | hp')
      · exact Better.refl s p'
      · have := hall p' hp'
        cases s <;> simp only [Book.improves, decide_eq_true_eq, Better] at * <;> omega
    · rw [if_neg himp]
      refine ⟨.inr ht, ?_⟩
      rintro p' (rfl | hp')
      · cases s <;> simp only [Book.improves, decide_eq_true_eq, Better] at * <;> omega
      · exact hall p' hp'

/-- Removing another price keeps the best one. -/
theorem IsBest.drop {top : Option Int} (h : IsBest s mem top) (hne : top ≠ some p) :
    IsBest s (fun p' => p' ≠ p ∧ mem p') top := by
  cases top with
  | none => exact fun p' hp' => h p' hp'.2
  | some t =>
    refine ⟨⟨?_, h.1⟩, fun p' hp' => h.2 p' hp'.2⟩
    rintro rfl
    exact hne rfl

theorem isBest_extreme (s : Side) (occupied : Std.ExtTreeSet Int) :
    IsBest s (· ∈ occupied) (Book.extreme s occupied) := by
  cases s with
  | bid =>
    cases hmax : Book.extreme .bid occupied with
    | none =>
      intro p hp
      have hempty : occupied = ∅ := Std.ExtTreeSet.max?_eq_none_iff.mp hmax
      rw [hempty] at hp
      simp at hp
    | some b =>
      obtain ⟨hb, hall⟩ := Std.ExtTreeSet.max?_eq_some_iff_mem_and_forall.mp hmax
      exact ⟨hb, fun p hp => Std.isLE_compare.mp (hall p hp)⟩
  | ask =>
    cases hmin : Book.extreme .ask occupied with
    | none =>
      intro p hp
      have hempty : occupied = ∅ := Std.ExtTreeSet.min?_eq_none_iff.mp hmin
      rw [hempty] at hp
      simp at hp
    | some b =>
      obtain ⟨hb, hall⟩ := Std.ExtTreeSet.min?_eq_some_iff_mem_and_forall.mp hmin
      exact ⟨hb, fun p hp => Std.isLE_compare.mp (hall p hp)⟩

end Best

/-! ## The scan for the next best price -/

/-- A price map with positive quantities at prices in range. -/
def InRange (limit : Nat) (m : Std.ExtTreeMap Int Nat) : Prop :=
  ∀ (p : Int) (v : Nat), m[p]? = some v → 0 < v ∧ 0 ≤ p ∧ p ≤ limit

section Scan

variable {limit : Nat} {dense : Bool} {m : Std.ExtTreeMap Int Nat} {q : Quantities} {s : Side}
  {removed : Int}

theorem InRange.of_mem (h : InRange limit m) {p : Int} (hp : p ∈ m) : 0 ≤ p ∧ p ≤ limit := by
  obtain ⟨v, hv⟩ := Option.isSome_iff_exists.mp (Std.ExtTreeMap.mem_iff_isSome_getElem?.mp hp)
  exact (h p v hv).2

theorem InRange.empty (limit : Nat) : InRange limit ∅ := by
  intro p v hv
  simp at hv

theorem InRange.insert (h : InRange limit m) {p : Int} {v : Nat} (hv : 0 < v) (h₀ : 0 ≤ p)
    (h₁ : p ≤ limit) : InRange limit (m.insert p v) := by
  intro p' v' hget
  rw [Std.ExtTreeMap.getElem?_insert] at hget
  split at hget
  · rename_i heq
    obtain rfl := Std.LawfulEqCmp.eq_of_compare heq
    obtain rfl := Option.some.inj hget
    exact ⟨hv, h₀, h₁⟩
  · exact h p' v' hget

theorem InRange.erase (h : InRange limit m) (p : Int) : InRange limit (m.erase p) := by
  intro p' v' hget
  rw [Std.ExtTreeMap.getElem?_erase] at hget
  split at hget
  · exact nomatch hget
  · exact h p' v' hget

/-- A slot in range reads nonzero exactly at the prices of the map. -/
theorem Quantities.Fits.firstOccupied_eq (h : q.Fits limit dense m) (hm : InRange limit m)
    {prices : List Int} (hp : ∀ p ∈ prices, 0 ≤ p ∧ p ≤ limit) :
    Book.firstOccupied q prices = .ok (prices.find? m.contains) := by
  induction prices with
  | nil => rfl
  | cons p prices ih =>
    obtain ⟨h₀, h₁⟩ := hp p (by simp)
    rw [Book.firstOccupied, h.get h₀ h₁, Except.ok_bind, List.find?_cons,
      ih fun p' hp' => hp p' (by simp [hp'])]
    cases hget : m[p]? with
    | none =>
      have hnot : m.contains p = false := by
        simp [Std.ExtTreeMap.contains_eq_isSome_getElem?, hget]
      simp [hnot]
    | some v =>
      have hin : m.contains p = true := by
        simp [Std.ExtTreeMap.contains_eq_isSome_getElem?, hget]
      have hv := (hm p v hget).1
      have hne : v ≠ 0 := by omega
      simp [hin, hne]

/-- The slots of a scan are in range, in steps of one away from the removed price. -/
theorem scan_bounds (h₀ : 0 ≤ removed) (h₁ : removed ≤ limit) :
    ∀ p ∈ Book.scan limit removed s, 0 ≤ p ∧ p ≤ limit := by
  intro p hp
  cases s <;> simp only [Book.scan, bestScanSlots, List.mem_map, List.mem_range] at hp
  all_goals
    obtain ⟨i, hi, rfl⟩ := hp
    omega

/-- If every remaining price is worse than the removed one, the first price of the scan is the
    best of them. -/
theorem isBest_of_scan {p : Int} (hworse : ∀ p' ∈ m, Better s removed p' ∧ p' ≠ removed)
    (hp : (Book.scan limit removed s).find? m.contains = some p) :
    IsBest s (· ∈ m) (some p) := by
  have hmem : m.contains p = true := List.find?_some hp
  refine ⟨Std.ExtTreeMap.contains_iff_mem.mp hmem, ?_⟩
  intro p' hp'
  obtain ⟨hbetter, hne⟩ := hworse p' hp'
  have hin : m.contains p' = true := Std.ExtTreeMap.contains_iff_mem.mpr hp'
  -- a better price than the one found would have come earlier in the scan
  obtain ⟨-, j, hj, hjp, hbefore⟩ := List.find?_eq_some_iff_getElem.mp hp
  by_contra hnot
  cases s with
  | bid =>
    simp only [Book.scan, List.getElem_map, List.getElem_range] at hjp hbefore
    simp only [Better] at hbetter hnot
    have hearly := hbefore (removed - 1 - p').toNat (by omega)
    have heq : removed - 1 - ((removed - 1 - p').toNat : Int) = p' := by omega
    simp only [heq, hin, Bool.not_true, Bool.false_eq_true] at hearly
  | ask =>
    simp only [Book.scan, List.getElem_map, List.getElem_range] at hjp hbefore
    simp only [Better] at hbetter hnot
    have hearly := hbefore (p' - (removed + 1)).toNat (by omega)
    have heq : removed + 1 + ((p' - (removed + 1)).toNat : Int) = p' := by omega
    simp only [heq, hin, Bool.not_true, Bool.false_eq_true] at hearly

/-- The scan and its fallback find the best remaining price. -/
theorem Book.nextBest_isBest {b : Book} (h : q.Fits b.limit b.dense m)
    (hm : InRange b.limit m) (hoccupied : ∀ p, p ∈ b.occupied.get s ↔ p ∈ m)
    (h₀ : 0 ≤ removed) (h₁ : removed ≤ b.limit)
    (hworse : ∀ p' ∈ m, Better s removed p' ∧ p' ≠ removed) :
    ∃ r, b.nextBest q s removed = .ok r ∧ IsBest s (· ∈ m) r := by
  have hextreme : IsBest s (· ∈ m) (Book.extreme s (b.occupied.get s)) := by
    have := isBest_extreme s (b.occupied.get s)
    simpa only [hoccupied] using this
  by_cases hempty : (b.occupied.get s).isEmpty = true
  · refine ⟨none, by simp only [Book.nextBest, hempty, if_true], ?_⟩
    intro p hp
    rw [Std.ExtTreeSet.isEmpty_iff] at hempty
    rw [← hoccupied p, hempty] at hp
    simp at hp
  · simp only [Book.nextBest, hempty, Bool.false_eq_true, if_false]
    cases hdense : b.dense with
    | false => exact ⟨_, rfl, hextreme⟩
    | true =>
      simp only [if_true, h.firstOccupied_eq hm (scan_bounds h₀ h₁), Except.ok_bind]
      cases hfind : (Book.scan b.limit removed s).find? m.contains with
      | none => exact ⟨_, rfl, hextreme⟩
      | some p => exact ⟨_, rfl, isBest_of_scan hworse hfind⟩

end Scan

/-! ## Holding a ladder -/

/-- One side of a book holds a price map. -/
structure Book.HoldsSide (b : Book) (s : Side) (m : Std.ExtTreeMap Int Nat) : Prop where
  inRange : InRange b.limit m
  occupied : ∀ p, p ∈ b.occupied.get s ↔ p ∈ m
  storage : ∀ quantities, b.quantities = some quantities →
    (quantities.get s).Fits b.limit b.dense m
  unallocated : b.quantities = none → m = ∅
  best : IsBest s (· ∈ m) (b.best.get s)

/-- A book holds a ladder when its sides do. -/
def Book.Holds (b : Book) (l : Ladder) : Prop := ∀ s, b.HoldsSide s (l.side s)

/-- `b'` differs from `b` in what it stores per side only. -/
def Book.Restored (b b' : Book) : Prop :=
  b' = { b with quantities := b'.quantities, occupied := b'.occupied, best := b'.best }

theorem Book.Restored.refl (b : Book) : b.Restored b := rfl

theorem Book.Restored.trans {b₁ b₂ b₃ : Book} (h : b₁.Restored b₂) (h' : b₂.Restored b₃) :
    b₁.Restored b₃ := by
  unfold Book.Restored at h h' ⊢
  rw [h', h]

/-- The held ladder does not depend on the rest of the book. -/
theorem Book.Holds.congr {b b' : Book} {l : Ladder} (h : b.Holds l) (hlimit : b'.limit = b.limit)
    (hdense : b'.dense = b.dense) (hq : b'.quantities = b.quantities)
    (ho : b'.occupied = b.occupied) (hbest : b'.best = b.best) : b'.Holds l := by
  intro s
  obtain ⟨h₁, h₂, h₃, h₄, h₅⟩ := h s
  exact ⟨by rwa [hlimit], by rwa [ho], by rwa [hq, hlimit, hdense], by rwa [hq], by rwa [hbest]⟩

theorem Book.new_holds (priceScale : Nat) : (Book.new priceScale).Holds ⟨∅, ∅⟩ := by
  intro s
  have hside : (⟨∅, ∅⟩ : Ladder).side s = ∅ := by cases s <;> rfl
  have hoccupied : (Book.new priceScale).occupied.get s = ∅ := by cases s <;> rfl
  have hbest : (Book.new priceScale).best.get s = none := by cases s <;> rfl
  rw [hside]
  refine ⟨InRange.empty _, by simp [hoccupied], ?_, fun _ => rfl, ?_⟩
  · intro quantities hq
    exact nomatch hq
  · rw [hbest]
    intro p hp
    simp at hp

theorem Ladder.side_setSide (l : Ladder) (s s' : Side) (m : Std.ExtTreeMap Int Nat) :
    (l.setSide s m).side s' = if s = s' then m else l.side s' := by
  cases s <;> cases s' <;> rfl

theorem Sides.set_get_self {α : Type} (x : Sides α) (s : Side) : x.set s (x.get s) = x := by
  cases s <;> rfl

section Holds

variable {b : Book} {l : Ladder} {quantities : Sides Quantities} {s : Side} {p : Int}

/-- Storing a new state of one side changes that side of the held ladder. -/
theorem Book.Holds.update (h : b.Holds l) (hq : b.quantities = some quantities) {q : Quantities}
    (occupied : Std.ExtTreeSet Int) (best : Option Int) {m : Std.ExtTreeMap Int Nat}
    (hrange : InRange b.limit m) (hoccupied : ∀ p, p ∈ occupied ↔ p ∈ m)
    (hfits : q.Fits b.limit b.dense m) (hbest : IsBest s (· ∈ m) best) :
    Book.Holds { b with
      quantities := some (quantities.set s q)
      occupied := b.occupied.set s occupied
      best := b.best.set s best } (l.setSide s m) := by
  intro s'
  rw [Ladder.side_setSide]
  by_cases hs : s = s'
  · subst hs
    rw [if_pos rfl]
    refine ⟨hrange, by simpa using hoccupied, ?_, (fun hnone => nomatch hnone), by simpa using hbest⟩
    intro quantities' hq'
    obtain rfl := Option.some.inj hq'
    simpa using hfits
  · rw [if_neg hs]
    obtain ⟨h₁, h₂, h₃, -, h₅⟩ := h s'
    refine ⟨h₁, ?_, ?_, (fun hnone => nomatch hnone), ?_⟩
    · simpa [Sides.get_set_of_ne _ hs] using h₂
    · intro quantities' hq'
      obtain rfl := Option.some.inj hq'
      simpa [Sides.get_set_of_ne _ hs] using h₃ quantities hq
    · simpa [Sides.get_set_of_ne _ hs] using h₅

/-- Storing a quantity at a price: a positive one replaces the level, zero removes it. -/
theorem Book.Holds.place (h : b.Holds l) (hq : b.quantities = some quantities) (h₀ : 0 ≤ p)
    (h₁ : p ≤ b.limit) (new : Nat) :
    ∃ b', b.place quantities s p new = .ok b' ∧ b.Restored b' ∧ b'.quantities.isSome ∧
      b'.Holds (l.setSide s (setLevel (l.side s) p new)) := by
  obtain ⟨hrange, hoccupied, hstorage, -, hbest⟩ := h s
  have hfits := hstorage quantities hq
  by_cases hnew : 0 < new
  · have hlevel : setLevel (l.side s) p new = (l.side s).insert p new := if_neg (by omega)
    obtain ⟨q, hset, hfits'⟩ := hfits.set h₀ h₁ hnew
    have hpos : (0 : Int) < new := by omega
    have hrange' := hrange.insert hnew h₀ h₁
    simp only [Book.place, if_pos hpos, hset, Except.ok_bind, hlevel]
    by_cases hin : (b.occupied.get s).contains p = true
    · -- the price was occupied already: the set of prices stays as it is
      have hmem : p ∈ l.side s := (hoccupied p).mp (Std.ExtTreeSet.contains_iff_mem.mp hin)
      have hsame : ∀ p', p' ∈ (l.side s).insert p new ↔ p' ∈ l.side s := by
        intro p'
        rw [Std.ExtTreeMap.mem_insert]
        constructor
        · rintro (heq | hp')
          · exact Std.LawfulEqCmp.eq_of_compare heq ▸ hmem
          · exact hp'
        · exact .inr
      simp only [if_pos hin]
      refine ⟨_, rfl, rfl, rfl, ?_⟩
      have := h.update hq (b.occupied.get s) (b.best.get s) hrange'
        (fun p' => (hoccupied p').trans (hsame p').symm) hfits' (by simpa only [hsame] using hbest)
      simpa only [Sides.set_get_self] using this
    · have hadd : ∀ p', p' ∈ (l.side s).insert p new ↔ p' = p ∨ p' ∈ l.side s := by
        intro p'
        rw [Std.ExtTreeMap.mem_insert, Std.LawfulEqCmp.compare_eq_iff_eq, eq_comm]
      simp only [if_neg hin]
      refine ⟨_, rfl, rfl, rfl, ?_⟩
      have hbest' := hbest.add p
      have := h.update hq ((b.occupied.get s).insert p) _ hrange' (by
        intro p'
        rw [Std.ExtTreeSet.mem_insert, hadd, hoccupied, Std.LawfulEqCmp.compare_eq_iff_eq,
          eq_comm]) hfits' (by simpa only [hadd] using hbest')
      refine this.congr rfl rfl rfl rfl ?_
      by_cases himp : Book.improves s p (b.best.get s) = true
      · simp only [himp, if_true]
      · simp only [himp, Bool.false_eq_true, if_false, Sides.set_get_self]
  · obtain rfl : new = 0 := by omega
    have hlevel : setLevel (l.side s) p 0 = (l.side s).erase p := if_pos rfl
    simp only [Book.place, Nat.cast_zero, Int.lt_irrefl, if_false, decide_true, require, if_true,
      Except.ok_bind, hlevel]
    by_cases hin : (b.occupied.get s).contains p = true
    · have hmem : p ∈ l.side s := (hoccupied p).mp (Std.ExtTreeSet.contains_iff_mem.mp hin)
      obtain ⟨q, hremove, hfits'⟩ := hfits.remove h₀ h₁ hmem
      have hdrop : ∀ p', p' ∈ (l.side s).erase p ↔ p' ≠ p ∧ p' ∈ l.side s := by
        intro p'
        simp only [Std.ExtTreeMap.mem_erase, ne_eq, Std.LawfulEqCmp.compare_eq_iff_eq,
          @eq_comm _ p]
      have hoccupied' : ∀ p', p' ∈ (b.occupied.get s).erase p ↔ p' ∈ (l.side s).erase p := by
        intro p'
        simp only [Std.ExtTreeSet.mem_erase, hdrop, hoccupied, ne_eq,
          Std.LawfulEqCmp.compare_eq_iff_eq, @eq_comm _ p]
      simp only [if_pos hin, hremove, Except.ok_bind]
      by_cases htop : b.best.get s = some p
      · -- the best level is gone: look for the next one
        have hworse : ∀ p' ∈ (l.side s).erase p, Better s p p' ∧ p' ≠ p := by
          intro p' hp'
          obtain ⟨hne, hp'⟩ := (hdrop p').mp hp'
          rw [htop] at hbest
          exact ⟨hbest.2 p' hp', hne⟩
        obtain ⟨r, hr, hisBest⟩ := Book.nextBest_isBest
          (b := { b with
            quantities := some (quantities.set s q)
            occupied := b.occupied.set s ((b.occupied.get s).erase p) })
          hfits' (hrange.erase p) (by simpa using hoccupied') h₀ h₁ hworse
        simp only [if_pos htop, hr, Except.ok_bind]
        exact ⟨_, rfl, rfl, rfl, h.update hq _ _ (hrange.erase p) hoccupied' hfits' hisBest⟩
      · simp only [if_neg htop]
        refine ⟨_, rfl, rfl, rfl, ?_⟩
        have hbest' := hbest.drop htop
        have := h.update hq _ (b.best.get s) (hrange.erase p) hoccupied' hfits'
          (by simpa only [hdrop] using hbest')
        simpa only [Sides.set_get_self] using this
    · have hnot : p ∉ l.side s := by
        rw [← hoccupied, ← Std.ExtTreeSet.contains_iff_mem]
        exact hin
      have herase : (l.side s).erase p = l.side s := by
        apply Std.ExtTreeMap.ext_getElem?
        intro p'
        rw [Std.ExtTreeMap.getElem?_erase]
        split
        · rename_i heq
          obtain rfl := Std.LawfulEqCmp.eq_of_compare heq
          exact (Std.ExtTreeMap.getElem?_eq_none hnot).symm
        · rfl
      have hself : l.setSide s (l.side s) = l := by cases s <;> rfl
      simp only [if_neg hin, herase, hself]
      exact ⟨b, rfl, Book.Restored.refl b, by simp [hq], h⟩

/-! ## Clearing -/

/-- Erasing every key leaves nothing. -/
theorem foldl_erase_eq_empty {prices : List Int} {m : Std.ExtTreeMap Int Nat}
    (h : ∀ p ∈ m, p ∈ prices) : prices.foldl (fun m p => m.erase p) m = ∅ := by
  induction prices generalizing m with
  | nil =>
    apply Std.ExtTreeMap.eq_empty_iff_forall_not_mem.mpr
    intro p hp
    exact absurd (h p hp) (by simp)
  | cons p prices ih =>
    apply ih
    intro p' hp'
    obtain ⟨hne, hp'⟩ := Std.ExtTreeMap.mem_erase.mp hp'
    have hcases := List.mem_cons.mp (h p' hp')
    rcases hcases with rfl | hin
    · exact absurd Std.ReflCmp.compare_self hne
    · exact hin

theorem Book.clearSide_eq {m : Std.ExtTreeMap Int Nat} (hq : b.quantities = some quantities)
    (hfits : (quantities.get s).Fits b.limit b.dense m) (hrange : InRange b.limit m)
    (hoccupied : ∀ p, p ∈ b.occupied.get s ↔ p ∈ m) :
    ∃ q, q.Fits b.limit b.dense ∅ ∧ b.clearSide s = .ok { b with
      quantities := some (quantities.set s q)
      occupied := b.occupied.set s ∅ } := by
  unfold Book.clearSide
  rw [hq]
  cases hdense : b.dense with
  | false =>
    refine ⟨(quantities.get s).clear, ?_, rfl⟩
    rw [hdense] at hfits
    cases hside : quantities.get s with
    | dense slots =>
      rw [hside] at hfits
      exact absurd hfits.1 (by simp)
    | sparse entries => exact ⟨rfl, by simp⟩
  | true =>
    -- only the occupied slots hold anything
    rw [hdense] at hfits
    obtain ⟨q, hzero, hfits'⟩ := hfits.zero_all (b.occupied.get s).toList (by
      intro p hp
      exact hrange.of_mem ((hoccupied p).mp (Std.ExtTreeSet.mem_toList.mp hp)))
    rw [foldl_erase_eq_empty fun p hp =>
      Std.ExtTreeSet.mem_toList.mpr ((hoccupied p).mpr hp)] at hfits'
    refine ⟨q, hfits', ?_⟩
    simp only [if_true, hzero, Except.ok_bind]
    rfl

theorem Book.Holds.clear (h : b.Holds l) :
    ∃ b', b.clear = .ok b' ∧ b.Restored b' ∧ b'.quantities.isSome = b.quantities.isSome ∧
      b'.Holds ⟨∅, ∅⟩ := by
  have hside : ∀ s, (⟨∅, ∅⟩ : Ladder).side s = ∅ := fun s => by cases s <;> rfl
  cases hq : b.quantities with
  | none =>
    refine ⟨{ b with best := ⟨none, none⟩ }, ?_, ?_, by simp [hq], ?_⟩
    · simp [Book.clear, Book.clearSide, hq]
    · rfl
    · intro s
      obtain ⟨h₁, h₂, -, h₄, -⟩ := h s
      rw [h₄ hq] at h₁ h₂
      rw [hside s]
      refine ⟨h₁, h₂, ?_, fun _ => rfl, ?_⟩
      · intro quantities' hq'
        exact nomatch hq.symm.trans hq'
      · cases s <;> exact fun p hp => absurd hp (by simp)
  | some quantities =>
    obtain ⟨hr₁, ho₁, hs₁, -, -⟩ := h .bid
    obtain ⟨hr₂, ho₂, hs₂, -, -⟩ := h .ask
    obtain ⟨q₁, hfits₁, hclear₁⟩ := Book.clearSide_eq hq (hs₁ quantities hq) hr₁ ho₁
    obtain ⟨q₂, hfits₂, hclear₂⟩ := Book.clearSide_eq
      (b := { b with
        quantities := some (quantities.set .bid q₁)
        occupied := b.occupied.set .bid ∅ }) (s := .ask) rfl (hs₂ quantities hq) hr₂ ho₂
    refine ⟨{ b with
      quantities := some ⟨q₁, q₂⟩
      occupied := ⟨∅, ∅⟩
      best := ⟨none, none⟩ }, ?_, rfl, rfl, ?_⟩
    · simp only [Book.clear, List.foldlM_cons, List.foldlM_nil, hclear₁, Except.ok_bind, hclear₂]
      rfl
    · intro s
      rw [hside s]
      refine ⟨InRange.empty _, ?_, ?_, fun _ => rfl, ?_⟩
      · intro p
        cases s <;> simp [Sides.get]
      · intro quantities' hq'
        obtain rfl := Option.some.inj hq'
        cases s
        · exact hfits₁
        · exact hfits₂
      · cases s <;> exact fun p hp => absurd hp (by simp)

/-! ## Snapshots -/

/-- A wire level that reads as a price and a quantity. -/
def ReadsLevel (level : Json) (pv : Int × Nat) : Prop :=
  ∃ x y, level = .array [x, y] ∧ int x = .ok pv.1 ∧ int y = .ok (pv.2 : Int)

/-- Levels that a side can hold. -/
def LevelsInRange (limit : Nat) (levels : List (Int × Nat)) : Prop :=
  ∀ pv ∈ levels, 0 < pv.2 ∧ 0 ≤ pv.1 ∧ pv.1 ≤ limit

/-- The price map of some levels. -/
def levelMap (levels : List (Int × Nat)) (m : Std.ExtTreeMap Int Nat) : Std.ExtTreeMap Int Nat :=
  levels.foldl (fun m pv => m.insert pv.1 pv.2) m

theorem mem_levelMap {levels : List (Int × Nat)} {m : Std.ExtTreeMap Int Nat} {p : Int} :
    p ∈ levelMap levels m ↔ p ∈ m ∨ ∃ pv ∈ levels, pv.1 = p := by
  unfold levelMap
  induction levels generalizing m with
  | nil => simp
  | cons pv levels ih =>
    rw [List.foldl_cons, ih, Std.ExtTreeMap.mem_insert, Std.LawfulEqCmp.compare_eq_iff_eq]
    simp only [List.mem_cons, exists_eq_or_imp]
    tauto

/-- The level loop of a snapshot stores every level. -/
theorem snapshotLevels_eq {limit : Nat} {dense : Bool} {items : List Json}
    {levels : List (Int × Nat)} (hreads : List.Forall₂ ReadsLevel items levels)
    (hlevels : LevelsInRange limit levels) {q : Quantities} {occupied : Std.ExtTreeSet Int}
    {m : Std.ExtTreeMap Int Nat} (hfits : q.Fits limit dense m) (hrange : InRange limit m)
    (hoccupied : ∀ p, p ∈ occupied ↔ p ∈ m) :
    ∃ q' occupied', items.foldlM (Book.snapshotLevel limit) (q, occupied) = .ok (q', occupied') ∧
      q'.Fits limit dense (levelMap levels m) ∧ InRange limit (levelMap levels m) ∧
      ∀ p, p ∈ occupied' ↔ p ∈ levelMap levels m := by
  induction hreads generalizing q occupied m with
  | nil => exact ⟨q, occupied, rfl, hfits, hrange, hoccupied⟩
  | @cons item pv items levels hitem _ ih =>
    obtain ⟨x, y, rfl, hx, hy⟩ := hitem
    obtain ⟨hpos, h₀, h₁⟩ := hlevels pv (by simp)
    obtain ⟨q₁, hset, hfits₁⟩ := hfits.set h₀ h₁ hpos
    have hoccupied₁ : ∀ p, p ∈ occupied.insert pv.1 ↔ p ∈ m.insert pv.1 pv.2 := by
      intro p
      rw [Std.ExtTreeSet.mem_insert, Std.ExtTreeMap.mem_insert, hoccupied]
    obtain ⟨q', occupied', hrun, hrest⟩ := ih (fun pv' hpv' => hlevels pv' (by simp [hpv']))
      hfits₁ (hrange.insert hpos h₀ h₁) hoccupied₁
    refine ⟨q', occupied', ?_, hrest⟩
    rw [List.foldlM_cons]
    have hround : Book.snapshotLevel limit (q, occupied) (.array [x, y]) =
        .ok (q₁, occupied.insert pv.1) := by
      simp [Book.snapshotLevel, unpack, iterate, hx, hy, require, h₀, h₁, hset]
    rw [hround]
    exact hrun

/-- The end of an ascending ladder that is best for its side. -/
def topLevel (s : Side) (levels : List (Int × Nat)) : Option (Int × Nat) :=
  match s with
  | .bid => levels.getLast?
  | .ask => levels.head?

theorem isBest_topLevel {levels : List (Int × Nat)}
    (hsorted : levels.Pairwise fun a b => a.1 < b.1) :
    IsBest s (· ∈ levelMap levels ∅) ((topLevel s levels).map (·.1)) := by
  simp only [mem_levelMap, Std.ExtTreeMap.not_mem_empty, false_or]
  cases s with
  | bid =>
    rcases List.eq_nil_or_concat levels with rfl | ⟨init, top, rfl⟩
    · simp [topLevel, IsBest]
    · simp only [topLevel, List.concat_eq_append, List.getLast?_concat, Option.map_some]
      refine ⟨⟨top, by simp, rfl⟩, ?_⟩
      rintro p ⟨pv, hpv, rfl⟩
      simp only [List.concat_eq_append, List.mem_append, List.mem_singleton] at hpv hsorted
      rcases hpv with hpv | rfl
      · have := (List.pairwise_append.mp hsorted).2.2 pv hpv top (by simp)
        simp only [Better]
        omega
      · exact Better.refl _ _
  | ask =>
    cases levels with
    | nil => simp [topLevel, IsBest]
    | cons top rest =>
      simp only [topLevel, List.head?_cons, Option.map_some]
      refine ⟨⟨top, by simp, rfl⟩, ?_⟩
      rintro p ⟨pv, hpv, rfl⟩
      rcases List.mem_cons.mp hpv with rfl | hpv
      · exact Better.refl _ _
      · have := (List.pairwise_cons.mp hsorted).1 pv hpv
        simp only [Better]
        omega

theorem index_first (item : Json) (items : List Json) :
    index (.array (item :: items)) 0 = .ok item := by
  simp [index, slot, found]

theorem index_last (items : List Json) (item : Json) :
    index (.array (items ++ [item])) (-1) = .ok item := by
  have hslot : slot (items ++ [item]).length (-1) = .ok items.length := by
    simp only [slot, List.length_append, List.length_singleton]
    rw [if_neg (by omega), if_pos (by omega)]
    congr 1
    omega
  simp only [index, hslot, Except.ok_bind]
  simp [found]

/-- The best price of a snapshot is read off one end of its ladder. -/
theorem readsTop {items : List Json} {levels : List (Int × Nat)}
    (hreads : List.Forall₂ ReadsLevel items levels) (hne : items ≠ []) :
    ∃ top x y, topLevel s levels = some top ∧ int x = .ok top.1 ∧
      index (.array items) (Book.topIndex s) = .ok (.array [x, y]) := by
  cases s with
  | bid =>
    obtain ⟨init, item, rfl⟩ := (List.eq_nil_or_concat items).resolve_left hne
    have hrev := List.rel_reverse hreads
    rw [List.concat_eq_append, List.reverse_append, List.reverse_singleton,
      List.singleton_append] at hrev
    obtain ⟨top, rest, htop, -, hlevels⟩ := List.forall₂_cons_left_iff.mp hrev
    obtain ⟨x, y, rfl, hx, -⟩ := htop
    refine ⟨top, x, y, ?_, hx, ?_⟩
    · rw [topLevel, ← List.head?_reverse, hlevels]
      rfl
    · rw [List.concat_eq_append]
      exact index_last init _
  | ask =>
    cases hreads with
    | nil => exact absurd rfl hne
    | @cons item top items levels htop _ =>
      obtain ⟨x, y, rfl, hx, -⟩ := htop
      exact ⟨top, x, y, rfl, hx, index_first _ _⟩

/-- One side of a snapshot, on a side that was cleared. -/
theorem Book.Holds.snapshotSide (h : b.Holds l) (hq : b.quantities = some quantities)
    (hempty : l.side s = ∅) {items : List Json} {levels : List (Int × Nat)}
    (hreads : List.Forall₂ ReadsLevel items levels) (hlevels : LevelsInRange b.limit levels)
    (hsorted : levels.Pairwise fun a b => a.1 < b.1) :
    ∃ b', b.snapshotSide s (.array items) = .ok b' ∧ b.Restored b' ∧ b'.quantities.isSome ∧
      b'.Holds (l.setSide s (levelMap levels ∅)) := by
  obtain ⟨hrange, hoccupied, hstorage, -, hbest⟩ := h s
  rw [hempty] at hrange hoccupied hbest
  have hfits := hstorage quantities hq
  rw [hempty] at hfits
  obtain ⟨q, occupied, hloop, hfits', hrange', hoccupied'⟩ :=
    snapshotLevels_eq hreads hlevels hfits hrange hoccupied
  have htop := isBest_topLevel (s := s) hsorted
  simp only [Book.snapshotSide, hq, found, iterate, Except.ok_bind, hloop]
  by_cases hne : items = []
  · -- no levels: the best price stays `None`
    subst hne
    obtain rfl := List.forall₂_nil_left_iff.mp hreads
    refine ⟨_, rfl, rfl, rfl, h.update hq _ _ hrange' hoccupied' hfits' ?_⟩
    simpa [levelMap] using hbest
  · obtain ⟨top, x, y, hget, hx, hindex⟩ := readsTop (s := s) hreads hne
    rw [hget] at htop
    have hitems : items.isEmpty = false := by simp [hne]
    simp only [hitems, Bool.false_eq_true, if_false, hindex, Except.ok_bind, index_first, hx]
    exact ⟨_, rfl, rfl, rfl, h.update hq _ _ hrange' hoccupied' hfits' htop⟩

/-- The storage is allocated or cleared before a snapshot. -/
theorem Book.Holds.reset (h : b.Holds l) :
    ∃ b', b.reset = .ok b' ∧ b.Restored b' ∧ b'.quantities.isSome ∧ b'.Holds ⟨∅, ∅⟩ := by
  cases hq : b.quantities with
  | none =>
    let fresh := Quantities.fresh b.dense b.limit
    refine ⟨{ b with quantities := some ⟨fresh, fresh⟩ }, by simp [Book.reset, hq, fresh], rfl, rfl, ?_⟩
    intro s
    obtain ⟨h₁, h₂, -, h₄, h₅⟩ := h s
    have hside : (⟨∅, ∅⟩ : Ladder).side s = l.side s := by
      rw [h₄ hq]
      cases s <;> rfl
    rw [hside]
    refine ⟨h₁, h₂, ?_, (fun hnone => nomatch hnone), h₅⟩
    intro quantities hq'
    obtain rfl := Option.some.inj hq'
    rw [h₄ hq]
    cases s <;> exact Quantities.Fits.fresh b.limit b.dense
  | some quantities =>
    obtain ⟨b', hclear, hrestored, hsome, hholds⟩ := h.clear
    exact ⟨b', by simp [Book.reset, hq, hclear], hrestored, by simp [hsome, hq], hholds⟩

/-- A snapshot replaces the held ladder. -/
theorem Book.Holds.snapshot (h : b.Holds l) {bidItems askItems : List Json}
    {bids asks : List (Int × Nat)} (hbids : List.Forall₂ ReadsLevel bidItems bids)
    (hasks : List.Forall₂ ReadsLevel askItems asks) (hbidRange : LevelsInRange b.limit bids)
    (haskRange : LevelsInRange b.limit asks) (hbidSorted : bids.Pairwise fun a b => a.1 < b.1)
    (haskSorted : asks.Pairwise fun a b => a.1 < b.1) :
    ∃ b', b.snapshot (.array bidItems) (.array askItems) = .ok b' ∧ b.Restored b' ∧
      b'.quantities.isSome ∧ b'.Holds ⟨levelMap bids ∅, levelMap asks ∅⟩ := by
  obtain ⟨b₀, hrun, hr₀, hsome₀, hholds⟩ := h.reset
  obtain ⟨quantities, hq₀⟩ := Option.isSome_iff_exists.mp hsome₀
  have hlimit₀ : b₀.limit = b.limit := by rw [hr₀]
  obtain ⟨b₁, hrun₁, hr₁, hsome₁, hholds₁⟩ :=
    hholds.snapshotSide hq₀ (s := .bid) rfl hbids (by rwa [hlimit₀]) hbidSorted
  have hlimit₁ : b₁.limit = b.limit := by rw [hr₁, hlimit₀]
  obtain ⟨quantities₁, hq₁⟩ := Option.isSome_iff_exists.mp hsome₁
  obtain ⟨b₂, hrun₂, hr₂, hsome₂, hholds₂⟩ :=
    hholds₁.snapshotSide hq₁ (s := .ask) rfl hasks (by rwa [hlimit₁]) haskSorted
  refine ⟨b₂, ?_, (hr₀.trans hr₁).trans hr₂, hsome₂, hholds₂⟩
  simp only [Book.snapshot, hrun, Except.ok_bind, hrun₁, hrun₂]

/-! ## Reading levels -/

/-- The map of a price map's own entries is that map. -/
theorem levelMap_toList (m : Std.ExtTreeMap Int Nat) : levelMap m.toList ∅ = m := by
  apply Std.ExtTreeMap.ext_getElem?
  intro p
  unfold levelMap
  cases hget : m[p]? with
  | none =>
    rw [Std.ExtTreeMap.getElem?_foldl_insert_of_notMem]
    · simp
    · rintro ⟨p', v⟩ hmem rfl
      rw [Std.ExtTreeMap.mem_toList_iff_getElem?_eq_some.mp hmem] at hget
      exact nomatch hget
  | some v =>
    have hmem : (p, v) ∈ m.toList := Std.ExtTreeMap.mem_toList_iff_getElem?_eq_some.mpr hget
    refine Std.ExtTreeMap.getElem?_foldl_insert_of_mem (c := (p, v)) ?_ hmem
    refine (Std.ExtTreeMap.distinct_keys_toList (t := m)).imp ?_
    intro a c hac heq
    exact hac (by simp [heq])

theorem pairwise_toList (m : Std.ExtTreeMap Int Nat) :
    m.toList.Pairwise fun a b => a.1 < b.1 := by
  refine (Std.ExtTreeMap.ordered_keys_toList (t := m)).imp ?_
  intro a b hab
  exact compare_lt_iff_lt.mp hab

theorem levelsInRange_toList {limit : Nat} {m : Std.ExtTreeMap Int Nat}
    (h : InRange limit m) : LevelsInRange limit m.toList := by
  intro pv hpv
  exact h pv.1 pv.2 (Std.ExtTreeMap.mem_toList_iff_getElem?_eq_some.mp hpv)

/-- The occupied prices of a side, ascending, are the keys of its map. -/
theorem Book.Holds.occupied_toList (h : b.Holds l) (s : Side) :
    (b.occupied.get s).toList = (l.side s).toList.map (·.1) := by
  have hset : (b.occupied.get s).toList.Pairwise (· < ·) := by
    refine (Std.ExtTreeSet.ordered_toList (t := b.occupied.get s)).imp ?_
    intro a b hab
    exact compare_lt_iff_lt.mp hab
  have hmap : ((l.side s).toList.map (·.1)).Pairwise (· < ·) :=
    List.pairwise_map.mpr (pairwise_toList _)
  refine List.Perm.eq_of_pairwise ?_ hset hmap ?_
  · intro a b _ _ h₁ h₂
    omega
  · have hnodup : ((l.side s).toList.map (·.1)).Nodup := by
      refine (List.pairwise_map.mpr (pairwise_toList (l.side s))).imp ?_
      intro a b hab
      omega
    have hnodup' : (b.occupied.get s).toList.Nodup := by
      refine (Std.ExtTreeSet.ordered_toList (t := b.occupied.get s)).imp ?_
      intro a b hab heq
      simp [heq] at hab
    rw [List.perm_ext_iff_of_nodup hnodup' hnodup]
    intro p
    rw [Std.ExtTreeSet.mem_toList, (h s).occupied p, Std.ExtTreeMap.mem_iff_isSome_getElem?,
      Option.isSome_iff_exists, List.mem_map]
    constructor
    · rintro ⟨v, hv⟩
      exact ⟨(p, v), Std.ExtTreeMap.mem_toList_iff_getElem?_eq_some.mpr hv, rfl⟩
    · rintro ⟨⟨p', v⟩, hmem, rfl⟩
      exact ⟨v, Std.ExtTreeMap.mem_toList_iff_getElem?_eq_some.mp hmem⟩

/-- A side of a ladder as the consumer reads it: best price first. -/
def bestFirst (l : Ladder) : Side → List (Int × Nat)
  | .bid => l.bids.toList.reverse
  | .ask => l.asks.toList

theorem mem_bestFirst {pv : Int × Nat} :
    pv ∈ bestFirst l s ↔ (l.side s)[pv.1]? = some pv.2 := by
  rw [← Std.ExtTreeMap.mem_toList_iff_getElem?_eq_some]
  cases s with
  | bid => exact List.mem_reverse
  | ask => exact Iff.rfl

theorem Book.Holds.sorted_eq (h : b.Holds l) (s : Side) :
    b.sorted s = (bestFirst l s).map (·.1) := by
  have hlist := h.occupied_toList s
  cases s with
  | bid =>
    rw [bestFirst, List.map_reverse]
    exact congrArg List.reverse hlist
  | ask => exact hlist

/-- `levels` returns the ladder, best price first. -/
theorem Book.Holds.levels_eq (h : b.Holds l) (hv : b.validity = .usable)
    (hq : b.quantities = some quantities) (s : Side) :
    b.levels s none = .ok ((bestFirst l s).map fun pv => (pv.1, (pv.2 : Int))) := by
  have hfits := (h s).storage quantities hq
  have hread : ∀ pv ∈ bestFirst l s, (quantities.get s).get pv.1 = .ok (pv.2 : Int) := by
    intro pv hpv
    have hget := mem_bestFirst.mp hpv
    obtain ⟨-, h₀, h₁⟩ := (h s).inRange pv.1 pv.2 hget
    rw [hfits.get h₀ h₁, hget]
    rfl
  simp only [Book.levels, hv, ne_eq, not_true_eq_false, if_false, hq, found, Except.ok_bind,
    h.sorted_eq s]
  generalize bestFirst l s = levels at hread
  induction levels with
  | nil => rfl
  | cons pv levels ih =>
    have hrest := ih fun pv' hpv' => hread pv' (by simp [hpv'])
    rw [List.map_cons, List.mapM_cons, hread pv (by simp), Except.ok_bind, Except.pure_eq_ok,
      Except.ok_bind, hrest]
    rfl

end Holds

end PredictionIndexer.Streams
