import Mathlib

/-!
# Runs of one label

A list whose elements may carry a label splits into its maximal runs of one label; an element
without a label is a run of its own. `runs` is `List.splitBy` at that relation, and a loop that
collects the runs one after the other extends it by `runs_append_run`.

When the elements are in the order of a key and a label can only be the key of its element, no
label comes back in a later run (`pairwise_runs`).
-/

namespace LabelRuns

variable {α κ : Type} [DecidableEq κ]

/-- `b` goes on with the run that `a` is in. -/
def joined (label : α → Option κ) (a b : α) : Bool := (label a).isSome && label b = label a

def runs (label : α → Option κ) (l : List α) : List (List α) := l.splitBy (joined label)

variable {label : α → Option κ}

theorem joined_iff {a b : α} :
    joined label a b = true ↔ ∃ k, label a = some k ∧ label b = some k := by
  cases h : label a <;> simp [joined, h]

@[simp] theorem flatten_runs (label : α → Option κ) (l : List α) : (runs label l).flatten = l :=
  List.flatten_splitBy _ l

/-- The elements behind the first one of a run carry its label. -/
theorem isChain_of_joined {first : α} {more : List α} (h : ∀ b ∈ more, joined label first b) :
    (first :: more).IsChain fun a b => joined label a b = true := by
  have hall : (first :: more).Pairwise fun a b => joined label a b = true := by
    refine List.pairwise_cons.mpr ⟨h, ?_⟩
    refine List.pairwise_of_forall_mem_list fun a ha b hb => ?_
    obtain ⟨k, hk, hak⟩ := joined_iff.mp (h a ha)
    obtain ⟨k', hk', hbk⟩ := joined_iff.mp (h b hb)
    obtain rfl : k = k' := Option.some.inj (hk.symm.trans hk')
    exact joined_iff.mpr ⟨k, hak, hbk⟩
  exact hall.isChain

theorem joined_of_isChain {first : α} {more : List α}
    (h : (first :: more).IsChain fun a b => joined label a b = true) :
    ∀ b ∈ more, joined label first b = true := by
  induction more generalizing first with
  | nil => simp
  | cons next more ih =>
    obtain ⟨hnext, hrest⟩ := List.isChain_cons_cons.mp h
    intro b hb
    obtain ⟨k, hfirst, hk⟩ := joined_iff.mp hnext
    rcases List.mem_cons.mp hb with rfl | hb
    · exact hnext
    · obtain ⟨k', hk', hbk⟩ := joined_iff.mp (ih hrest b hb)
      obtain rfl : k = k' := Option.some.inj (hk.symm.trans hk')
      exact joined_iff.mpr ⟨k, hfirst, hbk⟩

/-- A run is not empty, and everything in it is joined to its first element. -/
theorem exists_of_mem_runs {l run : List α} (h : run ∈ runs label l) :
    ∃ first more, run = first :: more ∧ ∀ b ∈ more, joined label first b = true := by
  cases run with
  | nil => exact absurd h (List.nil_notMem_splitBy _ _)
  | cons first more =>
    exact ⟨first, more, rfl, joined_of_isChain (List.isChain_of_mem_splitBy h)⟩

/-- One more run behind the runs of a list. -/
theorem runs_append_run {l : List α} {first : α} {more : List α}
    (hlast : ∀ x ∈ l.getLast?, joined label x first = false)
    (hmore : ∀ b ∈ more, joined label first b = true) :
    runs label (l ++ first :: more) = runs label l ++ [first :: more] := by
  rw [runs, List.splitBy_append_cons more hlast,
    List.splitBy_of_isChain (List.cons_ne_nil _ _) (isChain_of_joined hmore)]
  rfl

/-! ## Labels that are keys -/

variable {key : α → κ} [LinearOrder κ]

/-- `b` comes after `a`, and with the same key it has the same label. -/
def Advances (key : α → κ) (label : α → Option κ) (a b : α) : Prop :=
  key a ≤ key b ∧ (key a = key b → label a = label b)

/-- The label, if there is one, is the key. -/
def Tagged (key : α → κ) (label : α → Option κ) (a : α) : Prop :=
  ∀ k, label a = some k → k = key a

/-- No element of a later run has the label of an element of `r`. -/
def Apart (label : α → Option κ) (r r' : List α) : Prop :=
  ∀ a ∈ r, ∀ b ∈ r', ∀ k, label a = some k → label b ≠ some k

theorem pairwise_apart (key : α → κ) {rs : List (List α)} (hne : [] ∉ rs)
    (hsplit : rs.IsChain fun r r' => ∃ hr hr', joined label (r.getLast hr) (r'.head hr') = false)
    (hfollows : rs.flatten.Pairwise (Advances key label))
    (htagged : ∀ a ∈ rs.flatten, Tagged key label a) : rs.Pairwise (Apart label) := by
  induction rs with
  | nil => exact List.Pairwise.nil
  | cons r rs ih =>
    rw [List.flatten_cons, List.pairwise_append] at hfollows
    obtain ⟨hr, hrest, hacross⟩ := hfollows
    have htail : rs.Pairwise (Apart label) := by
      apply ih
      · exact fun h => hne (List.mem_cons_of_mem _ h)
      · exact hsplit.tail
      · exact hrest
      · exact fun a ha => htagged a (by simp [ha])
    refine List.pairwise_cons.mpr ⟨fun r' hr' a ha b hb k hak hbk => ?_, htail⟩
    cases rs with
    | nil => cases hr'
    | cons s rs =>
      obtain ⟨⟨hne₁, hne₂, hlast⟩, _⟩ := List.isChain_cons_cons.mp hsplit
      -- `x` ends the run of `a`, and `y` begins the run behind it.
      have hx : r.getLast hne₁ ∈ r := List.getLast_mem _
      have hy : s.head hne₂ ∈ (s :: rs).flatten :=
        List.mem_flatten.mpr ⟨s, by simp, List.head_mem _⟩
      have hbmem : b ∈ (s :: rs).flatten := List.mem_flatten.mpr ⟨r', hr', hb⟩
      have hka : k = key a := htagged a (by simp [ha]) k hak
      have hkb : k = key b := htagged b (List.mem_append_right _ hbmem) k hbk
      have hax : a = r.getLast hne₁ ∨ Advances key label a (r.getLast hne₁) := by
        rcases List.mem_iff_append.mp ha with ⟨p, q, rfl⟩
        cases q with
        | nil => simp
        | cons z q =>
          right
          rw [List.pairwise_append] at hr
          refine (List.pairwise_cons.mp hr.2.1).1 _ ?_
          rw [List.getLast_append_of_ne_nil _ (List.cons_ne_nil _ _), List.getLast_cons_cons]
          exact List.getLast_mem _
      have hyb : s.head hne₂ = b ∨ Advances key label (s.head hne₂) b := by
        cases s with
        | nil => exact absurd rfl hne₂
        | cons y s =>
          rw [List.flatten_cons, List.cons_append] at hrest hbmem
          rcases List.mem_cons.mp hbmem with rfl | hbmem
          · exact .inl rfl
          · exact .inr ((List.pairwise_cons.mp hrest).1 b hbmem)
      have hxy := hacross _ hx _ hy
      have hay := hacross _ ha _ hy
      have hle : key a ≤ key (r.getLast hne₁) := by
        rcases hax with h | h
        · exact h ▸ le_rfl
        · exact h.1
      have hyle : key (s.head hne₂) ≤ key b := by
        rcases hyb with h | h
        · exact h ▸ le_rfl
        · exact h.1
      have hkeys : key (s.head hne₂) = key a := by
        apply le_antisymm
        · exact hyle.trans (by rw [← hka, ← hkb])
        · exact hay.1
      have hkeyx : key (r.getLast hne₁) = key (s.head hne₂) := by
        apply le_antisymm hxy.1
        rw [hkeys]
        exact hle
      have hlabely : label (s.head hne₂) = some k := (hay.2 hkeys.symm).symm.trans hak
      have hlabelx : label (r.getLast hne₁) = some k := (hxy.2 hkeyx).trans hlabely
      rw [joined_iff.mpr ⟨k, hlabelx, hlabely⟩] at hlast
      cases hlast

/-- No label comes back in a later run. -/
theorem pairwise_runs {l : List α} (hfollows : l.Pairwise (Advances key label))
    (htagged : ∀ a ∈ l, Tagged key label a) : (runs label l).Pairwise (Apart label) := by
  refine pairwise_apart key (List.nil_notMem_splitBy _ _)
    (List.isChain_getLast_head_splitBy _ _) ?_ ?_
  · rwa [← flatten_runs label l] at hfollows
  · rwa [← flatten_runs label l] at htagged

end LabelRuns
