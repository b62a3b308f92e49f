import PredictionIndexer.ForStd.SortByKey

/-!
# Pairs of a list

`combinations(l, 2)` of an ordered list has each unordered pair once, the smaller entry first. A
concatenation of groups that can be told apart has each entry once.
-/

namespace List

variable {α β : Type} {l : List α}

theorem mem_pairs_iff {R : α → α → Prop} (hR : ∀ a b, R a b → ¬ R b a) (h : l.Pairwise R)
    {p : α × α} : p ∈ l.pairs ↔ p.1 ∈ l ∧ p.2 ∈ l ∧ R p.1 p.2 := by
  constructor
  · exact mem_pairs_of_pairwise h
  · rintro ⟨hfirst, hsecond, hp⟩
    have hne : p.1 ≠ p.2 := fun heq => by
      rw [heq] at hp
      exact hR _ _ hp hp
    rcases pair_mem_pairs hfirst hsecond hne with hmem | hmem
    · exact hmem
    · exact absurd (mem_pairs_of_pairwise h hmem).2.2 (hR _ _ hp)

theorem nodup_pairs (h : l.Nodup) : l.pairs.Nodup := by
  induction l with
  | nil => exact nodup_nil
  | cons a l ih =>
    obtain ⟨ha, hl⟩ := nodup_cons.mp h
    refine nodup_append.mpr ⟨hl.map fun _ _ heq => (Prod.mk.inj heq).2, ih hl, ?_⟩
    intro p hp q hq heq
    obtain ⟨b, -, rfl⟩ := mem_map.mp hp
    have hmem := (mem_pairs_of_pairwise (pairwise_of_forall fun _ _ => trivial) hq).1
    rw [← heq] at hmem
    exact ha hmem

theorem nodup_flatMap_of_tag {f : α → List β} (tag : β → α) (hl : l.Nodup)
    (hf : ∀ a ∈ l, (f a).Nodup) (htag : ∀ a ∈ l, ∀ b ∈ f a, tag b = a) : (l.flatMap f).Nodup := by
  refine nodup_flatMap.mpr ⟨hf, (nodup_iff_pairwise_ne.mp hl).imp_of_mem fun ha ha' hne => ?_⟩
  intro b hb hb'
  exact hne ((htag _ ha b hb).symm.trans (htag _ ha' b hb'))

/-- Where one group alone has such entries, they are counted there. -/
theorem countP_flatMap_of_mem {f : α → List β} {p : β → Bool} {a : α} (hl : l.Nodup) (ha : a ∈ l)
    (h : ∀ b ∈ l, b ≠ a → (f b).countP p = 0) : (l.flatMap f).countP p = (f a).countP p := by
  classical
  have hperm : (l.flatMap f).Perm (f a ++ (l.erase a).flatMap f) :=
    (perm_cons_erase ha).flatMap_right f
  have hrest : ((l.erase a).flatMap f).countP p = 0 := by
    refine countP_eq_zero.mpr fun x hx => ?_
    obtain ⟨b, hb, hxb⟩ := mem_flatMap.mp hx
    have hne : b ≠ a := fun heq => hl.not_mem_erase (heq ▸ hb)
    exact countP_eq_zero.mp (h b (mem_of_mem_erase hb) hne) x hxb
  rw [hperm.countP_eq p, countP_append, hrest, Nat.add_zero]

end List
