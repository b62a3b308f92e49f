import PredictionIndexer.ForStd.Result

/-!
# Overflow

A computation over `u64` is a family over the build's `Arithmetic`. Where no sum overflows the
checked build does not panic, and the wrapping build does the same as the checked one. The builds of
a computation put together from sums differ only where the checked one panics, so there one of the
two conditions is enough.
-/

namespace Fallible

section NoOverflow

variable {α β : Type} {f : Arithmetic → Except Halt α} {g : Arithmetic → α → Except Halt β}

/-- No sum of the computation overflows. -/
structure NoOverflow (f : Arithmetic → Except Halt α) : Prop where
  returns : f .checked ≠ .error .panic
  agrees : f .wrapping = f .checked

/-- The builds differ only where the checked one panics. -/
def Honest (f : Arithmetic → Except Halt α) : Prop :=
  f .checked ≠ .error .panic → f .wrapping = f .checked

theorem Honest.noOverflow_iff (h : Honest f) : NoOverflow f ↔ f .checked ≠ .error .panic :=
  ⟨NoOverflow.returns, fun hreturns => ⟨hreturns, h hreturns⟩⟩

theorem honest_const (x : Except Halt α) : Honest fun _ => x := fun _ => rfl

theorem add_eq_panic_iff {a b : Nat} :
    Arithmetic.checked.add a b = .error .panic ↔ 2 ^ 64 ≤ a + b := by
  unfold Arithmetic.add
  split
  next hlt =>
    refine iff_of_false (by simp) ?_
    omega
  next hge => simpa using hge

theorem honest_add (a b : Nat) : Honest fun mode => mode.add a b := by
  intro hreturns
  rw [ne_eq, add_eq_panic_iff, not_le] at hreturns
  simp only [Arithmetic.add, hreturns, if_true]

theorem Honest.bind (hf : Honest f) (hg : ∀ a, Honest fun mode => g mode a) :
    Honest fun mode => f mode >>= g mode := by
  intro hreturns
  have hfirst : f .checked ≠ .error .panic := by
    intro hpanic
    simp [hpanic] at hreturns
  show f .wrapping >>= g .wrapping = f .checked >>= g .checked
  rw [hf hfirst]
  cases hchecked : f .checked with
  | error halt => rfl
  | ok a =>
    simp only [hchecked, Except.ok_bind] at hreturns ⊢
    exact hg a hreturns

/-- A sequence panics in its first part or in its second. -/
theorem bind_eq_panic_iff {x : Except Halt α} {y : α → Except Halt β} :
    (x >>= y) = .error .panic ↔
      x = .error .panic ∨ ∃ a, x = .ok a ∧ y a = .error .panic := by
  cases x with
  | error halt => simp
  | ok a => simp

end NoOverflow

/-! ## Iterators -/

section Iterator

variable {σ ι : Type} (next : Arithmetic → σ → Except Halt (Option ι × σ))

/-- Everything an iterator yields until it ends, if it ends within `fuel` calls. -/
def collect (mode : Arithmetic) : Nat → σ → Except Halt (Option (List ι))
  | 0, _ => pure none
  | fuel + 1, s => do
    match ← next mode s with
    | (none, _) => pure (some [])
    | (some item, s') => pure ((← collect mode fuel s').map (item :: ·))

/-- A property of every state that collecting asks for an item. -/
def AtCalls (P : σ → Prop) : Nat → σ → Prop
  | 0, _ => True
  | fuel + 1, s => P s ∧ ∀ item s', next .checked s = .ok (some item, s') → AtCalls P fuel s'

variable {next} {P Q I : σ → Prop} {fuel : Nat} {s : σ}

/-- Along a run an invariant may be used to replace the property. -/
theorem atCalls_congr (hs : I s)
    (hstep : ∀ s item s', I s → next .checked s = .ok (some item, s') → I s')
    (h : ∀ s, I s → (P s ↔ Q s)) : AtCalls next P fuel s ↔ AtCalls next Q fuel s := by
  induction fuel generalizing s with
  | zero => exact Iff.rfl
  | succ fuel ih =>
    refine and_congr (h s hs) (forall_congr' fun item => forall_congr' fun s' => ?_)
    exact imp_congr_right fun hnext => ih (hstep s item s' hs hnext)

theorem honest_collect (h : ∀ s, Honest fun mode => next mode s) (fuel : Nat) (s : σ) :
    Honest fun mode => collect next mode fuel s := by
  induction fuel generalizing s with
  | zero => exact honest_const _
  | succ fuel ih =>
    refine (h s).bind fun result => ?_
    rcases result with ⟨item | item, s'⟩
    · exact honest_const _
    · exact (ih s').bind fun items => honest_const _

/-- Collecting overflows just where one of its calls does. -/
theorem noOverflow_collect_iff (h : ∀ s, Honest fun mode => next mode s) :
    NoOverflow (fun mode => collect next mode fuel s) ↔
      AtCalls next (fun s => NoOverflow fun mode => next mode s) fuel s := by
  rw [(honest_collect h fuel s).noOverflow_iff]
  induction fuel generalizing s with
  | zero => simp [collect, AtCalls]
  | succ fuel ih =>
    rw [collect, AtCalls, ne_eq, bind_eq_panic_iff, (h s).noOverflow_iff, not_or]
    refine and_congr_right fun _ => ?_
    simp only [not_exists, not_and]
    constructor
    · intro hall item s' hnext
      have hrest := hall _ hnext
      rw [← ih]
      intro hpanic
      exact hrest (bind_eq_panic_iff.mpr (.inl hpanic))
    · rintro hall ⟨item | item, s'⟩ hnext
      · simp
      · have hrest := ih.mpr (hall item s' hnext)
        cases hcollect : collect next .checked fuel s' with
        | error halt =>
          rw [hcollect] at hrest
          simpa [hcollect] using hrest
        | ok items => simp [hcollect]

end Iterator

end Fallible
