import Mathlib

/-!
# Fallible computations

A computation either returns, reports an error, or panics (a failed `unwrap`, an index out of
range). `Halt` keeps the last two apart, so that "this unwrap is never reached" is a statement
about the model. The rest of the file takes a successful `Except` computation apart: one
inversion lemma for `>>=`, and the invariant rules for a loop that may stop early.

`Except.Meets E P x` is the two-sided postcondition: a value `x` returns satisfies `P`, an
error it stops with satisfies `E`. Its rules follow the shape of the computation. `Alike R x y`
relates two computations: related values, or the same error.
-/

namespace Fallible

/-- Why a computation did not return. -/
inductive Halt where
  | err (message : String)
  | panic
deriving DecidableEq

/-- What Python code raises. -/
inductive Raised where
  | valueError (message : String)
  | typeError (message : String)
  | indexError
  | keyError
deriving DecidableEq

/-- `Option::ok_or` and the `?` that follows it. -/
def okOr {α : Type} (x : Option α) (message : String) : Except Halt α :=
  match x with
  | some a => .ok a
  | none => .error (.err message)

/-- `Option::unwrap`. -/
def unwrap {α : Type} (x : Option α) : Except Halt α :=
  match x with
  | some a => .ok a
  | none => .error .panic

@[simp] theorem okOr_eq_ok {α : Type} {x : Option α} {message : String} {a : α} :
    okOr x message = .ok a ↔ x = some a := by
  cases x <;> simp [okOr]

@[simp] theorem unwrap_eq_ok {α : Type} {x : Option α} {a : α} :
    unwrap x = .ok a ↔ x = some a := by
  cases x <;> simp [unwrap]

/-- `u64::checked_add`. -/
def checkedAdd (a b : Nat) : Option Nat :=
  if a + b < 2 ^ 64 then some (a + b) else none

theorem checkedAdd_eq_some {a b c : Nat} :
    checkedAdd a b = some c ↔ a + b < 2 ^ 64 ∧ c = a + b := by
  unfold checkedAdd
  split <;> simp_all [eq_comm]

/-- What `+` does on overflow: Cargo's dev profile panics, its release profile wraps. -/
inductive Arithmetic where
  | checked
  | wrapping
deriving DecidableEq

/-- `a + b` on `u64`. -/
def Arithmetic.add (mode : Arithmetic) (a b : Nat) : Except Halt Nat :=
  if a + b < 2 ^ 64 then .ok (a + b)
  else match mode with
    | .checked => .error .panic
    | .wrapping => .ok ((a + b) % 2 ^ 64)

end Fallible

namespace Except

/-- A sequenced computation succeeds exactly when both of its parts do. -/
theorem bind_eq_ok {ε α β : Type} {x : Except ε α} {f : α → Except ε β} {b : β} :
    (x >>= f) = .ok b ↔ ∃ a, x = .ok a ∧ f a = .ok b := by
  cases x <;> simp [bind, Except.bind]

@[simp] theorem pure_eq_ok {ε α : Type} {a : α} : (pure a : Except ε α) = .ok a := rfl

@[simp] theorem ok_bind {ε α β : Type} (a : α) (f : α → Except ε β) :
    ((Except.ok a : Except ε α) >>= f) = f a := rfl

@[simp] theorem error_bind {ε α β : Type} (e : ε) (f : α → Except ε β) :
    ((Except.error e : Except ε α) >>= f) = .error e := rfl

/-- `x` returns only values in `P` and stops only with errors in `E`. -/
def Meets {ε α : Type} (E : ε → Prop) (P : α → Prop) : Except ε α → Prop
  | .ok a => P a
  | .error h => E h

section Meets

variable {ε α β : Type} {E E' : ε → Prop} {P P' : α → Prop} {Q : β → Prop} {x : Except ε α}

@[simp] theorem meets_ok {a : α} : Meets E P (.ok a) ↔ P a := Iff.rfl

@[simp] theorem meets_error {h : ε} : Meets E P (.error h) ↔ E h := Iff.rfl

@[simp] theorem meets_pure {a : α} : Meets E P (pure a) ↔ P a := Iff.rfl

theorem Meets.of_ok {a : α} (hx : Meets E P x) (h : x = .ok a) : P a := by
  subst h
  exact hx

theorem Meets.of_error {e : ε} (hx : Meets E P x) (h : x = .error e) : E e := by
  subst h
  exact hx

theorem Meets.mono (hx : Meets E P x) (hE : ∀ h, E h → E' h) (hP : ∀ a, P a → P' a) :
    Meets E' P' x := by
  cases x with
  | ok a => exact hP a hx
  | error h => exact hE h hx

/-- Sequencing: the second part starts from what the first part ensures. -/
theorem Meets.bind {f : α → Except ε β} (hx : Meets E P x)
    (hf : ∀ a, x = .ok a → P a → Meets E Q (f a)) : Meets E Q (x >>= f) := by
  cases x with
  | ok a => exact hf a rfl hx
  | error h => exact hx

/-- A loop keeps what each of its rounds keeps. -/
theorem meets_foldlM {f : α → β → Except ε α} {l : List β} {a : α} (init : P a)
    (step : ∀ b ∈ l, ∀ a, P a → Meets E P (f a b)) : Meets E P (l.foldlM f a) := by
  induction l generalizing a with
  | nil => exact init
  | cons b l ih =>
    rw [List.foldlM_cons]
    refine (step b (by simp) a init).bind ?_
    intro a' _ ha'
    refine ih ha' ?_
    intro c hc
    exact step c (by simp [hc])

/-- Mapping relates the results to the arguments one by one. -/
theorem meets_mapM {R : α → β → Prop} {f : α → Except ε β} {l : List α}
    (step : ∀ a ∈ l, Meets E (R a) (f a)) : Meets E (List.Forall₂ R l) (l.mapM f) := by
  induction l with
  | nil => exact List.Forall₂.nil
  | cons a l ih =>
    rw [List.mapM_cons]
    refine (step a (by simp)).bind ?_
    intro b _ hb
    refine Meets.bind (ih fun c hc => step c (by simp [hc])) ?_
    intro bs _ hbs
    exact List.Forall₂.cons hb hbs

/-- Mapping returns exactly the list of what it returns for each argument. -/
theorem mapM_eq_ok_iff {f : α → Except ε β} {l : List α} {r : List β} :
    l.mapM f = .ok r ↔ List.Forall₂ (fun a b => f a = .ok b) l r := by
  constructor
  · intro h
    have hstep : ∀ a ∈ l, Meets (fun _ => True) (fun b => f a = .ok b) (f a) := fun a _ => by
      cases f a <;> simp
    exact (meets_mapM hstep).of_ok h
  · intro h
    induction h with
    | nil => rfl
    | cons hab _ ih => rw [List.mapM_cons, hab, ih]; rfl

end Meets

end Except

namespace List

variable {ε α β σ : Type}

/-- A loop over a nonempty list succeeds exactly when its first round and the rest do. -/
theorem foldlM_cons_eq_ok {f : σ → α → Except ε σ} {a : α} {l : List α} {s r : σ} :
    (a :: l).foldlM f s = .ok r ↔ ∃ s', f s a = .ok s' ∧ l.foldlM f s' = .ok r := by
  rw [List.foldlM_cons, Except.bind_eq_ok]

/-- A loop over an append succeeds exactly when both halves do. -/
theorem foldlM_append_eq_ok {f : σ → α → Except ε σ} {l₁ l₂ : List α} {s r : σ} :
    (l₁ ++ l₂).foldlM f s = .ok r ↔
      ∃ s', l₁.foldlM f s = .ok s' ∧ l₂.foldlM f s' = .ok r := by
  rw [List.foldlM_append, Except.bind_eq_ok]

/-- Invariant rule: what every round preserves holds after the loop. -/
theorem foldlM_inv {f : σ → α → Except ε σ} {l : List α} {s r : σ} (P : σ → Prop)
    (h : l.foldlM f s = .ok r) (init : P s)
    (step : ∀ s a s', a ∈ l → P s → f s a = .ok s' → P s') : P r := by
  induction l generalizing s with
  | nil =>
    simp only [List.foldlM_nil, Except.pure_eq_ok, Except.ok.injEq] at h
    exact h ▸ init
  | cons a l ih =>
    obtain ⟨s', hs', hr⟩ := foldlM_cons_eq_ok.mp h
    refine ih hr (step s a s' (by simp) init hs') ?_
    intro t b t' hb
    exact step t b t' (by simp [hb])

/-- Invariant rule with a history: the invariant may mention the rounds already done. -/
theorem foldlM_prefix_inv {f : σ → α → Except ε σ} {l : List α} {s r : σ}
    (P : List α → σ → Prop) (h : l.foldlM f s = .ok r) (init : P [] s)
    (step : ∀ pre a post t t', l = pre ++ a :: post → pre.foldlM f s = .ok t → P pre t →
      f t a = .ok t' → P (pre ++ [a]) t') : P l r := by
  suffices ∀ pre post t, l = pre ++ post → pre.foldlM f s = .ok t → P pre t →
      post.foldlM f t = .ok r → P l r from this [] l s rfl rfl init h
  intro pre post
  induction post generalizing pre with
  | nil =>
    intro t hl _ hP hr
    simp only [List.foldlM_nil, Except.pure_eq_ok, Except.ok.injEq] at hr
    simpa [hl, ← hr] using hP
  | cons a post ih =>
    intro t hl hpre hP hr
    obtain ⟨t', ht', hr⟩ := foldlM_cons_eq_ok.mp hr
    refine ih (pre ++ [a]) t' (by simp [hl]) ?_ (step pre a post t t' hl hpre hP ht') hr
    exact foldlM_append_eq_ok.mpr ⟨t, hpre, foldlM_cons_eq_ok.mpr ⟨t', ht', rfl⟩⟩

/-- A nested loop is one loop over the concatenation of the inner lists. -/
theorem foldlM_flatMap_eq {f : σ → β → Except ε σ} {g : α → List β} {l : List α} {s : σ} :
    (l.flatMap g).foldlM f s = l.foldlM (fun s a => (g a).foldlM f s) s := by
  induction l generalizing s with
  | nil => rfl
  | cons a l ih =>
    rw [List.flatMap_cons, List.foldlM_append, List.foldlM_cons]
    exact bind_congr fun t => ih

/-- In lists related one by one, every left element has its partner. -/
theorem Forall₂.exists_of_mem_left {R : α → β → Prop} {l₁ : List α} {l₂ : List β} {a : α}
    (h : Forall₂ R l₁ l₂) (ha : a ∈ l₁) : ∃ b ∈ l₂, R a b := by
  induction h with
  | nil => exact nomatch ha
  | cons hab _ ih =>
    rcases List.mem_cons.mp ha with rfl | ha
    · exact ⟨_, by simp, hab⟩
    · obtain ⟨b, hb, hr⟩ := ih ha
      exact ⟨b, by simp [hb], hr⟩

/-- In lists related one by one, every right element has its partner. -/
theorem Forall₂.exists_of_mem_right {R : α → β → Prop} {l₁ : List α} {l₂ : List β} {b : β}
    (h : Forall₂ R l₁ l₂) (hb : b ∈ l₂) : ∃ a ∈ l₁, R a b :=
  Forall₂.exists_of_mem_left h.flip hb

/-- An element of an append lies in one of its halves. -/
theorem append_eq_append_cons {xs ys pre post : List α} {a : α}
    (h : xs ++ ys = pre ++ a :: post) :
    (∃ mid, pre = xs ++ mid ∧ ys = mid ++ a :: post) ∨
      ∃ mid, xs = pre ++ a :: mid ∧ post = mid ++ ys := by
  rcases append_eq_append_iff.mp h with ⟨mid, hpre, hys⟩ | ⟨mid, hxs, hpost⟩
  · exact .inl ⟨mid, hpre, hys⟩
  · cases mid with
    | nil => exact .inl ⟨[], by simpa using hxs.symm, by simpa using hpost.symm⟩
    | cons b mid =>
      rw [cons_append, cons.injEq] at hpost
      obtain ⟨rfl, rfl⟩ := hpost
      exact .inr ⟨mid, hxs, rfl⟩

end List

/-! ## Computations alike -/

namespace Fallible

/-- Two computations return related values, or stop with one error. -/
inductive Alike {ε α β : Type} (R : α → β → Prop) : Except ε α → Except ε β → Prop where
  | ok {a : α} {b : β} (h : R a b) : Alike R (.ok a) (.ok b)
  | error (e : ε) : Alike R (.error e) (.error e)

section Alike

variable {ε α β γ δ : Type} {R : α → β → Prop} {S : γ → δ → Prop} {x : Except ε α}
  {y : Except ε β}

theorem Alike.bind {f : α → Except ε γ} {g : β → Except ε δ} (h : Alike R x y)
    (hfg : ∀ a b, R a b → Alike S (f a) (g b)) : Alike S (x >>= f) (y >>= g) := by
  cases h with
  | ok hab => exact hfg _ _ hab
  | error e => exact .error e

/-- What both begin with is the same. -/
theorem Alike.same (x : Except ε α) {f : α → Except ε γ} {g : α → Except ε δ}
    (hfg : ∀ a, Alike S (f a) (g a)) : Alike S (x >>= f) (x >>= g) := by
  cases x with
  | ok a => exact hfg a
  | error e => exact .error e

theorem Alike.foldlM {ι : Type} {f : α → ι → Except ε α} {g : β → ι → Except ε β}
    {items : List ι} (hfg : ∀ i ∈ items, ∀ a b, R a b → Alike R (f a i) (g b i)) {a : α} {b : β}
    (h : R a b) : Alike R (items.foldlM f a) (items.foldlM g b) := by
  induction items generalizing a b with
  | nil => exact .ok h
  | cons i items ih =>
    rw [List.foldlM_cons, List.foldlM_cons]
    refine (hfg i List.mem_cons_self a b h).bind fun a' b' h' => ?_
    exact ih (fun j hj => hfg j (List.mem_cons_of_mem i hj)) h'

theorem Alike.map_eq {f : α → γ} {g : β → γ} (h : Alike R x y) (hfg : ∀ a b, R a b → f a = g b) :
    x.map f = y.map g := by
  cases h with
  | ok hab => exact congrArg Except.ok (hfg _ _ hab)
  | error e => rfl

end Alike

end Fallible
