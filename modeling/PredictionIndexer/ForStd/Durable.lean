import Mathlib

/-!
# Computations that make durable writes

A computation over durable state leaves a trail: the state after each of its writes. A crash stops
it anywhere on that trail, so whatever has to survive a crash is a property of the whole trail and
not of its end. `Keeps` is the rule for that, and follows the shape of the computation.
-/

namespace Durable

variable {σ ε α β : Type}

/-- What a computation did: the state after each of its writes, in order, and how it ended. -/
structure Outcome (σ ε α : Type) where
  writes : List σ
  result : Except ε α

/-- A computation over durable state. -/
def Program (σ ε α : Type) : Type := σ → Outcome σ ε α

namespace Outcome

/-- The state a computation leaves behind. -/
def final (o : Outcome σ ε α) (s : σ) : σ := o.writes.getLast?.getD s

/-- Every state a crash can leave behind. -/
def states (o : Outcome σ ε α) (s : σ) : List σ := s :: o.writes

theorem final_mem_states (o : Outcome σ ε α) (s : σ) : o.final s ∈ o.states s := by
  unfold final states
  cases h : o.writes.getLast? with
  | none => simp
  | some t => simpa using .inr (List.mem_of_getLast? h)

end Outcome

namespace Program

protected def pure (a : α) : Program σ ε α := fun _ => ⟨[], .ok a⟩

/-- The second part starts from the state the first part leaves behind. -/
protected def bind (x : Program σ ε α) (f : α → Program σ ε β) : Program σ ε β := fun s =>
  match (x s).result with
  | .error e => ⟨(x s).writes, .error e⟩
  | .ok a =>
    let o := f a ((x s).final s)
    ⟨(x s).writes ++ o.writes, o.result⟩

instance : Monad (Program σ ε) where
  pure := Program.pure
  bind := Program.bind

/-- The current state. -/
def read : Program σ ε σ := fun s => ⟨[], .ok s⟩

/-- One durable write. -/
def write (f : σ → σ) : Program σ ε Unit := fun s => ⟨[f s], .ok ()⟩

def fail (e : ε) : Program σ ε α := fun _ => ⟨[], .error e⟩

/-- A check without a write. -/
def lift (x : Except ε α) : Program σ ε α := fun _ => ⟨[], x⟩

/-- One durable write whose content may be refused. -/
def attempt (f : σ → Except ε (σ × α)) : Program σ ε α := fun s =>
  match f s with
  | .ok (s', a) => ⟨[s'], .ok a⟩
  | .error e => ⟨[], .error e⟩

/-- A part whose failure is an answer, not the end. -/
def caught (x : Program σ ε α) : Program σ ε (Except ε α) := fun s =>
  ⟨(x s).writes, .ok (x s).result⟩

/-! ## Running -/

variable {s : σ}

@[simp] theorem pure_apply (a : α) : (pure a : Program σ ε α) s = ⟨[], .ok a⟩ := rfl

@[simp] theorem read_apply : (read : Program σ ε σ) s = ⟨[], .ok s⟩ := rfl

@[simp] theorem write_apply (f : σ → σ) : (write f : Program σ ε Unit) s = ⟨[f s], .ok ()⟩ := rfl

@[simp] theorem fail_apply (e : ε) : (fail e : Program σ ε α) s = ⟨[], .error e⟩ := rfl

@[simp] theorem lift_apply (x : Except ε α) : (lift x : Program σ ε α) s = ⟨[], x⟩ := rfl

theorem bind_apply_error {x : Program σ ε α} {f : α → Program σ ε β} {ws : List σ} {e : ε}
    (h : x s = ⟨ws, .error e⟩) : (x >>= f) s = ⟨ws, .error e⟩ := by
  show Program.bind x f s = _
  simp [Program.bind, h]

theorem bind_apply_ok {x : Program σ ε α} {f : α → Program σ ε β} {ws : List σ} {a : α}
    (h : x s = ⟨ws, .ok a⟩) :
    (x >>= f) s = ⟨ws ++ (f a (ws.getLast?.getD s)).writes, (f a (ws.getLast?.getD s)).result⟩ := by
  show Program.bind x f s = _
  simp [Program.bind, h, Outcome.final]

/-- A part that writes nothing passes the state on. -/
theorem bind_apply_nil {x : Program σ ε α} {f : α → Program σ ε β} {a : α}
    (h : x s = ⟨[], .ok a⟩) : (x >>= f) s = f a s := by
  rw [bind_apply_ok h]
  simp

@[simp] theorem read_bind_apply (f : σ → Program σ ε β) : ((read >>= f) : Program σ ε β) s = f s s :=
  bind_apply_nil rfl

/-- The state after both parts is the one the second part leaves behind. -/
theorem getLast?_append_getD (ws vs : List σ) (s : σ) :
    (ws ++ vs).getLast?.getD s = vs.getLast?.getD (ws.getLast?.getD s) := by
  rw [List.getLast?_append]
  cases vs.getLast? <;> rfl

theorem bind_assoc {γ : Type} (x : Program σ ε α) (f : α → Program σ ε β) (g : β → Program σ ε γ) :
    x >>= f >>= g = x >>= fun a => f a >>= g := by
  funext s
  show Program.bind (Program.bind x f) g s = Program.bind x (fun a => Program.bind (f a) g) s
  unfold Program.bind Outcome.final
  cases (x s).result with
  | error e => rfl
  | ok a =>
    dsimp only
    cases (f a ((x s).writes.getLast?.getD s)).result with
    | error e => rfl
    | ok b => simp only [getLast?_append_getD, List.append_assoc]

/-- A write that goes through. -/
theorem attempt_bind_ok {f : σ → Except ε (σ × α)} {g : α → Program σ ε β} {s' : σ} {a : α}
    (h : f s = .ok (s', a)) :
    (attempt f >>= g) s = ⟨s' :: (g a s').writes, (g a s').result⟩ := by
  have hf : attempt f s = ⟨[s'], .ok a⟩ := by simp [attempt, h]
  rw [bind_apply_ok hf]
  rfl

/-- A write that is refused. -/
theorem attempt_bind_error {f : σ → Except ε (σ × α)} {g : α → Program σ ε β} {e : ε}
    (h : f s = .error e) : (attempt f >>= g) s = ⟨[], .error e⟩ := by
  apply bind_apply_error
  simp [attempt, h]

/-! ## What every crash state keeps -/

/-- From a state in `P`, every state a crash can leave is in `I`; the end is in `Q` when the
    computation returns. -/
def Keeps (I : σ → Prop) (Q : α → σ → Prop) (x : Program σ ε α) (s : σ) : Prop :=
  (∀ t ∈ (x s).writes, I t) ∧ ∀ a, (x s).result = .ok a → Q a ((x s).final s)

variable {I : σ → Prop} {Q Q' : α → σ → Prop} {R : β → σ → Prop} {x : Program σ ε α}

theorem Keeps.pure {a : α} (h : Q a s) : Keeps I Q (pure a : Program σ ε α) s := by
  constructor
  · simp
  · rintro b h'
    cases h'
    exact h

theorem Keeps.fail {e : ε} : Keeps I Q (fail e : Program σ ε α) s := by
  constructor
  · simp
  · rintro b h'
    cases h'

theorem Keeps.lift {r : Except ε α} (h : ∀ a, r = .ok a → Q a s) :
    Keeps I Q (lift r : Program σ ε α) s := by
  constructor
  · simp
  · exact h

theorem Keeps.write {f : σ → σ} {Q : Unit → σ → Prop} (hI : I (f s)) (hQ : Q () (f s)) :
    Keeps I Q (write f : Program σ ε Unit) s := by
  constructor
  · simpa using hI
  · rintro b h'
    exact hQ

theorem Keeps.attempt {f : σ → Except ε (σ × α)}
    (h : ∀ s' a, f s = .ok (s', a) → I s' ∧ Q a s') : Keeps I Q (attempt f) s := by
  unfold Keeps Program.attempt
  cases hf : f s with
  | error e => simp
  | ok p =>
    obtain ⟨s', a⟩ := p
    obtain ⟨hI, hQ⟩ := h s' a hf
    simpa [Outcome.final] using ⟨hI, hQ⟩

/-- Sequencing: the second part starts from what the first part ensures. -/
theorem Keeps.bind {f : α → Program σ ε β} (hx : Keeps I Q x s)
    (hf : ∀ a t, Q a t → Keeps I R (f a) t) : Keeps I R (x >>= f) s := by
  obtain ⟨hI, hQ⟩ := hx
  show Keeps I R (Program.bind x f) s
  unfold Keeps Program.bind
  cases hr : (x s).result with
  | error e => simpa using hI
  | ok a =>
    obtain ⟨hI', hQ'⟩ := hf a _ (hQ a hr)
    constructor
    · intro t ht
      rcases List.mem_append.mp ht with ht | ht
      · exact hI t ht
      · exact hI' t ht
    · intro b hb
      rw [Outcome.final, getLast?_append_getD]
      exact hQ' b hb

theorem Keeps.mono {J : σ → Prop} (hx : Keeps I Q x s) (hI : ∀ t, I t → J t)
    (hQ : ∀ a t, Q a t → Q' a t) : Keeps J Q' x s :=
  ⟨fun t ht => hI t (hx.1 t ht), fun a ha => hQ a _ (hx.2 a ha)⟩

/-! ## Total computations -/

/-- The computation returns, in `Q`, and every state a crash can leave on the way is in `I`. -/
def Ends (I : σ → Prop) (Q : α → σ → Prop) (x : Program σ ε α) (s : σ) : Prop :=
  ∃ a, (x s).result = .ok a ∧ Q a ((x s).final s) ∧ ∀ t ∈ (x s).writes, I t

theorem Ends.keeps (h : Ends I Q x s) : Keeps I Q x s := by
  obtain ⟨a, hresult, hQ, hI⟩ := h
  refine ⟨hI, ?_⟩
  intro b hb
  rw [hresult] at hb
  cases hb
  exact hQ

theorem Ends.pure {a : α} (h : Q a s) : Ends I Q (pure a : Program σ ε α) s :=
  ⟨a, rfl, h, by simp⟩

theorem Ends.mono {J : σ → Prop} (h : Ends I Q x s) (hI : ∀ t, I t → J t)
    (hQ : ∀ a t, Q a t → Q' a t) : Ends J Q' x s := by
  obtain ⟨a, hresult, ha, ht⟩ := h
  exact ⟨a, hresult, hQ a _ ha, fun t hmem => hI t (ht t hmem)⟩

theorem Ends.bind {f : α → Program σ ε β} (hx : Ends I Q x s)
    (hf : ∀ a t, Q a t → Ends I R (f a) t) : Ends I R (x >>= f) s := by
  obtain ⟨a, hresult, hQ, hI⟩ := hx
  obtain ⟨b, hresult', hR, hI'⟩ := hf a _ hQ
  have hx : x s = ⟨(x s).writes, .ok a⟩ := by rw [← hresult]
  refine ⟨b, ?_, ?_, ?_⟩
  · rw [bind_apply_ok hx]
    exact hresult'
  · rw [bind_apply_ok hx, Outcome.final, getLast?_append_getD]
    exact hR
  · rw [bind_apply_ok hx]
    intro t ht
    rcases List.mem_append.mp ht with ht | ht
    · exact hI t ht
    · exact hI' t ht

theorem Ends.read_bind {f : σ → Program σ ε β} (h : Ends I R (f s) s) :
    Ends I R (read >>= f) s := by
  unfold Ends
  rw [read_bind_apply]
  exact h

theorem Ends.lift_bind {r : Except ε α} {a : α} {f : α → Program σ ε β} (hr : r = .ok a)
    (h : Ends I R (f a) s) : Ends I R (lift r >>= f) s := by
  unfold Ends
  rw [bind_apply_nil (by rw [lift_apply, hr])]
  exact h

theorem Ends.pure_bind {a : α} {f : α → Program σ ε β} (h : Ends I R (f a) s) :
    Ends I R (Pure.pure a >>= f) s := by
  unfold Ends
  rw [bind_apply_nil (pure_apply a)]
  exact h

theorem Ends.write_bind {g : σ → σ} {f : Unit → Program σ ε β} (hI : I (g s))
    (h : Ends I R (f ()) (g s)) : Ends I R (write g >>= f) s :=
  Ends.bind (Q := fun _ t => t = g s) ⟨(), rfl, rfl, by simpa using hI⟩ fun _ t ht => ht ▸ h

end Program

end Durable
