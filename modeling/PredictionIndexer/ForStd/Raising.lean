import PredictionIndexer.ForStd.Durable

/-!
# Computations that raise and go on

A caller may catch what a computation raises and call again, so what a raising computation leaves
behind matters as much as what a returning one does. `Yields` has a postcondition for both ends,
beside what every state on the way keeps.
-/

namespace Durable

variable {σ τ ε α β : Type}

namespace Program

/-- A step that changes the state and may raise all the same. -/
def effect (f : σ → σ × Except ε α) : Program σ ε α := fun s => ⟨[(f s).1], (f s).2⟩

/-- A computation on a part of the state. -/
def zoom (get : σ → τ) (set : τ → σ → σ) (x : Program τ ε α) : Program σ ε α := fun s =>
  ⟨(x (get s)).writes.map (set · s), (x (get s)).result⟩

/-- Every state on the way is in `I`; the end is in `Q` when the computation returns and in `E` when
    it raises. -/
def Yields (I : σ → Prop) (Q : α → σ → Prop) (E : ε → σ → Prop) (x : Program σ ε α) (s : σ) :
    Prop :=
  (∀ t ∈ (x s).writes, I t) ∧ match (x s).result with
    | .ok a => Q a ((x s).final s)
    | .error e => E e ((x s).final s)

/-- The computation does not raise. -/
def Returns (x : Program σ ε α) (s : σ) : Prop := ∃ a, (x s).result = .ok a

section Yields

variable {s : σ} {I : σ → Prop} {Q Q' : α → σ → Prop} {E E' : ε → σ → Prop} {R : β → σ → Prop}
  {x : Program σ ε α}

theorem Yields.pure {a : α} (h : Q a s) : Yields I Q E (pure a : Program σ ε α) s :=
  ⟨by simp, h⟩

theorem Yields.fail {e : ε} (h : E e s) : Yields I Q E (fail e : Program σ ε α) s :=
  ⟨by simp, h⟩

theorem Yields.effect {f : σ → σ × Except ε α} (hI : I (f s).1)
    (hQ : ∀ a, (f s).2 = .ok a → Q a (f s).1) (hE : ∀ e, (f s).2 = .error e → E e (f s).1) :
    Yields I Q E (effect f) s := by
  refine ⟨by simpa [Program.effect] using hI, ?_⟩
  show match (f s).2 with
    | .ok a => Q a (f s).1
    | .error e => E e (f s).1
  cases h : (f s).2 with
  | ok a => exact hQ a h
  | error e => exact hE e h

theorem Yields.write {f : σ → σ} {Q : Unit → σ → Prop} (hI : I (f s)) (hQ : Q () (f s)) :
    Yields I Q E (write f : Program σ ε Unit) s :=
  ⟨by simpa using hI, hQ⟩

theorem Yields.mono {J : σ → Prop} (hx : Yields I Q E x s) (hI : ∀ t, I t → J t)
    (hQ : ∀ a t, Q a t → Q' a t) (hE : ∀ e t, E e t → E' e t) : Yields J Q' E' x s := by
  obtain ⟨hI', hend⟩ := hx
  refine ⟨fun t ht => hI t (hI' t ht), ?_⟩
  cases h : (x s).result with
  | ok a =>
    rw [h] at hend
    exact hQ a _ hend
  | error e =>
    rw [h] at hend
    exact hE e _ hend

theorem Yields.lift {r : Except ε α} (hok : ∀ a, r = .ok a → Q a s)
    (herror : ∀ e, r = .error e → E e s) : Yields I Q E (lift r : Program σ ε α) s := by
  refine ⟨by simp, ?_⟩
  cases r with
  | ok a => exact hok a rfl
  | error e => exact herror e rfl

/-- What holds for two reasons. -/
theorem Yields.and {I' : σ → Prop} (hx : Yields I Q E x s) (hx' : Yields I' Q' E' x s) :
    Yields (fun t => I t ∧ I' t) (fun a t => Q a t ∧ Q' a t) (fun e t => E e t ∧ E' e t) x s := by
  obtain ⟨hI, hend⟩ := hx
  obtain ⟨hI', hend'⟩ := hx'
  refine ⟨fun t ht => ⟨hI t ht, hI' t ht⟩, ?_⟩
  cases h : (x s).result with
  | ok a =>
    rw [h] at hend hend'
    exact ⟨hend, hend'⟩
  | error e =>
    rw [h] at hend hend'
    exact ⟨hend, hend'⟩

/-- Sequencing: the second part starts from what the first part ensures. -/
theorem Yields.bind {f : α → Program σ ε β} (hx : Yields I Q E x s)
    (hf : ∀ a t, Q a t → Yields I R E (f a) t) : Yields I R E (x >>= f) s := by
  obtain ⟨hI, hend⟩ := hx
  show Yields I R E (Program.bind x f) s
  unfold Yields Program.bind
  cases hr : (x s).result with
  | error e =>
    rw [hr] at hend
    exact ⟨hI, hend⟩
  | ok a =>
    rw [hr] at hend
    obtain ⟨hI', hend'⟩ := hf a _ hend
    constructor
    · intro t ht
      rcases List.mem_append.mp ht with ht | ht
      · exact hI t ht
      · exact hI' t ht
    · simpa only [Outcome.final, getLast?_append_getD] using hend'

/-- What is caught is an answer. -/
theorem Yields.caught {Q : Except ε α → σ → Prop}
    (hx : Yields I (fun a t => Q (.ok a) t) (fun e t => Q (.error e) t) x s) :
    Yields I Q E (caught x) s := by
  obtain ⟨hI, hend⟩ := hx
  refine ⟨hI, ?_⟩
  show Q (x s).result ((x s).final s)
  cases h : (x s).result with
  | ok a =>
    rw [h] at hend
    exact hend
  | error e =>
    rw [h] at hend
    exact hend

theorem Yields.read_bind {f : σ → Program σ ε β} (h : Yields I R E (f s) s) :
    Yields I R E (read >>= f) s := by
  unfold Yields
  rw [read_bind_apply]
  exact h

/-- The state a computation leaves behind, when it started in `I`. -/
theorem Yields.final (hx : Yields I Q E x s) (hs : I s) : I ((x s).final s) := by
  rcases List.mem_cons.mp ((x s).final_mem_states s) with h | h
  · rw [h]
    exact hs
  · exact hx.1 _ h

/-- The postconditions may name how the computation ends and the state it leaves behind. -/
theorem Yields.traced (hx : Yields I Q E x s) :
    Yields I (fun a t => Q a t ∧ (x s).result = .ok a ∧ t = (x s).final s)
      (fun e t => E e t ∧ (x s).result = .error e ∧ t = (x s).final s) x s := by
  obtain ⟨hI, hend⟩ := hx
  refine ⟨hI, ?_⟩
  cases h : (x s).result with
  | ok a =>
    rw [h] at hend
    exact ⟨hend, rfl, rfl⟩
  | error e =>
    rw [h] at hend
    exact ⟨hend, rfl, rfl⟩

/-- A result that is an error is not one that returns. -/
theorem Returns.ne_error {e : ε} (h : Returns x s) (he : (x s).result = .error e) : False := by
  obtain ⟨a, ha⟩ := h
  rw [ha] at he
  cases he

/-- Both parts of a computation that returns have returned. -/
theorem Returns.of_bind {f : α → Program σ ε β} (h : Returns (x >>= f) s) :
    ∃ a, (x s).result = .ok a ∧ Returns (f a) ((x s).final s) := by
  obtain ⟨b, hb⟩ := h
  change (Program.bind x f s).result = .ok b at hb
  unfold Program.bind at hb
  cases hresult : (x s).result with
  | error e =>
    rw [hresult] at hb
    cases hb
  | ok a =>
    rw [hresult] at hb
    exact ⟨a, rfl, b, hb⟩

theorem Yields.of_ok {a : α} (hx : Yields I Q E x s) (h : (x s).result = .ok a) :
    Q a ((x s).final s) := by
  have hend := hx.2
  rw [h] at hend
  exact hend

theorem Yields.of_error {e : ε} (hx : Yields I Q E x s) (h : (x s).result = .error e) :
    E e ((x s).final s) := by
  have hend := hx.2
  rw [h] at hend
  exact hend

/-- The state a computation on a part leaves behind. -/
theorem final_zoom {get : σ → τ} {set : τ → σ → σ} (hset : ∀ s, set (get s) s = s)
    (x : Program τ ε α) (s : σ) :
    ((zoom get set x) s).final s = set ((x (get s)).final (get s)) s := by
  simp only [zoom, Outcome.final, List.getLast?_map]
  cases (x (get s)).writes.getLast? with
  | none => exact (hset s).symm
  | some t => rfl

/-- A computation on a part does to the whole what it does to the part. -/
theorem Yields.zoom {x : Program τ ε α} {get : σ → τ} {set : τ → σ → σ}
    (hset : ∀ s, set (get s) s = s)
    (hx : Yields (fun t => I (set t s)) (fun a t => Q a (set t s)) (fun e t => E e (set t s)) x
      (get s)) : Yields I Q E (zoom get set x) s := by
  obtain ⟨hI, hend⟩ := hx
  constructor
  · intro t ht
    obtain ⟨t', ht', rfl⟩ := List.mem_map.mp ht
    exact hI t' ht'
  · rw [final_zoom hset]
    exact hend

/-- What holds at either end holds of the state left behind. -/
theorem Yields.of_both {P : σ → Prop} (hx : Yields I (fun _ => P) (fun _ => P) x s) :
    P ((x s).final s) := by
  cases h : (x s).result with
  | ok a => exact hx.of_ok h
  | error e => exact hx.of_error h

end Yields

/-! ## What every end keeps -/

/-- What the computation leaves behind is in `I` if it started there, however it ends. -/
def Steady (I : σ → Prop) (x : Program σ ε α) : Prop := ∀ s, I s → I ((x s).final s)

section Steady

variable {I : σ → Prop} {x : Program σ ε α}

theorem Steady.pure (a : α) : Steady I (pure a : Program σ ε α) := fun _ hs => hs

theorem Steady.fail (e : ε) : Steady I (fail e : Program σ ε α) := fun _ hs => hs

theorem Steady.lift (r : Except ε α) : Steady I (lift r : Program σ ε α) := fun _ hs => hs

theorem Steady.read : Steady I (read : Program σ ε σ) := fun _ hs => hs

theorem Steady.write {f : σ → σ} (h : ∀ s, I s → I (f s)) :
    Steady I (write f : Program σ ε Unit) := h

theorem Steady.effect {f : σ → σ × Except ε α} (h : ∀ s, I s → I (f s).1) :
    Steady I (effect f) := h

theorem Steady.caught (hx : Steady I x) : Steady I (caught x) := hx

theorem final_bind_ok {f : α → Program σ ε β} {s : σ} {a : α} (h : (x s).result = .ok a) :
    ((x >>= f) s).final s = (f a ((x s).final s)).final ((x s).final s) := by
  have hx : x s = ⟨(x s).writes, .ok a⟩ := by rw [← h]
  rw [bind_apply_ok hx, Outcome.final, getLast?_append_getD]
  rfl

theorem final_bind_error {f : α → Program σ ε β} {s : σ} {e : ε} (h : (x s).result = .error e) :
    ((x >>= f) s).final s = (x s).final s := by
  have hx : x s = ⟨(x s).writes, .error e⟩ := by rw [← h]
  rw [bind_apply_error hx]
  rfl

theorem Steady.bind {f : α → Program σ ε β} (hx : Steady I x) (hf : ∀ a, Steady I (f a)) :
    Steady I (x >>= f) := by
  intro s hs
  cases h : (x s).result with
  | ok a =>
    rw [final_bind_ok h]
    exact hf a _ (hx s hs)
  | error e =>
    rw [final_bind_error h]
    exact hx s hs

end Steady

end Program

/-! ## Names in a directory -/

/-- A regular file: its content as every process sees it, and whether that content is on disk. -/
structure File (β : Type) where
  content : β
  synced : Bool
deriving DecidableEq

/-- One name of a directory: what it names now, and what it named before each change since the
    directory was last synced. -/
structure Entry (β : Type) where
  now : Option (File β) := none
  unsettled : List (Option (File β)) := []
deriving DecidableEq

namespace Entry

variable {e : Entry β}

def content (e : Entry β) : Option β := e.now.map (·.content)

/-- The name is bound anew, or dropped. -/
def bind (e : Entry β) (file : Option (File β)) : Entry β := ⟨file, e.now :: e.unsettled⟩

/-- The named file's content changes in the page cache. -/
def modify (e : Entry β) (f : β → β) : Entry β :=
  { e with now := e.now.map fun file => ⟨f file.content, false⟩ }

/-- `fsync` of the named file. -/
def sync (e : Entry β) : Entry β :=
  { e with now := e.now.map fun file => { file with synced := true } }

/-- `fsync` of the directory. -/
def settle (e : Entry β) : Entry β := { e with unsettled := [] }

/-- What a crash may leave under the name: any binding since the last sync of the directory, and any
    content of a file that was not synced. -/
def Leaves (e : Entry β) (left : Option β) : Prop :=
  ∃ binding ∈ e.now :: e.unsettled, match binding with
    | none => left = none
    | some file => ∃ content, left = some content ∧ (file.synced = true → content = file.content)

/-- Without a crash the name stands for what it names now. -/
theorem leaves_content : e.Leaves e.content := by
  refine ⟨e.now, List.mem_cons_self, ?_⟩
  cases h : e.now with
  | none => simp [content, h]
  | some file => exact ⟨file.content, by simp [content, h], fun _ => rfl⟩

/-- A settled name of a synced file survives a crash as it is. -/
theorem eq_of_leaves {file : File β} {left : Option β} (hnow : e.now = some file)
    (hsettled : e.unsettled = []) (hsynced : file.synced = true) (h : e.Leaves left) :
    left = some file.content := by
  obtain ⟨binding, hmem, hleft⟩ := h
  rw [hsettled, List.mem_singleton] at hmem
  subst hmem
  rw [hnow] at hleft
  obtain ⟨content, rfl, hcontent⟩ := hleft
  rw [hcontent hsynced]

end Entry

end Durable
