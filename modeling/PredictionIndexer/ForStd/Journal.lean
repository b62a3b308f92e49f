import Mathlib

/-!
# Keyed journals

A table holds a state under each of its keys, and a log says under which key something happened and
what state it left. `Journaled` is what holds between the two when every write is logged: the
entries of a key start with a state that may be created and go on by steps, and the last of them is
the state in the table. A write that creates a key and a write that moves it keep it so.
-/

namespace Journal

variable {κ ε σ : Type} [DecidableEq κ]

/-- The entries of a key, oldest first. -/
def entriesOf (log : List (κ × ε × σ)) (k : κ) : List (ε × σ) :=
  (log.filter fun entry => entry.1 = k).map Prod.snd

theorem entriesOf_append (log more : List (κ × ε × σ)) (k : κ) :
    entriesOf (log ++ more) k = entriesOf log k ++ entriesOf more k := by
  simp [entriesOf]

@[simp] theorem entriesOf_singleton_self (k : κ) (e : ε) (s : σ) :
    entriesOf [(k, e, s)] k = [(e, s)] := by
  simp [entriesOf]

theorem entriesOf_singleton_of_ne {k k' : κ} (h : k ≠ k') (e : ε) (s : σ) :
    entriesOf [(k, e, s)] k' = [] := by
  simp [entriesOf, h]

/-- What the entries of one key are: the first one creates it, every other one moves it on. -/
structure IsHistory (Start : ε → σ → Prop) (Step : ε → σ → σ → Prop) (entries : List (ε × σ)) :
    Prop where
  start : ∀ entry ∈ entries.head?, Start entry.1 entry.2
  steps : entries.IsChain fun a b => Step b.1 a.2 b.2

/-- The log and the table tell the same. -/
structure Journaled (Start : ε → σ → Prop) (Step : ε → σ → σ → Prop) (rows : κ → Option σ)
    (log : List (κ × ε × σ)) : Prop where
  history : ∀ k, IsHistory Start Step (entriesOf log k)
  last : ∀ k, (entriesOf log k).getLast?.map (·.2) = rows k

variable {Start : ε → σ → Prop} {Step : ε → σ → σ → Prop} {rows : κ → Option σ}
  {log : List (κ × ε × σ)} {k : κ} {e : ε} {s s' : σ}

theorem journaled_nil : Journaled Start Step (fun _ : κ => none) [] :=
  ⟨fun _ => ⟨by simp [entriesOf], by simp [entriesOf]⟩, fun _ => rfl⟩

theorem entriesOf_eq_nil_iff (h : Journaled Start Step rows log) :
    entriesOf log k = [] ↔ rows k = none := by
  rw [← h.last k, Option.map_eq_none_iff, List.getLast?_eq_none_iff]

/-- What a write under one key does to the others. -/
theorem Journaled.other {k' : κ} (h : Journaled Start Step rows log) (hne : k ≠ k') :
    IsHistory Start Step (entriesOf (log ++ [(k, e, s)]) k') ∧
      (entriesOf (log ++ [(k, e, s)]) k').getLast?.map (·.2) =
        Function.update rows k (some s) k' := by
  rw [entriesOf_append, entriesOf_singleton_of_ne hne, List.append_nil,
    Function.update_of_ne hne.symm]
  exact ⟨h.history k', h.last k'⟩

/-- A key that is not there is created. -/
theorem Journaled.create (h : Journaled Start Step rows log) (hfresh : rows k = none)
    (hstart : Start e s) :
    Journaled Start Step (Function.update rows k (some s)) (log ++ [(k, e, s)]) := by
  have hnil := (entriesOf_eq_nil_iff h).mpr hfresh
  constructor
  · intro k'
    by_cases hne : k = k'
    · subst hne
      rw [entriesOf_append, hnil, List.nil_append, entriesOf_singleton_self]
      exact ⟨by simpa using hstart, .singleton _⟩
    · exact (h.other hne).1
  · intro k'
    by_cases hne : k = k'
    · subst hne
      rw [entriesOf_append, hnil, List.nil_append, entriesOf_singleton_self, Function.update_self]
      rfl
    · exact (h.other hne).2

/-- The state under a key moves on. -/
theorem Journaled.move (h : Journaled Start Step rows log) (hrow : rows k = some s)
    (hstep : Step e s s') :
    Journaled Start Step (Function.update rows k (some s')) (log ++ [(k, e, s')]) := by
  have hlast := (h.last k).trans hrow
  constructor
  · intro k'
    by_cases hne : k = k'
    · subst hne
      rw [entriesOf_append, entriesOf_singleton_self]
      obtain ⟨entry, hentry, rfl⟩ := Option.map_eq_some_iff.mp hlast
      have hne : entriesOf log k ≠ [] := by
        intro hnil
        simp [hnil] at hentry
      constructor
      · rw [List.head?_append_of_ne_nil _ hne]
        exact (h.history k).start
      · refine List.isChain_append.mpr ⟨(h.history k).steps, .singleton _, ?_⟩
        intro a ha b hb
        cases hentry.symm.trans ha
        cases Option.some.inj hb
        exact hstep
    · exact (h.other hne).1
  · intro k'
    by_cases hne : k = k'
    · subst hne
      simp [entriesOf_append]
    · exact (h.other hne).2

theorem IsHistory.mono {Step' : ε → σ → σ → Prop} {entries : List (ε × σ)}
    (h : IsHistory Start Step entries) (hstep : ∀ e s s', Step e s s' → Step' e s s') :
    IsHistory Start Step' entries :=
  ⟨h.start, h.steps.imp fun _ _ => hstep _ _ _⟩

theorem Journaled.mono {Step' : ε → σ → σ → Prop} (h : Journaled Start Step rows log)
    (hstep : ∀ e s s', Step e s s' → Step' e s s') : Journaled Start Step' rows log :=
  ⟨fun k => (h.history k).mono hstep, h.last⟩

/-- What holds of every created state and is kept by the steps holds of every entry. -/
theorem IsHistory.invariant {entries : List (ε × σ)} (h : IsHistory Start Step entries)
    {P : σ → Prop} (hstart : ∀ e s, Start e s → P s) (hstep : ∀ e s s', Step e s s' → P s → P s') :
    ∀ entry ∈ entries, P entry.2 := by
  obtain ⟨hfirst, hsteps⟩ := h
  induction entries with
  | nil => simp
  | cons entry entries ih =>
    have hP : P entry.2 := hstart _ _ (hfirst entry rfl)
    intro other hother
    rcases List.mem_cons.mp hother with rfl | hother
    · exact hP
    · -- along the chain from a state with the property
      have hall : ∀ (entry : ε × σ) (entries : List (ε × σ)), P entry.2 →
          (entry :: entries).IsChain (fun a b => Step b.1 a.2 b.2) →
          ∀ other ∈ entries, P other.2 := by
        intro entry entries
        induction entries generalizing entry with
        | nil => simp
        | cons next entries ih =>
          intro hP hchain other hother
          obtain ⟨hnext, hrest⟩ := List.isChain_cons_cons.mp hchain
          have hP' := hstep _ _ _ hnext hP
          rcases List.mem_cons.mp hother with rfl | hother
          · exact hP'
          · exact ih next hP' hrest other hother
      exact hall entry entries hP hsteps other hother

end Journal
