import Mathlib

/-!
# Races

Two sides play until one of them has the wins it lacks. `races` lists the plays that end so; each of
them stops with the deciding win, none begins another, and every endless play begins with one.
-/

namespace Race

inductive Side where
  | away
  | home
deriving DecidableEq

/-- The plays of a race in which home lacks `m` wins and away lacks `n`. -/
def races : Nat → Nat → List (List Side)
  | 0, _ => [[]]
  | _ + 1, 0 => [[]]
  | m + 1, n + 1 =>
    (races m (n + 1)).map (.home :: ·) ++ (races (m + 1) n).map (.away :: ·)

/-- The play stops with the win that decides it. -/
structure Ends (m n : Nat) (play : List Side) : Prop where
  decided : play.count .home = m ∨ play.count .away = n
  undecided : ∀ p, p <+: play → p ≠ play → p.count .home < m ∧ p.count .away < n

/-- An endless play begins with the plays made before. -/
def Begins (play : List Side) (endless : Nat → Side) : Prop :=
  ∀ i (h : i < play.length), play[i] = endless i

section Ends

variable {m n : Nat} {play play' : List Side} {endless : Nat → Side} {side : Side}

theorem ends_nil (h : m = 0 ∨ n = 0) : Ends m n play ↔ play = [] := by
  constructor
  · intro hends
    by_contra hne
    have hlt := hends.undecided [] List.nil_prefix (Ne.symm hne)
    rw [List.count_nil, List.count_nil] at hlt
    omega
  · intro hnil
    subst hnil
    refine ⟨by rw [List.count_nil, List.count_nil]; omega, ?_⟩
    intro p hp hne
    exact absurd (List.prefix_nil.mp hp) hne

theorem not_ends_nil : ¬Ends (m + 1) (n + 1) [] := by
  intro h
  have hdecided := h.decided
  rw [List.count_nil, List.count_nil] at hdecided
  omega

/-- Behind a map of an open race another race is left. -/
theorem ends_cons {m' n' : Nat} (hm : [side].count .home + m' = m + 1)
    (hn : [side].count .away + n' = n + 1) :
    Ends (m + 1) (n + 1) (side :: play) ↔ Ends m' n' play := by
  have hhome : ∀ p : List Side, (side :: p).count .home = [side].count .home + p.count .home :=
    fun p => @List.count_append _ _ _ [side] p
  have haway : ∀ p : List Side, (side :: p).count .away = [side].count .away + p.count .away :=
    fun p => @List.count_append _ _ _ [side] p
  constructor
  · intro h
    constructor
    · have hdecided := h.decided
      rw [hhome, haway] at hdecided
      omega
    · intro p hp hne
      have hlt := h.undecided (side :: p) ((List.prefix_cons_inj side).mpr hp)
        (fun heq => hne (List.cons.inj heq).2)
      rw [hhome, haway] at hlt
      omega
  · intro h
    constructor
    · have hdecided := h.decided
      rw [hhome, haway]
      omega
    · intro p hp hne
      cases p with
      | nil => simp
      | cons first p =>
        obtain ⟨rfl, hp'⟩ := List.cons_prefix_cons.mp hp
        have hlt := h.undecided p hp' (fun heq => hne (by rw [heq]))
        rw [hhome, haway]
        omega

theorem ends_home : Ends (m + 1) (n + 1) (.home :: play) ↔ Ends m (n + 1) play :=
  ends_cons (by simp [Nat.add_comm]) (by simp)

theorem ends_away : Ends (m + 1) (n + 1) (.away :: play) ↔ Ends (m + 1) n play :=
  ends_cons (by simp) (by simp [Nat.add_comm])

theorem mem_races : play ∈ races m n ↔ Ends m n play := by
  induction m, n using races.induct generalizing play with
  | case1 n => rw [races, ends_nil (.inl rfl), List.mem_singleton]
  | case2 m => rw [races, ends_nil (.inr rfl), List.mem_singleton]
  | case3 m n ihhome ihaway =>
    rw [races, List.mem_append, List.mem_map, List.mem_map]
    cases play with
    | nil => simp [not_ends_nil]
    | cons side play =>
      cases side with
      | home => simp [ihhome, ends_home]
      | away => simp [ihaway, ends_away]

theorem nodup_races : (races m n).Nodup := by
  induction m, n using races.induct with
  | case1 n => simp [races]
  | case2 m => simp [races]
  | case3 m n ihhome ihaway =>
    rw [races, List.nodup_append]
    refine ⟨ihhome.map fun _ _ h => (List.cons.inj h).2,
      ihaway.map fun _ _ h => (List.cons.inj h).2, ?_⟩
    intro play hplay play' hplay' heq
    obtain ⟨_, -, rfl⟩ := List.mem_map.mp hplay
    obtain ⟨_, -, rfl⟩ := List.mem_map.mp hplay'
    cases heq

/-- No play goes on where another has ended. -/
theorem Ends.eq_of_isPrefix (h : Ends m n play) (h' : Ends m n play') (hbefore : play <+: play') :
    play = play' := by
  by_contra hne
  have hlt := h'.undecided play hbefore hne
  have hdecided := h.decided
  omega

theorem begins_cons : Begins (side :: play) endless ↔
    side = endless 0 ∧ Begins play fun i => endless (i + 1) := by
  constructor
  · intro h
    refine ⟨h 0 (Nat.zero_lt_succ _), fun i hi => ?_⟩
    exact h (i + 1) (Nat.succ_lt_succ hi)
  · intro ⟨hfirst, hrest⟩ i hi
    cases i with
    | zero => exact hfirst
    | succ i => exact hrest i (Nat.lt_of_succ_lt_succ hi)

/-- An endless play is decided at some point. -/
theorem exists_begins (m n : Nat) (endless : Nat → Side) : ∃ play ∈ races m n, Begins play endless := by
  induction m, n using races.induct generalizing endless with
  | case1 n => exact ⟨[], by simp [races], by simp [Begins]⟩
  | case2 m => exact ⟨[], by simp [races], by simp [Begins]⟩
  | case3 m n ihhome ihaway =>
    cases hfirst : endless 0 with
    | home =>
      obtain ⟨play, hplay, hbegins⟩ := ihhome fun i => endless (i + 1)
      refine ⟨.home :: play, ?_, begins_cons.mpr ⟨hfirst.symm, hbegins⟩⟩
      rw [races]
      exact List.mem_append_left _ (List.mem_map_of_mem hplay)
    | away =>
      obtain ⟨play, hplay, hbegins⟩ := ihaway fun i => endless (i + 1)
      refine ⟨.away :: play, ?_, begins_cons.mpr ⟨hfirst.symm, hbegins⟩⟩
      rw [races]
      exact List.mem_append_right _ (List.mem_map_of_mem hplay)

theorem Begins.isPrefix (h : Begins play endless) (h' : Begins play' endless)
    (hle : play.length ≤ play'.length) : play <+: play' := by
  rw [List.prefix_iff_getElem]
  refine ⟨hle, fun i hi => ?_⟩
  rw [h i hi, h' i (by omega)]

/-- It is decided at one point only. -/
theorem eq_of_begins (h : Ends m n play) (h' : Ends m n play') (hbegins : Begins play endless)
    (hbegins' : Begins play' endless) : play = play' := by
  rcases Nat.le_total play.length play'.length with hle | hle
  · exact h.eq_of_isPrefix h' (hbegins.isPrefix hbegins' hle)
  · exact (h'.eq_of_isPrefix h (hbegins'.isPrefix hbegins hle)).symm

/-- A play that begins with an open one goes on with a win of either side. -/
theorem prefix_iff_of_ne (hne : play' ≠ play) : play' <+: play ↔
    play' ++ [.home] <+: play ∨ play' ++ [.away] <+: play := by
  constructor
  · intro ⟨rest, hrest⟩
    cases rest with
    | nil => exact absurd (by simpa using hrest) hne
    | cons side rest =>
      have hnext : play' ++ [side] <+: play := ⟨rest, by simpa using hrest⟩
      cases side with
      | home => exact .inl hnext
      | away => exact .inr hnext
  · intro h
    cases h with
    | inl h => exact (List.prefix_append _ _).trans h
    | inr h => exact (List.prefix_append _ _).trans h

theorem not_both_isPrefix (h : play' ++ [.home] <+: play) : ¬play' ++ [.away] <+: play := by
  intro h'
  have heq := List.prefix_of_prefix_length_le h h' (by simp)
  have hlast := heq.eq_of_length (by simp)
  simp at hlast

end Ends

end Race
