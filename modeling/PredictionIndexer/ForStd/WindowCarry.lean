import Mathlib

/-!
# A pruned carry between windows

A log is processed in windows. Each record belongs to a lane and to a group, and moves the values
of keys of its own group; a group lives on one lane, its home. Between two windows only a carry
survives: the entries of every lane that was silent, and for a lane that spoke the values of the
groups it spoke in.

The carry is enough when a group that misses a window in which its home spoke never comes back:
a store seeded from the carry agrees with the uninterrupted one on every group that can still
occur. `Faithful` is what holds between windows, `Agrees` what holds inside of one.
-/

namespace WindowCarry

variable {ρ L E K V : Type} {lane : ρ → L} {group : ρ → E} {home : E → L} {groupOf : K → E}

/-- The lane has a record in the window. -/
def Spoke (lane : ρ → L) (w : List ρ) (l : L) : Prop := ∃ r ∈ w, lane r = l

/-- The group has a record in the window. -/
def Occurs (group : ρ → E) (w : List ρ) (e : E) : Prop := ∃ r ∈ w, group r = e

/-- The groups that may still occur after some windows, newest first: those of the last window
    their home spoke in, and those that never occurred. -/
def Live (lane : ρ → L) (group : ρ → E) (home : E → L) : List (List ρ) → E → Prop
  | [], _ => True
  | w :: past, e => Occurs group w e ∨
      (¬Spoke lane w (home e) ∧ Live lane group home past e) ∨
      ∀ w' ∈ w :: past, ¬Occurs group w' e

/-- What a carry says about the uninterrupted store after some windows. -/
structure Faithful (lane : ρ → L) (group : ρ → E) (home : E → L) (groupOf : K → E)
    (past : List (List ρ)) (carry : L → K → V → Prop) (store : K → Option V) : Prop where
  sound : ∀ {l k v}, carry l k v → l = home (groupOf k) ∧ store k = some v
  complete : ∀ {k v}, Live lane group home past (groupOf k) → store k = some v →
    carry (home (groupOf k)) k v
  occurred : ∀ {k v}, store k = some v → ∃ w ∈ past, Occurs group w (groupOf k)

/-- A store that knows nothing wrong, and everything about live groups. -/
structure Agrees (groupOf : K → E) (live : E → Prop) (s store : K → Option V) : Prop where
  sub : ∀ {k v}, s k = some v → store k = some v
  live : ∀ {k}, live (groupOf k) → s k = store k

/-- Before the first window there is nothing to carry. -/
theorem Faithful.nil : Faithful lane group home groupOf [] (fun _ _ (_ : V) => False)
    fun _ => none where
  sound h := h.elim
  complete _ h := nomatch h
  occurred h := nomatch h

/-- A store seeded from a faithful carry agrees with the uninterrupted one. -/
theorem Faithful.seed {past : List (List ρ)} {carry : L → K → V → Prop} {store s : K → Option V}
    (h : Faithful lane group home groupOf past carry store)
    (hs : ∀ k v, s k = some v ↔ ∃ l, carry l k v) :
    Agrees groupOf (Live lane group home past) s store where
  sub := by
    intro k v hk
    obtain ⟨l, hl⟩ := (hs k v).mp hk
    exact (h.sound hl).2
  live := by
    intro k hk
    cases hstore : store k with
    | none =>
      cases hsk : s k with
      | none => rfl
      | some v =>
        obtain ⟨l, hl⟩ := (hs k v).mp hsk
        exact absurd (h.sound hl).2 (by simp [hstore])
    | some v => exact (hs k v).mpr ⟨_, h.complete hk hstore⟩

/-- Agreement is kept when both stores move the same keys of a live group the same way. -/
theorem Agrees.update {live : E → Prop} {s s' store store' : K → Option V}
    (h : Agrees groupOf live s store) {e : E} (he : live e)
    (hs : ∀ k, groupOf k ≠ e → s' k = s k) (hstore : ∀ k, groupOf k ≠ e → store' k = store k)
    (hsame : ∀ k, groupOf k = e → s k = store k → s' k = store' k) :
    Agrees groupOf live s' store' := by
  have hlive : ∀ k, groupOf k = e → s' k = store' k := by
    intro k hk
    exact hsame k hk (h.live (hk ▸ he))
  constructor
  · intro k v hk
    by_cases hke : groupOf k = e
    · rw [← hlive k hke]; exact hk
    · rw [hstore k hke]; exact h.sub (hs k hke ▸ hk)
  · intro k hk
    by_cases hke : groupOf k = e
    · exact hlive k hke
    · rw [hs k hke, hstore k hke]; exact h.live hk

/-- A group that never occurred is live. -/
theorem live_of_forall_not_occurs {past : List (List ρ)} {e : E}
    (h : ∀ w ∈ past, ¬Occurs group w e) : Live lane group home past e := by
  cases past with
  | nil => trivial
  | cons w past => exact .inr (.inr h)

/-- A group is live when its home has not spoken since without it. -/
theorem live_of_forall_spoke {past : List (List ρ)} {e : E}
    (h : ∀ newer w older, past = newer ++ w :: older → Spoke lane w (home e) →
      Occurs group w e ∨ ∀ w' ∈ older, ¬Occurs group w' e)
    (hlane : ∀ w ∈ past, Occurs group w e → Spoke lane w (home e)) :
    Live lane group home past e := by
  induction past with
  | nil => trivial
  | cons w past ih =>
    by_cases hw : Occurs group w e
    · exact .inl hw
    · by_cases hspoke : Spoke lane w (home e)
      · obtain hocc | hnever := h [] w past rfl hspoke
        · exact absurd hocc hw
        · refine .inr (.inr fun w' hw' => ?_)
          rcases List.mem_cons.mp hw' with rfl | hw'
          · exact hw
          · exact hnever w' hw'
      · refine .inr (.inl ⟨hspoke, ih ?_ fun w' hw' => hlane w' (by simp [hw'])⟩)
        intro newer w' older hpast
        exact h (w :: newer) w' older (by simp [hpast])

/-- The carry captured at the end of a window is faithful again. -/
theorem Faithful.capture {past : List (List ρ)} {w : List ρ} {carry carry' : L → K → V → Prop}
    {store s' store' : K → Option V} (h : Faithful lane group home groupOf past carry store)
    (hw : ∀ r ∈ w, lane r = home (group r)) (hlive : ∀ r ∈ w, Live lane group home past (group r))
    (hs : Agrees groupOf (Live lane group home past) s' store')
    (hframe : ∀ k, ¬Occurs group w (groupOf k) → store' k = store k)
    (hcarry : ∀ l k v, carry' l k v ↔ (¬Spoke lane w l ∧ carry l k v) ∨
      (s' k = some v ∧ ∃ r ∈ w, lane r = l ∧ group r = groupOf k)) :
    Faithful lane group home groupOf (w :: past) carry' store' := by
  -- a silent lane's groups have not moved
  have hsilent : ∀ {k}, ¬Spoke lane w (home (groupOf k)) → store' k = store k := by
    intro k hk
    refine hframe k fun ⟨r, hr, hrk⟩ => hk ⟨r, hr, ?_⟩
    rw [hw r hr, hrk]
  refine ⟨?_, ?_, ?_⟩
  · intro l k v hl
    rcases (hcarry l k v).mp hl with ⟨hspoke, hl⟩ | ⟨hk, r, hr, rfl, hrk⟩
    · obtain ⟨rfl, hk⟩ := h.sound hl
      exact ⟨rfl, by rw [hsilent hspoke, hk]⟩
    · exact ⟨by rw [hw r hr, hrk], hs.sub hk⟩
  · intro k v hk hstore
    rw [hcarry]
    rcases hk with ⟨r, hr, hrk⟩ | ⟨hspoke, hk⟩ | hnever
    · refine .inr ⟨?_, r, hr, by rw [hw r hr, hrk], hrk⟩
      rw [hs.live (hrk ▸ hlive r hr)]
      exact hstore
    · exact .inl ⟨hspoke, h.complete hk (by rw [← hsilent hspoke]; exact hstore)⟩
    · -- a group that never occurred has nothing in the store
      rw [hframe k (hnever w (by simp))] at hstore
      obtain ⟨w', hw', hocc⟩ := h.occurred hstore
      exact absurd hocc (hnever w' (by simp [hw']))
  · intro k v hstore
    by_cases hocc : Occurs group w (groupOf k)
    · exact ⟨w, by simp, hocc⟩
    · obtain ⟨w', hw', hocc⟩ := h.occurred (by rw [← hframe k hocc]; exact hstore)
      exact ⟨w', by simp [hw'], hocc⟩

end WindowCarry
