import Mathlib

/-!
# Streams with consumer groups

The part of a Redis stream that a log shared by several consumer groups uses, with the documented
meaning of its commands: `XADD` with explicit IDs, `XREADGROUP ... >`, `XPENDING` over a range
and `XACKDEL ... ACKED`. Every group has one consumer, and an ID `n-0` is the number `n`.

A group that acknowledges in order has acknowledged a prefix of the IDs. `Tracks s log acked` ties
the stream to everything ever added to it and to the length of each group's prefix, and the lemmas
below it say what each command does to the three.
-/

/-- A stream of values `ν` read by groups `γ`. -/
structure GroupStream (γ ν : Type) where
  /-- What is stored, in ascending order of the IDs. -/
  entries : List (Nat × ν)
  /-- The greatest ID ever added. -/
  lastId : Nat
  groups : List γ
  /-- The last ID delivered to each group. -/
  delivered : γ → Nat
  /-- Each group's pending entries list: delivered and not acknowledged. -/
  pending : γ → List Nat

namespace GroupStream

variable {γ ν : Type}

/-- The result of `XACKDEL` for one ID: `-1`, `1` and `2`. -/
inductive Acked where
  | missing
  | deleted
  | kept
deriving DecidableEq

/-- A stream with its groups, created at ID 0. -/
def create (groups : List γ) : GroupStream γ ν where
  entries := []
  lastId := 0
  groups := groups
  delivered := fun _ => 0
  pending := fun _ => []

/-- `XADD`: an ID must be greater than every ID before it. -/
def xadd (s : GroupStream γ ν) (id : Nat) (v : ν) : Option (GroupStream γ ν) :=
  if s.lastId < id then some { s with entries := s.entries ++ [(id, v)], lastId := id } else none

/-- Adds in order, up to the first that fails. -/
def xaddAll (s : GroupStream γ ν) : List (Nat × ν) → Bool × GroupStream γ ν
  | [] => (true, s)
  | e :: es =>
    match s.xadd e.1 e.2 with
    | some s' => s'.xaddAll es
    | none => (false, s)

/-- `XREADGROUP GROUP g worker COUNT count STREAMS key >`. -/
def xreadgroup [DecidableEq γ] (s : GroupStream γ ν) (g : γ) (count : Nat) :
    List (Nat × ν) × GroupStream γ ν :=
  let batch := (s.entries.filter (s.delivered g < ·.1)).take count
  (batch,
    { s with
      delivered := Function.update s.delivered g ((batch.map (·.1)).getLast?.getD (s.delivered g))
      pending := Function.update s.pending g (s.pending g ++ batch.map (·.1)) })

/-- `XPENDING key g lo hi count worker`, the IDs. -/
def xpending (s : GroupStream γ ν) (g : γ) (lo hi count : Nat) : List Nat :=
  ((s.pending g).filter fun id => lo ≤ id ∧ id ≤ hi).take count

/-- Every group has read the entry and acknowledged it. -/
def released (s : GroupStream γ ν) (id : Nat) : Bool :=
  s.groups.all fun g => decide (id ≤ s.delivered g) && decide (id ∉ s.pending g)

/-- `XACKDEL key g ACKED IDS 1 id`: acknowledges, and deletes once every group has. -/
def xackdel [DecidableEq γ] (s : GroupStream γ ν) (g : γ) (id : Nat) : Acked × GroupStream γ ν :=
  if id ∈ s.pending g then
    let s := { s with pending := Function.update s.pending g ((s.pending g).filter (· ≠ id)) }
    if s.released id then (.deleted, { s with entries := s.entries.filter (·.1 ≠ id) })
    else (.kept, s)
  else (.missing, s)

/-- `XACKDEL` over several IDs, with the result of each. -/
def xackdelAll [DecidableEq γ] (s : GroupStream γ ν) (g : γ) : List Nat → List Acked × GroupStream γ ν
  | [] => ([], s)
  | id :: ids =>
    let (r, s) := s.xackdel g id
    let (rs, s) := s.xackdelAll g ids
    (r :: rs, s)

/-! ## Groups that acknowledge in order -/

/-- An entry stays while some group has not acknowledged it; without groups, for ever. -/
def held (groups : List γ) (acked : γ → Nat) (id : Nat) : Bool :=
  groups.isEmpty || groups.any (acked · < id)

/-- The total of a weight over the stored entries. -/
def weight (w : Nat → Nat) (entries : List (Nat × ν)) : Nat := (entries.map fun e => w e.1).sum

/-- The IDs for which `XACKDEL` answered that it deleted the entry. -/
def deletedIds (ids : List Nat) (results : List Acked) : List Nat :=
  ((ids.zip results).filter (·.2 = .deleted)).map (·.1)

/-- `log` is everything ever added, `acked g` the number of entries `g` has acknowledged. -/
structure Tracks (s : GroupStream γ ν) (log : List (Nat × ν)) (acked : γ → Nat) : Prop where
  ids : log.map (·.1) = List.range' 1 log.length
  lastId : s.lastId = log.length
  acked_le : ∀ g ∈ s.groups, acked g ≤ s.delivered g
  delivered_le : ∀ g ∈ s.groups, s.delivered g ≤ log.length
  pending : ∀ g ∈ s.groups, s.pending g = List.range' (acked g + 1) (s.delivered g - acked g)
  entries : s.entries = log.filter fun e => held s.groups acked e.1

theorem tracks_create (groups : List γ) : Tracks (create groups : GroupStream γ ν) [] fun _ => 0 := by
  constructor <;> simp [create]

theorem held_of_lt {groups : List γ} {acked : γ → Nat} {g : γ} (hg : g ∈ groups) {id : Nat}
    (h : acked g < id) : held groups acked id = true := by
  simp only [held, Bool.or_eq_true, List.any_eq_true, decide_eq_true_eq]
  exact Or.inr ⟨g, hg, h⟩

/-- Removing the only entry with an ID takes its weight away. -/
theorem weight_filter_ne (w : Nat → Nat) {entries : List (Nat × ν)}
    (hnodup : (entries.map (·.1)).Nodup) {id : Nat} (hmem : id ∈ entries.map (·.1)) :
    weight w entries = w id + weight w (entries.filter (·.1 ≠ id)) := by
  induction entries with
  | nil => simp at hmem
  | cons e es ih =>
    rw [List.map_cons, List.nodup_cons] at hnodup
    by_cases hid : e.1 = id
    · have hrest : es.filter (·.1 ≠ id) = es := by
        rw [List.filter_eq_self]
        intro e' he'
        have : e'.1 ≠ id := fun heq => hnodup.1 (hid ▸ heq ▸ List.mem_map_of_mem he')
        simpa using this
      rw [List.filter_cons_of_neg (by simp [hid]), hrest]
      simp [weight, hid]
    · rw [List.filter_cons_of_pos (by simpa using hid)]
      have hmem' : id ∈ es.map (·.1) := by
        rw [List.map_cons, List.mem_cons] at hmem
        exact hmem.resolve_left fun heq => hid heq.symm
      have := ih hnodup.2 hmem'
      simp only [weight, List.map_cons, List.sum_cons] at this ⊢
      omega

namespace Tracks

variable {s : GroupStream γ ν} {log : List (Nat × ν)} {acked : γ → Nat} {g : γ}

theorem id_eq (h : Tracks s log acked) {i : Nat} {e : Nat × ν} (he : log[i]? = some e) :
    e.1 = i + 1 := by
  have hmap : (log.map (·.1))[i]? = some e.1 := by simp [he]
  rw [h.ids, List.getElem?_range' (by simpa using (List.getElem?_eq_some_iff.mp he).1)] at hmap
  simp only [Option.some.injEq] at hmap
  omega

/-- The log past the first `n` entries is what has a greater ID. -/
theorem filter_eq_drop (h : Tracks s log acked) (n : Nat) :
    (log.filter fun e => n < e.1) = log.drop n := by
  conv => lhs; rw [← List.take_append_drop n log]
  rw [List.filter_append]
  have htake : (log.take n).filter (fun e => decide (n < e.1)) = [] := by
    rw [List.filter_eq_nil_iff]
    intro e he
    obtain ⟨i, hi⟩ := List.mem_iff_getElem?.mp he
    rw [List.getElem?_take] at hi
    split at hi
    · have := h.id_eq hi
      simp only [decide_eq_true_eq]
      omega
    · cases hi
  have hdrop : (log.drop n).filter (fun e => decide (n < e.1)) = log.drop n := by
    rw [List.filter_eq_self]
    intro e he
    obtain ⟨i, hi⟩ := List.mem_iff_getElem?.mp he
    rw [List.getElem?_drop] at hi
    have := h.id_eq hi
    simp only [decide_eq_true_eq]
    omega
  rw [htake, hdrop, List.nil_append]

theorem map_fst_slice (h : Tracks s log acked) (n count : Nat) :
    ((log.drop n).take count).map (·.1) = List.range' (n + 1) ((log.drop n).take count).length := by
  rw [List.map_take, List.map_drop, h.ids]
  apply List.ext_getElem
  · simp
  · intro i h₁ h₂
    simp
    omega

/-! ### Adding -/

/-- Consecutive IDs after the last one are all added. -/
theorem xaddAll {es : List (Nat × ν)} (h : Tracks s log acked)
    (hes : es.map (·.1) = List.range' (log.length + 1) es.length) :
    ∃ s', s.xaddAll es = (true, s') ∧ Tracks s' (log ++ es) acked ∧ s'.groups = s.groups ∧
      s'.delivered = s.delivered ∧ s'.pending = s.pending ∧ s'.entries = s.entries ++ es := by
  induction es generalizing s log with
  | nil => exact ⟨s, rfl, by simpa using h, rfl, rfl, rfl, by simp⟩
  | cons e es ih =>
    rw [List.map_cons, List.length_cons, List.range'_succ, List.cons.injEq] at hes
    obtain ⟨hid, hrest⟩ := hes
    have hadd : s.xadd e.1 e.2 = some { s with entries := s.entries ++ [e], lastId := e.1 } := by
      have hlt : s.lastId < e.1 := by rw [h.lastId, hid]; omega
      simp [xadd, hlt]
    have h₁ : Tracks { s with entries := s.entries ++ [e], lastId := e.1 } (log ++ [e]) acked := by
      constructor
      case ids => simp [h.ids, hid, List.range'_concat]; omega
      case lastId => simp [hid]
      case acked_le => exact h.acked_le
      case delivered_le =>
        intro g hg
        have := h.delivered_le g hg
        simp only [List.length_append, List.length_singleton]
        omega
      case pending => exact h.pending
      case entries =>
        -- No group has acknowledged an entry that was not there.
        have hheld : held s.groups acked e.1 = true := by
          cases hgroups : s.groups with
          | nil => rfl
          | cons g gs =>
            have hg : g ∈ s.groups := by simp [hgroups]
            rw [← hgroups]
            apply held_of_lt hg
            have := h.acked_le g hg
            have := h.delivered_le g hg
            omega
        simp [h.entries, hheld]
    have hlen : (log ++ [e]).length + 1 = log.length + 1 + 1 := by simp
    obtain ⟨s', hs', h', hgroups, hdelivered, hpending, hentries⟩ := ih h₁ (by rw [hlen]; exact hrest)
    refine ⟨s', ?_, by simpa using h', hgroups, hdelivered, hpending, by simpa using hentries⟩
    rw [GroupStream.xaddAll, hadd]
    exact hs'

theorem nodup_ids (h : Tracks s log acked) : (s.entries.map (·.1)).Nodup := by
  have hsub : (s.entries.map (·.1)).Sublist (log.map (·.1)) := by
    rw [h.entries]
    exact List.Sublist.map _ List.filter_sublist
  refine hsub.nodup ?_
  rw [h.ids]
  exact List.nodup_range'

/-- What some group has not acknowledged is still stored. -/
theorem mem_entries (h : Tracks s log acked) (hg : g ∈ s.groups) {e : Nat × ν} (he : e ∈ log)
    (hlt : acked g < e.1) : e ∈ s.entries := by
  rw [h.entries, List.mem_filter]
  exact ⟨he, held_of_lt hg hlt⟩

section Commands

variable [DecidableEq γ]

/-! ### Reading -/

/-- A group reads on in the log from where it stopped. -/
theorem xreadgroup (h : Tracks s log acked) (hg : g ∈ s.groups) (count : Nat) :
    ∃ s', s.xreadgroup g count = ((log.drop (s.delivered g)).take count, s') ∧
      Tracks s' log acked ∧ s'.groups = s.groups ∧ s'.entries = s.entries ∧
      s'.delivered = Function.update s.delivered g
        (s.delivered g + ((log.drop (s.delivered g)).take count).length) := by
  have hacked := h.acked_le g hg
  have hdelivered := h.delivered_le g hg
  have hnew : (s.entries.filter fun e => s.delivered g < e.1) = log.drop (s.delivered g) := by
    rw [h.entries, List.filter_filter, ← h.filter_eq_drop]
    apply List.filter_congr
    intro e _
    by_cases hlt : s.delivered g < e.1
    · simp [hlt, held_of_lt hg (lt_of_le_of_lt hacked hlt)]
    · simp [hlt]
  have hids := h.map_fst_slice (s.delivered g) count
  have hle : s.delivered g + ((log.drop (s.delivered g)).take count).length ≤ log.length := by
    simp only [List.length_take, List.length_drop]
    omega
  unfold GroupStream.xreadgroup
  rw [hnew]
  generalize (log.drop (s.delivered g)).take count = batch at hids hle ⊢
  have hlast : (batch.map (·.1)).getLast?.getD (s.delivered g) = s.delivered g + batch.length := by
    rw [hids]
    cases batch.length with
    | zero => rfl
    | succ n =>
      rw [List.range'_concat]
      simp
      omega
  dsimp only
  rw [hlast, hids]
  refine ⟨_, rfl, ?_, rfl, rfl, rfl⟩
  constructor
  case ids => exact h.ids
  case lastId => exact h.lastId
  case acked_le =>
    intro g' hg'
    by_cases heq : g' = g
    · subst heq
      simp
      omega
    · simpa [heq] using h.acked_le g' hg'
  case delivered_le =>
    intro g' hg'
    by_cases heq : g' = g
    · subst heq
      simpa using hle
    · simpa [heq] using h.delivered_le g' hg'
  case pending =>
    intro g' hg'
    by_cases heq : g' = g
    · subst heq
      simp only [Function.update_self, h.pending g' hg']
      rw [show s.delivered g' + 1 = acked g' + 1 + (s.delivered g' - acked g') by omega,
        List.range'_append_1]
      congr 1
      omega
    · simpa [heq] using h.pending g' hg'
  case entries => exact h.entries

/-! ### Acknowledging -/

/-- Acknowledging moves one entry, the first pending one, out of what a group holds. -/
theorem held_update (hg : g ∈ s.groups) {id : Nat} (hne : id ≠ acked g + 1) :
    held s.groups (Function.update acked g (acked g + 1)) id = held s.groups acked id := by
  have hempty : s.groups.isEmpty = false := by
    cases hgs : s.groups with
    | nil => simp [hgs] at hg
    | cons => rfl
  simp only [held, hempty, Bool.false_or]
  rw [Bool.eq_iff_iff, List.any_eq_true, List.any_eq_true]
  refine exists_congr fun g' => and_congr_right fun _ => ?_
  by_cases heq : g' = g
  · subst heq
    simp only [Function.update_self, decide_eq_true_eq]
    omega
  · simp [heq]

/-- The stream once `g` has acknowledged `id`, before any deletion. -/
def acknowledge (s : GroupStream γ ν) (g : γ) (id : Nat) : GroupStream γ ν :=
  { s with pending := Function.update s.pending g ((s.pending g).filter (· ≠ id)) }

theorem pending_acknowledge (h : Tracks s log acked) (hlt : acked g < s.delivered g)
    {g' : γ} (hg' : g' ∈ s.groups) :
    (acknowledge s g (acked g + 1)).pending g' =
      List.range' (Function.update acked g (acked g + 1) g' + 1)
        (s.delivered g' - Function.update acked g (acked g + 1) g') := by
  by_cases heq : g' = g
  · subst heq
    obtain ⟨n, hn⟩ := Nat.exists_eq_add_of_lt hlt
    have hlen : s.delivered g' - acked g' = n + 1 := by omega
    have hlen' : s.delivered g' - (acked g' + 1) = n := by omega
    simp only [acknowledge, Function.update_self, h.pending g' hg', hlen, hlen', List.range'_succ]
    rw [List.filter_cons_of_neg (by simp), List.filter_eq_self]
    intro id hid
    have := (List.mem_range'_1.mp hid).1
    simp only [ne_eq, decide_eq_true_eq]
    omega
  · simpa [acknowledge, heq] using h.pending g' hg'

/-- An entry is released exactly when no group holds it any more. -/
theorem released_acknowledge (h : Tracks s log acked) (hg : g ∈ s.groups)
    (hlt : acked g < s.delivered g) :
    (acknowledge s g (acked g + 1)).released (acked g + 1) =
      !held s.groups (Function.update acked g (acked g + 1)) (acked g + 1) := by
  have hempty : s.groups.isEmpty = false := by
    cases hgs : s.groups with
    | nil => simp [hgs] at hg
    | cons => rfl
  rw [Bool.eq_iff_iff]
  simp only [released, held, hempty, Bool.false_or, Bool.not_eq_true', List.all_eq_true,
    List.any_eq_false, Bool.and_eq_true, decide_eq_true_eq]
  show (∀ g' ∈ s.groups, _) ↔ _
  refine forall_congr' fun g' => forall_congr' fun hg' => ?_
  rw [h.pending_acknowledge hlt hg', List.mem_range'_1]
  have hle := h.acked_le g' hg'
  show _ ≤ s.delivered g' ∧ _ ↔ _
  by_cases heq : g' = g
  · subst heq
    simp
    omega
  · simp [heq]
    omega

/-- One acknowledgement, of the first pending entry. -/
theorem xackdel (h : Tracks s log acked) (hg : g ∈ s.groups) (hlt : acked g < s.delivered g) :
    ∃ r s', s.xackdel g (acked g + 1) = (r, s') ∧ r ≠ .missing ∧
      Tracks s' log (Function.update acked g (acked g + 1)) ∧ s'.groups = s.groups ∧
      s'.delivered = s.delivered ∧
      s'.entries = s.entries.filter (fun e => e.1 ≠ acked g + 1 || r ≠ .deleted) := by
  have hmem : acked g + 1 ∈ s.pending g := by
    rw [h.pending g hg, List.mem_range'_1]
    omega
  -- Whether it is deleted or not, what is left is what some group still holds.
  have htracks : ∀ entries : List (Nat × ν),
      entries = log.filter (fun e =>
        held s.groups (Function.update acked g (acked g + 1)) e.1) →
      Tracks { acknowledge s g (acked g + 1) with entries := entries } log
        (Function.update acked g (acked g + 1)) := by
    intro entries hentries
    refine ⟨h.ids, h.lastId, ?_, h.delivered_le, fun g' hg' => h.pending_acknowledge hlt hg', hentries⟩
    intro g' hg'
    by_cases heq : g' = g
    · subst heq
      simpa [acknowledge] using hlt
    · simpa [acknowledge, heq] using h.acked_le g' hg'
  have hreleased := h.released_acknowledge hg hlt
  simp only [GroupStream.xackdel, if_pos hmem]
  change ∃ r s', (if (acknowledge s g (acked g + 1)).released (acked g + 1) = true then _ else _) =
    (r, s') ∧ _
  by_cases hheld : held s.groups (Function.update acked g (acked g + 1)) (acked g + 1) = true
  · rw [hheld] at hreleased
    rw [if_neg (by simp [hreleased])]
    refine ⟨.kept, _, rfl, by decide, htracks s.entries ?_, rfl, rfl, ?_⟩
    · rw [h.entries]
      apply List.filter_congr
      intro e _
      by_cases hid : e.1 = acked g + 1
      · rw [hid, hheld]
        exact held_of_lt hg (Nat.lt_succ_self _)
      · exact (held_update hg hid).symm
    · symm
      simp
  · simp only [Bool.not_eq_true] at hheld
    rw [hheld] at hreleased
    rw [if_pos (by simp [hreleased])]
    refine ⟨.deleted, _, rfl, by decide, htracks (s.entries.filter (·.1 ≠ acked g + 1)) ?_, rfl,
      rfl, ?_⟩
    · rw [h.entries, List.filter_filter]
      apply List.filter_congr
      intro e _
      by_cases hid : e.1 = acked g + 1
      · simp [hid, hheld]
      · simp [hid, held_update hg hid]
    · simp

/-- Acknowledging a run of pending entries, oldest first. -/
theorem xackdelAll (h : Tracks s log acked) (hg : g ∈ s.groups) {n : Nat}
    (hn : acked g + n ≤ s.delivered g) (w : Nat → Nat) :
    ∃ rs s', s.xackdelAll g (List.range' (acked g + 1) n) = (rs, s') ∧ (∀ r ∈ rs, r ≠ .missing) ∧
      Tracks s' log (Function.update acked g (acked g + n)) ∧ s'.groups = s.groups ∧
      s'.delivered = s.delivered ∧
      (∀ e ∈ s'.entries, e ∈ s.entries ∧
        e.1 ∉ deletedIds (List.range' (acked g + 1) n) rs) ∧
      weight w s.entries = weight w s'.entries +
        ((deletedIds (List.range' (acked g + 1) n) rs).map w).sum := by
  induction n generalizing s acked with
  | zero => exact ⟨[], s, rfl, by simp, by simpa using h, rfl, rfl, by simp [deletedIds],
      by simp [deletedIds]⟩
  | succ n ih =>
    obtain ⟨r, s₁, hstep, hr, h₁, hgroups₁, hdelivered₁, hentries₁⟩ :=
      h.xackdel hg (by omega)
    obtain ⟨rs, s', hrun, hrs, h', hgroups', hdelivered', hentries', hweight'⟩ :=
      ih h₁ (by rw [hgroups₁]; exact hg) (by rw [hdelivered₁, Function.update_self]; omega)
    rw [Function.update_self] at hrun hentries' hweight'
    rw [Function.update_self, Function.update_idem, Nat.add_assoc, Nat.add_comm 1 n] at h'
    refine ⟨r :: rs, s', ?_, ?_, h', hgroups'.trans hgroups₁, hdelivered'.trans hdelivered₁, ?_, ?_⟩
    · rw [List.range'_succ]
      simp only [GroupStream.xackdelAll, hstep, hrun]
    · intro r' hr'
      rcases List.mem_cons.mp hr' with rfl | hr'
      · exact hr
      · exact hrs r' hr'
    · intro e he
      obtain ⟨he₁, hdel⟩ := hentries' e he
      rw [hentries₁, List.mem_filter] at he₁
      refine ⟨he₁.1, ?_⟩
      rw [List.range'_succ]
      by_cases hdeleted : r = .deleted
      · have hne : e.1 ≠ acked g + 1 := by simpa [hdeleted] using he₁.2
        simpa [deletedIds, hdeleted, hne] using hdel
      · simpa [deletedIds, hdeleted] using hdel
    · rw [List.range'_succ]
      by_cases hdeleted : r = .deleted
      · have hfilter : s₁.entries = s.entries.filter (·.1 ≠ acked g + 1) := by
          rw [hentries₁]
          simp [hdeleted]
        have hmem : acked g + 1 ∈ s.entries.map (·.1) := by
          have hle := h.delivered_le g hg
          obtain ⟨e, he⟩ : ∃ e, log[acked g]? = some e :=
            ⟨log[acked g], List.getElem?_eq_getElem (by omega)⟩
          have hid := h.id_eq he
          refine List.mem_map.mpr ⟨e, h.mem_entries hg (List.mem_of_getElem? he) (by omega), hid⟩
        have hone := weight_filter_ne w h.nodup_ids hmem
        rw [← hfilter] at hone
        rw [hone, hweight']
        simp [deletedIds, hdeleted]
        omega
      · have hsame : s₁.entries = s.entries := by
          rw [hentries₁]
          simp [hdeleted]
        rw [← hsame, hweight']
        simp [deletedIds, hdeleted]

end Commands

end Tracks

end GroupStream
