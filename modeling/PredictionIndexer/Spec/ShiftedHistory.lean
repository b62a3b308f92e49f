import PredictionIndexer.ForStd.Sharing
import PredictionIndexer.Replay.TimeShift

/-!
# The shifted view

The ring of a book is its history, less entries that no declared shift reaches back to any more and
less those that another of the same time replaced. So a shifted view is read as from the whole
history, and what the budget has of the ring is the cost of the entries left, with each fill that
several of them share counted once.

Key results:
- `Reaches.push` — an append loses nothing that a shift reaches
- `ringPush_spec` — what an append leaves in the ring, and what it charges
- `tracks_run` — the rings and the budget follow the commits
- `shifted_exact` — a shifted view is that of the history, and the budget that of the rings
-/

namespace PredictionIndexer.Replay

open Fallible Function History Sharing

variable {Ref : Type}

/-- A committed view and its time. -/
abbrev Committed (Ref : Type) := Int × BookView Ref

/-- The fills of the entries, as often as an entry refers to them. -/
def heldFills (entries : List (Committed Ref)) : List Ref := entries.flatMap fun e => viewFills e.2

theorem pop_append {α : Type} (l₁ : List α) (a : α) (l₂ : List α) :
    pop (l₁ ++ a :: l₂) l₁.length = .ok (a, l₁ ++ l₂) := by
  rw [pop, List.getElem?_append_right le_rfl, Nat.sub_self,
    List.eraseIdx_append_of_length_le le_rfl, Nat.sub_self]
  rfl

theorem heldFills_perm (before : List (Committed Ref)) (e : Committed Ref)
    (behind : List (Committed Ref)) :
    (heldFills (before ++ e :: behind)).Perm (viewFills e.2 ++ heldFills (before ++ behind)) := by
  simp only [heldFills, List.flatMap_append, List.flatMap_cons]
  rw [← List.append_assoc, ← List.append_assoc]
  exact List.perm_append_comm.append_right _

/-- The entries without a last one of the time. -/
def replaced (time : Int) (entries : List (Committed Ref)) : List (Committed Ref) :=
  if (entries.map (·.1)).getLast? = some time then entries.dropLast else entries

/-- The entries without those that no shift reaches any more. -/
def pruned (reach time : Int) (entries : List (Committed Ref)) : List (Committed Ref) :=
  entries.drop (bisectRight (entries.map (·.1)) (time - reach) - 1)

/-- The entries behind a commit. -/
def pushed (reach time : Int) (view : BookView Ref) (entries : List (Committed Ref)) :
    List (Committed Ref) :=
  pruned reach time (replaced time entries) ++ [(time, view)]

theorem replaced_sublist (time : Int) (entries : List (Committed Ref)) :
    (replaced time entries).Sublist entries := by
  unfold replaced
  split
  next => exact List.dropLast_sublist _
  next => exact List.Sublist.refl _

theorem pruned_sublist (reach time : Int) (entries : List (Committed Ref)) :
    (pruned reach time entries).Sublist entries := List.drop_sublist _ _

/-! ## What a shift reaches -/

section History

variable {reach time : Int} {view : BookView Ref} {history entries : List (Committed Ref)}

/-- The entries are of the history, in order, and say as much where a shift reaches from the last
commit on. -/
structure Reaches (reach : Int) (history entries : List (Committed Ref)) : Prop where
  sorted : (entries.map (·.1)).Pairwise (· < ·)
  dated : ∀ e ∈ entries, ∃ e' ∈ history, e'.1 = e.1
  value : ∀ t, (∀ e ∈ history, e.1 - reach ≤ t) → valueAt entries t = valueAt history t

theorem Reaches.nil (reach : Int) : Reaches reach ([] : List (Committed Ref)) [] :=
  ⟨List.Pairwise.nil, nofun, fun _ _ => rfl⟩

/-- An entry that is replaced is too late for what is asked before it. -/
theorem valueAt_replaced {t : Int} (ht : t < time) :
    valueAt (replaced time entries) t = valueAt entries t := by
  unfold replaced
  split
  next hlast =>
    have hne : entries ≠ [] := by
      rintro rfl
      simp at hlast
    have hsplit := (List.dropLast_append_getLast hne).symm
    have hdate : (entries.getLast hne).1 = time := by
      rw [List.getLast?_map, List.getLast?_eq_some_getLast hne] at hlast
      simpa using hlast
    conv_rhs => rw [hsplit]
    rw [valueAt_append_of_lt]
    simpa [hdate] using ht
  next => rfl

/-- Behind the replacement all entries are before the commit. -/
theorem lt_of_mem_replaced {e : Committed Ref} (hsorted : (entries.map (·.1)).Pairwise (· < ·))
    (hlate : ∀ e ∈ entries, e.1 ≤ time) (he : e ∈ replaced time entries) : e.1 < time := by
  have hne : entries ≠ [] := List.ne_nil_of_mem ((replaced_sublist time entries).subset he)
  have hsplit := (List.dropLast_append_getLast hne).symm
  have hlast : (entries.map (·.1)).getLast? = some (entries.getLast hne).1 := by
    rw [List.getLast?_map, List.getLast?_eq_some_getLast hne]
    rfl
  have hbefore : ∀ e ∈ entries.dropLast, e.1 < (entries.getLast hne).1 := by
    intro e he
    rw [hsplit, List.map_append, List.pairwise_append] at hsorted
    exact hsorted.2.2 _ (List.mem_map_of_mem he) _ (by simp)
  have hle := hlate _ (List.getLast_mem hne)
  simp only [replaced, hlast, Option.some.injEq] at he
  split at he
  next heq => exact heq ▸ hbefore e he
  next hneq =>
    rw [hsplit, List.mem_append, List.mem_singleton] at he
    rcases he with he | rfl
    · exact (hbefore e he).trans_le hle
    · exact lt_of_le_of_ne hle hneq

/-- An append loses nothing that a shift reaches. -/
theorem Reaches.push (h : Reaches reach history entries) (hlate : ∀ e ∈ history, e.1 ≤ time)
    (view : BookView Ref) :
    Reaches reach (history ++ [(time, view)]) (pushed reach time view entries) := by
  have hsub : (pruned reach time (replaced time entries)).Sublist entries :=
    (pruned_sublist _ _ _).trans (replaced_sublist _ _)
  refine ⟨?_, ?_, ?_⟩
  · have hdated : ∀ e ∈ entries, e.1 ≤ time := by
      intro e he
      obtain ⟨e', he', hdate⟩ := h.dated e he
      exact hdate ▸ hlate e' he'
    rw [pushed, List.map_append, List.pairwise_append]
    refine ⟨h.sorted.sublist (hsub.map _), List.pairwise_singleton _ _, ?_⟩
    simp only [List.mem_map, List.map_singleton, List.mem_singleton]
    rintro _ ⟨e, he, rfl⟩ _ rfl
    exact lt_of_mem_replaced h.sorted hdated ((pruned_sublist _ _ _).subset he)
  · intro e he
    rw [pushed, List.mem_append, List.mem_singleton] at he
    rcases he with he | rfl
    · obtain ⟨e', he', hdate⟩ := h.dated e (hsub.subset he)
      exact ⟨e', List.mem_append_left _ he', hdate⟩
    · exact ⟨_, List.mem_append_right _ (List.mem_singleton_self _), rfl⟩
  · intro t ht
    rw [pushed, valueAt_concat, valueAt_concat]
    split
    next => rfl
    next hearly =>
      have hreach : time - reach ≤ t := ht (time, view) (by simp)
      have hsorted : ((replaced time entries).map (·.1)).Pairwise (· ≤ ·) :=
        (h.sorted.imp le_of_lt).sublist ((replaced_sublist time entries).map _)
      rw [pruned, valueAt_drop hsorted hreach, valueAt_replaced (by omega)]
      exact h.value t fun e he => ht e (List.mem_append_left _ he)

end History

/-! ## Commits -/

/-- The commits of a book, oldest first. -/
def history {Ref : Type} (key : String) (events : List (RuntimeEvent Ref)) : List (Committed Ref) :=
  events.filterMap fun
    | .commit k time view => if k = key then some (time, view) else none
    | _ => none

theorem history_append (key : String) (events events' : List (RuntimeEvent Ref)) :
    history key (events ++ events') = history key events ++ history key events' :=
  List.filterMap_append

/-- A commit of a book is no commit of another one. -/
theorem history_commit (key k : String) (time : Int) (view : BookView Ref) :
    history key [.commit k time view] = if k = key then [(time, view)] else [] := by
  unfold history
  split <;> simp [*]

theorem shiftsOf_eq_ok {r : Runtime Ref} {key : String} {shifts : List Int} :
    r.shiftsOf key = .ok shifts ↔ r.shifts.lookup key = some shifts := by
  unfold Runtime.shiftsOf
  cases r.shifts.lookup key <;> simp

/-- The commits of each book are in order. -/
def InTime (events : List (RuntimeEvent Ref)) : Prop :=
  ∀ key, ((history key events).map (·.1)).Pairwise (· ≤ ·)

theorem InTime.of_append {events events' : List (RuntimeEvent Ref)} (h : InTime (events ++ events')) :
    InTime events := by
  intro key
  have hkey := h key
  rw [history_append, List.map_append] at hkey
  exact (List.pairwise_append.mp hkey).1

variable [DecidableEq Ref]

/-! ## What a ring holds -/

section Ring

variable {object : Ref → Fill} {ring ring' : Ring Ref} {b b' : StateBudget}
  {entries before behind : List (Committed Ref)} {e : Committed Ref} {held fills : List Ref}
  {counts : Ref → Option (Nat × Nat)}

/-- The cost of the entries, with each fill counted once. -/
def entriesCost (object : Ref → Fill) (entries : List (Committed Ref)) : Nat :=
  entries.length * entryCost + total (fun fill => fillShare (object fill)) (heldFills entries)

/-- The ring has the entries, in parallel lists, and counts their fills. -/
structure Ring.Holds (object : Ref → Fill) (ring : Ring Ref) (entries : List (Committed Ref)) :
    Prop where
  times : ring.times = entries.map (·.1)
  views : ring.views = entries.map (·.2)
  costs : ring.costs = entries.map fun _ => entryCost
  fills : IsCount (fun fill => fillShare (object fill)) (heldFills entries) ring.fills

theorem charge_eq_ok {amount : Int} (h : b.charge amount = .ok b') :
    b'.limit = b.limit ∧ b'.used = b.used + amount := by
  unfold StateBudget.charge StateBudget.replace at h
  split at h
  next =>
    cases h
    exact ⟨rfl, by simp⟩
  next => cases h

/-- The loop of an append charges for the fills that no entry has yet. -/
theorem foldlM_chargeFill (hcount : IsCount (fun fill => fillShare (object fill)) held counts)
    (h : fills.foldlM (chargeFill object) ({ ring with fills := counts }, b) = .ok (ring', b')) :
    ∃ counts', ring' = { ring with fills := counts' } ∧
      IsCount (fun fill => fillShare (object fill)) (fills.reverse ++ held) counts' ∧
      b'.used + total (fun fill => fillShare (object fill)) held =
        b.used + total (fun fill => fillShare (object fill)) (fills.reverse ++ held) := by
  induction fills generalizing counts b held with
  | nil =>
    cases h
    exact ⟨_, rfl, hcount, rfl⟩
  | cons fill fills ih =>
    rw [List.foldlM_cons] at h
    obtain ⟨⟨ring₁, b₁⟩, hstep, hrest⟩ := Except.bind_eq_ok.mp h
    rw [List.reverse_cons, List.append_assoc, List.singleton_append]
    unfold chargeFill at hstep
    split at hstep
    next hnone =>
      obtain ⟨b₂, hcharge, hstep⟩ := Except.bind_eq_ok.mp hstep
      cases hstep
      obtain ⟨counts', rfl, hcounts, hused⟩ := ih (hcount.first hnone) hrest
      have hnew := @total_cons_of_notMem _ _ (fun fill => fillShare (object fill)) _ _
        (hcount.eq_none_iff.mp hnone)
      refine ⟨counts', rfl, hcounts, ?_⟩
      have hcharged := (charge_eq_ok hcharge).2
      simp only at hcharged
      omega
    next count share hsome =>
      cases hstep
      obtain ⟨counts', rfl, hcounts, hused⟩ := ih (hcount.again hsome) hrest
      have hmem : fill ∈ held := by
        by_contra hnot
        simp [hcount.eq_none_iff.mpr hnot] at hsome
      rw [total_cons_of_mem hmem] at hused
      exact ⟨counts', rfl, hcounts, hused⟩

/-- The loop of a drop gives back what the fills of the entry alone were charged with. -/
theorem foldlM_releaseFill (ring : Ring Ref) (b : StateBudget)
    (hcount : IsCount (fun fill => fillShare (object fill)) (fills ++ held) counts) :
    ∃ counts' b', fills.foldlM releaseFill ({ ring with fills := counts }, b) =
        .ok ({ ring with fills := counts' }, b') ∧
      IsCount (fun fill => fillShare (object fill)) held counts' ∧
      b'.used + total (fun fill => fillShare (object fill)) (fills ++ held) =
        b.used + total (fun fill => fillShare (object fill)) held := by
  induction fills generalizing counts b with
  | nil => exact ⟨counts, b, rfl, hcount, rfl⟩
  | cons fill fills ih =>
    rw [List.cons_append] at hcount ⊢
    rw [List.foldlM_cons]
    by_cases hmem : fill ∈ fills ++ held
    · have hpos := List.count_pos_iff.mpr hmem
      have hstep : releaseFill ({ ring with fills := counts }, b) fill = .ok ({ ring with
          fills := update counts fill
            (some ((fills ++ held).count fill, fillShare (object fill))) }, b) := by
        simp only [releaseFill, hcount.get]
        rw [if_neg (by omega)]
        rfl
      obtain ⟨counts', b', hrest, hcounts, hused⟩ := ih b (hcount.less hmem)
      refine ⟨counts', b', ?_, hcounts, ?_⟩
      · rw [hstep]
        exact hrest
      · rw [total_cons_of_mem hmem]
        exact hused
    · have hstep : releaseFill ({ ring with fills := counts }, b) fill = .ok ({ ring with
          fills := update counts fill none }, b.release (fillShare (object fill))) := by
        simp [releaseFill, hcount.get, List.count_eq_zero.mpr hmem]
      obtain ⟨counts', b', hrest, hcounts, hused⟩ :=
        ih (b.release (fillShare (object fill))) (hcount.last hmem)
      refine ⟨counts', b', ?_, hcounts, ?_⟩
      · rw [hstep]
        exact hrest
      · rw [total_cons_of_notMem hmem]
        simp only [StateBudget.release] at hused
        push_cast
        omega

/-- An entry is dropped with its cost and with the fills that no other entry has. -/
theorem ringDrop_spec (b : StateBudget) (h : ring.Holds object (before ++ e :: behind)) :
    ∃ ring' b', ringDrop (ring, b) before.length = .ok (ring', b') ∧
      ring'.Holds object (before ++ behind) ∧
      b'.used + entriesCost object (before ++ e :: behind) =
        b.used + entriesCost object (before ++ behind) := by
  have hviews : pop ring.views before.length = .ok (e.2, (before ++ behind).map (·.2)) := by
    have hpop := pop_append (before.map (·.2)) e.2 (behind.map (·.2))
    rwa [List.length_map, ← List.map_cons, ← List.map_append, ← List.map_append, ← h.views] at hpop
  have htimes : pop ring.times before.length = .ok (e.1, (before ++ behind).map (·.1)) := by
    have hpop := pop_append (before.map (·.1)) e.1 (behind.map (·.1))
    rwa [List.length_map, ← List.map_cons, ← List.map_append, ← List.map_append, ← h.times] at hpop
  have hcosts : pop ring.costs before.length =
      .ok (entryCost, (before ++ behind).map fun _ => entryCost) := by
    have hpop := pop_append (before.map fun _ => entryCost) entryCost (behind.map fun _ => entryCost)
    rw [List.length_map] at hpop
    rw [h.costs, List.map_append, List.map_cons, hpop, List.map_append]
  have hcount := h.fills.perm (heldFills_perm before e behind)
  obtain ⟨counts, b', hrelease, hcounts, hused⟩ := foldlM_releaseFill
    { ring with
      times := (before ++ behind).map (·.1)
      views := (before ++ behind).map (·.2)
      costs := (before ++ behind).map fun _ => entryCost } (b.release entryCost) hcount
  refine ⟨{ ring with
    times := (before ++ behind).map (·.1)
    views := (before ++ behind).map (·.2)
    costs := (before ++ behind).map fun _ => entryCost
    fills := counts }, b', ?_, ⟨rfl, rfl, rfl, hcounts⟩, ?_⟩
  · rw [ringDrop, hviews, htimes, hcosts]
    exact hrelease
  · rw [entriesCost, entriesCost, total_perm (heldFills_perm before e behind)]
    simp only [StateBudget.release] at hused
    simp only [List.length_append, List.length_cons]
    push_cast
    linarith

theorem dropFirst_spec {n : Nat} (b : StateBudget) (h : ring.Holds object entries)
    (hn : n ≤ entries.length) :
    ∃ ring' b', dropFirst n (ring, b) = .ok (ring', b') ∧ ring'.Holds object (entries.drop n) ∧
      b'.used + entriesCost object entries = b.used + entriesCost object (entries.drop n) := by
  induction n generalizing entries ring b with
  | zero => exact ⟨ring, b, rfl, h, rfl⟩
  | succ n ih =>
    cases entries with
    | nil => simp at hn
    | cons e entries =>
      obtain ⟨ring₁, b₁, hdrop, hholds, hused⟩ := @ringDrop_spec _ _ _ _ [] entries e b h
      obtain ⟨ring', b', hrest, hholds', hused'⟩ := ih b₁ hholds (Nat.le_of_succ_le_succ hn)
      refine ⟨ring', b', ?_, hholds', ?_⟩
      · rw [dropFirst, show ringDrop (ring, b) 0 = .ok (ring₁, b₁) from hdrop, Except.ok_bind]
        exact hrest
      · simp only [List.nil_append] at hused hused'
        rw [List.drop_succ_cons]
        omega


theorem ringReplace_spec (time : Int) (b : StateBudget) (h : ring.Holds object entries) :
    ∃ ring' b', ringReplace time (ring, b) = .ok (ring', b') ∧
      ring'.Holds object (replaced time entries) ∧
      b'.used + entriesCost object entries =
        b.used + entriesCost object (replaced time entries) := by
  rw [replaced, ringReplace, ← h.times]
  split
  next hlast =>
    have hne : entries ≠ [] := by
      rintro rfl
      simp [h.times] at hlast
    have hsplit := (List.dropLast_append_getLast hne).symm
    have hholds : ring.Holds object (entries.dropLast ++ entries.getLast hne :: []) := by
      rwa [← hsplit]
    have hlength : ring.times.length - 1 = entries.dropLast.length := by
      rw [h.times, List.length_map, List.length_dropLast]
    obtain ⟨ring', b', hdrop, hholds', hused⟩ := ringDrop_spec b hholds
    rw [List.append_nil] at hholds' hused
    rw [← hsplit] at hused
    exact ⟨ring', b', hlength ▸ hdrop, hholds', hused⟩
  next => exact ⟨ring, b, rfl, h, rfl⟩

theorem ringPrune_spec {shifts : List Int} {reach : Int} (hreach : shifts.max? = some reach)
    (time : Int) (b : StateBudget) (h : ring.Holds object entries)
    (hsorted : (entries.map (·.1)).Pairwise (· ≤ ·)) :
    ∃ ring' b', ringPrune shifts time (ring, b) = .ok (ring', b') ∧
      ring'.Holds object (pruned reach time entries) ∧
      b'.used + entriesCost object entries =
        b.used + entriesCost object (pruned reach time entries) := by
  have hpoint := bisectRight_le_length hsorted (time - reach)
  rw [List.length_map] at hpoint
  simp only [ringPrune, hreach, h.times]
  exact dropFirst_spec b h (by omega)

theorem exists_reach {ringEntries : Nat} {shifts : List Int} {time : Int} {view : BookView Ref}
    {s s' : Ring Ref × StateBudget}
    (hpush : ringPush object ringEntries shifts time view s = .ok s') :
    ∃ reach, shifts.max? = some reach := by
  obtain ⟨s₁, -, hpush⟩ := Except.bind_eq_ok.mp hpush
  obtain ⟨s₂, hprune, -⟩ := Except.bind_eq_ok.mp hpush
  unfold ringPrune at hprune
  split at hprune
  next => cases hprune
  next reach hreach => exact ⟨reach, hreach⟩

/-- What an append leaves in the ring, and what it charges. -/
theorem ringPush_spec {ringEntries : Nat} {shifts : List Int} {reach time : Int}
    {view : BookView Ref} (hreach : shifts.max? = some reach) (h : ring.Holds object entries)
    (hsorted : (entries.map (·.1)).Pairwise (· ≤ ·))
    (hpush : ringPush object ringEntries shifts time view (ring, b) = .ok (ring', b')) :
    ring'.Holds object (pushed reach time view entries) ∧
      b'.used + entriesCost object entries =
        b.used + entriesCost object (pushed reach time view entries) := by
  obtain ⟨ring₁, b₁, hreplace, hholds₁, hused₁⟩ := ringReplace_spec time b h
  have hsorted₁ : ((replaced time entries).map (·.1)).Pairwise (· ≤ ·) :=
    hsorted.sublist ((replaced_sublist time entries).map _)
  obtain ⟨ring₂, b₂, hprune, hholds₂, hused₂⟩ := ringPrune_spec hreach time b₁ hholds₁ hsorted₁
  rw [ringPush, hreplace, Except.ok_bind, hprune, Except.ok_bind] at hpush
  split at hpush
  next => cases hpush
  next =>
    obtain ⟨⟨ring₃, b₃⟩, hcharge, hpush⟩ := Except.bind_eq_ok.mp hpush
    obtain ⟨b₄, hentry, hpush⟩ := Except.bind_eq_ok.mp hpush
    cases hpush
    obtain ⟨counts, rfl, hcounts, hused₃⟩ := foldlM_chargeFill hholds₂.fills hcharge
    have hperm : ((viewFills view).reverse ++
        heldFills (pruned reach time (replaced time entries))).Perm
          (heldFills (pushed reach time view entries)) := by
      rw [pushed, heldFills, heldFills, List.flatMap_append, List.flatMap_singleton]
      exact List.perm_append_comm.trans ((List.reverse_perm _).append_left _)
    refine ⟨⟨?_, ?_, ?_, hcounts.perm hperm⟩, ?_⟩
    · simp [pushed, hholds₂.times]
    · simp [pushed, hholds₂.views]
    · simp [pushed, hholds₂.costs]
    · rw [total_perm hperm] at hused₃
      have hcharged := (charge_eq_ok hentry).2
      have hlength : (pushed reach time view entries).length =
          (pruned reach time (replaced time entries)).length + 1 := by
        simp [pushed]
      simp only [entriesCost, hlength] at hused₁ hused₂ ⊢
      push_cast at hused₁ hused₂ hused₃ hcharged ⊢
      linarith

end Ring

/-! ## Every run -/

section Run

variable {object : Ref → Fill} {r r' : Runtime Ref} {events : List (RuntimeEvent Ref)}

/-- What other code charges. -/
def elsewhere : RuntimeEvent Ref → Int
  | .commit _ _ _ => 0
  | .replace old new => new - old
  | .release amount => -amount

/-- The retained entries of a ring. -/
def retained (ring : Ring Ref) : List (Committed Ref) := ring.times.zip ring.views

theorem Ring.Holds.retained {ring : Ring Ref} {entries : List (Committed Ref)}
    (h : ring.Holds object entries) : Replay.retained ring = entries := by
  rw [Replay.retained, h.times, h.views, List.zip_map', List.map_id']

/-- The rings are what the history leaves of them, and the budget is charged for them. -/
structure Tracks (object : Ref → Fill) (r₀ : Runtime Ref) (events : List (RuntimeEvent Ref))
    (r : Runtime Ref) : Prop where
  shifts : r.shifts = r₀.shifts
  clockStart : r.clockStart = r₀.clockStart
  holds : ∀ key, (r.rings key).Holds object (retained (r.rings key))
  reaches : ∀ key shifts reach, r.shifts.lookup key = some shifts → shifts.max? = some reach →
    Reaches reach (history key events) (retained (r.rings key))
  used : r.budget.used = r₀.budget.used + (events.map elsewhere).sum +
    (r.shifts.map fun s => (entriesCost object (retained (r.rings s.1)) : Int)).sum

theorem tracks_start (shifts : List (String × List Int)) (hnodup : (shifts.map (·.1)).Nodup)
    (clockStart clockEnd : Int) (ringEntries : Nat) (budget : StateBudget) :
    Tracks object (.start shifts hnodup clockStart clockEnd ringEntries budget) []
      (.start shifts hnodup clockStart clockEnd ringEntries budget) where
  shifts := rfl
  clockStart := rfl
  holds _ := ⟨rfl, rfl, rfl, isCount_nil _⟩
  reaches _ _ reach _ _ := .nil reach
  used := by simp [Runtime.start, retained, entriesCost, heldFills]

/-- One of the terms of a sum changes. -/
theorem sum_map_update {α : Type} [DecidableEq α] {l : List α} (hnodup : l.Nodup) (f : α → Int)
    {a : α} (ha : a ∈ l) (x : Int) :
    (l.map (update f a x)).sum + f a = (l.map f).sum + x := by
  induction l with
  | nil => cases ha
  | cons b l ih =>
    rw [List.nodup_cons] at hnodup
    rw [List.map_cons, List.map_cons, List.sum_cons, List.sum_cons]
    by_cases hb : b = a
    · subst hb
      have hrest : l.map (update f b x) = l.map f := by
        refine List.map_congr_left fun c hc => update_of_ne ?_ _ _
        rintro rfl
        exact hnodup.1 hc
      rw [hrest, update_self]
      ring
    · have hrec := ih hnodup.2 ((List.mem_cons.mp ha).resolve_left (Ne.symm hb))
      rw [update_of_ne hb]
      linarith

/-- A commit keeps the rings and the budget. -/
theorem Tracks.commit {r₀ : Runtime Ref} {key : String} {time : Int} {view : BookView Ref}
    (h : Tracks object r₀ events r) (hlate : ∀ e ∈ history key events, e.1 ≤ time)
    (hstep : r.ringAppend object key time view = .ok r') :
    Tracks object r₀ (events ++ [.commit key time view]) r' := by
  obtain ⟨shifts, hshifts, hstep⟩ := Except.bind_eq_ok.mp hstep
  obtain ⟨⟨ring, budget⟩, hpush, hstep⟩ := Except.bind_eq_ok.mp hstep
  cases hstep
  rw [shiftsOf_eq_ok] at hshifts
  obtain ⟨reach, hreach⟩ := exists_reach hpush
  have hreaches := h.reaches key shifts reach hshifts hreach
  obtain ⟨hholds, hused⟩ := ringPush_spec hreach (h.holds key) (hreaches.sorted.imp le_of_lt) hpush
  have hretained := hholds.retained
  refine ⟨h.shifts, h.clockStart, fun k => ?_, fun k shifts' reach' hshifts' hreach' => ?_, ?_⟩
  · by_cases hk : k = key
    · subst hk
      simp only [update_self, hretained]
      exact hholds
    · simp only [update_of_ne hk]
      exact h.holds k
  · rw [history_append, history_commit]
    by_cases hk : k = key
    · subst hk
      rw [hshifts] at hshifts'
      cases hshifts'
      rw [hreach] at hreach'
      cases hreach'
      simp only [update_self, hretained, if_true]
      exact hreaches.push hlate view
    · simp only [update_of_ne hk, if_neg (Ne.symm hk), List.append_nil]
      exact h.reaches k shifts' reach' hshifts' hreach'
  · have hkey : key ∈ r.shifts.map (·.1) := by
      obtain ⟨l₁, l₂, heq, -⟩ := List.lookup_eq_some_iff.mp hshifts
      rw [heq]
      simp
    have hsum := sum_map_update r.keys_nodup
      (fun k => (entriesCost object (retained (r.rings k)) : Int)) hkey
      (entriesCost object (retained ring))
    have hcost : (fun k => (entriesCost object (retained (update r.rings key ring k)) : Int)) =
        update (fun k => (entriesCost object (retained (r.rings k)) : Int)) key
          (entriesCost object (retained ring)) := by
      funext k
      by_cases hk : k = key
      · subst hk
        rw [update_self, update_self]
      · rw [update_of_ne hk, update_of_ne hk]
    rw [List.map_map, List.map_map, ← hcost] at hsum
    have hbefore := h.used
    rw [← hretained] at hused
    simp only [Function.comp_def] at hsum
    simp only [List.map_append, List.map_singleton, List.sum_append, List.sum_singleton, elsewhere,
      add_zero]
    linarith

/-- What other code charges is charged beside the rings. -/
theorem Tracks.elsewhere {r₀ : Runtime Ref} {event : RuntimeEvent Ref} {budget : StateBudget}
    (h : Tracks object r₀ events r) (hevent : ∀ key, history key [event] = [])
    (hused : budget.used = r.budget.used + Replay.elsewhere event) :
    Tracks object r₀ (events ++ [event]) { r with budget } := by
  refine ⟨h.shifts, h.clockStart, h.holds, fun key shifts reach hshifts hreach => ?_, ?_⟩
  · rw [history_append, hevent, List.append_nil]
    exact h.reaches key shifts reach hshifts hreach
  · have hbefore := h.used
    simp only [List.map_append, List.map_singleton, List.sum_append, List.sum_singleton]
    linarith

theorem Tracks.step {r₀ : Runtime Ref} {event : RuntimeEvent Ref}
    (h : Tracks object r₀ events r)
    (hordered : ∀ key, ((history key (events ++ [event])).map (·.1)).Pairwise (· ≤ ·))
    (hstep : r.step object event = .ok r') : Tracks object r₀ (events ++ [event]) r' := by
  cases event with
  | commit key time view =>
    refine h.commit (fun e he => ?_) hstep
    have hkey := hordered key
    rw [history_append, history_commit, if_pos rfl, List.map_append, List.pairwise_append] at hkey
    exact hkey.2.2 e.1 (List.mem_map_of_mem he) time (by simp)
  | replace old new =>
    obtain ⟨budget, hreplace, hstep⟩ := Except.bind_eq_ok.mp hstep
    cases hstep
    refine h.elsewhere (fun key => rfl) ?_
    unfold StateBudget.replace at hreplace
    split at hreplace
    next =>
      cases hreplace
      rfl
    next => cases hreplace
  | release amount =>
    cases hstep
    exact h.elsewhere (fun key => rfl) (sub_eq_add_neg _ _)

theorem tracks_run {shifts : List (String × List Int)} {hnodup : (shifts.map (·.1)).Nodup}
    {clockStart clockEnd : Int} {ringEntries : Nat} {budget : StateBudget} (hordered : InTime events)
    (hrun : Runtime.run object (.start shifts hnodup clockStart clockEnd ringEntries budget)
      events = .ok r) :
    Tracks object (.start shifts hnodup clockStart clockEnd ringEntries budget) events r := by
  refine List.foldlM_prefix_inv (Tracks object (.start shifts hnodup clockStart clockEnd
    ringEntries budget)) hrun (tracks_start shifts hnodup clockStart clockEnd ringEntries budget) ?_
  intro before event behind t t' hevents _ htracks hstep
  refine htracks.step ?_ hstep
  rw [hevents, ← List.singleton_append, ← List.append_assoc] at hordered
  exact hordered.of_append

/-- A shifted view is read as from the entries. -/
theorem shifted_eq {key : String} {shifts : List Int} {shift time : Int}
    (hshifts : r.shifts.lookup key = some shifts)
    (hholds : (r.rings key).Holds object (retained (r.rings key)))
    (hsorted : ((retained (r.rings key)).map (·.1)).Pairwise (· ≤ ·)) :
    r.shifted key shift time =
      .ok ((valueAt (retained (r.rings key)) (time - shift)).getD
        (unavailableView Ref r.clockStart)) := by
  have hlength : (r.rings key).views.length = ((retained (r.rings key)).map (·.1)).length := by
    rw [hholds.views, List.length_map, List.length_map]
  have hpoint := bisectRight_le_length hsorted (time - shift)
  rw [Runtime.shifted, shiftsOf_eq_ok.mpr hshifts, Except.ok_bind, valueAt_eq_getElem? hsorted]
  simp only [hholds.times]
  split
  next => rfl
  next hne =>
    rw [← hholds.views, List.getElem?_eq_getElem (by omega)]
    rfl

/-- In every run the view of a book, shifted by a declared shift from the last commit on, is the
last one the book had by then, and the budget has of the rings what their entries cost, each fill
once. -/
theorem shifted_exact {shifts : List (String × List Int)} {hnodup : (shifts.map (·.1)).Nodup}
    {clockStart clockEnd : Int} {ringEntries : Nat} {budget : StateBudget} (hordered : InTime events)
    (hrun : Runtime.run object (.start shifts hnodup clockStart clockEnd ringEntries budget)
      events = .ok r) :
    (∀ key declared shift time, shifts.lookup key = some declared → shift ∈ declared →
      (∀ e ∈ history key events, e.1 ≤ time) →
        r.shifted key shift time =
          .ok ((valueAt (history key events) (time - shift)).getD
            (unavailableView Ref clockStart))) ∧
    r.budget.used = budget.used + (events.map elsewhere).sum +
      (shifts.map fun s => (entriesCost object (retained (r.rings s.1)) : Int)).sum := by
  have htracks := tracks_run hordered hrun
  refine ⟨fun key declared shift time hdeclared hshift htime => ?_, ?_⟩
  · have hlookup : r.shifts.lookup key = some declared := htracks.shifts ▸ hdeclared
    obtain ⟨reach, hreach⟩ := Option.isSome_iff_exists.mp
      (List.isSome_max?_of_mem hshift)
    have hreaches := htracks.reaches key declared reach hlookup hreach
    rw [shifted_eq hlookup (htracks.holds key) (hreaches.sorted.imp le_of_lt), htracks.clockStart,
      hreaches.value]
    · rfl
    · intro e he
      have hle := htime e he
      have hmax : shift ≤ reach := (List.max?_eq_some_iff.mp hreach).2 shift hshift
      omega
  · have hused := htracks.used
    rw [htracks.shifts] at hused
    exact hused

/-! ## A replaced view -/

/-- Two interned fills. -/
def sampleFill (fill : Nat) : Fill := ⟨fill, 0, false, [(1, 1)], [(1, 1)]⟩

/-- A view with fills of one size. -/
def sampleView (lastChange : Int) (fills : List Nat) : BookView Nat :=
  { unavailableView Nat lastChange with fills := fills.map fun fill => ("ask", [(1, fill)]) }

theorem sampleShifts_nodup : ([("book", [5])].map (·.1) : List String).Nodup :=
  List.nodup_singleton _

/-- A view at time 4 is replaced at that time, and one at time 0 is out of reach at time 12. -/
def sampleEvents : List (RuntimeEvent Nat) :=
  [.commit "book" 0 (sampleView 0 [1]), .commit "book" 4 (sampleView 3 [1, 2]),
    .commit "book" 4 (sampleView 4 [1]), .replace 0 100, .commit "book" 12 (sampleView 12 [1, 2])]

theorem shifted_exact_sample :
    ∃ r, Runtime.run sampleFill (.start [("book", [5])] sampleShifts_nodup 0 20 2 ⟨10000, 0⟩)
        sampleEvents = .ok r ∧
      r.shifted "book" 5 12 = .ok (sampleView 4 [1]) ∧
      r.budget.used = 100 + 2 * entryCost + (fillShare (sampleFill 1) + fillShare (sampleFill 2)) := by
  have hordered : InTime sampleEvents := by
    intro key
    by_cases hkey : "book" = key
    · subst hkey
      decide
    · simp [history, sampleEvents, hkey]
  obtain ⟨r, hrun⟩ : ∃ r, Runtime.run sampleFill
      (.start [("book", [5])] sampleShifts_nodup 0 20 2 ⟨10000, 0⟩) sampleEvents = .ok r :=
    ⟨_, rfl⟩
  have hused : (Runtime.run sampleFill (.start [("book", [5])] sampleShifts_nodup 0 20 2 ⟨10000, 0⟩)
      sampleEvents).map (·.budget.used) = .ok 4116 := rfl
  rw [hrun] at hused
  have hbook := (shifted_exact hordered hrun).1 "book" [5] 5 12 rfl (List.mem_singleton_self 5)
    (by decide)
  exact ⟨r, hrun, hbook, Except.ok.inj hused⟩

end Run

end PredictionIndexer.Replay
