import PredictionIndexer.Finalize.Merge
import PredictionIndexer.ForStd.Utf8

/-!
# The canonical merge is a k-way merge

What the merge holds of a lane is a pending head and the rest of its stream (`LaneState`). Each
pull hands out the least pending head, which is the least of everything that remains, because
each lane ascends; so the output ascends in the merge key, with nothing lost or repeated. A
strictly ascending list is determined by its elements, and that is why the order in which the
lanes are supplied cannot matter.

Key results:
- `Tracks.advance` — one pull of a valid lane raises no fault
- `drain_spec` — the iterator ends, and what it yielded is the sorted remainder
- `merge_correct` — every finite set of valid lanes
-/

namespace PredictionIndexer.Finalize

open Fallible

/-! ## Valid lanes and keys -/

/-- One record after another of one lane. -/
def Follows (a b : LaneRecord) : Prop :=
  a.visibleNs ≤ b.visibleNs ∧ b.deliveryIndex = a.deliveryIndex + 1

/-- Non-decreasing `visible_ns`, consecutive `delivery_index`. -/
def Dense (l : List LaneRecord) : Prop := l.IsChain Follows

/-- The key of a record under its lane's name. -/
def recordKey (x : String × LaneRecord) : Key String :=
  ⟨x.2.visibleNs, laneRank x.1, x.2.deliveryIndex, x.1⟩

/-- Within a lane, later records have greater keys. -/
theorem Dense.keys_lt {l : List LaneRecord} (h : Dense l) (lane : String) :
    l.Pairwise fun a b => compare (recordKey (lane, a)) (recordKey (lane, b)) = .lt := by
  have hpair : l.Pairwise fun a b =>
      a.visibleNs ≤ b.visibleNs ∧ a.deliveryIndex < b.deliveryIndex := by
    have htrans : IsTrans LaneRecord fun a b =>
        a.visibleNs ≤ b.visibleNs ∧ a.deliveryIndex < b.deliveryIndex :=
      ⟨fun a b c hab hbc => ⟨by omega, by omega⟩⟩
    rw [← List.isChain_iff_pairwise]
    refine List.IsChain.imp ?_ h
    rintro a b ⟨hv, hi⟩
    exact ⟨hv, by omega⟩
  refine hpair.imp ?_
  rintro a b ⟨hv, hi⟩
  rw [Key.compare_eq]
  have hindex : compare a.deliveryIndex b.deliveryIndex = .lt := compare_lt_iff_lt.mpr hi
  rcases Nat.lt_or_eq_of_le hv with hv | hv
  · have : compare a.visibleNs b.visibleNs = .lt := compare_lt_iff_lt.mpr hv
    simp [recordKey, this]
  · simp [recordKey, hv, hindex]

/-- In a strictly ascending list, positions compare like the elements. -/
theorem compare_idxOf {names : List String} (h : names.Pairwise (· < ·)) {a b : String}
    (ha : a ∈ names) (hb : b ∈ names) :
    compare (names.idxOf a) (names.idxOf b) = compare a b := by
  have hlt : ∀ {a b : String}, a ∈ names → b ∈ names → names.idxOf a < names.idxOf b → a < b := by
    intro a b ha hb hab
    have := List.pairwise_iff_getElem.mp h _ _ (List.idxOf_lt_length_of_mem ha)
      (List.idxOf_lt_length_of_mem hb) hab
    rwa [List.getElem_idxOf, List.getElem_idxOf] at this
  rcases Nat.lt_trichotomy (names.idxOf a) (names.idxOf b) with hab | hab | hab
  · rw [compare_lt_iff_lt.mpr hab, String.compare_eq_lt.mpr (hlt ha hb hab)]
  · have heq : a = b := by
      have := List.getElem_idxOf (List.idxOf_lt_length_of_mem ha)
      simp only [hab, List.getElem_idxOf] at this
      exact this.symm
    rw [heq]
    simp
  · rw [compare_gt_iff_gt.mpr hab, show compare a b = _ from Std.OrientedCmp.eq_swap,
      String.compare_eq_lt.mpr (hlt hb ha hab)]
    rfl

/-! ## Lane states -/

/-- A lane inside the merge: its pending head, the last record pulled, and what is left. -/
structure LaneState where
  name : String
  pending : Option LaneRecord
  last : Option LaneRecord
  stream : List LaneRecord

namespace LaneState

structure Ok (st : LaneState) : Prop where
  pending : ∀ r, st.pending = some r → st.last = some r
  dense : Dense (st.last.toList ++ st.stream)

/-- A lane with nothing pending has nothing left. -/
def Primed (st : LaneState) : Prop := st.pending = none → st.stream = []

/-- What the lane has still to hand out. -/
def rest (st : LaneState) : List LaneRecord := st.pending.toList ++ st.stream

/-- The pending head handed out. -/
def taken (st : LaneState) : LaneState := { st with pending := none }

/-- The next record pulled. -/
def pull (st : LaneState) : LaneState :=
  match st.stream with
  | [] => st
  | r :: stream => { st with pending := some r, last := some r, stream := stream }

variable {st : LaneState}

@[simp] theorem pull_name : st.pull.name = st.name := by
  unfold pull
  split <;> rfl

@[simp] theorem taken_name : st.taken.name = st.name := rfl

theorem Ok.taken (h : st.Ok) : st.taken.Ok := ⟨(fun _ hr => nomatch hr), h.dense⟩

theorem Ok.pull (h : st.Ok) : st.pull.Ok := by
  obtain ⟨hpending, hdense⟩ := h
  unfold LaneState.pull
  split
  · exact ⟨hpending, hdense⟩
  · rename_i r stream hstream
    refine ⟨fun _ hr => hr, ?_⟩
    rw [hstream] at hdense
    exact hdense.right_of_append

theorem primed_pull : st.pull.Primed := by
  unfold LaneState.pull
  split
  · rename_i hstream
    exact fun _ => hstream
  · exact fun hnone => nomatch hnone

theorem rest_pull (h : st.pending = none) : st.pull.rest = st.stream := by
  unfold LaneState.pull
  split
  · rename_i hstream
    simp [rest, h, hstream]
  · rename_i r stream hstream
    simp [rest, hstream]

/-- Handing out the head leaves the tail. -/
theorem rest_eq_cons {r : LaneRecord} (h : st.pending = some r) :
    st.rest = r :: st.taken.pull.rest := by
  rw [rest_pull rfl, rest, h]
  rfl

theorem Ok.dense_rest (h : st.Ok) : Dense st.rest := by
  unfold rest
  cases hp : st.pending with
  | none => exact h.dense.right_of_append
  | some r =>
    have hlast := h.pending r hp
    have hdense := h.dense
    rw [hlast] at hdense
    exact hdense

/-- The cursor of a lane. -/
def cursor (names : List String) (st : LaneState) : Cursor where
  lane := st.name
  rank := laneRank st.name
  nameOrder := names.idxOf st.name
  stream := st.stream.map .ok
  lastDeliveryIndex := st.last.map (·.deliveryIndex)
  lastVisibleNs := st.last.map (·.visibleNs)

/-- The heap entry of a lane's pending record. -/
def entry (names : List String) (slot : Nat) (st : LaneState) (r : LaneRecord) : Pending :=
  ⟨r.visibleNs, laneRank st.name, r.deliveryIndex, names.idxOf st.name, slot, r⟩

/-- The next record of a valid lane passes both checks. -/
theorem Ok.check_eq (h : st.Ok) (mode : Arithmetic) (names : List String) {r : LaneRecord}
    {stream : List LaneRecord} (hstream : st.stream = r :: stream) :
    Merge.check mode (st.cursor names) r = .ok none := by
  cases hlast : st.last with
  | none => simp [Merge.check, cursor, hlast]
  | some q =>
    have hdense := h.dense
    rw [hlast, hstream] at hdense
    obtain ⟨hv, hi⟩ := (List.isChain_cons_cons.mp hdense).1
    have hadd : mode.add q.deliveryIndex 1 = .ok r.deliveryIndex := by
      have := r.index_lt
      unfold Arithmetic.add
      rw [if_pos (by omega), hi]
    have hclock : ¬r.visibleNs < q.visibleNs := by omega
    simp [Merge.check, cursor, hlast, hadd, hclock]

end LaneState

/-! ## The merge tracks its lanes -/

/-- A heap entry is the pending record of some lane. -/
def Waiting (names : List String) (lanes : List LaneState) (p : Pending) : Prop :=
  ∃ (slot : Nat) (st : LaneState) (r : LaneRecord), lanes[slot]? = some st ∧
    st.pending = some r ∧ p = st.entry names slot r

/-- The merge's cursors and heap are those of the lanes. -/
structure Tracks (names : List String) (m : Merge) (lanes : List LaneState) : Prop where
  cursors : m.cursors = lanes.map (·.cursor names)
  nodup : m.heap.Nodup
  heap : ∀ p, p ∈ m.heap ↔ Waiting names lanes p
  failed : m.failed = false

theorem set_self_of_getElem? {α : Type} {l : List α} {i : Nat} {a : α} (h : l[i]? = some a) :
    l.set i a = l := by
  obtain ⟨hlt, rfl⟩ := List.getElem?_eq_some_iff.mp h
  exact List.set_getElem_self hlt

section Tracks

variable {names : List String} {m : Merge} {lanes : List LaneState} {slot : Nat} {st : LaneState}

/-- What waits after one lane changed: the other lanes' entries, and that lane's own. -/
theorem waiting_set_iff (hslot : lanes[slot]? = some st) (st' : LaneState) (p : Pending) :
    Waiting names (lanes.set slot st') p ↔
      (∃ r, st'.pending = some r ∧ p = st'.entry names slot r) ∨
        (p.slot ≠ slot ∧ Waiting names lanes p) := by
  have hlt : slot < lanes.length := (List.getElem?_eq_some_iff.mp hslot).1
  constructor
  · rintro ⟨slot', t, r, ht, hr, rfl⟩
    by_cases hs : slot = slot'
    · subst hs
      rw [List.getElem?_set_self hlt] at ht
      obtain rfl := Option.some.inj ht
      exact .inl ⟨r, hr, rfl⟩
    · rw [List.getElem?_set_ne hs] at ht
      exact .inr ⟨fun heq => hs heq.symm, slot', t, r, ht, hr, rfl⟩
  · rintro (⟨r, hr, rfl⟩ | ⟨hne, slot', t, r, ht, hr, rfl⟩)
    · exact ⟨slot, st', r, List.getElem?_set_self hlt, hr, rfl⟩
    · have hs : slot ≠ slot' := fun heq => hne heq.symm
      exact ⟨slot', t, r, by rwa [List.getElem?_set_ne hs], hr, rfl⟩

/-- One pull of a valid lane that has nothing pending. -/
theorem Tracks.advance (h : Tracks names m lanes) (mode : Arithmetic)
    (hslot : lanes[slot]? = some st) (hpending : st.pending = none) (hok : st.Ok) :
    ∃ m', m.advance mode slot = .ok (.ok m') ∧ m'.primed = m.primed ∧
      Tracks names m' (lanes.set slot st.pull) := by
  have hcursor : m.cursors[slot]? = some (st.cursor names) := by
    rw [h.cursors, List.getElem?_map, hslot]
    rfl
  cases hstream : st.stream with
  | nil =>
    have hpull : st.pull = st := by
      rw [LaneState.pull, hstream]
    refine ⟨m, ?_, rfl, ?_⟩
    · simp [Merge.advance, hcursor, unwrap, LaneState.cursor, hstream]
    · rw [hpull, set_self_of_getElem? hslot]
      exact h
  | cons r stream =>
    have hpull : st.pull = { st with pending := some r, last := some r, stream := stream } := by
      rw [LaneState.pull, hstream]
    refine ⟨{ m with
      cursors := m.cursors.set slot (st.pull.cursor names)
      heap := st.entry names slot r :: m.heap }, ?_, rfl, ?_, ?_, ?_, h.failed⟩
    · have hsome : (st.cursor names).stream = .ok r :: stream.map .ok := by
        simp [LaneState.cursor, hstream]
      simp only [Merge.advance, hcursor, unwrap, Except.ok_bind, hsome,
        hok.check_eq mode names hstream, hpull]
      rfl
    · rw [h.cursors, ← List.map_set]
    · -- the lane had nothing in the heap
      refine List.nodup_cons.mpr ⟨?_, h.nodup⟩
      rw [h.heap]
      rintro ⟨slot', t, r', ht, hr', heq⟩
      obtain rfl : slot = slot' := congrArg Pending.slot heq
      rw [hslot] at ht
      obtain rfl := Option.some.inj ht
      rw [hpending] at hr'
      cases hr'
    · intro p
      rw [waiting_set_iff hslot, List.mem_cons, h.heap, hpull]
      constructor
      · rintro (rfl | ⟨slot', t, r', ht, hr', rfl⟩)
        · exact .inl ⟨r, rfl, rfl⟩
        · refine .inr ⟨?_, slot', t, r', ht, hr', rfl⟩
          intro heq
          obtain rfl : slot' = slot := heq
          rw [ht] at hslot
          obtain rfl := Option.some.inj hslot
          rw [hpending] at hr'
          cases hr'
      · rintro (⟨r', hr', rfl⟩ | ⟨-, hp⟩)
        · obtain rfl := Option.some.inj hr'
          exact .inl rfl
        · exact .inr hp

/-- Taking a heap entry out. -/
theorem Tracks.pop (h : Tracks names m lanes) {p : Pending} {heap : List Pending}
    (hpop : m.heap.Perm (p :: heap)) :
    ∃ st r, lanes[p.slot]? = some st ∧ st.pending = some r ∧ p = st.entry names p.slot r ∧
      Tracks names { m with heap := heap } (lanes.set p.slot st.taken) := by
  have hnodup : (p :: heap).Nodup := hpop.nodup_iff.mp h.nodup
  obtain ⟨slot, st, r, hslot, hr, rfl⟩ := (h.heap p).mp (hpop.mem_iff.mpr (by simp))
  refine ⟨st, r, hslot, hr, rfl, ?_, (List.nodup_cons.mp hnodup).2, ?_, h.failed⟩
  · show m.cursors = (lanes.set slot st.taken).map _
    have hself : (lanes.map (·.cursor names))[slot]? = some (st.cursor names) := by
      rw [List.getElem?_map, hslot]
      rfl
    rw [h.cursors, List.map_set]
    exact (set_self_of_getElem? hself).symm
  · intro p'
    show p' ∈ heap ↔ Waiting names (lanes.set slot st.taken) p'
    rw [waiting_set_iff hslot]
    have hmem : p' ∈ heap ↔ p' ≠ st.entry names slot r ∧ p' ∈ m.heap := by
      rw [hpop.mem_iff, List.mem_cons]
      constructor
      · intro hp'
        refine ⟨?_, .inr hp'⟩
        rintro rfl
        exact (List.nodup_cons.mp hnodup).1 hp'
      · rintro ⟨hne, hp' | hp'⟩
        · exact absurd hp' hne
        · exact hp'
    rw [hmem, h.heap]
    constructor
    · rintro ⟨hne, slot', t, r', ht, hr', rfl⟩
      refine .inr ⟨?_, slot', t, r', ht, hr', rfl⟩
      intro heq
      obtain rfl : slot' = slot := heq
      rw [hslot] at ht
      obtain rfl := Option.some.inj ht
      rw [hr] at hr'
      obtain rfl := Option.some.inj hr'
      exact hne rfl
    · rintro (⟨r', hr', -⟩ | ⟨hne, hp'⟩)
      · cases hr'
      · refine ⟨?_, hp'⟩
        rintro rfl
        exact hne rfl

/-! ## Priming -/

theorem getElem?_foldl_modify {slots : List Nat} (hnodup : slots.Nodup) (lanes : List LaneState)
    (i : Nat) :
    (slots.foldl (fun lanes slot => lanes.modify slot LaneState.pull) lanes)[i]? =
      if i ∈ slots then lanes[i]?.map LaneState.pull else lanes[i]? := by
  induction slots generalizing lanes with
  | nil => simp
  | cons slot slots ih =>
    obtain ⟨hnot, hnodup⟩ := List.nodup_cons.mp hnodup
    rw [List.foldl_cons, ih hnodup, List.getElem?_modify]
    by_cases hi : slot = i
    · subst hi
      simp [hnot]
    · have hi' : i ≠ slot := fun heq => hi heq.symm
      simp [hi, hi']

/-- Pulling once from every slot of a list. -/
theorem Tracks.prime (h : Tracks names m lanes) (mode : Arithmetic) (slots : List Nat)
    (hnodup : slots.Nodup) (hslots : ∀ slot ∈ slots, ∃ st : LaneState, lanes[slot]? = some st ∧
      st.pending = none ∧ st.Ok) :
    ∃ m', m.prime mode slots = .ok (.ok m') ∧ m'.primed = m.primed ∧
      Tracks names m' (slots.foldl (fun lanes slot => lanes.modify slot LaneState.pull) lanes) := by
  induction slots generalizing m lanes with
  | nil => exact ⟨m, rfl, rfl, h⟩
  | cons slot slots ih =>
    obtain ⟨hnot, hnodup⟩ := List.nodup_cons.mp hnodup
    obtain ⟨st, hst, hpending, hok⟩ := hslots slot (by simp)
    obtain ⟨m₁, hadvance, hprimed₁, h₁⟩ := h.advance mode hst hpending hok
    have hset : lanes.set slot st.pull = lanes.modify slot LaneState.pull := by
      rw [List.modify_eq_set_getElem?, hst]
      rfl
    rw [hset] at h₁
    obtain ⟨m', hprime, hprimed, h'⟩ := ih h₁ hnodup fun slot' hslot' => by
      obtain ⟨st', hst', hrest⟩ := hslots slot' (by simp [hslot'])
      refine ⟨st', ?_, hrest⟩
      have hne : slot ≠ slot' := fun heq => hnot (heq ▸ hslot')
      rw [List.getElem?_modify]
      simp [hne, hst']
    refine ⟨m', ?_, hprimed.trans hprimed₁, h'⟩
    rw [Merge.prime, hadvance]
    exact hprime

end Tracks

/-! ## Draining -/

/-- The records of a lane that are still to come, with the lane's name. -/
def LaneState.tagged (st : LaneState) : List (String × LaneRecord) := st.rest.map (st.name, ·)

/-- How many records are still to come. -/
def total (lanes : List LaneState) : Nat := (lanes.map (·.rest.length)).sum

/-- Lanes of the merge between two calls: valid, primed, under distinct names. -/
structure Lined (names : List String) (lanes : List LaneState) : Prop where
  ok : ∀ st ∈ lanes, st.Ok
  primed : ∀ st ∈ lanes, st.Primed
  names : ∀ st ∈ lanes, st.name ∈ names
  distinct : (lanes.map (·.name)).Nodup

section Drain

variable {names : List String} {m : Merge} {lanes : List LaneState} {slot : Nat} {st : LaneState}

/-- The lanes after one of them handed out its head. -/
theorem Lined.step (h : Lined names lanes) (hslot : lanes[slot]? = some st) :
    Lined names (lanes.set slot st.taken.pull) := by
  have hmem : st ∈ lanes := List.mem_of_getElem? hslot
  have hcases : ∀ t ∈ lanes.set slot st.taken.pull, t ∈ lanes ∨ t = st.taken.pull :=
    fun t ht => List.mem_or_eq_of_mem_set ht
  refine ⟨?_, ?_, ?_, ?_⟩
  · intro t ht
    rcases hcases t ht with ht | rfl
    · exact h.ok t ht
    · exact (h.ok st hmem).taken.pull
  · intro t ht
    rcases hcases t ht with ht | rfl
    · exact h.primed t ht
    · exact LaneState.primed_pull
  · intro t ht
    rcases hcases t ht with ht | rfl
    · exact h.names t ht
    · simpa using h.names st hmem
  · have hself : (lanes.map (·.name))[slot]? = some st.name := by
      rw [List.getElem?_map, hslot]
      rfl
    have hsame : (lanes.set slot st.taken.pull).map (·.name) = lanes.map (·.name) := by
      rw [List.map_set, LaneState.pull_name, LaneState.taken_name]
      exact set_self_of_getElem? hself
    rw [hsame]
    exact h.distinct

/-- Replacing one lane in a concatenation. -/
theorem flatMap_set_perm {α β : Type} {f : α → List β} {l : List α} {i : Nat} {a a' : α} {b : β}
    (h : l[i]? = some a) (hab : f a = b :: f a') :
    (l.flatMap f).Perm (b :: (l.set i a').flatMap f) := by
  induction l generalizing i with
  | nil => cases h
  | cons c l ih =>
    cases i with
    | zero =>
      obtain rfl := Option.some.inj h
      rw [List.set_cons_zero, List.flatMap_cons, List.flatMap_cons, hab]
      exact List.Perm.refl _
    | succ i =>
      rw [List.set_cons_succ, List.flatMap_cons, List.flatMap_cons]
      have hperm := (ih h).append_left (f c)
      exact hperm.trans List.perm_middle

theorem total_eq_length (lanes : List LaneState) :
    total lanes = (lanes.flatMap LaneState.tagged).length := by
  simp [total, List.length_flatMap, LaneState.tagged]

theorem eq_of_getElem?_of_nodup {α : Type} {l : List α} {i j : Nat} {a : α} (h : l.Nodup)
    (hi : l[i]? = some a) (hj : l[j]? = some a) : i = j := by
  obtain ⟨hi', hi⟩ := List.getElem?_eq_some_iff.mp hi
  obtain ⟨hj', hj⟩ := List.getElem?_eq_some_iff.mp hj
  exact (h.getElem_inj_iff).mp (hi.trans hj.symm)

/-- The heap compares like the merge key: positions of names stand for the names. -/
theorem entry_key_compare (hnames : names.Pairwise (· < ·)) {t : LaneState} {slot' : Nat}
    {r r' : LaneRecord} (hst : st.name ∈ names) (ht : t.name ∈ names) :
    compare (st.entry names slot r).key (t.entry names slot' r').key =
      compare (recordKey (st.name, r)) (recordKey (t.name, r')) := by
  rw [Key.compare_eq, Key.compare_eq]
  simp only [Pending.key, LaneState.entry, recordKey, compare_idxOf hnames hst ht]

/-- The least pending head is less than everything else that is still to come. -/
theorem Lined.least (h : Lined names lanes) (hnames : names.Pairwise (· < ·))
    {r : LaneRecord} (hslot : lanes[slot]? = some st) (hr : st.pending = some r)
    (hmin : ∀ p, Waiting names lanes p → p.slot ≠ slot →
      (compare (st.entry names slot r).key p.key).isLE = true) :
    ∀ x ∈ (lanes.set slot st.taken.pull).flatMap LaneState.tagged,
      compare (recordKey (st.name, r)) (recordKey x) = .lt := by
  intro x hx
  have hlt : slot < lanes.length := (List.getElem?_eq_some_iff.mp hslot).1
  obtain ⟨t, ht, hx⟩ := List.mem_flatMap.mp hx
  obtain ⟨r', hr', rfl⟩ := List.mem_map.mp hx
  obtain ⟨slot', ht'⟩ := List.mem_iff_getElem?.mp ht
  have hmem : st ∈ lanes := List.mem_of_getElem? hslot
  by_cases hs : slot = slot'
  · -- a later record of the same lane
    subst hs
    rw [List.getElem?_set_self hlt] at ht'
    obtain rfl := Option.some.inj ht'
    have hdense := (h.ok st hmem).dense_rest
    rw [LaneState.rest_eq_cons hr] at hdense
    rw [LaneState.pull_name, LaneState.taken_name]
    exact (List.pairwise_cons.mp (hdense.keys_lt st.name)).1 r' hr'
  · -- another lane: its own head is not less, and its later records are greater
    rw [List.getElem?_set_ne hs] at ht'
    have htmem : t ∈ lanes := List.mem_of_getElem? ht'
    cases hp : t.pending with
    | none =>
      rw [LaneState.rest, hp, h.primed t htmem hp] at hr'
      cases hr'
    | some head =>
      have hne : st.name ≠ t.name := by
        intro heq
        refine hs (eq_of_getElem?_of_nodup h.distinct (a := st.name) ?_ ?_)
        · rw [List.getElem?_map, hslot]
          rfl
        · rw [List.getElem?_map, ht', heq]
          rfl
      have hle := hmin (t.entry names slot' head) ⟨slot', t, head, ht', hp, rfl⟩ fun heq => hs heq.symm
      rw [entry_key_compare hnames (h.names st hmem) (h.names t htmem)] at hle
      have hhead : compare (recordKey (st.name, r)) (recordKey (t.name, head)) = .lt := by
        cases hc : compare (recordKey (st.name, r)) (recordKey (t.name, head)) with
        | lt => rfl
        | gt =>
          rw [hc] at hle
          cases hle
        | eq =>
          rw [Key.compare_eq] at hc
          simp only [Ordering.then_eq_eq] at hc
          exact absurd (Std.LawfulEqCmp.eq_of_compare hc.2.2.2) hne
      have hdense := (h.ok t htmem).dense_rest
      rw [LaneState.rest_eq_cons hp] at hdense hr'
      rcases List.mem_cons.mp hr' with rfl | hr'
      · exact hhead
      · exact Std.TransCmp.lt_trans hhead
          ((List.pairwise_cons.mp (hdense.keys_lt t.name)).1 r' hr')

theorem Tracks.next_eq_pull (h : Tracks names m lanes) (mode : Arithmetic)
    (hprimed : m.primed = true) : m.next mode = m.pull mode := by
  simp [Merge.next, h.failed, hprimed]

/-- The iterator ends once everything was handed out, and what it handed out ascends. -/
theorem drain_spec (mode : Arithmetic) (hnames : names.Pairwise (· < ·))
    (h : Tracks names m lanes) (hprimed : m.primed = true) (hlined : Lined names lanes) :
    ∃ out : List (String × LaneRecord),
      (∀ fuel, total lanes < fuel →
        m.drain mode fuel = .ok (some (out.map fun x => .ok x.2))) ∧
      out.Perm (lanes.flatMap LaneState.tagged) ∧
      out.Pairwise fun a b => compare (recordKey a) (recordKey b) = .lt := by
  induction hn : total lanes using Nat.strong_induction_on generalizing m lanes with
  | _ n ih =>
    cases hpop : PriorityQueue.popMin Pending.key m.heap with
    | none =>
      -- an empty heap: no lane has anything left
      have hheap : m.heap = [] := PriorityQueue.popMin_eq_none.mp hpop
      have hempty : lanes.flatMap LaneState.tagged = [] := by
        rw [List.flatMap_eq_nil_iff]
        intro st hst
        obtain ⟨slot, hslot⟩ := List.mem_iff_getElem?.mp hst
        cases hp : st.pending with
        | none => simp [LaneState.tagged, LaneState.rest, hp, hlined.primed st hst hp]
        | some r =>
          have := (h.heap (st.entry names slot r)).mpr ⟨slot, st, r, hslot, hp, rfl⟩
          rw [hheap] at this
          cases this
      refine ⟨[], ?_, by rw [hempty], List.Pairwise.nil⟩
      intro fuel hfuel
      obtain ⟨fuel, rfl⟩ : ∃ k, fuel = k + 1 := ⟨fuel - 1, by omega⟩
      have hpull : m.pull mode = .ok (none, m) := by
        simp only [Merge.pull, hpop]
        rfl
      rw [Merge.drain, h.next_eq_pull mode hprimed, hpull]
      rfl
    | some popped =>
      obtain ⟨p, heap⟩ := popped
      obtain ⟨st, r, hslot, hr, hp, htaken⟩ := h.pop (PriorityQueue.popMin_perm hpop)
      have hmem : st ∈ lanes := List.mem_of_getElem? hslot
      have hlt : p.slot < lanes.length := (List.getElem?_eq_some_iff.mp hslot).1
      obtain ⟨m', hadvance, hprimed', h'⟩ := htaken.advance mode
        (List.getElem?_set_self hlt) rfl (hlined.ok st hmem).taken
      rw [List.set_set] at h'
      have hlined' := hlined.step hslot
      have hhead : st.tagged = (st.name, r) :: st.taken.pull.tagged := by
        rw [LaneState.tagged, LaneState.rest_eq_cons hr]
        simp [LaneState.tagged]
      have hperm := flatMap_set_perm hslot hhead
      have htotal : total (lanes.set p.slot st.taken.pull) < n := by
        rw [← hn, total_eq_length, total_eq_length, hperm.length_eq]
        simp
      obtain ⟨out, hdrain, hout, hsorted⟩ := ih _ htotal h' (hprimed'.trans hprimed) hlined' rfl
      refine ⟨(st.name, r) :: out, ?_, (hout.cons _).trans hperm.symm, ?_⟩
      · intro fuel hfuel
        obtain ⟨fuel, rfl⟩ : ∃ k, fuel = k + 1 := ⟨fuel - 1, by omega⟩
        have hrecord : p.record = r := congrArg Pending.record hp
        have hpull : m.pull mode = .ok (some (.ok r), m') := by
          simp only [Merge.pull, hpop, hadvance, Except.ok_bind, hrecord]
          rfl
        rw [Merge.drain, h.next_eq_pull mode hprimed, hpull, Except.ok_bind]
        simp only [hdrain fuel (by omega), Except.ok_bind]
        rfl
      · refine List.pairwise_cons.mpr ⟨?_, hsorted⟩
        intro x hx
        refine hlined.least hnames hslot hr ?_ x (hout.mem_iff.mp hx)
        intro q hq hne
        have hqmem : q ∈ heap := by
          have := (PriorityQueue.popMin_perm hpop).mem_iff.mp ((h.heap q).mpr hq)
          rcases List.mem_cons.mp this with rfl | hq
          · exact absurd rfl hne
          · exact hq
        rw [← hp]
        exact PriorityQueue.popMin_le hpop q hqmem

end Drain

/-! ## Construction -/

/-- The lanes a merge is built from, before anything is pulled. -/
def laneStates (lanes : List (String × List LaneRecord)) : List LaneState :=
  lanes.map fun l => ⟨l.1, none, none, l.2⟩

theorem pairwise_mergeSort_string (l : List String) :
    (l.mergeSort (· ≤ ·)).Pairwise (· ≤ ·) := by
  refine (List.pairwise_mergeSort ?_ ?_ l).imp fun h => of_decide_eq_true h
  · intro a b c hab hbc
    simp only [decide_eq_true_eq] at hab hbc ⊢
    exact String.le_trans hab hbc
  · intro a b
    simp only [Bool.or_eq_true, decide_eq_true_eq]
    exact String.le_total a b

theorem repeatedName_eq_none {l : List String} (h : l.Nodup) : Merge.repeatedName l = none := by
  induction l with
  | nil => rfl
  | cons a l ih =>
    cases l with
    | nil => rfl
    | cons b l =>
      obtain ⟨hnot, hnodup⟩ := List.nodup_cons.mp h
      have hne : a ≠ b := fun heq => hnot (by simp [heq])
      have hrest := ih hnodup
      simp only [Merge.repeatedName, List.tail_cons] at hrest ⊢
      rw [List.zip_cons_cons, List.findSome?_cons, if_neg hne]
      exact hrest

/-- A merge over distinct names: it ends, and its output is the sorted union. -/
theorem new_drain (mode : Arithmetic) {lanes : List (String × List LaneRecord)}
    (hnames : (lanes.map (·.1)).Nodup) (hdense : ∀ l ∈ lanes, Dense l.2) :
    ∃ (m : Merge) (out : List (String × LaneRecord)),
      Merge.new (lanes.map fun l => (l.1, l.2.map .ok)) = .ok m ∧
      (∀ fuel, (lanes.map (·.2.length)).sum < fuel →
        m.drain mode fuel = .ok (some (out.map fun x => .ok x.2))) ∧
      out.Perm (lanes.flatMap fun l => l.2.map (l.1, ·)) ∧
      out.Pairwise fun a b => compare (recordKey a) (recordKey b) = .lt := by
  -- the names in their order
  generalize hn : (lanes.map (·.1)).mergeSort (· ≤ ·) = names
  have hperm : names.Perm (lanes.map (·.1)) := hn ▸ List.mergeSort_perm _ _
  have hnodup : names.Nodup := hperm.nodup_iff.mpr hnames
  have hsorted : names.Pairwise (· < ·) := by
    have hle : names.Pairwise (· ≤ ·) := hn ▸ pairwise_mergeSort_string _
    refine (hle.and hnodup).imp ?_
    rintro a b ⟨hab, hne⟩
    exact String.not_le.mp fun hba => hne (String.le_antisymm hab hba)
  -- the merge before and after it is primed
  let m : Merge := ⟨(laneStates lanes).map (·.cursor names), [], false, false⟩
  have hnew : Merge.new (lanes.map fun l => (l.1, l.2.map .ok)) = .ok m := by
    have hkeys : (lanes.map fun l => (l.1, l.2.map (.ok : LaneRecord → Except String LaneRecord))).map (·.1) =
        lanes.map (·.1) := by
      rw [List.map_map]
      rfl
    simp only [Merge.new, hkeys, hn, repeatedName_eq_none hnodup, m, laneStates, List.map_map]
    rfl
  have htracks : Tracks names { m with primed := true } (laneStates lanes) := by
    refine ⟨rfl, List.nodup_nil, ?_, rfl⟩
    intro p
    refine ⟨(fun hp => nomatch hp), ?_⟩
    rintro ⟨slot, st, r, hst, hr, -⟩
    obtain ⟨l, -, rfl⟩ := List.mem_map.mp (List.mem_of_getElem? hst)
    cases hr
  have hstart : ∀ st ∈ laneStates lanes, st.pending = none ∧ st.Ok := by
    intro st hst
    obtain ⟨l, hl, rfl⟩ := List.mem_map.mp hst
    exact ⟨rfl, (fun _ hr => nomatch hr), hdense l hl⟩
  obtain ⟨m', hprime, hprimed, htracks'⟩ := htracks.prime mode (List.range m.cursors.length)
    List.nodup_range (by
      intro slot hslot
      have hlt : slot < (laneStates lanes).length := by simpa [m] using hslot
      refine ⟨(laneStates lanes)[slot], List.getElem?_eq_getElem hlt, ?_⟩
      exact hstart _ (List.getElem_mem hlt))
  have hall : (List.range m.cursors.length).foldl
      (fun lanes slot => lanes.modify slot LaneState.pull) (laneStates lanes) =
        (laneStates lanes).map LaneState.pull := by
    apply List.ext_getElem?
    intro i
    rw [getElem?_foldl_modify List.nodup_range, List.getElem?_map]
    by_cases hi : i < (laneStates lanes).length
    · rw [if_pos (by simpa [m] using hi)]
    · rw [List.getElem?_eq_none (by omega)]
      simp
  rw [hall] at htracks'
  have hlined : Lined names ((laneStates lanes).map LaneState.pull) := by
    refine ⟨?_, ?_, ?_, ?_⟩
    · intro st hst
      obtain ⟨st₀, hst₀, rfl⟩ := List.mem_map.mp hst
      exact (hstart st₀ hst₀).2.pull
    · intro st hst
      obtain ⟨st₀, -, rfl⟩ := List.mem_map.mp hst
      exact LaneState.primed_pull
    · intro st hst
      obtain ⟨st₀, hst₀, rfl⟩ := List.mem_map.mp hst
      obtain ⟨l, hl, rfl⟩ := List.mem_map.mp hst₀
      rw [LaneState.pull_name]
      exact hperm.mem_iff.mpr (List.mem_map_of_mem hl)
    · have hsame : ((laneStates lanes).map LaneState.pull).map (·.name) = lanes.map (·.1) := by
        simp [laneStates, Function.comp_def]
      rw [hsame]
      exact hnames
  have htagged : ((laneStates lanes).map LaneState.pull).flatMap LaneState.tagged =
      lanes.flatMap fun l => l.2.map (l.1, ·) := by
    rw [laneStates, List.map_map, List.flatMap_map]
    refine List.flatMap_congr fun l _ => ?_
    simp [LaneState.tagged, LaneState.rest_pull]
  obtain ⟨out, hdrain, hout, hascending⟩ := drain_spec mode hsorted htracks' hprimed hlined
  rw [htagged] at hout
  refine ⟨m, out, hnew, ?_, hout, hascending⟩
  intro fuel hfuel
  have htotal : total ((laneStates lanes).map LaneState.pull) = (lanes.map (·.2.length)).sum := by
    rw [total_eq_length, htagged]
    simp [List.length_flatMap]
  have hnext : m.next mode = m'.next mode := by
    rw [htracks'.next_eq_pull mode hprimed]
    simp only [Merge.next, m, Bool.false_eq_true, if_false] at hprime ⊢
    simp only [hprime, Except.ok_bind]
  rw [← hdrain fuel (by omega)]
  obtain ⟨fuel, rfl⟩ : ∃ k, fuel = k + 1 := ⟨fuel - 1, by omega⟩
  rw [Merge.drain, Merge.drain, hnext]

/-! ## The merge -/

/-- The records of one lane under their name, seen by a filter on names. -/
theorem filter_tagged (l : String × List LaneRecord) (name : String) :
    (l.2.map (l.1, ·)).filter (·.1 = name) = if l.1 = name then l.2.map (l.1, ·) else [] := by
  split
  · rename_i heq
    rw [List.filter_eq_self]
    intro x hx
    obtain ⟨r, -, rfl⟩ := List.mem_map.mp hx
    simpa using heq
  · rename_i hne
    rw [List.filter_eq_nil_iff]
    intro x hx
    obtain ⟨r, -, rfl⟩ := List.mem_map.mp hx
    simpa using hne

/-- Filtering the union of all lanes by a name leaves the lane of that name. -/
theorem filter_lanes {lanes : List (String × List LaneRecord)} (hnames : (lanes.map (·.1)).Nodup)
    {l : String × List LaneRecord} (hl : l ∈ lanes) :
    (lanes.flatMap fun l => l.2.map (l.1, ·)).filter (·.1 = l.1) = l.2.map (l.1, ·) := by
  rw [List.filter_flatMap]
  simp only [filter_tagged]
  induction lanes with
  | nil => cases hl
  | cons l' lanes ih =>
    obtain ⟨hnot, hnames⟩ := List.nodup_cons.mp hnames
    have hother : ∀ l'' ∈ lanes, l'.1 ≠ l''.1 := by
      intro l'' hl'' heq
      exact hnot (List.mem_map.mpr ⟨l'', hl'', heq.symm⟩)
    rw [List.flatMap_cons]
    rcases List.mem_cons.mp hl with rfl | hl
    · have hrest : (lanes.flatMap fun l'' =>
          if l''.1 = l.1 then l''.2.map (l''.1, ·) else []) = [] := by
        rw [List.flatMap_eq_nil_iff]
        intro l'' hl''
        exact if_neg (hother l'' hl'').symm
      rw [if_pos rfl, hrest, List.append_nil]
    · rw [if_neg (hother l hl), List.nil_append]
      exact ih hnames hl

/-- The records of a lane, in the output of a merge, are that lane's records in its own order. -/
theorem filter_lane_eq {lanes : List (String × List LaneRecord)} {out : List (String × LaneRecord)}
    (hnames : (lanes.map (·.1)).Nodup) (hdense : ∀ l ∈ lanes, Dense l.2)
    (hout : out.Perm (lanes.flatMap fun l => l.2.map (l.1, ·)))
    (hsorted : out.Pairwise fun a b => compare (recordKey a) (recordKey b) = .lt)
    {l : String × List LaneRecord} (hl : l ∈ lanes) :
    out.filter (·.1 = l.1) = l.2.map (l.1, ·) := by
  have hperm := hout.filter (·.1 = l.1)
  rw [filter_lanes hnames hl] at hperm
  refine hperm.eq_of_sorted_key (hsorted.filter _) ?_
  exact List.pairwise_map.mpr ((hdense l hl).keys_lt l.1)

/-- The merge of finitely many valid lanes with distinct names yields every record of every lane
    exactly once, ascending in `(visible_ns, lane rank, delivery_index, lane name)`, each lane
    in its own order, and then ends; and it yields the same for every order of the lanes. -/
theorem merge_correct (mode : Arithmetic) {lanes : List (String × List LaneRecord)}
    (hnames : (lanes.map (·.1)).Nodup) (hdense : ∀ l ∈ lanes, Dense l.2) :
    ∃ out : List (String × LaneRecord),
      out.Perm (lanes.flatMap fun l => l.2.map (l.1, ·)) ∧
      (out.Pairwise fun a b => compare (recordKey a) (recordKey b) = .lt) ∧
      (∀ l ∈ lanes, out.filter (·.1 = l.1) = l.2.map (l.1, ·)) ∧
      ∀ lanes' : List (String × List LaneRecord), lanes'.Perm lanes →
        ∃ m, Merge.new (lanes'.map fun l => (l.1, l.2.map .ok)) = .ok m ∧
          ∀ fuel, (lanes.map (·.2.length)).sum < fuel →
            m.drain mode fuel = .ok (some (out.map fun x => .ok x.2)) := by
  obtain ⟨-, out, -, -, hout, hsorted⟩ := new_drain mode hnames hdense
  refine ⟨out, hout, hsorted, fun l hl => filter_lane_eq hnames hdense hout hsorted hl, ?_⟩
  intro lanes' hperm
  obtain ⟨m, out', hnew, hdrain, hout', hsorted'⟩ := @new_drain mode lanes'
    ((hperm.map (·.1)).nodup_iff.mpr hnames) fun l hl => hdense l (hperm.mem_iff.mp hl)
  -- both outputs are the strictly ascending arrangement of the same records
  obtain rfl : out' = out :=
    ((hout'.trans (hperm.flatMap_right _)).trans hout.symm).eq_of_sorted_key hsorted' hsorted
  refine ⟨m, hnew, ?_⟩
  intro fuel hfuel
  refine hdrain fuel ?_
  rwa [(hperm.map (·.2.length)).sum_eq]

/-- A record of the sample lanes. -/
def sampleRecord (visibleNs deliveryIndex : Nat) (h : deliveryIndex < 2 ^ 64) : LaneRecord :=
  ⟨visibleNs, deliveryIndex, ⟨0, 0, 1⟩, "", "", [], h⟩

/-- Two lanes with a tie at 5: three records come out, and the merge ends. -/
theorem merge_correct_sample :
    ∃ m, Merge.new [("kalshi", [.ok (sampleRecord 5 7 (by decide))]),
        ("polymarket", [.ok (sampleRecord 5 9 (by decide)), .ok (sampleRecord 6 10 (by decide))])] =
          .ok m ∧
      (m.drain .wrapping 4).toOption.join.map (·.length) = some 3 := by
  obtain ⟨out, hout, -, -, hall⟩ := @merge_correct .wrapping
    [("kalshi", [sampleRecord 5 7 (by decide)]),
      ("polymarket", [sampleRecord 5 9 (by decide), sampleRecord 6 10 (by decide)])]
    (by decide) (by
      intro l hl
      rcases List.mem_cons.mp hl with rfl | hl
      · exact List.isChain_singleton _
      · obtain rfl := List.mem_singleton.mp hl
        exact List.isChain_pair.mpr ⟨by decide, by decide⟩)
  obtain ⟨m, hnew, hdrain⟩ := hall _ (List.Perm.refl _)
  refine ⟨m, hnew, ?_⟩
  rw [hdrain 4 (by decide)]
  simp [Except.toOption, hout.length_eq]

end PredictionIndexer.Finalize
