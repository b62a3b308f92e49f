import PredictionIndexer.Finalize.Attempt
import PredictionIndexer.ForStd.WindowCarry

/-!
# Verdicts do not depend on window boundaries

A window's classifier is seeded from the carry captured at the end of the window before it. The
carry is a pruned summary; `WindowCarry` says when a pruned summary is enough, and this file
instantiates it twice, for the counters of connections and for the ordering keys of epochs.
-/

namespace PredictionIndexer.Continuity

open Fallible

/-! ## What `classify_cause` consults -/

namespace ClassifierState

/-- The ordering key retained for an epoch. -/
def orderingKey (s : ClassifierState) (key : EpochKey) : Option Nat :=
  s.epochs[key]?.bind EpochState.monotonicKey

/-- The ordering key of an epoch after a fact. -/
def nextKey (fact : ContinuityFact) (held : Option Nat) : Option Nat :=
  match fact.monotonicKey with
  | some key => some (max key (held.getD 0))
  | none => held

theorem connections_accept (s : ClassifierState) (fact : ContinuityFact) (b : Bool)
    (k : ConnectionKey) :
    (s.accept fact b).connections[k]? =
      if (⟨fact.key.lane.venue, fact.key.epoch⟩ : ConnectionKey) = k then some fact.localCounter
      else s.connections[k]? := by
  simp [accept, Std.ExtTreeMap.getElem?_insert]

theorem monotonicKey_count (e : EpochState) (cause : ContinuityCause) :
    (e.count cause).monotonicKey = e.monotonicKey := by
  cases cause <;> rfl

theorem monotonicKey_observe (e : EpochState) (fact : ContinuityFact) :
    (e.observe fact).monotonicKey = nextKey fact e.monotonicKey := by
  rw [EpochState.observe, monotonicKey_count]
  rfl

theorem orderingKey_accept (s : ClassifierState) (fact : ContinuityFact) (b : Bool)
    (k : EpochKey) :
    (s.accept fact b).orderingKey k =
      if fact.key = k then nextKey fact (s.orderingKey k) else s.orderingKey k := by
  unfold orderingKey
  by_cases hk : fact.key = k
  · subst hk
    cases h : s.epochs[fact.key]? <;> simp [accept, h, monotonicKey_observe]
  · simp [accept, Std.ExtTreeMap.getElem?_insert, hk]

end ClassifierState

/-- A cause that counts as an accepted delivery. -/
def ContinuityCause.Accepted : ContinuityCause → Prop
  | .duplicate _ => False
  | .conflict _ => False
  | _ => True

theorem observe_of_accepted {s : ClassifierState} {fact : ContinuityFact} {b : Bool}
    (h : fact.cause.Accepted) : s.observe fact b = s.accept fact b := by
  unfold ClassifierState.observe
  split <;> simp_all [ContinuityCause.Accepted]

theorem classifyCursor_accepted {mode : Arithmetic} {previousKey : Option Nat}
    {cursor : Option SourceCursor} {cause : ContinuityCause}
    (h : classifyCursor mode previousKey cursor = .ok cause) : cause.Accepted := by
  unfold classifyCursor at h
  split at h
  · cases h; trivial
  · cases h; trivial
  · cases h; trivial
  · cases h; trivial
  · split at h
    · cases h; trivial
    · obtain ⟨b, -, h⟩ := Except.bind_eq_ok.mp h
      split at h
      · cases h; trivial
      · split at h <;> cases h <;> trivial

theorem localBreak_accepted {mode : Arithmetic} {observed : Nat} {previous : Option Nat}
    {cause : ContinuityCause} (h : localBreak mode observed previous = .ok (some cause)) :
    cause.Accepted := by
  cases previous with
  | none => cases h
  | some previous =>
    obtain ⟨expected, -, hcause⟩ := Except.bind_eq_ok.mp h
    split at hcause <;> cases hcause
    trivial

/-- An unseen delivery is never a duplicate or a conflict. -/
theorem cause_accepted {mode : Arithmetic} {c : Classifier} {envelope : EnvelopeView}
    {cause : ContinuityCause} (h : c.cause mode envelope = .ok cause) : cause.Accepted := by
  unfold Classifier.cause classifyCause at h
  obtain ⟨broken, hbroken, h⟩ := Except.bind_eq_ok.mp h
  cases broken with
  | none =>
    dsimp only at h
    split at h
    · cases h; trivial
    · exact classifyCursor_accepted h
  | some b =>
    cases h
    exact localBreak_accepted hbroken

/-- The cause depends on the counter of the connection and the ordering key of the epoch. -/
theorem cause_congr (mode : Arithmetic) {c c' : Classifier} {envelope : EnvelopeView}
    (hconn : c.state.connections[(⟨envelope.venue, envelope.connectionEpoch⟩ : ConnectionKey)]? =
      c'.state.connections[(⟨envelope.venue, envelope.connectionEpoch⟩ : ConnectionKey)]?)
    (hkey : c.state.orderingKey (Classifier.epochKey envelope) =
      c'.state.orderingKey (Classifier.epochKey envelope)) :
    c.cause mode envelope = c'.cause mode envelope := by
  unfold ClassifierState.orderingKey at hkey
  rw [Classifier.cause, Classifier.cause, hconn, hkey]

end PredictionIndexer.Continuity

namespace PredictionIndexer.Finalize

open Continuity Fallible WindowCarry

/-! ## Windows and the uninterrupted stream -/

/-- Classifying windows one after the other, each seeded from the carry of the one before. -/
def classifyWindows (mode : Arithmetic) (hash : String → ContentHash) (ordering : OrderingState)
    (seq : CanonicalSeq) :
    List (List Accepted) → Except Halt (List ContinuityCause × OrderingState)
  | [] => pure ([], ordering)
  | w :: windows => do
    let (facts, a) ← (Attempt.start ordering seq).acceptAll mode hash w
    let captured := OrderingState.capture ordering a.classifier.state a.seen
    let (causes, ordering) ← classifyWindows mode hash captured a.nextSeq windows
    return (facts.map (·.cause) ++ causes, ordering)

/-! ## The captured entries -/

theorem mem_destutter {α : Type} {R : α → α → Prop} [DecidableRel R] {l : List α}
    (h : ∀ a ∈ l, ∀ b ∈ l, ¬R a b → a = b) {x : α} : x ∈ l.destutter R ↔ x ∈ l := by
  suffices ∀ (l : List α) (a : α), (∀ b ∈ a :: l, ∀ c ∈ a :: l, ¬R b c → b = c) →
      (x ∈ l.destutter' R a ↔ x ∈ a :: l) by
    cases l with
    | nil => rfl
    | cons a l => exact this l a h
  intro l
  induction l with
  | nil => intro a _; simp
  | cons b l ih =>
    intro a h
    rw [List.destutter'_cons]
    split
    · rw [List.mem_cons, ih b fun c hc d hd =>
        h c (List.mem_cons_of_mem _ hc) d (List.mem_cons_of_mem _ hd)]
      simp
    · rename_i hab
      obtain rfl := h a (by simp) b (by simp) hab
      rw [ih a fun c hc d hd => h c (List.mem_cons_of_mem _ hc) d (List.mem_cons_of_mem _ hd)]
      simp

/-- Sorting and deduplicating keeps the entries when the sort fields determine them. -/
theorem mem_sortDedup {α : Type} {order : α → List String} {l : List α}
    (h : ∀ a ∈ l, ∀ b ∈ l, order a = order b → a = b) {x : α} :
    x ∈ sortDedup order l ↔ x ∈ l := by
  unfold sortDedup
  rw [mem_destutter]
  · simp
  · intro a ha b hb hab
    simp only [List.mem_mergeSort] at ha hb
    exact h a ha b hb (not_not.mp hab)

/-- A lane's epochs are in the map exactly when some record of the lane carried them. -/
def SeenIs (seen : SeenEpochs) (records : List Accepted) : Prop :=
  (∀ l, l ∈ seen ↔ Spoke Accepted.lane records l) ∧
    ∀ l e, (∃ s, seen[l]? = some s ∧ e ∈ s) ↔
      ∃ r ∈ records, r.lane = l ∧ r.view.connectionEpoch = e

theorem SeenIs.observe {seen : SeenEpochs} {records : List Accepted} (h : SeenIs seen records)
    (r : Accepted) (fact : ContinuityFact) (hfact : fact.key.epoch = r.view.connectionEpoch) :
    SeenIs (seen.observe r.lane fact) (records ++ [r]) := by
  refine ⟨?_, ?_⟩
  · intro l
    unfold SeenEpochs.observe
    simp only [Std.ExtTreeMap.mem_insert, Std.LawfulEqOrd.compare_eq_iff_eq, h.1, Spoke]
    constructor
    · rintro (rfl | ⟨s, hs, rfl⟩)
      · exact ⟨r, by simp, rfl⟩
      · exact ⟨s, by simp [hs], rfl⟩
    · rintro ⟨s, hs, rfl⟩
      rcases List.mem_append.mp hs with hs | hs
      · exact .inr ⟨s, hs, rfl⟩
      · obtain rfl := List.mem_singleton.mp hs
        exact .inl rfl
  · intro l e
    unfold SeenEpochs.observe
    rw [Std.ExtTreeMap.getElem?_insert]
    by_cases hl : r.lane = l
    · subst hl
      have hold := h.2 r.lane e
      simp only [Std.ReflCmp.compare_self, if_pos, Option.some.injEq, exists_eq_left',
        Std.ExtTreeSet.mem_insert, Std.LawfulEqOrd.compare_eq_iff_eq, hfact]
      constructor
      · rintro (rfl | he)
        · exact ⟨r, by simp, rfl, rfl⟩
        · cases hs : seen[r.lane]? with
          | none => simp [hs] at he
          | some s =>
            obtain ⟨t, ht, hte⟩ := hold.mp ⟨s, hs, by simpa [hs] using he⟩
            exact ⟨t, by simp [ht], hte⟩
      · rintro ⟨s, hs, hsl, rfl⟩
        rcases List.mem_append.mp hs with hs | hs
        · obtain ⟨t, ht, hte⟩ := hold.mpr ⟨s, hs, hsl, rfl⟩
          exact .inr (by simpa [ht] using hte)
        · obtain rfl := List.mem_singleton.mp hs
          exact .inl rfl
    · simp only [Std.LawfulEqOrd.compare_eq_iff_eq, hl, if_false, h.2 l e]
      constructor
      · rintro ⟨s, hs, hse⟩
        exact ⟨s, by simp [hs], hse⟩
      · rintro ⟨s, hs, hsl, hse⟩
        rcases List.mem_append.mp hs with hs | hs
        · exact ⟨s, hs, hsl, hse⟩
        · obtain rfl := List.mem_singleton.mp hs
          exact absurd hsl hl

/-- The entries are those of a carry, each in its own spelling. -/
def Lists {K C : Type} (mk : String → K → Nat → C) (entries : List C)
    (carry : String → K → Nat → Prop) : Prop :=
  ∀ c, c ∈ entries ↔ ∃ l k n, c = mk l k n ∧ carry l k n

section Captured

variable {K C : Type} {order : C → List String} {mk : String → K → Nat → C}
  {kept live : List C} {prev : String → K → Nat → Prop} {s : K → Option Nat}
  {seen : String → Prop} {saw : String → K → Prop}

/-- What `capture` keeps of silent lanes and takes from the classifier for the others. -/
theorem lists_captured
    (hmk : ∀ {l k n l' k' n'}, order (mk l k n) = order (mk l' k' n') → l = l' ∧ k = k')
    (hkept : ∀ c, c ∈ kept ↔ ∃ l k n, c = mk l k n ∧ prev l k n ∧ ¬seen l)
    (hlive : ∀ c, c ∈ live ↔ ∃ l k n, c = mk l k n ∧ s k = some n ∧ saw l k)
    (hsaw : ∀ {l k}, saw l k → seen l)
    (hprev : ∀ {l k n n'}, prev l k n → prev l k n' → n = n') :
    Lists mk (sortDedup order (kept ++ live)) fun l k n =>
      (¬seen l ∧ prev l k n) ∨ (s k = some n ∧ saw l k) := by
  have hmem : ∀ c, c ∈ kept ++ live ↔
      ∃ l k n, c = mk l k n ∧ ((¬seen l ∧ prev l k n) ∨ (s k = some n ∧ saw l k)) := by
    intro c
    rw [List.mem_append, hkept, hlive]
    constructor
    · rintro (⟨l, k, n, rfl, hp, hl⟩ | ⟨l, k, n, rfl, hs⟩)
      · exact ⟨l, k, n, rfl, .inl ⟨hl, hp⟩⟩
      · exact ⟨l, k, n, rfl, .inr hs⟩
    · rintro ⟨l, k, n, rfl, ⟨hl, hp⟩ | hs⟩
      · exact .inl ⟨l, k, n, rfl, hp, hl⟩
      · exact .inr ⟨l, k, n, rfl, hs⟩
  intro c
  rw [mem_sortDedup, hmem]
  intro a ha b hb hab
  obtain ⟨l, k, n, rfl, hva⟩ := (hmem a).mp ha
  obtain ⟨l', k', n', rfl, hvb⟩ := (hmem b).mp hb
  obtain ⟨rfl, rfl⟩ := hmk hab
  -- one lane is silent or it spoke, so both entries come from the same side
  rcases hva with ⟨hl, hva⟩ | ⟨hva, hsa⟩ <;> rcases hvb with ⟨hl', hvb⟩ | ⟨hvb, hsb⟩
  · rw [hprev hva hvb]
  · exact absurd (hsaw hsb) hl
  · exact absurd (hsaw hsa) hl'
  · rw [Option.some.inj (hva.symm.trans hvb)]

end Captured

/-- A carried connection in its own spelling. -/
def connectionOf (lane : String) (k : ConnectionKey) (n : Nat) : ConnectionCarry :=
  ⟨lane, k.venue.asStr, k.epoch, n⟩

/-- A carried epoch in its own spelling. -/
def epochOf (lane : String) (k : EpochKey) (n : Nat) : EpochCarry :=
  ⟨lane, k.lane.venue.asStr, k.lane.stream.asStr, k.epoch, n⟩

theorem connectionOf_order {l l' : String} {k k' : ConnectionKey} {n n' : Nat}
    (h : (connectionOf l k n).order = (connectionOf l' k' n').order) : l = l' ∧ k = k' := by
  cases k; cases k'
  simp only [ConnectionCarry.order, connectionOf, List.cons.injEq, and_true] at h
  obtain ⟨rfl, hv, rfl⟩ := h
  exact ⟨rfl, by rw [Venue.asStr_injective hv]⟩

theorem epochOf_order {l l' : String} {k k' : EpochKey} {n n' : Nat}
    (h : (epochOf l k n).order = (epochOf l' k' n').order) : l = l' ∧ k = k' := by
  obtain ⟨⟨v, s⟩, e⟩ := k
  obtain ⟨⟨v', s'⟩, e'⟩ := k'
  simp only [EpochCarry.order, epochOf, List.cons.injEq, and_true] at h
  obtain ⟨rfl, hv, hs, rfl⟩ := h
  exact ⟨rfl, by rw [Venue.asStr_injective hv, Stream.asStr_injective hs]⟩

@[simp] theorem connectionEntry_connectionOf (l : String) (k : ConnectionKey) (n : Nat) :
    OrderingState.connectionEntry (connectionOf l k n) = some (k, n) := by
  simp [OrderingState.connectionEntry, connectionOf]

@[simp] theorem epochEntry_epochOf (l : String) (k : EpochKey) (n : Nat) :
    OrderingState.epochEntry (epochOf l k n) = some (k, n) := by
  simp [OrderingState.epochEntry, epochOf]

/-- The pairs read off a list of entries. -/
theorem mem_filterMap_entry {K C : Type} {mk : String → K → Nat → C} {entry : C → Option (K × Nat)}
    (hentry : ∀ l k n, entry (mk l k n) = some (k, n)) {entries : List C}
    {carry : String → K → Nat → Prop} (h : Lists mk entries carry) {k : K} {n : Nat} :
    (k, n) ∈ entries.filterMap entry ↔ ∃ l, carry l k n := by
  rw [List.mem_filterMap]
  constructor
  · rintro ⟨c, hc, hcn⟩
    obtain ⟨l, k', n', rfl, hl⟩ := (h c).mp hc
    rw [hentry] at hcn
    cases hcn
    exact ⟨l, hl⟩
  · rintro ⟨l, hl⟩
    exact ⟨mk l k n, (h _).mpr ⟨l, k, n, rfl, hl⟩, hentry l k n⟩

/-- A seeded classifier knows the counters its carry lists. -/
theorem connections_seed {o : OrderingState} {carry : String → ConnectionKey → Nat → Prop}
    (h : Lists connectionOf o.connections carry)
    (hfun : ∀ {l l' k n n'}, carry l k n → carry l' k n' → n = n') (k : ConnectionKey) (n : Nat) :
    o.seed.connections[k]? = some n ↔ ∃ l, carry l k n := by
  have hmem := fun k n => mem_filterMap_entry connectionEntry_connectionOf h (k := k) (n := n)
  rw [← hmem]
  refine (Std.ExtTreeMap.getElem?_foldl_insert_eq_some (f := id) ?_).trans (by simp)
  rintro ⟨k, n⟩ ha ⟨k', n'⟩ hb rfl
  obtain ⟨l, hl⟩ := (hmem _ _).mp ha
  obtain ⟨l', hl'⟩ := (hmem _ _).mp hb
  exact hfun hl hl'

/-- A seeded classifier knows the ordering keys its carry lists. -/
theorem orderingKey_seed {o : OrderingState} {carry : String → EpochKey → Nat → Prop}
    (h : Lists epochOf o.epochs carry)
    (hfun : ∀ {l l' k n n'}, carry l k n → carry l' k n' → n = n') (k : EpochKey) (n : Nat) :
    o.seed.orderingKey k = some n ↔ ∃ l, carry l k n := by
  have hmem := fun k n => mem_filterMap_entry epochEntry_epochOf h (k := k) (n := n)
  rw [← hmem, ClassifierState.orderingKey, Option.bind_eq_some_iff]
  have hget : ∀ e, o.seed.epochs[k]? = some e ↔
      ∃ n, (k, n) ∈ o.epochs.filterMap OrderingState.epochEntry ∧ { monotonicKey := some n } = e := by
    intro e
    refine Std.ExtTreeMap.getElem?_foldl_insert_eq_some
      (f := fun n => ({ monotonicKey := some n } : EpochState)) ?_
    rintro ⟨k, n⟩ ha ⟨k', n'⟩ hb rfl
    obtain ⟨l, hl⟩ := (hmem _ _).mp ha
    obtain ⟨l', hl'⟩ := (hmem _ _).mp hb
    exact hfun hl hl'
  constructor
  · rintro ⟨e, he, hn⟩
    obtain ⟨m, hm, rfl⟩ := (hget e).mp he
    obtain rfl : m = n := Option.some.inj hn
    exact hm
  · intro hn
    exact ⟨_, (hget _).mpr ⟨n, hn, rfl⟩, rfl⟩

theorem not_contains_iff {seen : SeenEpochs} {l : String} :
    (!seen.contains l) = true ↔ ¬l ∈ seen := by
  rw [Bool.not_eq_true', ← Bool.not_eq_true, Std.ExtTreeMap.contains_iff_mem]

/-- Entries kept from the previous carry: those of lanes that did not speak. -/
theorem mem_filter_silent {K C : Type} {mk : String → K → Nat → C} {lane : C → String}
    (hlane : ∀ l k n, lane (mk l k n) = l) {entries : List C} {carry : String → K → Nat → Prop}
    (h : Lists mk entries carry) {seen : SeenEpochs} (c : C) :
    c ∈ entries.filter (fun c => !seen.contains (lane c)) ↔
      ∃ l k n, c = mk l k n ∧ carry l k n ∧ ¬l ∈ seen := by
  rw [List.mem_filter, h c]
  constructor
  · rintro ⟨⟨l, k, n, rfl, hc⟩, hl⟩
    rw [hlane] at hl
    exact ⟨l, k, n, rfl, hc, not_contains_iff.mp hl⟩
  · rintro ⟨l, k, n, rfl, hc, hl⟩
    exact ⟨⟨l, k, n, rfl, hc⟩, by rw [hlane]; exact not_contains_iff.mpr hl⟩

theorem mem_liveConnections {state : ClassifierState} {lane epoch : String} {c : ConnectionCarry} :
    c ∈ OrderingState.liveConnections state lane epoch ↔
      ∃ k n, c = connectionOf lane k n ∧ state.connections[k]? = some n ∧ k.epoch = epoch := by
  simp only [OrderingState.liveConnections, List.mem_filterMap, Prod.exists,
    Std.ExtTreeMap.mem_toList_iff_getElem?_eq_some, connectionOf, Option.ite_none_right_eq_some,
    Option.some.injEq]
  constructor
  · rintro ⟨k, n, hk, he, rfl⟩
    exact ⟨k, n, rfl, hk, he⟩
  · rintro ⟨k, n, rfl, hk, he⟩
    exact ⟨k, n, hk, he, rfl⟩

theorem mem_liveEpochs {state : ClassifierState} {lane : String} {live : Std.ExtTreeSet String}
    {c : EpochCarry} :
    c ∈ OrderingState.liveEpochs state lane live ↔
      ∃ k n, c = epochOf lane k n ∧ state.orderingKey k = some n ∧ k.epoch ∈ live := by
  simp only [OrderingState.liveEpochs, List.mem_filterMap, Prod.exists,
    Std.ExtTreeMap.mem_toList_iff_getElem?_eq_some, ClassifierState.orderingKey,
    Option.bind_eq_some_iff]
  constructor
  · rintro ⟨k, e, hk, hc⟩
    split at hc
    · cases hc
    · rename_i n hn
      split at hc
      · rename_i hlive
        cases hc
        exact ⟨k, n, rfl, ⟨e, hk, hn⟩, Std.ExtTreeSet.mem_iff_contains.mpr hlive⟩
      · cases hc
  · rintro ⟨k, n, rfl, ⟨e, hk, hn⟩, hlive⟩
    exact ⟨k, e, hk, by simp [hn, Std.ExtTreeSet.mem_iff_contains.mp hlive, epochOf]⟩

section Capture

variable {o : OrderingState} (state : ClassifierState) {seen : SeenEpochs} {w : List Accepted}

theorem lists_capture_connections (hseen : SeenIs seen w)
    {carry : String → ConnectionKey → Nat → Prop} (h : Lists connectionOf o.connections carry)
    (hfun : ∀ {l k n n'}, carry l k n → carry l k n' → n = n') :
    Lists connectionOf (OrderingState.capture o state seen).connections fun l k n =>
      (¬Spoke Accepted.lane w l ∧ carry l k n) ∨ (state.connections[k]? = some n ∧
        ∃ r ∈ w, r.lane = l ∧ r.view.connectionEpoch = k.epoch) := by
  refine lists_captured connectionOf_order ?_ ?_ ?_ hfun
  · intro c
    rw [mem_filter_silent (fun _ _ _ => rfl) h]
    simp only [hseen.1]
  · intro c
    simp only [List.mem_flatMap, Prod.exists, Std.ExtTreeMap.mem_toList_iff_getElem?_eq_some,
      mem_liveConnections, Std.ExtTreeSet.mem_toList, ← hseen.2]
    constructor
    · rintro ⟨l, s, hs, e, he, k, n, rfl, hk, rfl⟩
      exact ⟨l, k, n, rfl, hk, s, hs, he⟩
    · rintro ⟨l, k, n, rfl, hk, s, hs, he⟩
      exact ⟨l, s, hs, k.epoch, he, k, n, rfl, hk, rfl⟩
  · rintro l k ⟨r, hr, hl, -⟩
    exact ⟨r, hr, hl⟩

theorem lists_capture_epochs (hseen : SeenIs seen w)
    {carry : String → EpochKey → Nat → Prop} (h : Lists epochOf o.epochs carry)
    (hfun : ∀ {l k n n'}, carry l k n → carry l k n' → n = n') :
    Lists epochOf (OrderingState.capture o state seen).epochs fun l k n =>
      (¬Spoke Accepted.lane w l ∧ carry l k n) ∨ (state.orderingKey k = some n ∧
        ∃ r ∈ w, r.lane = l ∧ r.view.connectionEpoch = k.epoch) := by
  refine lists_captured epochOf_order ?_ ?_ ?_ hfun
  · intro c
    rw [mem_filter_silent (fun _ _ _ => rfl) h]
    simp only [hseen.1]
  · intro c
    simp only [List.mem_flatMap, Prod.exists, Std.ExtTreeMap.mem_toList_iff_getElem?_eq_some,
      mem_liveEpochs, ← hseen.2]
    constructor
    · rintro ⟨l, s, hs, k, n, rfl, hk, he⟩
      exact ⟨l, k, n, rfl, hk, s, hs, he⟩
    · rintro ⟨l, k, n, rfl, hk, s, hs, he⟩
      exact ⟨l, s, hs, k, n, rfl, hk, he⟩
  · rintro l k ⟨r, hr, hl, -⟩
    exact ⟨r, hr, hl⟩

end Capture

/-! ## One window beside the uninterrupted stream -/

/-- An attempt and an uninterrupted classifier that agree on what can still occur, with records
    ahead that neither has seen the identity of. -/
structure Beside (live : String → Prop) (a : Attempt) (c : Classifier) (ahead : List Accepted) :
    Prop where
  connections : Agrees ConnectionKey.epoch live (fun k => a.classifier.state.connections[k]?)
    fun k => c.state.connections[k]?
  keys : Agrees EpochKey.epoch live a.classifier.state.orderingKey c.state.orderingKey
  freshAttempt : ∀ r ∈ ahead, a.identity.table[r.view.recordId]? = none
  freshStream : ∀ r ∈ ahead, c.state.identity.records[r.view.recordId]? = none
  distinct : (ahead.map (·.view.recordId)).Nodup
  retains : c.retainIdentityHistory = true

/-- The fact of an unseen delivery. -/
def factOf (hash : String → ContentHash) (view : EnvelopeView) (seq : FactSeq)
    (cause : ContinuityCause) : ContinuityFact :=
  .accepted seq view (Classifier.epochKey view) (hash view.rawPayload) cause

/-- Both classify a record the same way. -/
theorem Beside.cause_eq {live : String → Prop} {a : Attempt} {c : Classifier} {r : Accepted}
    {ahead : List Accepted} (h : Beside live a c (r :: ahead)) (mode : Arithmetic)
    (hlive : live r.view.connectionEpoch) :
    a.classifier.cause mode r.view = c.cause mode r.view :=
  cause_congr mode (h.connections.live hlive) (h.keys.live hlive)

theorem classify_unseen (mode : Arithmetic) (hash : String → ContentHash) {c : Classifier}
    {view : EnvelopeView} (seq : FactSeq) (h : c.state.identity.records[view.recordId]? = none) :
    c.classify mode hash view seq = (c.cause mode view).map (factOf hash view seq) := by
  have hv : c.state.identity.verdict view.recordId (hash view.rawPayload) = .unseen := by
    simp [IdentityState.verdict, h]
  rw [Classifier.classify, hv, Classifier.classifyWithIdentity]
  cases c.cause mode view <;> rfl

theorem accept_unseen (mode : Arithmetic) (hash : String → ContentHash) {a : Attempt}
    {r : Accepted} (h : a.identity.table[r.view.recordId]? = none) :
    a.accept mode hash r = (a.classifier.cause mode r.view).map fun cause =>
      let seq := WrittenLine.position a.nextSeq
      let content := hash r.view.rawPayload
      (factOf hash r.view seq cause, a.push r content (factOf hash r.view seq cause)
        ⟨a.identity.table.insert r.view.recordId ⟨content, seq⟩⟩) := by
  have hv : a.identity.verdict r.view.recordId (hash r.view.rawPayload) = .unseen := by
    simp [AttemptIdentity.verdict, h]
  have hc : a.identity.table.contains r.view.recordId = false := by
    rw [Std.ExtTreeMap.contains_eq_isSome_getElem?, h]
    rfl
  unfold Attempt.accept
  simp only [hv, Classifier.classifyWithIdentity, AttemptIdentity.remember, hc]
  cases a.classifier.cause mode r.view <;> rfl

/-- The key of a fact is that of its envelope. -/
theorem factOf_key (hash : String → ContentHash) (view : EnvelopeView) (seq : FactSeq)
    (cause : ContinuityCause) : (factOf hash view seq cause).key = Classifier.epochKey view := rfl

theorem apply_state {hash : String → ContentHash} {view : EnvelopeView} {seq : FactSeq}
    {cause : ContinuityCause} (c : Classifier) (h : cause.Accepted) :
    (c.apply (factOf hash view seq cause)).state =
      c.state.accept (factOf hash view seq cause) c.retainIdentityHistory := by
  have : (factOf hash view seq cause).cause.Accepted := h
  simp only [Classifier.apply, observe_of_accepted this]

/-- Applying a fact leaves the connections of other epochs alone. -/
theorem connections_apply_frame {hash : String → ContentHash} {view : EnvelopeView} {seq : FactSeq}
    {cause : ContinuityCause} (c : Classifier) (h : cause.Accepted) {k : ConnectionKey}
    (hk : k.epoch ≠ view.connectionEpoch) :
    (c.apply (factOf hash view seq cause)).state.connections[k]? = c.state.connections[k]? := by
  rw [apply_state c h, ClassifierState.connections_accept, if_neg]
  rintro rfl
  exact hk rfl

/-- Applying a fact leaves the ordering keys of other epochs alone. -/
theorem orderingKey_apply_frame {hash : String → ContentHash} {view : EnvelopeView} {seq : FactSeq}
    {cause : ContinuityCause} (c : Classifier) (h : cause.Accepted) {k : EpochKey}
    (hk : k.epoch ≠ view.connectionEpoch) :
    (c.apply (factOf hash view seq cause)).state.orderingKey k = c.state.orderingKey k := by
  rw [apply_state c h, ClassifierState.orderingKey_accept, if_neg]
  rintro rfl
  exact hk rfl

/-- Applying a fact remembers no other record than its own. -/
theorem records_apply {hash : String → ContentHash} {view : EnvelopeView} {seq : FactSeq}
    {cause : ContinuityCause} (c : Classifier) (h : cause.Accepted)
    (hretain : c.retainIdentityHistory = true) {id : String}
    (hid : (c.apply (factOf hash view seq cause)).state.identity.records[id]? ≠ none) :
    c.state.identity.records[id]? ≠ none ∨ view.recordId = id := by
  rw [apply_state c h, hretain] at hid
  by_cases he : view.recordId = id
  · exact .inr he
  · left
    have : (c.state.identity.records.insertIfNew view.recordId
        ⟨hash view.rawPayload, seq⟩)[id]? = c.state.identity.records[id]? := by
      rw [Std.ExtTreeMap.getElem?_insertIfNew]
      simp [he]
    exact this ▸ hid

/-- One record keeps an attempt beside the stream. -/
theorem Beside.push {live : String → Prop} {a : Attempt} {c : Classifier} {r : Accepted}
    {ahead : List Accepted} (h : Beside live a c (r :: ahead)) (hash : String → ContentHash)
    (hlive : live r.view.connectionEpoch) {cause : ContinuityCause} (hcause : cause.Accepted)
    (content : ContentHash) (entry : IdentityEntry) (seq seq' : FactSeq) :
    Beside live (a.push r content (factOf hash r.view seq cause)
        ⟨a.identity.table.insert r.view.recordId entry⟩)
      (c.apply (factOf hash r.view seq' cause)) ahead where
  connections := by
    refine h.connections.update hlive ?_ ?_ ?_
    · intro k hk
      exact connections_apply_frame a.classifier hcause hk
    · intro k hk
      exact connections_apply_frame c hcause hk
    · intro k hk hsame
      show (a.classifier.apply _).state.connections[k]? = _
      rw [apply_state _ hcause, apply_state _ hcause, ClassifierState.connections_accept,
        ClassifierState.connections_accept, hsame]
      rfl
  keys := by
    refine h.keys.update hlive ?_ ?_ ?_
    · intro k hk
      exact orderingKey_apply_frame a.classifier hcause hk
    · intro k hk
      exact orderingKey_apply_frame c hcause hk
    · intro k hk hsame
      show (a.classifier.apply _).state.orderingKey k = _
      rw [apply_state _ hcause, apply_state _ hcause, ClassifierState.orderingKey_accept,
        ClassifierState.orderingKey_accept, hsame]
      rfl
  freshAttempt := by
    intro s hs
    have hne : r.view.recordId ≠ s.view.recordId := by
      have := (List.nodup_cons.mp h.distinct).1
      exact fun he => this (List.mem_map.mpr ⟨s, hs, he.symm⟩)
    show (a.identity.table.insert r.view.recordId entry)[s.view.recordId]? = none
    rw [Std.ExtTreeMap.getElem?_insert]
    simp [hne, h.freshAttempt s (by simp [hs])]
  freshStream := by
    intro s hs
    have hne : r.view.recordId ≠ s.view.recordId := by
      have := (List.nodup_cons.mp h.distinct).1
      exact fun he => this (List.mem_map.mpr ⟨s, hs, he.symm⟩)
    rw [apply_state _ hcause, h.retains]
    show (c.state.identity.records.insertIfNew r.view.recordId _)[s.view.recordId]? = none
    rw [Std.ExtTreeMap.getElem?_insertIfNew]
    simp [hne, h.freshStream s (by simp [hs])]
  distinct := (List.nodup_cons.mp h.distinct).2
  retains := h.retains

section Steps

variable {mode : Arithmetic} {hash : String → ContentHash} {a a₁ : Attempt} {r : Accepted}
  {w : List Accepted} {c : Classifier} {view : EnvelopeView} {views : List EnvelopeView}
  {seq : FactSeq} {fact : ContinuityFact} {halt : Halt}

theorem acceptAll_cons_ok (h : a.accept mode hash r = .ok (fact, a₁)) :
    a.acceptAll mode hash (r :: w) =
      (a₁.acceptAll mode hash w).map fun p => (fact :: p.1, p.2) := by
  simp only [Attempt.acceptAll, h, Except.ok_bind]
  cases a₁.acceptAll mode hash w <;> rfl

theorem acceptAll_cons_error (h : a.accept mode hash r = .error halt) :
    a.acceptAll mode hash (r :: w) = .error halt := by
  rw [Attempt.acceptAll, h, Except.error_bind]

theorem classifyAll_cons_ok (h : c.classify mode hash view seq = .ok fact) :
    c.classifyAll mode hash seq (view :: views) =
      ((c.apply fact).classifyAll mode hash seq.next views).map fun p => (fact :: p.1, p.2) := by
  rw [Classifier.classifyAll, h, Except.ok_bind]
  cases (c.apply fact).classifyAll mode hash seq.next views <;> rfl

theorem classifyAll_cons_error (h : c.classify mode hash view seq = .error halt) :
    c.classifyAll mode hash seq (view :: views) = .error halt := by
  rw [Classifier.classifyAll, h, Except.error_bind]

end Steps

/-- What a window leaves behind in the attempt and in the stream. -/
structure After (live : String → Prop) (a' : Attempt) (c c' : Classifier) (done w ahead : List Accepted) :
    Prop where
  beside : Beside live a' c' ahead
  seen : SeenIs a'.seen (done ++ w)
  connectionsFrame : ∀ k : ConnectionKey,
    ¬Occurs (·.view.connectionEpoch) w k.epoch → c'.state.connections[k]? = c.state.connections[k]?
  keysFrame : ∀ k : EpochKey,
    ¬Occurs (·.view.connectionEpoch) w k.epoch → c'.state.orderingKey k = c.state.orderingKey k
  identityFrame : ∀ id : String, c'.state.identity.records[id]? ≠ none →
    c.state.identity.records[id]? ≠ none ∨ ∃ r ∈ w, r.view.recordId = id

/-- A window and the uninterrupted stream give its records the same causes, or both stop. -/
theorem Beside.window (mode : Arithmetic) (hash : String → ContentHash) {live : String → Prop}
    {w ahead done : List Accepted} {a : Attempt} {c : Classifier} (seq : FactSeq)
    (h : Beside live a c (w ++ ahead)) (hlive : ∀ r ∈ w, live r.view.connectionEpoch)
    (hseen : SeenIs a.seen done) :
    (∃ halt, a.acceptAll mode hash w = .error halt ∧
      c.classifyAll mode hash seq (w.map (·.view)) = .error halt) ∨
    ∃ facts a' facts' c', a.acceptAll mode hash w = .ok (facts, a') ∧
      c.classifyAll mode hash seq (w.map (·.view)) = .ok (facts', c') ∧
      facts.map (·.cause) = facts'.map (·.cause) ∧ After live a' c c' done w ahead := by
  induction w generalizing a c done seq with
  | nil =>
    refine .inr ⟨[], a, [], c, rfl, rfl, rfl, h, by simpa using hseen, ?_, ?_, ?_⟩
    · intro k _; rfl
    · intro k _; rfl
    · intro id hid; exact .inl hid
  | cons r w ih =>
    have hr := hlive r (by simp)
    have hcause := h.cause_eq mode hr
    have ha := accept_unseen mode hash (h.freshAttempt r (by simp))
    have hs := classify_unseen mode hash seq (h.freshStream r (by simp))
    rw [hcause] at ha
    rw [List.map_cons]
    cases hc : c.cause mode r.view with
    | error halt =>
      rw [hc] at ha hs
      exact .inl ⟨halt, acceptAll_cons_error ha, classifyAll_cons_error hs⟩
    | ok cause =>
      rw [hc] at ha hs
      have hacc := cause_accepted hc
      have hnext := h.push hash hr hacc (hash r.view.rawPayload)
        ⟨hash r.view.rawPayload, WrittenLine.position a.nextSeq⟩ (WrittenLine.position a.nextSeq) seq
      have hseen' :=
        hseen.observe r (factOf hash r.view (WrittenLine.position a.nextSeq) cause) rfl
      rw [acceptAll_cons_ok ha, classifyAll_cons_ok hs]
      rcases ih seq.next hnext (fun s hs => hlive s (by simp [hs])) hseen' with
        ⟨halt, hw, hws⟩ | ⟨facts, a', facts', c', hw, hws, hfacts, hafter⟩
      · exact .inl ⟨halt, by rw [hw]; rfl, by rw [hws]; rfl⟩
      · refine .inr ⟨_, a', _, c', by rw [hw]; rfl, by rw [hws]; rfl, ?_, hafter.beside,
          ?_, ?_, ?_, ?_⟩
        · rw [List.map_cons, List.map_cons, hfacts]
          rfl
        · simpa using hafter.seen
        · intro k hk
          rw [hafter.connectionsFrame k fun ⟨s, hs, hsk⟩ => hk ⟨s, by simp [hs], hsk⟩]
          exact connections_apply_frame c hacc fun he => hk ⟨r, by simp, he.symm⟩
        · intro k hk
          rw [hafter.keysFrame k fun ⟨s, hs, hsk⟩ => hk ⟨s, by simp [hs], hsk⟩]
          exact orderingKey_apply_frame c hacc fun he => hk ⟨r, by simp, he.symm⟩
        · intro id hid
          rcases hafter.identityFrame id hid with hc | ⟨s, hs, hid⟩
          · exact (records_apply c hacc h.retains hc).imp_right fun he => ⟨r, by simp, he⟩
          · exact .inr ⟨s, by simp [hs], hid⟩

/-! ## Any number of windows -/

/-- The lane every epoch of a record sequence lives on. -/
def homeOf (records : List Accepted) (epoch : String) : String :=
  match records.find? (·.view.connectionEpoch = epoch) with
  | some r => r.lane
  | none => ""

theorem homeOf_eq {records : List Accepted}
    (h : ∀ r ∈ records, ∀ s ∈ records, r.view.connectionEpoch = s.view.connectionEpoch →
      r.lane = s.lane) {r : Accepted} (hr : r ∈ records) :
    r.lane = homeOf records r.view.connectionEpoch := by
  unfold homeOf
  split
  · rename_i s hs
    have hse : s.view.connectionEpoch = r.view.connectionEpoch := by
      simpa using List.find?_some hs
    exact h r hr s (List.mem_of_find?_eq_some hs) hse.symm
  · rename_i hs
    rw [List.find?_eq_none] at hs
    exact absurd (by simp) (hs r hr)

/-- The carry between two windows, beside the uninterrupted classifier. -/
structure Between (home : String → String) (past : List (List Accepted)) (o : OrderingState)
    (c : Classifier) : Prop where
  connections : ∃ carry, Lists connectionOf o.connections carry ∧
    Faithful Accepted.lane (·.view.connectionEpoch) home ConnectionKey.epoch past carry
      fun k => c.state.connections[k]?
  keys : ∃ carry, Lists epochOf o.epochs carry ∧
    Faithful Accepted.lane (·.view.connectionEpoch) home EpochKey.epoch past carry
      c.state.orderingKey
  freshStream : ∀ (id : String), c.state.identity.records[id]? ≠ none →
    ∃ w ∈ past, ∃ r ∈ w, r.view.recordId = id
  retains : c.retainIdentityHistory = true

theorem Between.nil (home : String → String) : Between home [] {} Classifier.new where
  connections := ⟨fun _ _ _ => False, by intro c; simp, by
    simpa [Classifier.new] using Faithful.nil⟩
  keys := ⟨fun _ _ _ => False, by intro c; simp, by
    have : Classifier.new.state.orderingKey = fun _ => none := by
      funext k
      simp [ClassifierState.orderingKey, Classifier.new]
    rw [this]
    exact Faithful.nil⟩
  freshStream := by
    intro id h
    simp [Classifier.new] at h
  retains := rfl

/-- The entries of one lane are the same in both carries. -/
def Kept (l : String) (o o' : OrderingState) : Prop :=
  (∀ c : ConnectionCarry, c.lane = l → (c ∈ o'.connections ↔ c ∈ o.connections)) ∧
    ∀ c : EpochCarry, c.lane = l → (c ∈ o'.epochs ↔ c ∈ o.epochs)

/-- A silent lane's entries are those of the previous carry. -/
theorem mem_iff_of_silent {K C : Type} {mk : String → K → Nat → C} {lane : C → String}
    (hlane : ∀ l k n, lane (mk l k n) = l) {w : List Accepted} {entries entries' : List C}
    {carry : String → K → Nat → Prop} {s : K → Option Nat} {epoch : K → String}
    (h : Lists mk entries carry)
    (h' : Lists mk entries' fun l k n => (¬Spoke Accepted.lane w l ∧ carry l k n) ∨
      (s k = some n ∧ ∃ r ∈ w, r.lane = l ∧ r.view.connectionEpoch = epoch k))
    {c : C} (hc : ¬Spoke Accepted.lane w (lane c)) : c ∈ entries' ↔ c ∈ entries := by
  rw [h', h]
  constructor
  · rintro ⟨l, k, n, rfl, ⟨-, hn⟩ | ⟨-, r, hr, hl, -⟩⟩
    · exact ⟨l, k, n, rfl, hn⟩
    · exact absurd ⟨r, hr, hl⟩ (hlane l k n ▸ hc)
  · rintro ⟨l, k, n, rfl, hn⟩
    exact ⟨l, k, n, rfl, .inl ⟨hlane l k n ▸ hc, hn⟩⟩

/-- One more window. -/
theorem Between.window {home : String → String} {past : List (List Accepted)} {o : OrderingState}
    {c : Classifier} (h : Between home past o c) (mode : Arithmetic) (hash : String → ContentHash)
    (seq : CanonicalSeq) (seq' : FactSeq) {w : List Accepted}
    (hhome : ∀ r ∈ w, r.lane = home r.view.connectionEpoch)
    (hlive : ∀ r ∈ w, Live Accepted.lane (·.view.connectionEpoch) home past r.view.connectionEpoch)
    (hids : (w.map (·.view.recordId)).Nodup)
    (hnew : ∀ r ∈ w, ∀ w' ∈ past, ∀ s ∈ w', s.view.recordId ≠ r.view.recordId) :
    (∃ halt, (Attempt.start o seq).acceptAll mode hash w = .error halt ∧
      c.classifyAll mode hash seq' (w.map (·.view)) = .error halt) ∨
    ∃ facts a' facts' c', (Attempt.start o seq).acceptAll mode hash w = .ok (facts, a') ∧
      c.classifyAll mode hash seq' (w.map (·.view)) = .ok (facts', c') ∧
      facts.map (·.cause) = facts'.map (·.cause) ∧
      Between home (w :: past) (OrderingState.capture o a'.classifier.state a'.seen) c' ∧
      ∀ l, ¬Spoke Accepted.lane w l →
        Kept l o (OrderingState.capture o a'.classifier.state a'.seen) := by
  obtain ⟨carryC, hlistC, hC⟩ := h.connections
  obtain ⟨carryE, hlistE, hE⟩ := h.keys
  have hfunC : ∀ {l l' k n n'}, carryC l k n → carryC l' k n' → n = n' := by
    intro l l' k n n' hn hn'
    exact Option.some.inj ((hC.sound hn).2.symm.trans (hC.sound hn').2)
  have hfunE : ∀ {l l' k n n'}, carryE l k n → carryE l' k n' → n = n' := by
    intro l l' k n n' hn hn'
    exact Option.some.inj ((hE.sound hn).2.symm.trans (hE.sound hn').2)
  have hbeside : Beside (Live Accepted.lane (·.view.connectionEpoch) home past)
      (Attempt.start o seq) c (w ++ []) := {
    connections := hC.seed (connections_seed hlistC hfunC)
    keys := hE.seed (orderingKey_seed hlistE hfunE)
    freshAttempt := by
      intro r _
      simp [Attempt.start]
    freshStream := by
      intro r hr
      rw [List.append_nil] at hr
      by_contra hne
      obtain ⟨w', hw', s, hs, hid⟩ := h.freshStream _ hne
      exact hnew r hr w' hw' s hs hid
    distinct := by simpa using hids
    retains := h.retains }
  have hseen : SeenIs (Attempt.start o seq).seen [] := by
    constructor
    · intro l
      simp [Attempt.start, Spoke]
    · intro l e
      simp [Attempt.start]
  rcases Beside.window mode hash seq' hbeside hlive hseen with hstop | ⟨facts, a', facts', c', ha, hs, hf, hafter⟩
  · exact .inl hstop
  · have hseen' : SeenIs a'.seen w := by simpa using hafter.seen
    have hlistC' := lists_capture_connections a'.classifier.state hseen' hlistC hfunC
    have hlistE' := lists_capture_epochs a'.classifier.state hseen' hlistE hfunE
    refine .inr ⟨facts, a', facts', c', ha, hs, hf, ⟨?_, ?_, ?_, ?_⟩, ?_⟩
    · exact ⟨_, hlistC', hC.capture hhome hlive hafter.beside.connections hafter.connectionsFrame
        fun _ _ _ => Iff.rfl⟩
    · exact ⟨_, hlistE', hE.capture hhome hlive hafter.beside.keys hafter.keysFrame
        fun _ _ _ => Iff.rfl⟩
    · intro id hid
      rcases hafter.identityFrame id hid with hc | ⟨r, hr, hid⟩
      · obtain ⟨w', hw', s, hs, hsid⟩ := h.freshStream id hc
        exact ⟨w', by simp [hw'], s, hs, hsid⟩
      · exact ⟨w, by simp, r, hr, hid⟩
    · exact hafter.beside.retains
    · intro l hl
      constructor
      · rintro c rfl
        exact mem_iff_of_silent (fun _ _ _ => rfl) hlistC hlistC' hl
      · rintro c rfl
        exact mem_iff_of_silent (fun _ _ _ => rfl) hlistE hlistE' hl

section Append

variable {mode : Arithmetic} {hash : String → ContentHash}

/-- A stream that got through its first part continues from there. -/
theorem classifyAll_append {c c' : Classifier} {seq : FactSeq} {xs : List EnvelopeView}
    {facts : List ContinuityFact} (h : c.classifyAll mode hash seq xs = .ok (facts, c')) :
    ∃ seq', ∀ ys, c.classifyAll mode hash seq (xs ++ ys) =
      (c'.classifyAll mode hash seq' ys).map fun p => (facts ++ p.1, p.2) := by
  induction xs generalizing c seq facts with
  | nil =>
    obtain ⟨rfl, rfl⟩ : [] = facts ∧ c = c' := by simpa [Classifier.classifyAll] using h
    refine ⟨seq, fun ys => ?_⟩
    rw [List.nil_append]
    cases c.classifyAll mode hash seq ys <;> rfl
  | cons x xs ih =>
    cases hx : c.classify mode hash x seq with
    | error halt =>
      rw [classifyAll_cons_error hx] at h
      cases h
    | ok fact =>
      rw [classifyAll_cons_ok hx] at h
      cases hrest : (c.apply fact).classifyAll mode hash seq.next xs with
      | error halt =>
        rw [hrest] at h
        cases h
      | ok p =>
        rw [hrest] at h
        cases h
        obtain ⟨seq', hseq⟩ := ih hrest
        refine ⟨seq', fun ys => ?_⟩
        rw [List.cons_append, classifyAll_cons_ok hx, hseq ys]
        cases p.2.classifyAll mode hash seq' ys <;> rfl

theorem classifyAll_append_error {c : Classifier} {seq : FactSeq} {xs : List EnvelopeView}
    {halt : Halt} (h : c.classifyAll mode hash seq xs = .error halt) (ys : List EnvelopeView) :
    c.classifyAll mode hash seq (xs ++ ys) = .error halt := by
  induction xs generalizing c seq with
  | nil => cases h
  | cons x xs ih =>
    rw [List.cons_append]
    cases hx : c.classify mode hash x seq with
    | error e =>
      rw [classifyAll_cons_error hx] at h ⊢
      exact h
    | ok fact =>
      rw [classifyAll_cons_ok hx] at h ⊢
      cases hrest : (c.apply fact).classifyAll mode hash seq.next xs with
      | error e =>
        rw [hrest] at h
        cases h
        rw [ih hrest]
        rfl
      | ok p =>
        rw [hrest] at h
        cases h

/-- The first window of several. -/
theorem classifyWindows_cons_ok {o : OrderingState} {seq : CanonicalSeq} {w : List Accepted}
    {windows : List (List Accepted)} {facts : List ContinuityFact} {a : Attempt}
    (h : (Attempt.start o seq).acceptAll mode hash w = .ok (facts, a)) :
    classifyWindows mode hash o seq (w :: windows) =
      (classifyWindows mode hash (OrderingState.capture o a.classifier.state a.seen) a.nextSeq
        windows).map fun p => (facts.map (·.cause) ++ p.1, p.2) := by
  simp only [classifyWindows, h, Except.ok_bind]
  cases classifyWindows mode hash (OrderingState.capture o a.classifier.state a.seen) a.nextSeq
    windows <;> rfl

/-- Windows that got through their first part continue from its carry. -/
theorem classifyWindows_append {o o' : OrderingState} {seq : CanonicalSeq}
    {ws : List (List Accepted)} {causes : List ContinuityCause}
    (h : classifyWindows mode hash o seq ws = .ok (causes, o')) :
    ∃ seq', ∀ ws', classifyWindows mode hash o seq (ws ++ ws') =
      (classifyWindows mode hash o' seq' ws').map fun p => (causes ++ p.1, p.2) := by
  induction ws generalizing o seq causes with
  | nil =>
    obtain ⟨rfl, rfl⟩ : [] = causes ∧ o = o' := by simpa [classifyWindows] using h
    refine ⟨seq, fun ws' => ?_⟩
    rw [List.nil_append]
    cases classifyWindows mode hash o seq ws' <;> rfl
  | cons w ws ih =>
    cases hw : (Attempt.start o seq).acceptAll mode hash w with
    | error halt =>
      simp only [classifyWindows, hw, Except.error_bind] at h
      cases h
    | ok p =>
      rw [classifyWindows_cons_ok hw] at h
      cases hrest : classifyWindows mode hash
          (OrderingState.capture o p.2.classifier.state p.2.seen) p.2.nextSeq ws with
      | error halt =>
        rw [hrest] at h
        cases h
      | ok q =>
        rw [hrest] at h
        cases h
        obtain ⟨seq', hseq⟩ := ih hrest
        refine ⟨seq', fun ws' => ?_⟩
        rw [List.cons_append, classifyWindows_cons_ok hw, hseq ws']
        cases classifyWindows mode hash q.2 seq' ws' <;> simp [Except.map]

end Append

/-- Any number of windows after a carry that is between two of them. -/
theorem Between.windows (mode : Arithmetic) (hash : String → ContentHash) {home : String → String}
    {past : List (List Accepted)} {o : OrderingState} {c : Classifier} (h : Between home past o c)
    (seq : CanonicalSeq) (seq' : FactSeq) (windows : List (List Accepted))
    (hhome : ∀ w ∈ windows, ∀ r ∈ w, r.lane = home r.view.connectionEpoch)
    (hlive : ∀ older w newer, windows = older ++ w :: newer → ∀ r ∈ w,
      Live Accepted.lane (·.view.connectionEpoch) home (older.reverse ++ past)
        r.view.connectionEpoch)
    (hids : (windows.flatten.map (·.view.recordId)).Nodup)
    (hnew : ∀ r ∈ windows.flatten, ∀ w' ∈ past, ∀ s ∈ w', s.view.recordId ≠ r.view.recordId) :
    (∃ halt, classifyWindows mode hash o seq windows = .error halt ∧
      c.classifyAll mode hash seq' (windows.flatten.map (·.view)) = .error halt) ∨
    ∃ causes o' facts c', classifyWindows mode hash o seq windows = .ok (causes, o') ∧
      c.classifyAll mode hash seq' (windows.flatten.map (·.view)) = .ok (facts, c') ∧
      causes = facts.map (·.cause) ∧ Between home (windows.reverse ++ past) o' c' ∧
      ∀ l, (∀ w ∈ windows, ¬Spoke Accepted.lane w l) → Kept l o o' := by
  induction windows generalizing past o c seq seq' with
  | nil =>
    refine .inr ⟨[], o, [], c, rfl, rfl, rfl, by simpa using h, ?_⟩
    intro l _
    exact ⟨fun _ _ => Iff.rfl, fun _ _ => Iff.rfl⟩
  | cons w windows ih =>
    rw [List.flatten_cons, List.map_append, List.nodup_append] at hids
    rcases h.window mode hash seq seq' (hhome w (by simp))
        (hlive [] w windows rfl) hids.1
        (fun r hr => hnew r (by simp [hr])) with
      ⟨halt, ha, hs⟩ | ⟨facts, a', facts', c', ha, hs, hf, hbetween, hkept⟩
    · refine .inl ⟨halt, ?_, ?_⟩
      · simp only [classifyWindows, ha, Except.error_bind]
      · rw [List.flatten_cons, List.map_append]
        exact classifyAll_append_error hs _
    · obtain ⟨seq'', hseq⟩ := classifyAll_append hs
      have hrest := ih hbetween a'.nextSeq seq'' (fun w' hw' => hhome w' (by simp [hw'])) ?_ hids.2.1 ?_
      · rw [classifyWindows_cons_ok ha, List.flatten_cons, List.map_append, hseq]
        rcases hrest with ⟨halt, hw, hws⟩ | ⟨causes, o', facts₂, c₂, hw, hws, hcauses, hb, hk⟩
        · exact .inl ⟨halt, by rw [hw]; rfl, by rw [hws]; rfl⟩
        · refine .inr ⟨_, o', _, c₂, by rw [hw]; rfl, by rw [hws]; rfl, ?_, ?_, ?_⟩
          · rw [List.map_append, hf, hcauses]
          · simpa using hb
          · intro l hl
            have h₁ := hkept l (hl w (by simp))
            have h₂ := hk l fun w' hw' => hl w' (by simp [hw'])
            exact ⟨fun c hc => (h₂.1 c hc).trans (h₁.1 c hc),
              fun c hc => (h₂.2 c hc).trans (h₁.2 c hc)⟩
      · intro older w' newer hw' r hr
        have := hlive (w :: older) w' newer (by simp [hw']) r hr
        simpa using this
      · intro r hr w' hw' s hsw hid
        rcases List.mem_cons.mp hw' with rfl | hw'
        · exact hids.2.2 _ (List.mem_map_of_mem hsw) _ (List.mem_map_of_mem hr) hid
        · exact hnew r (by simp only [List.flatten_cons, List.mem_append]; exact .inr hr) w' hw' s
            hsw hid

/-- What a record sequence split into windows has to satisfy: record ids are distinct, a
    connection epoch lives on one lane, and an epoch absent from a window in which its lane speaks
    never recurs. -/
structure EpochDiscipline (windows : List (List Accepted)) : Prop where
  distinct : (windows.flatten.map (·.view.recordId)).Nodup
  oneLane : ∀ r ∈ windows.flatten, ∀ s ∈ windows.flatten,
    r.view.connectionEpoch = s.view.connectionEpoch → r.lane = s.lane
  retired : ∀ past w rest, windows = past ++ w :: rest → ∀ r ∈ past.flatten,
    (∃ s ∈ w, s.lane = r.lane) → (∀ s ∈ w, s.view.connectionEpoch ≠ r.view.connectionEpoch) →
      ∀ s ∈ rest.flatten, s.view.connectionEpoch ≠ r.view.connectionEpoch

namespace EpochDiscipline

variable {windows : List (List Accepted)}

/-- Every record's epoch is still live when its window begins. -/
theorem live (h : EpochDiscipline windows) (older newer : List (List Accepted)) {w : List Accepted}
    (hw : windows = older ++ w :: newer) {r : Accepted} (hr : r ∈ w) :
    Live Accepted.lane (·.view.connectionEpoch) (homeOf windows.flatten) older.reverse
      r.view.connectionEpoch := by
  have hmem : ∀ {w' s}, w' ∈ older → s ∈ w' → s ∈ windows.flatten := by
    intro w' s hw' hs
    exact List.mem_flatten.mpr ⟨w', by simp [hw, hw'], hs⟩
  have hrm : r ∈ windows.flatten := List.mem_flatten.mpr ⟨w, by simp [hw], hr⟩
  refine live_of_forall_spoke ?_ ?_
  · intro newer' w' older' hrev hspoke
    by_contra hcon
    simp only [not_or, not_forall, not_not] at hcon
    obtain ⟨hocc, w'', hw'', s, hs, hse⟩ := hcon
    change s.view.connectionEpoch = r.view.connectionEpoch at hse
    have hold : older = older'.reverse ++ w' :: newer'.reverse := by
      rw [← List.reverse_reverse older, hrev]
      simp
    have hsm : s ∈ windows.flatten := hmem (by rw [hold]; simp [hw'']) hs
    refine h.retired older'.reverse w' (newer'.reverse ++ w :: newer) (by simp [hw, hold]) s
      (List.mem_flatten.mpr ⟨w'', by simp [hw''], hs⟩) ?_ ?_ r
      (List.mem_flatten.mpr ⟨w, by simp, hr⟩) hse.symm
    · obtain ⟨t, ht, htl⟩ := hspoke
      refine ⟨t, ht, ?_⟩
      rw [htl, homeOf_eq h.oneLane hsm, hse]
    · intro t ht hts
      exact hocc ⟨t, ht, hts.trans hse⟩
  · intro w' hw' hocc
    obtain ⟨s, hs, hse⟩ := hocc
    change s.view.connectionEpoch = r.view.connectionEpoch at hse
    refine ⟨s, hs, ?_⟩
    rw [homeOf_eq h.oneLane (hmem (by simpa using hw') hs), hse]

/-- The first windows of a disciplined sequence are disciplined. -/
theorem take {before after : List (List Accepted)} (h : EpochDiscipline (before ++ after)) :
    EpochDiscipline before where
  distinct := by
    have := h.distinct
    rw [List.flatten_append, List.map_append, List.nodup_append] at this
    exact this.1
  oneLane := by
    intro r hr s hs
    exact h.oneLane r (by simp only [List.flatten_append, List.mem_append]; exact .inl hr) s
      (by simp only [List.flatten_append, List.mem_append]; exact .inl hs)
  retired := by
    intro past w rest hw r hr hspoke habsent s hs
    exact h.retired past w (rest ++ after) (by simp [hw]) r hr hspoke habsent s
      (by simp only [List.flatten_append, List.mem_append]; exact .inl hs)

/-- The whole run from the start. -/
theorem run (h : EpochDiscipline windows) (mode : Arithmetic) (hash : String → ContentHash)
    (seq : CanonicalSeq) (seq' : FactSeq) :
    (∃ halt, classifyWindows mode hash {} seq windows = .error halt ∧
      Classifier.new.classifyAll mode hash seq' (windows.flatten.map (·.view)) = .error halt) ∨
    ∃ causes o facts c, classifyWindows mode hash {} seq windows = .ok (causes, o) ∧
      Classifier.new.classifyAll mode hash seq' (windows.flatten.map (·.view)) = .ok (facts, c) ∧
      causes = facts.map (·.cause) := by
  rcases (Between.nil (homeOf windows.flatten)).windows mode hash seq seq' windows
      (fun w hw r hr => homeOf_eq h.oneLane (List.mem_flatten.mpr ⟨w, hw, hr⟩))
      (fun older w newer hw r hr => by simpa using h.live older newer hw hr) h.distinct (by simp) with
    hstop | ⟨causes, o, facts, c, hw, hs, hc, -, -⟩
  · exact .inl hstop
  · exact .inr ⟨causes, o, facts, c, hw, hs, hc⟩

/-- A lane that is silent in the last windows keeps its carry. -/
theorem kept {before silent : List (List Accepted)} (h : EpochDiscipline (before ++ silent))
    (mode : Arithmetic) (hash : String → ContentHash) (seq : CanonicalSeq) {l : String}
    (hl : ∀ r ∈ silent.flatten, r.lane ≠ l) {causes causes' : List ContinuityCause}
    {o o' : OrderingState} (hbefore : classifyWindows mode hash {} seq before = .ok (causes, o))
    (hall : classifyWindows mode hash {} seq (before ++ silent) = .ok (causes', o')) :
    Kept l o o' := by
  have hhome : ∀ w ∈ before ++ silent, ∀ r ∈ w,
      r.lane = homeOf (before ++ silent).flatten r.view.connectionEpoch := by
    intro w hw r hr
    exact homeOf_eq h.oneLane (List.mem_flatten.mpr ⟨w, hw, hr⟩)
  have hids := h.distinct
  rw [List.flatten_append, List.map_append, List.nodup_append] at hids
  rcases (Between.nil _).windows mode hash seq Sequence.first before
      (fun w hw => hhome w (by simp [hw]))
      (fun older w newer hw r hr => by simpa using h.live older (newer ++ silent) (by simp [hw]) hr)
      hids.1 (by simp) with ⟨halt, hw, -⟩ | ⟨causes₁, o₁, facts, c, hw, -, -, hbetween, -⟩
  · rw [hw] at hbefore
    cases hbefore
  rw [hw] at hbefore
  cases hbefore
  obtain ⟨seq₁, happend⟩ := classifyWindows_append hw
  rw [happend] at hall
  have hnew : ∀ r ∈ silent.flatten, ∀ w' ∈ before.reverse ++ [], ∀ s ∈ w',
      s.view.recordId ≠ r.view.recordId := by
    intro r hr w' hw' s hs hid
    have hw'' : w' ∈ before := by simpa using hw'
    exact hids.2.2 _ (List.mem_map_of_mem (List.mem_flatten.mpr ⟨w', hw'', hs⟩)) _
      (List.mem_map_of_mem hr) hid
  rcases hbetween.windows mode hash seq₁ Sequence.first silent
      (fun w hw => hhome w (by simp [hw]))
      (fun older w newer hw r hr => by
        simpa using h.live (before ++ older) newer (by rw [hw, List.append_assoc]) hr)
      hids.2.1 hnew with ⟨halt, hw₂, -⟩ | ⟨causes₂, o₂, facts₂, c₂, hw₂, -, -, -, hkept⟩
  · rw [hw₂] at hall
    cases hall
  · rw [hw₂] at hall
    cases hall
    refine hkept l fun w hw ⟨r, hr, hrl⟩ => ?_
    exact hl r (List.mem_flatten.mpr ⟨w, hw, hr⟩) hrl

end EpochDiscipline

/-- Verdicts do not depend on window boundaries: every record gets the cause one uninterrupted
    classifier gives it, and a lane that is silent for some windows keeps its carry. -/
theorem verdicts_independent_of_windows (mode : Arithmetic) (hash : String → ContentHash)
    {windows : List (List Accepted)} (h : EpochDiscipline windows) (seq : CanonicalSeq)
    (seq' : FactSeq) :
    (classifyWindows mode hash {} seq windows).map (·.1) =
      (Classifier.new.classifyAll mode hash seq' (windows.flatten.map (·.view))).map
        (fun p => p.1.map (·.cause)) ∧
    ∀ before silent after l, windows = before ++ silent ++ after →
      (∀ r ∈ silent.flatten, r.lane ≠ l) → ∀ causes o causes' o',
        classifyWindows mode hash {} seq before = .ok (causes, o) →
        classifyWindows mode hash {} seq (before ++ silent) = .ok (causes', o') → Kept l o o' := by
  refine ⟨?_, ?_⟩
  · rcases h.run mode hash seq seq' with ⟨halt, hw, hs⟩ | ⟨causes, o, facts, c, hw, hs, hc⟩
    · rw [hw, hs]
      rfl
    · rw [hw, hs, hc]
      rfl
  · rintro before silent after l rfl hl causes o causes' o' hbefore hall
    exact h.take.kept mode hash seq hl hbefore hall

theorem one_lt_u64 : 1 < 2 ^ 64 := by decide

/-- A record of the sample lane: one connection whose cursor counts updates. -/
def sampleAccepted (id : String) (counter first last previousLast : Nat) : Accepted where
  lane := "kalshi"
  segmentSha256 := ""
  item := ⟨⟨counter, 1, ⟨0, 0, 1⟩, id, "", [], one_lt_u64⟩, none⟩
  view := {
    envelopeVersion := 1, deliveryIndex := 1, recordId := id, visibleNs := counter
    monotonicNs := none, venue := .kalshi, stream := .publicBook, connectionEpoch := "e"
    localCounter := counter, sourceCursor := some (.updateRange first last previousLast)
    kind := .venueFrame, rawPayload := id, index_lt := one_lt_u64 }

/-- A lane that speaks, is silent for a window, and goes on. -/
def sampleWindows : List (List Accepted) :=
  [[sampleAccepted "a" 1 1 5 0], [], [sampleAccepted "b" 2 6 7 5]]

theorem sampleWindows_discipline : EpochDiscipline sampleWindows where
  distinct := by decide
  oneLane := by decide
  retired := by
    have hall : ∀ w ∈ sampleWindows, ∀ r ∈ w, r.view.connectionEpoch = "e" := by decide
    rintro past w rest hw r hr ⟨s, hs, -⟩ habsent
    obtain ⟨w', hw', hr⟩ := List.mem_flatten.mp hr
    exact absurd ((hall w (by simp [hw]) s hs).trans (hall w' (by simp [hw, hw']) r hr).symm)
      (habsent s hs)

/-- After the silent window the cursor continues. -/
theorem verdicts_independent_of_windows_sample :
    (classifyWindows .wrapping (fun _ => ⟨List.replicate 32 0, rfl⟩) {} Sequence.first
      sampleWindows).map (·.1) = .ok [.bootstrap, .continuous 6 7] := by
  rw [(verdicts_independent_of_windows .wrapping _ sampleWindows_discipline Sequence.first
    Sequence.first).1]
  decide +kernel

end PredictionIndexer.Finalize
