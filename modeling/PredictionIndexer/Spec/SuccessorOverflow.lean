import PredictionIndexer.Finalize.Reader
import PredictionIndexer.ForStd.Overflow

/-!
# Successors of sequence numbers

The classifier, the merge and the lane reader compare a number with the successor of the one before
it, and take that successor with `+ 1` on a `u64` that an envelope supplies. Behind the greatest
`u64` the sum overflows: the checked build panics and the wrapping build measures the next number
against zero. Each component overflows just in the states described here, and otherwise does what
exact arithmetic would do.
-/

namespace PredictionIndexer

open Fallible

/-- A previous number is there, and its successor is no `u64`. -/
def Maximal (previous : Option Nat) : Prop := ∃ p ∈ previous, 2 ^ 64 ≤ p + 1

@[simp] theorem maximal_none : ¬Maximal none := by
  rintro ⟨p, hp, _⟩
  cases hp

@[simp] theorem maximal_some {p : Nat} : Maximal (some p) ↔ 2 ^ 64 ≤ p + 1 := by
  simp [Maximal]

namespace Continuity

/-! ## The classifier -/

section Classifier

variable {envelope : EnvelopeView} {previousCounter previousKey : Option Nat}
  {hash : String → ContentHash} {c : Classifier} {position seq : FactSeq}

theorem honest_localBreak (observed : Nat) (previous : Option Nat) :
    Honest fun mode => localBreak mode observed previous := by
  cases previous with
  | none => exact honest_const _
  | some previous => exact (honest_add previous 1).bind fun expected => honest_const _

theorem honest_classifyCursor (previousKey : Option Nat) (cursor : Option SourceCursor) :
    Honest fun mode => classifyCursor mode previousKey cursor := by
  unfold classifyCursor
  split
  case h_5 first last previousLast =>
    cases previousKey with
    | none => exact honest_const _
    | some previous =>
      refine Honest.bind ?_ fun follows => honest_const _
      unfold rangeFollows
      split
      · exact honest_const _
      · exact (honest_add previous 1).bind fun next => honest_const _
  all_goals exact honest_const _

theorem honest_classifyCause (envelope : EnvelopeView) (previousCounter previousKey : Option Nat) :
    Honest fun mode => classifyCause mode envelope previousCounter previousKey := by
  refine (honest_localBreak _ _).bind fun broken => ?_
  cases broken with
  | some cause => exact honest_const _
  | none =>
    simp only
    split
    · exact honest_const _
    · exact honest_classifyCursor _ _

theorem honest_classify (hash : String → ContentHash) (c : Classifier) (envelope : EnvelopeView)
    (position : FactSeq) : Honest fun mode => c.classify mode hash envelope position := by
  unfold Classifier.classify Classifier.classifyWithIdentity
  cases c.state.identity.verdict envelope.recordId (hash envelope.rawPayload) with
  | unseen => exact (honest_classifyCause _ _ _).bind fun cause => honest_const _
  | duplicate original => exact honest_const _
  | conflict original content => exact honest_const _

theorem honest_classifyAll (hash : String → ContentHash) (c : Classifier) (seq : FactSeq)
    (envelopes : List EnvelopeView) :
    Honest fun mode => c.classifyAll mode hash seq envelopes := by
  induction envelopes generalizing c seq with
  | nil => exact honest_const _
  | cons envelope envelopes ih =>
    refine (honest_classify hash c envelope seq).bind fun fact => ?_
    exact (ih (c.apply fact) seq.next).bind fun rest => honest_const _

/-- A delivery is measured against a counter or a key that has no successor. The key matters where
the counter holds, and to a range that does not name the key as its predecessor. -/
def CauseOverflows (envelope : EnvelopeView) (previousCounter previousKey : Option Nat) : Prop :=
  Maximal previousCounter ∨
    (∀ p ∈ previousCounter, envelope.localCounter = p + 1) ∧ envelope.kind = .venueFrame ∧
      Maximal previousKey ∧ ∃ first last previousLast,
        envelope.sourceCursor = some (.updateRange first last previousLast) ∧
          previousKey ≠ some previousLast

theorem localBreak_eq_panic_iff {observed : Nat} {previous : Option Nat} :
    localBreak .checked observed previous = .error .panic ↔ Maximal previous := by
  cases previous with
  | none => simp [localBreak]
  | some previous =>
    rw [localBreak, bind_eq_panic_iff, add_eq_panic_iff, maximal_some]
    simp

theorem localBreak_eq_none_iff {observed : Nat} {previous : Option Nat} :
    localBreak .checked observed previous = .ok none ↔
      ¬Maximal previous ∧ ∀ p ∈ previous, observed = p + 1 := by
  cases previous with
  | none => simp [localBreak]
  | some previous =>
    rw [maximal_some, not_le]
    simp only [localBreak, Arithmetic.add, Option.mem_def, Option.some.injEq, forall_eq']
    split
    next hlt =>
      simp only [Except.ok_bind, Except.pure_eq_ok, Except.ok.injEq, hlt, true_and]
      split <;> simp_all
    next hge => exact iff_of_false (by simp) fun h => hge h.1

theorem rangeFollows_eq_panic_iff {previous first previousLast : Nat} :
    rangeFollows .checked previous first previousLast = .error .panic ↔
      2 ^ 64 ≤ previous + 1 ∧ previous ≠ previousLast := by
  unfold rangeFollows
  split
  next hsame => simp [hsame]
  next hother =>
    rw [bind_eq_panic_iff, add_eq_panic_iff]
    simp [Ne.symm hother]

theorem classifyCursor_eq_panic_iff {cursor : Option SourceCursor} :
    classifyCursor .checked previousKey cursor = .error .panic ↔
      Maximal previousKey ∧ ∃ first last previousLast,
        cursor = some (.updateRange first last previousLast) ∧
          previousKey ≠ some previousLast := by
  unfold classifyCursor
  split
  case h_5 first last previousLast =>
    cases previousKey with
    | none => simp
    | some previous =>
      have hafter (follows : Bool) : (if follows = true then pure (.continuous first last)
          else if last ≤ previous then pure (.cursorWentBackwards previous last)
          else pure (.gapProven previous first) : Except Halt ContinuityCause) ≠ .error .panic := by
        split
        · simp
        · split <;> simp
      simp only [bind_eq_panic_iff, rangeFollows_eq_panic_iff, hafter, and_false, exists_false,
        or_false, maximal_some, ne_eq, Option.some.injEq, SourceCursor.updateRange.injEq]
      constructor
      · rintro ⟨hmax, hne⟩
        exact ⟨hmax, first, last, previousLast, ⟨rfl, rfl, rfl⟩, hne⟩
      · rintro ⟨hmax, _, _, _, ⟨rfl, rfl, rfl⟩, hne⟩
        exact ⟨hmax, hne⟩
  all_goals simp

theorem classifyCause_eq_panic_iff :
    classifyCause .checked envelope previousCounter previousKey = .error .panic ↔
      CauseOverflows envelope previousCounter previousKey := by
  unfold classifyCause CauseOverflows
  rw [bind_eq_panic_iff, localBreak_eq_panic_iff]
  by_cases hmax : Maximal previousCounter
  · simp [hmax]
  simp only [hmax, false_or]
  constructor
  · rintro ⟨broken, hbroken, hpanic⟩
    cases broken with
    | some cause => simp at hpanic
    | none =>
      simp only at hpanic
      split at hpanic
      next hkind => simp at hpanic
      next hkind =>
        exact ⟨(localBreak_eq_none_iff.mp hbroken).2, not_not.mp hkind,
          classifyCursor_eq_panic_iff.mp hpanic⟩
  · rintro ⟨hcounter, hkind, hcursor⟩
    refine ⟨none, localBreak_eq_none_iff.mpr ⟨hmax, hcounter⟩, ?_⟩
    simp only [hkind, ne_eq, not_true_eq_false, if_false]
    exact classifyCursor_eq_panic_iff.mpr hcursor

/-- A delivery that is new is measured against a counter or a key that has no successor. -/
def Classifier.Overflows (hash : String → ContentHash) (c : Classifier) (envelope : EnvelopeView) :
    Prop :=
  c.state.identity.verdict envelope.recordId (hash envelope.rawPayload) = .unseen ∧
    CauseOverflows envelope
      c.state.connections[(⟨envelope.venue, envelope.connectionEpoch⟩ : ConnectionKey)]?
      (c.state.epochs[Classifier.epochKey envelope]?.bind EpochState.monotonicKey)

theorem classify_eq_panic_iff :
    c.classify .checked hash envelope position = .error .panic ↔ c.Overflows hash envelope := by
  unfold Classifier.classify Classifier.classifyWithIdentity Classifier.Overflows
  cases c.state.identity.verdict envelope.recordId (hash envelope.rawPayload) with
  | unseen =>
    simp only [bind_eq_panic_iff, Except.pure_eq_ok, reduceCtorEq, and_false, exists_false,
      or_false, true_and]
    exact classifyCause_eq_panic_iff
  | duplicate original => simp
  | conflict original content => simp

/-- A stream panics at the first delivery that overflows, behind those that did not. -/
theorem classifyAll_eq_panic_iff {envelopes : List EnvelopeView} :
    c.classifyAll .checked hash seq envelopes = .error .panic ↔
      ∃ before envelope behind facts c', envelopes = before ++ envelope :: behind ∧
        c.classifyAll .checked hash seq before = .ok (facts, c') ∧ c'.Overflows hash envelope := by
  induction envelopes generalizing c seq with
  | nil => simp [Classifier.classifyAll]
  | cons first envelopes ih =>
    rw [Classifier.classifyAll, bind_eq_panic_iff, classify_eq_panic_iff]
    constructor
    · rintro (hover | ⟨fact, hfact, hrest⟩)
      · exact ⟨[], first, envelopes, [], c, rfl, rfl, hover⟩
      · have hpanic : (c.apply fact).classifyAll .checked hash seq.next envelopes =
            .error .panic := by
          simpa [bind_eq_panic_iff] using hrest
        obtain ⟨before, envelope, behind, facts, c', rfl, hbefore, hover⟩ := ih.mp hpanic
        refine ⟨first :: before, envelope, behind, fact :: facts, c', rfl, ?_, hover⟩
        simp [Classifier.classifyAll, hfact, hbefore]
    · rintro ⟨before, envelope, behind, facts, c', hsplit, hbefore, hover⟩
      cases before with
      | nil =>
        cases hsplit
        cases hbefore
        exact .inl hover
      | cons head before =>
        cases hsplit
        rw [Classifier.classifyAll] at hbefore
        obtain ⟨fact, hfact, hbefore⟩ := Except.bind_eq_ok.mp hbefore
        obtain ⟨⟨facts', c''⟩, hall, hbefore⟩ := Except.bind_eq_ok.mp hbefore
        cases hbefore
        refine .inr ⟨fact, hfact, bind_eq_panic_iff.mpr (.inl ?_)⟩
        exact ih.mpr ⟨before, envelope, behind, facts', c', rfl, hall, hover⟩

end Classifier

end Continuity

namespace Finalize

open Continuity

/-! ## The merge -/

/-- A lane has a record ahead, behind one whose index has no successor. -/
def Cursor.Overflows (c : Cursor) : Prop :=
  Maximal c.lastDeliveryIndex ∧ ∃ r stream, c.stream = .ok r :: stream

section Merge

variable {m m' ready : Merge} {c : Cursor} {r : LaneRecord} {slot : Nat}

theorem honest_check (c : Cursor) (r : LaneRecord) : Honest fun mode => Merge.check mode c r := by
  unfold Merge.check
  cases c.lastDeliveryIndex with
  | none => exact honest_const _
  | some previous => exact (honest_add previous 1).bind fun expected => honest_const _

theorem honest_advance (m : Merge) (slot : Nat) : Honest fun mode => m.advance mode slot := by
  refine (honest_const _).bind fun c => ?_
  split
  · exact honest_const _
  · exact honest_const _
  · exact (honest_check c _).bind fun detail => honest_const _

theorem honest_prime (m : Merge) (slots : List Nat) : Honest fun mode => m.prime mode slots := by
  induction slots generalizing m with
  | nil => exact honest_const _
  | cons slot slots ih =>
    refine (honest_advance m slot).bind fun result => ?_
    cases result with
    | error fault => exact honest_const _
    | ok m' => exact ih m'

theorem honest_pull (m : Merge) : Honest fun mode => m.pull mode := by
  unfold Merge.pull
  split
  · exact honest_const _
  · exact (honest_advance _ _).bind fun result => honest_const _

theorem honest_next (m : Merge) : Honest fun mode => m.next mode := by
  unfold Merge.next
  split
  · exact honest_const _
  · split
    · exact honest_pull m
    · refine (honest_prime _ _).bind fun result => ?_
      cases result with
      | error fault => exact honest_const _
      | ok m' => exact honest_pull m'

theorem drain_eq_collect (mode : Arithmetic) (m : Merge) (fuel : Nat) :
    m.drain mode fuel = collect Merge.next mode fuel m := by
  induction fuel generalizing m with
  | zero => rfl
  | succ fuel ih =>
    rw [Merge.drain, collect]
    congr
    funext result
    obtain ⟨item | item, m'⟩ := result
    · rfl
    · simp only [ih]

theorem check_eq_panic_iff :
    Merge.check .checked c r = .error .panic ↔ Maximal c.lastDeliveryIndex := by
  unfold Merge.check
  cases c.lastDeliveryIndex with
  | none => simp
  | some previous =>
    rw [maximal_some, bind_eq_panic_iff, add_eq_panic_iff]
    simp

theorem advance_eq_panic_iff (hslot : m.cursors[slot]? = some c) :
    m.advance .checked slot = .error .panic ↔ c.Overflows := by
  unfold Merge.advance Cursor.Overflows
  simp only [hslot, unwrap, Except.ok_bind]
  split
  next hstream => simp [hstream]
  next hstream => simp [hstream]
  next r stream hstream =>
    rw [bind_eq_panic_iff, check_eq_panic_iff]
    simp only [hstream, List.cons.injEq, Except.ok.injEq, exists_and_left, exists_eq', and_true]
    constructor
    · rintro (hmax | ⟨detail, _, hpanic⟩)
      · exact hmax
      · cases detail <;> simp at hpanic
    · exact .inl

/-- What an advance leaves: the other cursors, and no heap entry of a slot that was not there. -/
structure Advanced (m m' : Merge) (slot : Nat) : Prop where
  length_eq : m'.cursors.length = m.cursors.length
  others : ∀ other, other ≠ slot → m'.cursors[other]? = m.cursors[other]?
  heap : ∀ p ∈ m'.heap, p ∈ m.heap ∨ p.slot = slot
  primed : m'.primed = m.primed

theorem advanced_of_advance (h : m.advance .checked slot = .ok (.ok m')) : Advanced m m' slot := by
  unfold Merge.advance at h
  obtain ⟨c, hslot, h⟩ := Except.bind_eq_ok.mp h
  split at h
  next => cases h; exact ⟨rfl, fun _ _ => rfl, fun _ hp => .inl hp, rfl⟩
  next => cases h
  next r stream hstream =>
    obtain ⟨detail, _, h⟩ := Except.bind_eq_ok.mp h
    cases detail with
    | some detail => cases h
    | none =>
      cases h
      refine ⟨List.length_set, fun other hne => List.getElem?_set_ne (Ne.symm hne), ?_, rfl⟩
      intro p hp
      rcases List.mem_cons.mp hp with rfl | hp
      · exact .inr rfl
      · exact .inl hp

/-- Every entry of the heap has its cursor, and before the priming no lane has been read. -/
structure Placed (m : Merge) : Prop where
  slots : ∀ p ∈ m.heap, p.slot < m.cursors.length
  fresh : m.primed = false → ∀ c ∈ m.cursors, c.lastDeliveryIndex = none

theorem Placed.unread (h : Placed m) (hprimed : ¬m.primed = true) :
    ∀ slot ∈ List.range m.cursors.length,
      ∃ c, m.cursors[slot]? = some c ∧ c.lastDeliveryIndex = none := by
  intro slot hslot
  have hlt : slot < m.cursors.length := List.mem_range.mp hslot
  exact ⟨m.cursors[slot], List.getElem?_eq_getElem hlt,
    h.fresh (by simpa using hprimed) _ (List.getElem_mem hlt)⟩

theorem Placed.of_advanced (h : ∀ p ∈ m.heap, p.slot < m.cursors.length)
    (hslot : slot < m.cursors.length) (hadvanced : Advanced m m' slot) :
    ∀ p ∈ m'.heap, p.slot < m'.cursors.length := by
  intro p hp
  rw [hadvanced.length_eq]
  rcases hadvanced.heap p hp with hp | rfl
  · exact h p hp
  · exact hslot

/-- Priming reads each lane once, so it meets no previous index. -/
theorem prime_spec {slots : List Nat} (hnodup : slots.Nodup)
    (hslots : ∀ slot ∈ slots, ∃ c, m.cursors[slot]? = some c ∧ c.lastDeliveryIndex = none)
    (hheap : ∀ p ∈ m.heap, p.slot < m.cursors.length) :
    m.prime .checked slots ≠ .error .panic ∧
      ∀ m', m.prime .checked slots = .ok (.ok m') →
        (∀ p ∈ m'.heap, p.slot < m'.cursors.length) ∧ m'.primed = m.primed := by
  induction slots generalizing m with
  | nil =>
    refine ⟨by simp [Merge.prime], fun m' h => ?_⟩
    cases h
    exact ⟨hheap, rfl⟩
  | cons slot slots ih =>
    obtain ⟨hnot, hnodup⟩ := List.nodup_cons.mp hnodup
    obtain ⟨c, hslot, hlast⟩ := hslots slot List.mem_cons_self
    have hlt : slot < m.cursors.length := (List.getElem?_eq_some_iff.mp hslot).1
    have hreturns : m.advance .checked slot ≠ .error .panic := by
      rw [ne_eq, advance_eq_panic_iff hslot, Cursor.Overflows, hlast]
      simp
    -- what the rest of the loop starts from
    have hnext {next : Merge} (h : m.advance .checked slot = .ok (.ok next)) :=
      @ih next hnodup
        (fun other hother => by
          obtain ⟨c', hc', hlast'⟩ := hslots other (List.mem_cons_of_mem _ hother)
          refine ⟨c', ?_, hlast'⟩
          rw [(advanced_of_advance h).others other (fun heq => hnot (heq ▸ hother)), hc'])
        (Placed.of_advanced hheap hlt (advanced_of_advance h))
    constructor
    · rw [Merge.prime, ne_eq, bind_eq_panic_iff]
      rintro (hpanic | ⟨result, hresult, hpanic⟩)
      · exact hreturns hpanic
      · cases result with
        | error fault => simp at hpanic
        | ok next => exact (hnext hresult).1 hpanic
    · intro m' h
      rw [Merge.prime] at h
      obtain ⟨result, hresult, h⟩ := Except.bind_eq_ok.mp h
      cases result with
      | error fault => cases h
      | ok next =>
        obtain ⟨hplaced, hprimed⟩ := (hnext hresult).2 m' h
        exact ⟨hplaced, hprimed.trans (advanced_of_advance hresult).primed⟩

/-- The merge as it pulls: primed, or what priming makes of it. -/
def Merge.Ready (m ready : Merge) : Prop :=
  if m.primed then ready = m
  else Merge.prime .checked { m with primed := true } (List.range m.cursors.length) =
    .ok (.ok ready)

/-- The lane of the least head overflows. -/
def Merge.Overflows (m : Merge) : Prop :=
  m.failed = false ∧ ∃ ready, m.Ready ready ∧ ∃ pending heap c,
    PriorityQueue.popMin Pending.key ready.heap = some (pending, heap) ∧
      ready.cursors[pending.slot]? = some c ∧ c.Overflows

theorem pull_eq_panic_iff (h : ∀ p ∈ m.heap, p.slot < m.cursors.length) :
    m.pull .checked = .error .panic ↔ ∃ pending heap c,
      PriorityQueue.popMin Pending.key m.heap = some (pending, heap) ∧
        m.cursors[pending.slot]? = some c ∧ c.Overflows := by
  unfold Merge.pull
  split
  next hpop => simp [hpop]
  next pending heap hpop =>
    have hmem : pending ∈ m.heap :=
      (PriorityQueue.popMin_perm hpop).mem_iff.mpr List.mem_cons_self
    obtain ⟨c, hslot⟩ : ∃ c, m.cursors[pending.slot]? = some c :=
      ⟨_, List.getElem?_eq_getElem (h pending hmem)⟩
    have hadvance : Merge.advance .checked { m with heap := heap } pending.slot = .error .panic ↔
        c.Overflows := advance_eq_panic_iff hslot
    rw [bind_eq_panic_iff, hadvance]
    constructor
    · rintro (hover | ⟨result, _, hpanic⟩)
      · exact ⟨pending, heap, c, hpop, hslot, hover⟩
      · cases result <;> simp at hpanic
    · rintro ⟨pending', heap', c', hpop', hslot', hover⟩
      rw [hpop] at hpop'
      cases hpop'
      rw [hslot] at hslot'
      cases hslot'
      exact .inl hover

/-- Priming a placed merge. -/
theorem Placed.prime_spec (h : Placed m) (hprimed : ¬m.primed = true) :
    Merge.prime .checked { m with primed := true } (List.range m.cursors.length) ≠
        .error .panic ∧
      ∀ m', Merge.prime .checked { m with primed := true } (List.range m.cursors.length) =
        .ok (.ok m') → ∀ p ∈ m'.heap, p.slot < m'.cursors.length := by
  have hspec := @Finalize.prime_spec { m with primed := true } _ List.nodup_range
    (h.unread hprimed) h.slots
  exact ⟨hspec.1, fun m' hm' => (hspec.2 m' hm').1⟩

/-- The state a placed merge pulls from is placed. -/
theorem Placed.slots_of_ready (h : Placed m) (hready : m.Ready ready) :
    ∀ p ∈ ready.heap, p.slot < ready.cursors.length := by
  unfold Merge.Ready at hready
  split at hready
  next => exact hready ▸ h.slots
  next hprimed => exact (h.prime_spec hprimed).2 ready hready

theorem next_eq_panic_iff (h : Placed m) : m.next .checked = .error .panic ↔ m.Overflows := by
  unfold Merge.next Merge.Overflows
  split
  next hfailed => simp [hfailed]
  next hfailed =>
    rw [and_iff_right (by simpa using hfailed)]
    split
    next hprimed =>
      simp only [Merge.Ready, hprimed, if_true, exists_eq_left]
      exact pull_eq_panic_iff h.slots
    next hprimed =>
      have hready (ready : Merge) : m.Ready ready ↔
          Merge.prime .checked { m with primed := true } (List.range m.cursors.length) =
            .ok (.ok ready) := by
        rw [Merge.Ready, if_neg hprimed]
      simp only
      rw [bind_eq_panic_iff, or_iff_right (h.prime_spec hprimed).1]
      constructor
      · rintro ⟨result, hresult, hpanic⟩
        cases result with
        | error fault => simp at hpanic
        | ok ready =>
          exact ⟨ready, (hready ready).mpr hresult,
            (pull_eq_panic_iff (h.slots_of_ready ((hready ready).mpr hresult))).mp hpanic⟩
      · rintro ⟨ready, hresult, hover⟩
        exact ⟨.ok ready, (hready ready).mp hresult,
          (pull_eq_panic_iff (h.slots_of_ready hresult)).mpr hover⟩

/-- A pull keeps a primed merge placed. -/
theorem placed_of_pull {item : Merge.Item} (h : ∀ p ∈ m.heap, p.slot < m.cursors.length)
    (hprimed : m.primed = true) (hpull : m.pull .checked = .ok (item, m')) : Placed m' := by
  have hown : Placed m := ⟨h, fun hnot => by rw [hprimed] at hnot; cases hnot⟩
  unfold Merge.pull at hpull
  split at hpull
  next => cases hpull; exact hown
  next pending heap hpop =>
    have hperm := PriorityQueue.popMin_perm hpop
    obtain ⟨result, hresult, hpull⟩ := Except.bind_eq_ok.mp hpull
    cases result with
    | error fault => cases hpull; exact ⟨hown.slots, hown.fresh⟩
    | ok next =>
      cases hpull
      have hadvanced := advanced_of_advance hresult
      have hrest : ∀ p ∈ heap, p.slot < m.cursors.length :=
        fun p hp => h p (hperm.mem_iff.mpr (List.mem_cons_of_mem _ hp))
      have hslot : pending.slot < m.cursors.length :=
        h pending (hperm.mem_iff.mpr List.mem_cons_self)
      have hslots := @Placed.of_advanced { m with heap := heap } _ _ hrest hslot hadvanced
      refine ⟨hslots, fun hnot => ?_⟩
      rw [hadvanced.primed, hprimed] at hnot
      cases hnot

/-- A call keeps the merge placed. -/
theorem placed_of_next {item : Merge.Item} (h : Placed m)
    (hnext : m.next .checked = .ok (item, m')) : Placed m' := by
  unfold Merge.next at hnext
  split at hnext
  next => cases hnext; exact h
  next =>
    split at hnext
    next hprimed => exact placed_of_pull h.slots hprimed hnext
    next hprimed =>
      obtain ⟨result, hresult, hnext⟩ := Except.bind_eq_ok.mp hnext
      have hspec := @prime_spec { m with primed := true } _ List.nodup_range (h.unread hprimed)
        h.slots
      cases result with
      | error fault =>
        cases hnext
        exact ⟨h.slots, fun hnot => by cases hnot⟩
      | ok ready =>
        obtain ⟨hslots, hready⟩ := hspec.2 ready hresult
        exact placed_of_pull hslots hready hnext

theorem placed_new {lanes : List (String × List (Except String LaneRecord))}
    (h : Merge.new lanes = .ok m) : Placed m := by
  unfold Merge.new at h
  simp only at h
  split at h
  next => cases h
  next =>
    cases h
    refine ⟨by simp, fun _ c hc => ?_⟩
    obtain ⟨lane, _, rfl⟩ := List.mem_map.mp hc
    rfl

/-- Draining a merge overflows just if a call of it does. -/
theorem noOverflow_drain_iff (h : Placed m) (fuel : Nat) :
    NoOverflow (fun mode => m.drain mode fuel) ↔
      AtCalls Merge.next (fun m => ¬m.Overflows) fuel m := by
  simp only [drain_eq_collect]
  rw [noOverflow_collect_iff honest_next]
  refine atCalls_congr h (fun m item m' hm hnext => placed_of_next hm hnext) fun m hm => ?_
  rw [(honest_next m).noOverflow_iff, ne_eq, next_eq_panic_iff hm]

end Merge

/-! ## The lane reader -/

/-- A record that is dense by its seal is measured against an index that has no successor. -/
structure RecordOverflows (claims : SegmentClaims) (seen : SegmentTally) (record : LaneRecord) :
    Prop where
  dense : claims.deliveryIndexDense = true
  previous : Maximal seen.lastDeliveryIndex
  starts : claims.windowStartNs ≤ record.visibleNs
  ends : record.visibleNs < claims.windowEndNs
  ordered : claims.visibleNonDecreasing = true →
    ∀ p ∈ seen.lastVisibleNs, p ≤ record.visibleNs

section Reader

variable {env : ReadEnv} {r r' : LaneReader} {lane lineNumber : Nat} {segment : SegmentInput}
  {seen : SegmentTally} {claims : SegmentClaims} {record : LaneRecord} {position : String}
  {line : List UInt8}

theorem refuse_ne_panic (condition : Bool) (message : String) :
    Segments.refuse condition message ≠ .error .panic := by
  unfold Segments.refuse
  split <;> simp

theorem honest_checkIndex (claims : SegmentClaims) (seen : SegmentTally) (position : String)
    (record : LaneRecord) : Honest fun mode => checkIndex mode claims seen position record := by
  unfold checkIndex
  split
  · split
    · exact (honest_add _ 1).bind fun next => honest_const _
    · exact honest_const _
  · exact honest_const _

theorem honest_checkRecord (claims : SegmentClaims) (seen : SegmentTally) (position : String)
    (record : LaneRecord) : Honest fun mode => checkRecord mode claims seen position record :=
  (honest_const _).bind fun _ =>
    (honest_checkIndex claims seen position record).bind fun _ => honest_const _

theorem checkClock_ne_panic : checkClock claims seen position record ≠ .error .panic := by
  unfold checkClock
  rw [ne_eq, bind_eq_panic_iff]
  rintro (hpanic | ⟨_, _, hpanic⟩)
  · exact refuse_ne_panic _ _ hpanic
  · split at hpanic
    · exact refuse_ne_panic _ _ hpanic
    · cases hpanic

theorem checkClock_eq_ok_iff {u : Unit} : checkClock claims seen position record = .ok u ↔
    claims.windowStartNs ≤ record.visibleNs ∧ record.visibleNs < claims.windowEndNs ∧
      (claims.visibleNonDecreasing = true → ∀ p ∈ seen.lastVisibleNs, p ≤ record.visibleNs) := by
  unfold checkClock
  rw [Except.bind_eq_ok]
  simp only [Segments.refuse_eq_ok, Bool.or_eq_false_iff, decide_eq_false_iff_not, exists_const,
    not_lt, ge_iff_le, not_le, and_assoc]
  refine and_congr_right fun _ => and_congr_right fun _ => ?_
  cases seen.lastVisibleNs with
  | none => simp
  | some previous =>
    rw [Segments.refuse_eq_ok]
    simp

theorem checkIndex_eq_panic_iff :
    checkIndex .checked claims seen position record = .error .panic ↔
      claims.deliveryIndexDense = true ∧ Maximal seen.lastDeliveryIndex := by
  unfold checkIndex
  split
  next hdense =>
    cases seen.lastDeliveryIndex with
    | none => simp
    | some previous =>
      simp only [hdense, true_and]
      rw [maximal_some, bind_eq_panic_iff, add_eq_panic_iff]
      simp only [refuse_ne_panic, and_false, exists_false, or_false]
  next hdense => simp [hdense]

theorem checkRecord_eq_panic_iff :
    checkRecord .checked claims seen position record = .error .panic ↔
      RecordOverflows claims seen record := by
  unfold checkRecord
  simp only [bind_eq_panic_iff, checkClock_ne_panic, refuse_ne_panic, and_false, exists_false,
    or_false, false_or, checkIndex_eq_panic_iff]
  constructor
  · rintro ⟨_, hclock, hdense, hmax⟩
    obtain ⟨hstarts, hends, hordered⟩ := checkClock_eq_ok_iff.mp hclock
    exact ⟨hdense, hmax, hstarts, hends, hordered⟩
  · intro h
    exact ⟨(), checkClock_eq_ok_iff.mpr ⟨h.starts, h.ends, h.ordered⟩, h.dense, h.previous⟩

/-- A line holds a record that overflows by the claims of its segment. -/
def LineOverflows (env : ReadEnv) (lane : Nat) (segment : SegmentInput) (seen : SegmentTally)
    (lineNumber : Nat) (line : List UInt8) : Prop :=
  ∃ record, parseLine env lane segment lineNumber line = .ok record ∧
    ∃ claims ∈ segment.claims, RecordOverflows claims seen record

theorem parseLine_ne_panic : parseLine env lane segment lineNumber line ≠ .error .panic := by
  unfold parseLine
  rw [ne_eq, bind_eq_panic_iff]
  rintro (hpanic | ⟨_, _, hpanic⟩)
  · exact refuse_ne_panic _ _ hpanic
  · split at hpanic <;> cases hpanic

theorem acceptLine_eq_panic_iff (hmode : env.mode = .checked) :
    acceptLine env lane segment seen lineNumber line = .error .panic ↔
      LineOverflows env lane segment seen lineNumber line := by
  unfold acceptLine LineOverflows
  rw [bind_eq_panic_iff, or_iff_right parseLine_ne_panic]
  refine exists_congr fun record => and_congr_right fun _ => ?_
  cases segment.claims with
  | none => simp
  | some claims =>
    simp only [hmode, bind_eq_panic_iff, checkRecord_eq_panic_iff]
    simp

theorem honest_acceptLine (env : ReadEnv) (lane : Nat) (segment : SegmentInput)
    (seen : SegmentTally) (lineNumber : Nat) (line : List UInt8) :
    Honest fun mode => acceptLine { env with mode := mode } lane segment seen lineNumber line := by
  unfold acceptLine
  refine Honest.bind (honest_const (parseLine env lane segment lineNumber line)) fun record => ?_
  cases segment.claims with
  | none => exact honest_const _
  | some claims => exact (honest_checkRecord claims seen _ record).bind fun _ => honest_const _

theorem readLine_end (hcurrent : r.current = none) (hsegments : r.segments = []) :
    r.readLine env = .ok (none, r) := by
  rw [LaneReader.readLine]
  split
  next => split <;> simp_all
  next hsome => simp [hcurrent] at hsome

theorem readLine_open {segments : List SegmentInput} (hcurrent : r.current = none)
    (hsegments : r.segments = segment :: segments) :
    r.readLine env = (do
      let source ← orHalt (env.disk segment.path) "opening" segment.path
      LaneReader.readLine env { r with
        segments := segments, current := some (segment, source), lineNumber := 0, seen := {} }) := by
  rw [LaneReader.readLine]
  split
  next =>
    split
    next hnil => simp [hsegments] at hnil
    next hcons =>
      rw [hsegments] at hcons
      cases hcons
      rfl
  next hsome => simp [hcurrent] at hsome

theorem readLine_line {source : Source} (hcurrent : r.current = some (segment, source)) :
    r.readLine env = (do
      let (line, source) ← orHalt source.readLine "reading" segment.path
      if line.isEmpty then
        closeSegment segment r.seen
        LaneReader.readLine env { r with current := none }
      else
        let record ← acceptLine env r.lane segment r.seen (r.lineNumber + 1) line
        return (some record, { r with
          current := some (segment, source)
          lineNumber := r.lineNumber + 1
          seen := r.seen.observe record })) := by
  rw [LaneReader.readLine]
  split
  next hnone => simp [hcurrent] at hnone
  next hsome =>
    rw [hcurrent] at hsome
    cases hsome
    rfl

theorem honest_readLine (env : ReadEnv) (r : LaneReader) :
    Honest fun mode => r.readLine { env with mode := mode } := by
  induction r using LaneReader.readLine.induct with
  | case1 r hcurrent hsegments =>
    simp only [readLine_end hcurrent hsegments]
    exact honest_const _
  | case2 r hcurrent segment segments hsegments ih =>
    simp only [readLine_open hcurrent hsegments]
    exact (honest_const _).bind fun source => ih source
  | case3 r segment source hcurrent ih =>
    simp only [readLine_line hcurrent]
    refine (honest_const _).bind fun (line, rest) => ?_
    simp only
    split
    · exact (honest_const _).bind fun _ => ih
    · exact (honest_acceptLine env _ _ _ _ line).bind fun record => honest_const _

theorem honest_nextLine (env : ReadEnv) (r : LaneReader) :
    Honest fun mode => r.next { env with mode := mode } := by
  unfold LaneReader.next
  split
  · exact honest_const _
  · intro hreturns
    have hline : r.readLine { env with mode := .checked } ≠ .error .panic := by
      intro hpanic
      exact hreturns (by simp only [hpanic])
    simp only [honest_readLine env r hline]

theorem orHalt_ne_panic {α : Type} {x : Except String α} {action path : String} :
    orHalt x action path ≠ .error .panic := by
  cases x <;> simp [orHalt]

theorem closeSegment_ne_panic : closeSegment segment seen ≠ .error .panic := by
  unfold closeSegment
  split
  · simp
  · simp only [ne_eq, bind_eq_panic_iff, refuse_ne_panic, and_false, exists_false, or_false,
      not_false_eq_true]

/-- A reader without an index behind it in the open segment does not overflow. -/
theorem readLine_ne_panic (hmode : env.mode = .checked)
    (hfresh : r.current = none ∨ r.seen.lastDeliveryIndex = none) :
    r.readLine env ≠ .error .panic := by
  induction r using LaneReader.readLine.induct with
  | case1 r hcurrent hsegments => simp [readLine_end hcurrent hsegments]
  | case2 r hcurrent segment segments hsegments ih =>
    rw [readLine_open hcurrent hsegments, ne_eq, bind_eq_panic_iff]
    rintro (hpanic | ⟨source, _, hpanic⟩)
    · exact orHalt_ne_panic hpanic
    · exact ih source (.inr rfl) hpanic
  | case3 r segment source hcurrent ih =>
    have hlast : r.seen.lastDeliveryIndex = none := by simpa [hcurrent] using hfresh
    rw [readLine_line hcurrent, ne_eq, bind_eq_panic_iff]
    rintro (hpanic | ⟨⟨line, rest⟩, _, hpanic⟩)
    · exact orHalt_ne_panic hpanic
    · simp only at hpanic
      split at hpanic
      · rcases bind_eq_panic_iff.mp hpanic with hpanic | ⟨_, _, hpanic⟩
        · exact closeSegment_ne_panic hpanic
        · exact ih (.inl rfl) hpanic
      · rcases bind_eq_panic_iff.mp hpanic with hpanic | ⟨_, _, hpanic⟩
        · obtain ⟨_, _, claims, _, hover⟩ := (acceptLine_eq_panic_iff hmode).mp hpanic
          simpa [hlast] using hover.previous
        · cases hpanic

/-- The line ahead in the open segment overflows. -/
def LaneReader.Overflows (env : ReadEnv) (r : LaneReader) : Prop :=
  r.finished = false ∧ ∃ segment source line rest, r.current = some (segment, source) ∧
    source.readLine = .ok (line, rest) ∧ line.isEmpty = false ∧
      LineOverflows env r.lane segment r.seen (r.lineNumber + 1) line

theorem readLine_eq_panic_iff (hmode : env.mode = .checked) (hfinished : r.finished = false) :
    r.readLine env = .error .panic ↔ r.Overflows env := by
  unfold LaneReader.Overflows
  rw [and_iff_right hfinished]
  cases hcurrent : r.current with
  | none =>
    refine iff_of_false (readLine_ne_panic hmode (.inl hcurrent)) ?_
    rintro ⟨_, _, _, _, hsome, _⟩
    cases hsome
  | some opened =>
    obtain ⟨segment, source⟩ := opened
    rw [readLine_line hcurrent, bind_eq_panic_iff, or_iff_right orHalt_ne_panic]
    constructor
    · rintro ⟨⟨line, rest⟩, hline, hpanic⟩
      have hread : source.readLine = .ok (line, rest) := by
        cases hsource : source.readLine with
        | error detail => simp [hsource, orHalt] at hline
        | ok x => simpa [hsource, orHalt] using hline
      simp only at hpanic
      split at hpanic
      next hempty =>
        rcases bind_eq_panic_iff.mp hpanic with hpanic | ⟨_, _, hpanic⟩
        · exact absurd hpanic closeSegment_ne_panic
        · exact absurd hpanic (readLine_ne_panic hmode (.inl rfl))
      next hempty =>
        rcases bind_eq_panic_iff.mp hpanic with hpanic | ⟨_, _, hpanic⟩
        · exact ⟨segment, source, line, rest, rfl, hread, by simpa using hempty,
            (acceptLine_eq_panic_iff hmode).mp hpanic⟩
        · cases hpanic
    · rintro ⟨segment', source', line, rest, hsome, hread, hempty, hover⟩
      cases hsome
      refine ⟨(line, rest), by simp [hread, orHalt], ?_⟩
      simp only [hempty, Bool.false_eq_true, if_false]
      exact bind_eq_panic_iff.mpr (.inl ((acceptLine_eq_panic_iff hmode).mpr hover))

theorem nextLine_eq_panic_iff (hmode : env.mode = .checked) :
    r.next env = .error .panic ↔ r.Overflows env := by
  unfold LaneReader.next
  split
  next hfinished => simp [LaneReader.Overflows, hfinished]
  next hfinished =>
    rw [← readLine_eq_panic_iff hmode (by simpa using hfinished)]
    split
    next hline => simp [hline]
    next hline => simp [hline]
    next hline => simp [hline]
    next hline => simp [hline]

/-- Reading a lane overflows just if a call of it does. -/
theorem noOverflow_read_iff (env : ReadEnv) (r : LaneReader) (fuel : Nat) :
    NoOverflow (fun mode =>
        collect (fun mode (r : LaneReader) => r.next { env with mode := mode }) mode fuel r) ↔
      AtCalls (fun mode (r : LaneReader) => r.next { env with mode := mode })
        (fun r => ¬r.Overflows { env with mode := .checked }) fuel r := by
  rw [noOverflow_collect_iff (honest_nextLine env)]
  refine @atCalls_congr _ _ _ _ _ (fun _ => True) _ _ trivial (fun _ _ _ _ _ => trivial) fun r _ => ?_
  rw [(honest_nextLine env r).noOverflow_iff, ne_eq, nextLine_eq_panic_iff rfl]

end Reader

/-! ## Every successor -/

/-- The classifier, the merge and the lane reader overflow just where a step of theirs measures a
number against one that has no successor. -/
theorem successors_overflow_iff (hash : String → ContentHash) (c : Classifier) (seq : FactSeq)
    (envelopes : List EnvelopeView) (lanes : List (String × List (Except String LaneRecord)))
    (env : ReadEnv) (lane : Nat) (segments : List SegmentInput) (fuel : Nat) :
    (NoOverflow (fun mode => c.classifyAll mode hash seq envelopes) ↔
      ∀ before envelope behind facts c', envelopes = before ++ envelope :: behind →
        c.classifyAll .checked hash seq before = .ok (facts, c') →
          ¬c'.Overflows hash envelope) ∧
    (∀ m : Merge, Merge.new lanes = .ok m →
      (NoOverflow (fun mode => m.drain mode fuel) ↔
        AtCalls Merge.next (fun m => ¬m.Overflows) fuel m)) ∧
    (NoOverflow (fun mode => collect
        (fun mode (r : LaneReader) => r.next { env with mode := mode }) mode fuel
        (LaneReader.new lane segments)) ↔
      AtCalls (fun mode (r : LaneReader) => r.next { env with mode := mode })
        (fun r => ¬r.Overflows { env with mode := .checked }) fuel
        (LaneReader.new lane segments)) := by
  refine ⟨?_, fun m hnew => noOverflow_drain_iff (placed_new hnew) fuel,
    noOverflow_read_iff env _ fuel⟩
  rw [(honest_classifyAll hash c seq envelopes).noOverflow_iff, ne_eq, classifyAll_eq_panic_iff]
  simp only [not_exists, not_and]

/-! ## A maximal counter -/

theorem counted_index_lt : 0 < 2 ^ 64 := Nat.two_pow_pos 64

/-- A record of one connection. -/
def countedView (recordId : String) (counter : Nat) : EnvelopeView where
  envelopeVersion := 1
  deliveryIndex := 0
  recordId
  visibleNs := 0
  monotonicNs := none
  venue := .polymarket
  stream := .publicTrade
  connectionEpoch := "e1"
  localCounter := counter
  sourceCursor := none
  kind := .venueFrame
  rawPayload := "x"
  index_lt := counted_index_lt

theorem zeroHash_length : (List.replicate 32 (0 : UInt8)).length = 32 := List.length_replicate

def zeroHash : ContentHash := ⟨List.replicate 32 0, zeroHash_length⟩

/-- The greatest counter, and a break back to zero. -/
def countedViews : List EnvelopeView := [countedView "a" (2 ^ 64 - 1), countedView "b" 0]

/-- Behind the greatest counter the checked build panics, and the wrapping build takes a counter of
zero for the next one. -/
theorem maximal_counter_overflows :
    ¬NoOverflow (fun mode => Classifier.new.classifyAll mode (fun _ => zeroHash) Sequence.first
      countedViews) ∧
    Classifier.new.classifyAll .checked (fun _ => zeroHash) Sequence.first countedViews =
      .error .panic ∧
    ∃ facts c, Classifier.new.classifyAll .wrapping (fun _ => zeroHash) Sequence.first
        countedViews = .ok (facts, c) ∧
      facts.map (·.cause) = [.bootstrap, .bootstrap] := by
  have hpanic : Classifier.new.classifyAll .checked (fun _ => zeroHash) Sequence.first
      countedViews = .error .panic := rfl
  refine ⟨fun h => h.returns hpanic, hpanic, _, _, rfl, by decide⟩

end Finalize

end PredictionIndexer
