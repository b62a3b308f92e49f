import PredictionIndexer.Engine.Walker
import PredictionIndexer.ForStd.Tiling

/-!
# What a walk is opened over

Planning sorts the windows by their starts and goes over them once. What it accepts are the windows
that follow each other without a gap and cover the requested interval with none to spare; these have
one order only, so the order they are given in makes no difference.

`inspect_pinned` validates each manifest, so that no window of it is empty.

## Key results

- `openWalker_eq_ok`: everything planning checks
- `open_iff_exactly_covers`: within the limits, a walk is opened over exactly covering windows
-/

namespace PredictionIndexer.Engine

open Fallible Tiling

/-- A window of a plan. -/
abbrev PlannedWindow := PinnedDerivative × DerivativeMetadata

abbrev PlannedWindow.start (p : PlannedWindow) : Nat := p.2.effectiveStartNs

abbrev PlannedWindow.stop (p : PlannedWindow) : Nat := p.2.effectiveEndNs

/-! ## Budgets -/

theorem add_eq_ok {total count maximum n : Nat} {label : String} :
    add total count maximum label = .ok n ↔ n = total + count ∧ n ≤ min maximum u64Max := by
  rw [add, okOr_eq_ok, Option.filter_eq_some_iff, checkedAdd_eq_some]
  simp only [decide_eq_true_eq, u64Max, le_min_iff]
  omega

/-- The bytes of the scope's names. -/
def scopeBytes (request : WalkRequest) : Nat :=
  ((request.scope.instruments.toList.map (·.val)).map (·.utf8ByteSize)).sum +
    ((request.scope.lanes.toList.map (·.val)).map (·.utf8ByteSize)).sum

/-- The bytes of the windows' paths and metadata. -/
def windowBytes (windows : List PlannedWindow) : Nat :=
  (windows.map fun p => p.1.directory.utf8ByteSize + p.2.metadataBytes).sum

theorem foldlM_names_eq_ok {names : List String} {maximum bytes n : Nat} {label : String}
    (hbytes : bytes ≤ min maximum u64Max) :
    names.foldlM (fun bytes (name : String) => add bytes name.utf8ByteSize maximum label) bytes =
      .ok n ↔ n = bytes + (names.map (·.utf8ByteSize)).sum ∧ n ≤ min maximum u64Max := by
  induction names generalizing bytes with
  | nil =>
    simp only [List.foldlM_nil, Except.pure_eq_ok, Except.ok.injEq, List.map_nil, List.sum_nil]
    omega
  | cons name names ih =>
    rw [List.foldlM_cons_eq_ok, List.map_cons, List.sum_cons]
    constructor
    · rintro ⟨b, hb, h⟩
      obtain ⟨rfl, hle⟩ := add_eq_ok.mp hb
      have := (ih hle).mp h
      omega
    · rintro ⟨rfl, hle⟩
      have hstep : bytes + name.utf8ByteSize ≤ min maximum u64Max := by omega
      exact ⟨_, add_eq_ok.mpr ⟨rfl, hstep⟩, (ih hstep).mpr ⟨by omega, hle⟩⟩

/-- Every input is a derivative, and these are their metadata. -/
def Inspected (store : Derivatives) : List PinnedDerivative → List PlannedWindow → Prop :=
  List.Forall₂ fun input p => p.1 = input ∧ store.inspectPinned input = .ok p.2

theorem inspectAll_eq_ok {store : Derivatives} {limits : ReadLimits}
    {inputs : List PinnedDerivative} {bytes : Nat} {windows : List PlannedWindow}
    (hbytes : bytes ≤ min limits.maxMetadataBytes u64Max) :
    inspectAll store limits inputs bytes = .ok windows ↔ Inspected store inputs windows ∧
      bytes + windowBytes windows ≤ min limits.maxMetadataBytes u64Max := by
  induction inputs generalizing bytes windows with
  | nil =>
    rw [inspectAll]
    constructor
    · intro h
      cases h
      exact ⟨.nil, by simpa [windowBytes] using hbytes⟩
    · rintro ⟨h, -⟩
      cases h
      rfl
  | cons input inputs ih =>
    rw [inspectAll]
    constructor
    · intro h
      obtain ⟨b, hb, h⟩ := Except.bind_eq_ok.mp h
      obtain ⟨metadata, hmetadata, h⟩ := Except.bind_eq_ok.mp h
      obtain ⟨b', hb', h⟩ := Except.bind_eq_ok.mp h
      obtain ⟨rest, hrest, h⟩ := Except.bind_eq_ok.mp h
      cases h
      obtain ⟨rfl, -⟩ := add_eq_ok.mp hb
      obtain ⟨rfl, hle⟩ := add_eq_ok.mp hb'
      obtain ⟨hinspected, htotal⟩ := (ih hle).mp hrest
      refine ⟨.cons ⟨rfl, hmetadata⟩ hinspected, ?_⟩
      simp only [windowBytes, List.map_cons, List.sum_cons] at htotal ⊢
      omega
    · rintro ⟨h, htotal⟩
      cases h with
      | @cons _ p _ rest hp hrest =>
        obtain ⟨p, metadata⟩ := p
        obtain ⟨rfl, hmetadata⟩ := hp
        simp only [windowBytes, List.map_cons, List.sum_cons] at htotal
        have hpath : bytes + p.directory.utf8ByteSize ≤ min limits.maxMetadataBytes u64Max := by
          omega
        have hwindow : bytes + p.directory.utf8ByteSize + metadata.metadataBytes ≤
            min limits.maxMetadataBytes u64Max := by omega
        refine Except.bind_eq_ok.mpr ⟨_, add_eq_ok.mpr ⟨rfl, hpath⟩, ?_⟩
        refine Except.bind_eq_ok.mpr ⟨_, hmetadata, ?_⟩
        refine Except.bind_eq_ok.mpr ⟨_, add_eq_ok.mpr ⟨rfl, hwindow⟩, ?_⟩
        refine Except.bind_eq_ok.mpr ⟨rest, (ih hwindow).mpr ⟨hrest, ?_⟩, rfl⟩
        simp only [windowBytes]
        omega

/-! ## The pass over the windows -/

/-- The check of the pass: the window is neither before nor behind the interval. -/
def Reaches (request : WalkRequest) (m : DerivativeMetadata) : Prop :=
  request.startNs < m.effectiveEndNs ∧ m.effectiveStartNs < request.endNs

theorem foldlM_adjacent_eq_ok {request : WalkRequest} {ms : List DerivativeMetadata}
    {from_ last : Option Nat} :
    ms.foldlM (fun last m =>
      if m.effectiveEndNs ≤ request.startNs || request.endNs ≤ m.effectiveStartNs then
        .error (.err "redundant window outside requested interval")
      else if last.any (m.effectiveStartNs ≠ ·) then
        .error (.err "derivative windows are not uniquely adjacent")
      else
        .ok (some m.effectiveEndNs)) from_ = (.ok last : Except Halt (Option Nat)) ↔
      (∀ m ∈ ms, Reaches request m) ∧
        Adjacent DerivativeMetadata.effectiveStartNs DerivativeMetadata.effectiveEndNs ms ∧
        (∀ e ∈ from_, ∀ m ∈ ms.head?, m.effectiveStartNs = e) ∧
        last = (ms.getLast?.map (·.effectiveEndNs)).or from_ := by
  induction ms generalizing from_ with
  | nil =>
    simp only [List.foldlM_nil, Except.pure_eq_ok, Except.ok.injEq, List.not_mem_nil,
      false_implies, implies_true, true_and, List.head?_nil, List.getLast?_nil, Option.map_none,
      Option.none_or, Adjacent, List.IsChain.nil, Option.mem_def, reduceCtorEq]
    exact eq_comm
  | cons m ms ih =>
    rw [List.foldlM_cons_eq_ok]
    have hreaches : (decide (m.effectiveEndNs ≤ request.startNs) ||
        decide (request.endNs ≤ m.effectiveStartNs)) = false ↔ Reaches request m := by
      simp [Reaches]
    have hfrom : from_.any (fun e => decide (m.effectiveStartNs ≠ e)) = false ↔
        ∀ e ∈ from_, m.effectiveStartNs = e := by
      cases from_ <;> simp
    have hchain : Adjacent DerivativeMetadata.effectiveStartNs DerivativeMetadata.effectiveEndNs
        (m :: ms) ↔ (∀ e ∈ some m.effectiveEndNs, ∀ m' ∈ ms.head?, m'.effectiveStartNs = e) ∧
          Adjacent DerivativeMetadata.effectiveStartNs DerivativeMetadata.effectiveEndNs ms := by
      cases ms with
      | nil => simp [Adjacent]
      | cons m' ms => simp [Adjacent, List.isChain_cons_cons]
    have hlast : ((m :: ms).getLast?.map (·.effectiveEndNs)).or from_ =
        (ms.getLast?.map (·.effectiveEndNs)).or (some m.effectiveEndNs) := by
      cases hms : ms.getLast? with
      | none => simp [List.getLast?_eq_none_iff.mp hms]
      | some m' => simp [List.getLast?_cons, hms]
    rw [hlast, hchain]
    constructor
    · rintro ⟨e, he, h⟩
      split at he
      · cases he
      · rename_i hin
        split at he
        · cases he
        · rename_i hany
          cases he
          obtain ⟨hall, hadjacent, hhead, rfl⟩ := ih.mp h
          refine ⟨List.forall_mem_cons.mpr ⟨hreaches.mp (by simpa using hin), hall⟩,
            ⟨hhead, hadjacent⟩, ?_, rfl⟩
          intro e he m' hm'
          cases hm'
          exact hfrom.mp (by simpa using hany) e he
    · rintro ⟨hall, ⟨hhead, hadjacent⟩, hstart, rfl⟩
      obtain ⟨hm, hall⟩ := List.forall_mem_cons.mp hall
      refine ⟨some m.effectiveEndNs, ?_, ih.mpr ⟨hall, hadjacent, hhead, rfl⟩⟩
      rw [hreaches.mpr hm, hfrom.mpr fun e he => hstart e he m rfl]
      rfl

/-! ## Opening -/

/-- The windows of a plan, in the order of their starts. -/
def planned (windows : List PlannedWindow) : List PlannedWindow :=
  windows.mergeSort fun a b => a.2.effectiveStartNs ≤ b.2.effectiveStartNs

/-- What does not depend on where the windows lie. `windows` is what the inputs inspect to. -/
structure WithinLimits (store : Derivatives) (inputs : List PinnedDerivative)
    (request : WalkRequest) (limits : ReadLimits) (windows : List PlannedWindow) : Prop where
  valid : limits.validate = .ok ()
  nonempty : inputs ≠ []
  count : inputs.length ≤ limits.maxWindows
  scope : min (request.scope.instruments.size + request.scope.lanes.size) u64Max ≤
    limits.maxScopeEntries
  inspected : Inspected store inputs windows
  bytes : scopeBytes request + windowBytes windows ≤ min limits.maxMetadataBytes u64Max

/-- What the pass over the sorted windows lets through, and where the walk starts then. -/
structure Passes (request : WalkRequest) (windows : List PlannedWindow) (startNs : Nat) : Prop where
  proper : request.startNs < request.endNs
  reaches : ∀ p ∈ windows, Reaches request p.2
  adjacent : Adjacent PlannedWindow.start PlannedWindow.stop windows
  covers : ∃ first last, windows.head? = some first ∧ windows.getLast? = some last ∧
    first.start ≤ request.startNs ∧ request.endNs ≤ last.stop ∧
    effectiveStart request first.start = .ok startNs

theorem failIf_eq_ok {condition : Bool} {message : String} :
    failIf condition message = .ok () ↔ condition = false := by
  cases condition <;> simp [failIf]

theorem adjacent_map {windows : List PlannedWindow} :
    Adjacent DerivativeMetadata.effectiveStartNs DerivativeMetadata.effectiveEndNs
      (windows.map (·.2)) ↔ Adjacent PlannedWindow.start PlannedWindow.stop windows := by
  rw [Adjacent, List.isChain_map]
  rfl

/-- Everything that planning checks. -/
theorem openWalker_eq_ok {store : Derivatives} {inputs : List PinnedDerivative}
    {request : WalkRequest} {limits : ReadLimits} {w : DerivativeWalker} :
    openWalker store inputs request limits = .ok w ↔
      ∃ windows startNs, WithinLimits store inputs request limits windows ∧
        Passes request (planned windows) startNs ∧
        w = { windows := planned windows, request, effectiveStartNs := startNs, limits } := by
  have hzero : (0 : Nat) ≤ min limits.maxMetadataBytes u64Max := Nat.zero_le _
  constructor
  · intro h
    obtain ⟨_, hlimits, h⟩ := Except.bind_eq_ok.mp h
    obtain ⟨_, hcount, h⟩ := Except.bind_eq_ok.mp h
    obtain ⟨_, hproper, h⟩ := Except.bind_eq_ok.mp h
    obtain ⟨_, hscope, h⟩ := Except.bind_eq_ok.mp h
    obtain ⟨b, hb, h⟩ := Except.bind_eq_ok.mp h
    obtain ⟨b', hb', h⟩ := Except.bind_eq_ok.mp h
    obtain ⟨windows, hwindows, h⟩ := Except.bind_eq_ok.mp h
    obtain ⟨last, hlast, h⟩ := Except.bind_eq_ok.mp h
    obtain ⟨first, hfirst, h⟩ := Except.bind_eq_ok.mp h
    obtain ⟨stop, hstop, h⟩ := Except.bind_eq_ok.mp h
    obtain ⟨_, hcovers, h⟩ := Except.bind_eq_ok.mp h
    obtain ⟨startNs, hstart, h⟩ := Except.bind_eq_ok.mp h
    cases h
    obtain ⟨rfl, hb⟩ := (foldlM_names_eq_ok hzero).mp hb
    obtain ⟨rfl, hb'⟩ := (foldlM_names_eq_ok hb).mp hb'
    obtain ⟨hinspected, hbytes⟩ := (inspectAll_eq_ok hb').mp hwindows
    obtain ⟨hreaches, hadjacent, -, rfl⟩ := foldlM_adjacent_eq_ok.mp hlast
    rw [failIf_eq_ok] at hcount hproper hscope hcovers
    rw [unwrap_eq_ok] at hfirst hstop
    simp only [Bool.or_eq_false_iff, List.isEmpty_eq_false_iff, decide_eq_false_iff_not,
      not_lt, not_le] at hcount hproper hscope hcovers
    rw [List.getLast?_map, Option.map_map, Option.or_none, Option.map_eq_some_iff] at hstop
    obtain ⟨last, hlast, rfl⟩ := hstop
    refine ⟨windows, startNs, ⟨hlimits, hcount.1, hcount.2, hscope, hinspected, ?_⟩,
      ⟨hproper, fun p hp => hreaches p.2 (List.mem_map_of_mem hp), adjacent_map.mp hadjacent,
        first, last, hfirst, hlast, hcovers.1, hcovers.2, hstart⟩, rfl⟩
    rw [scopeBytes]
    omega
  · rintro ⟨windows, startNs, hw, hp, rfl⟩
    obtain ⟨first, last, hfirst, hlast, hlower, hupper, hstart⟩ := hp.covers
    have hbytes := hw.bytes
    rw [scopeBytes] at hbytes
    have hinstruments : 0 + ((request.scope.instruments.toList.map (·.val)).map
        (·.utf8ByteSize)).sum ≤ min limits.maxMetadataBytes u64Max := by omega
    have hlanes : 0 + ((request.scope.instruments.toList.map (·.val)).map (·.utf8ByteSize)).sum +
        ((request.scope.lanes.toList.map (·.val)).map (·.utf8ByteSize)).sum ≤
          min limits.maxMetadataBytes u64Max := by omega
    have hreaches : ∀ m ∈ (planned windows).map (·.2), Reaches request m := by
      intro m hm
      obtain ⟨p, hmem, rfl⟩ := List.mem_map.mp hm
      exact hp.reaches p hmem
    have hstop : ((planned windows).map (·.2)).getLast?.map (·.effectiveEndNs) =
        some last.stop := by
      rw [List.getLast?_map, hlast]
      rfl
    refine Except.bind_eq_ok.mpr ⟨(), hw.valid, ?_⟩
    refine Except.bind_eq_ok.mpr ⟨(), failIf_eq_ok.mpr (by simp [hw.nonempty, hw.count]), ?_⟩
    refine Except.bind_eq_ok.mpr ⟨(), failIf_eq_ok.mpr (by simp [hp.proper]), ?_⟩
    refine Except.bind_eq_ok.mpr ⟨(), failIf_eq_ok.mpr (decide_eq_false (not_lt.mpr hw.scope)), ?_⟩
    refine Except.bind_eq_ok.mpr ⟨_, (foldlM_names_eq_ok hzero).mpr ⟨rfl, hinstruments⟩, ?_⟩
    refine Except.bind_eq_ok.mpr ⟨_, (foldlM_names_eq_ok hinstruments).mpr ⟨rfl, hlanes⟩, ?_⟩
    refine Except.bind_eq_ok.mpr ⟨windows, (inspectAll_eq_ok hlanes).mpr
      ⟨hw.inspected, by omega⟩, ?_⟩
    refine Except.bind_eq_ok.mpr ⟨some last.stop, foldlM_adjacent_eq_ok.mpr
      ⟨hreaches, adjacent_map.mpr hp.adjacent, by simp, ?_⟩, ?_⟩
    · rw [Option.or_none]
      exact hstop.symm
    · refine Except.bind_eq_ok.mpr ⟨first, unwrap_eq_ok.mpr hfirst, ?_⟩
      refine Except.bind_eq_ok.mpr ⟨last.stop, rfl, ?_⟩
      refine Except.bind_eq_ok.mpr ⟨(), failIf_eq_ok.mpr (by simp [hlower, hupper]), ?_⟩
      exact Except.bind_eq_ok.mpr ⟨startNs, hstart, rfl⟩

/-! ## Exact covers -/

/-- The windows cover the requested interval with none to spare. -/
structure ExactlyCovers (request : WalkRequest) (windows : List PlannedWindow) : Prop where
  meets : ∀ p ∈ windows, ∃ t, request.startNs ≤ t ∧ t < request.endNs ∧ p.start ≤ t ∧ t < p.stop
  adjacent : Adjacent PlannedWindow.start PlannedWindow.stop windows
  covers : ∀ t, request.startNs ≤ t → t < request.endNs →
    Covers PlannedWindow.start PlannedWindow.stop windows t
  boundary : request.lowerBound = .requireWindowBoundary →
    ∀ p ∈ windows.head?, p.start = request.startNs

/-- In the order of the starts. -/
abbrev ByStart (windows : List PlannedWindow) : Prop := windows.Pairwise fun a b => a.start ≤ b.start

theorem planned_perm (windows : List PlannedWindow) : (planned windows).Perm windows :=
  List.mergeSort_perm _ _

theorem planned_sorted (windows : List PlannedWindow) : ByStart (planned windows) := by
  have h := @List.pairwise_mergeSort _
    (fun a b : PlannedWindow => decide (a.2.effectiveStartNs ≤ b.2.effectiveStartNs))
    (fun a b c => by simpa using Nat.le_trans) (fun a b => by simpa using Nat.le_total _ _) windows
  exact h.imp fun h => by simpa using h

theorem meets_iff {request : WalkRequest} {p : PlannedWindow} (hp : p.start < p.stop)
    (hrequest : request.startNs < request.endNs) :
    (∃ t, request.startNs ≤ t ∧ t < request.endNs ∧ p.start ≤ t ∧ t < p.stop) ↔
      Reaches request p.2 := by
  constructor
  · rintro ⟨t, hlo, hhi, hstart, hstop⟩
    exact ⟨hlo.trans_lt hstop, hstart.trans_lt hhi⟩
  · rintro ⟨hlo, hhi⟩
    exact ⟨max request.startNs p.start, le_max_left _ _, max_lt hrequest hhi, le_max_right _ _,
      max_lt hlo hp⟩

theorem effectiveStart_iff {request : WalkRequest} {start : Nat} :
    (∃ startNs, effectiveStart request start = .ok startNs) ↔
      (request.lowerBound = .requireWindowBoundary → start = request.startNs) := by
  unfold effectiveStart
  cases request.lowerBound with
  | clip => simp
  | expandToWindowStart => simp
  | requireWindowBoundary =>
    dsimp only
    split <;> simp_all

/-- The pass accepts exact covers and nothing else. -/
theorem exists_passes_iff {request : WalkRequest} {windows : List PlannedWindow}
    (hne : windows ≠ []) (hproper : Proper PlannedWindow.start PlannedWindow.stop windows) :
    (∃ startNs, Passes request windows startNs) ↔ ExactlyCovers request windows := by
  obtain ⟨first, hfirst⟩ := Option.isSome_iff_exists.mp (List.isSome_head?.mpr hne)
  obtain ⟨last, hlast⟩ : ∃ last, windows.getLast? = some last :=
    ⟨_, List.getLast?_eq_some_getLast hne⟩
  constructor
  · rintro ⟨startNs, hrequest, hreaches, hadjacent, first', last', hfirst', hlast', hlo, hhi,
      hstart⟩
    refine ⟨fun p hp => (meets_iff (hproper p hp) hrequest).mpr (hreaches p hp), hadjacent,
      (hadjacent.covers_interval_iff hproper hfirst' hlast' hrequest).mpr ⟨hlo, hhi⟩, ?_⟩
    intro hboundary p hp
    rw [Option.mem_def, hfirst'] at hp
    cases hp
    exact effectiveStart_iff.mp ⟨startNs, hstart⟩ hboundary
  · rintro ⟨hmeets, hadjacent, hcovers, hboundary⟩
    have hrequest : request.startNs < request.endNs := by
      obtain ⟨t, hlo, hhi, -⟩ := hmeets first (List.mem_of_mem_head? hfirst)
      exact hlo.trans_lt hhi
    obtain ⟨hlo, hhi⟩ :=
      (hadjacent.covers_interval_iff hproper hfirst hlast hrequest).mp hcovers
    obtain ⟨startNs, hstart⟩ := effectiveStart_iff.mpr fun h => hboundary h first hfirst
    exact ⟨startNs, hrequest, fun p hp => (meets_iff (hproper p hp) hrequest).mp (hmeets p hp),
      hadjacent, first, last, hfirst, hlast, hlo, hhi, hstart⟩

/-- A plan of the same windows is the same plan. -/
theorem planned_eq {request : WalkRequest} {windows windows' : List PlannedWindow} {startNs : Nat}
    (hpasses : Passes request (planned windows) startNs)
    (hproper : Proper PlannedWindow.start PlannedWindow.stop windows)
    (hperm : windows'.Perm windows) : planned windows' = planned windows := by
  refine hpasses.adjacent.eq_of_perm (fun p hp => hproper p ((planned_perm windows).subset hp)) ?_
    (planned_sorted windows')
  exact ((planned_perm windows').trans hperm).trans (planned_perm windows).symm

section Store

variable {store : Derivatives} {inputs inputs' : List PinnedDerivative} {request : WalkRequest}
  {limits : ReadLimits} {windows : List PlannedWindow}

theorem proper_of_inspected
    (hvalid : ∀ input m, store.inspectPinned input = .ok m → m.effectiveStartNs < m.effectiveEndNs)
    (h : Inspected store inputs windows) :
    Proper PlannedWindow.start PlannedWindow.stop windows := by
  intro p hp
  obtain ⟨input, -, -, hinspect⟩ := h.exists_of_mem_right hp
  exact hvalid input p.2 hinspect

/-- The inputs in another order are the same windows in another order. -/
theorem WithinLimits.perm (hw : WithinLimits store inputs request limits windows)
    (hperm : inputs'.Perm inputs) :
    ∃ windows', windows'.Perm windows ∧ WithinLimits store inputs' request limits windows' := by
  obtain ⟨windows', hinspected, hperm'⟩ := List.perm_comp_forall₂ hperm hw.inspected
  refine ⟨windows', hperm', hw.valid, fun h => hw.nonempty ?_, ?_, hw.scope, hinspected, ?_⟩
  · rw [h] at hperm
    exact hperm.nil_eq.symm
  · rw [hperm.length_eq]
    exact hw.count
  · have hbytes : windowBytes windows' = windowBytes windows := (hperm'.map _).sum_eq
    rw [hbytes]
    exact hw.bytes

theorem openWalker_perm
    (hvalid : ∀ input m, store.inspectPinned input = .ok m → m.effectiveStartNs < m.effectiveEndNs)
    (hperm : inputs'.Perm inputs) {w : DerivativeWalker}
    (h : openWalker store inputs request limits = .ok w) :
    openWalker store inputs' request limits = .ok w := by
  obtain ⟨windows, startNs, hw, hp, rfl⟩ := openWalker_eq_ok.mp h
  obtain ⟨windows', hperm', hw'⟩ := hw.perm hperm
  have hsame := planned_eq hp (proper_of_inspected hvalid hw.inspected) hperm'
  refine openWalker_eq_ok.mpr ⟨windows', startNs, hw', ?_, ?_⟩
  · rw [hsame]
    exact hp
  · rw [hsame]

end Store

/-- Within the limits a walk is opened just if the windows, by their starts, cover the requested
    interval exactly, and it goes over them in that order. Whatever the limits, the order that the
    windows are given in makes no difference. -/
theorem open_iff_exactly_covers (store : Derivatives)
    (hvalid : ∀ input m, store.inspectPinned input = .ok m → m.effectiveStartNs < m.effectiveEndNs)
    (inputs : List PinnedDerivative) (request : WalkRequest) (limits : ReadLimits) :
    (∀ windows, WithinLimits store inputs request limits windows →
      ((∃ w, openWalker store inputs request limits = .ok w) ↔
        ∃ sorted, sorted.Perm windows ∧ ByStart sorted ∧ ExactlyCovers request sorted) ∧
      ∀ w, openWalker store inputs request limits = .ok w →
        w.windows.Perm windows ∧ ByStart w.windows ∧ ExactlyCovers request w.windows) ∧
    ∀ inputs', inputs'.Perm inputs →
      (openWalker store inputs' request limits).toOption =
        (openWalker store inputs request limits).toOption := by
  refine ⟨fun windows hw => ?_, fun inputs' hperm => ?_⟩
  · have hproper := proper_of_inspected hvalid hw.inspected
    have hne : windows ≠ [] := by
      intro hnil
      have hlength := hw.inspected.length_eq
      rw [hnil, List.length_nil, List.length_eq_zero_iff] at hlength
      exact hw.nonempty hlength
    have hne' : ∀ {sorted : List PlannedWindow}, sorted.Perm windows → sorted ≠ [] :=
      fun h hnil => hne (by rw [hnil] at h; exact h.nil_eq.symm)
    have hproper' : ∀ {sorted : List PlannedWindow}, sorted.Perm windows →
        Proper PlannedWindow.start PlannedWindow.stop sorted :=
      fun h p hp => hproper p (h.subset hp)
    have hopened : ∀ w, openWalker store inputs request limits = .ok w →
        w.windows.Perm windows ∧ ByStart w.windows ∧ ExactlyCovers request w.windows := by
      intro w hopen
      obtain ⟨windows', startNs, hw', hp, rfl⟩ := openWalker_eq_ok.mp hopen
      have hsame : windows' = windows := by
        have hfunctional : Relator.RightUnique fun (input : PinnedDerivative) (p : PlannedWindow) =>
            p.1 = input ∧ store.inspectPinned input = .ok p.2 := by
          rintro input ⟨i, m⟩ ⟨i', m'⟩ ⟨rfl, hm⟩ ⟨rfl, hm'⟩
          rw [hm] at hm'
          cases hm'
          rfl
        exact List.right_unique_forall₂' hfunctional hw'.inspected hw.inspected
      rw [hsame] at hp ⊢
      exact ⟨planned_perm windows, planned_sorted windows,
        (exists_passes_iff (hne' (planned_perm windows)) (hproper' (planned_perm windows))).mp
          ⟨startNs, hp⟩⟩
    refine ⟨⟨fun ⟨w, hopen⟩ => ⟨w.windows, hopened w hopen⟩, ?_⟩, hopened⟩
    rintro ⟨sorted, hperm, hsorted, hcovers⟩
    obtain ⟨startNs, hp⟩ := (exists_passes_iff (hne' hperm) (hproper' hperm)).mpr hcovers
    have hplanned : planned windows = sorted :=
      hcovers.adjacent.eq_of_perm (hproper' hperm) ((planned_perm windows).trans hperm.symm)
        (planned_sorted windows)
    refine ⟨_, openWalker_eq_ok.mpr ⟨windows, startNs, hw, ?_, rfl⟩⟩
    rw [hplanned]
    exact hp
  · cases hopen : openWalker store inputs request limits with
    | ok w => rw [openWalker_perm hvalid hperm hopen]
    | error e =>
      cases hopen' : openWalker store inputs' request limits with
      | ok w =>
        rw [openWalker_perm hvalid hperm.symm hopen'] at hopen
        cases hopen
      | error e' => rfl

/-! ## Fixed inputs -/

/-- The window of ten that a directory is named after. -/
def decadeMetadata (directory : String) : DerivativeMetadata :=
  ⟨⟨"d", "r"⟩, 10 * directory.length, 10 * directory.length + 10, 0, none, 1⟩

def decadeStore : Derivatives where
  inspectPinned input := .ok (decadeMetadata input.directory)
  snapshot _ := .error (.err "not opened")

def decadeInput (directory : String) : PinnedDerivative := ⟨directory, ⟨"d", "r"⟩⟩

def decadeRequest : WalkRequest := ⟨12, 30, .clip, ⟨∅, ∅⟩⟩

/-- Two windows, the later one given first. -/
theorem open_iff_exactly_covers_sample :
    ∃ w, openWalker decadeStore [decadeInput "aa", decadeInput "a"] decadeRequest {} = .ok w := by
  have hopen := (open_iff_exactly_covers decadeStore (by
    intro input m h
    cases h
    show 10 * _ < 10 * _ + 10
    omega) [decadeInput "aa", decadeInput "a"] decadeRequest {}).1
    [(decadeInput "aa", decadeMetadata "aa"), (decadeInput "a", decadeMetadata "a")]
    { valid := by decide
      nonempty := by simp
      count := by decide
      scope := by decide
      inspected := .cons ⟨rfl, rfl⟩ (.cons ⟨rfl, rfl⟩ .nil)
      bytes := by decide }
  refine hopen.1.mpr ⟨[(decadeInput "a", decadeMetadata "a"), (decadeInput "aa", decadeMetadata "aa")],
    .swap _ _ _, by decide, ?_, by simp [Adjacent]; decide, ?_, by simp [decadeRequest]⟩
  · have hmeets : ∀ p ∈ ([(decadeInput "a", decadeMetadata "a"),
        (decadeInput "aa", decadeMetadata "aa")] : List PlannedWindow),
          max 12 p.start < 30 ∧ max 12 p.start < p.stop := by decide
    intro p hp
    obtain ⟨hhi, hstop⟩ := hmeets p hp
    exact ⟨max 12 p.start, le_max_left _ _, hhi, le_max_right _ _, hstop⟩
  · intro t hlo hhi
    change 12 ≤ t at hlo
    change t < 30 at hhi
    by_cases h : t < 20
    · refine ⟨(decadeInput "a", decadeMetadata "a"), by simp, ?_, h⟩
      show 10 ≤ t
      omega
    · refine ⟨(decadeInput "aa", decadeMetadata "aa"), by simp, ?_, hhi⟩
      show 20 ≤ t
      omega

end PredictionIndexer.Engine
