import PredictionIndexer.Streams.Consumer

/-!
# Safety of the stream protocol

`Inv` relates the stream, the counters of the state hash and every consumer to what the system has
done so far. `GroupStream.Tracks` is its core: the stream holds what some group has not
acknowledged yet. The counters say the same again, kept apart: `bytes` is the size of what is
stored, `published` and `done` are the lengths of the history and of the acknowledged prefixes.

Each action keeps the invariant; a run does by induction, and the results read off it.
-/

namespace PredictionIndexer.Streams

open GroupStream (Tracks)

/-- A counter that starts at `-1` and continues with the ID of the last entry counted. -/
def mark (n : Nat) : Int := if n = 0 then -1 else n

@[simp] theorem mark_zero : mark 0 = -1 := rfl

theorem mark_of_pos {n : Nat} (h : 0 < n) : mark n = n := if_neg (by omega)

theorem mark_inj {m n : Nat} (h : mark m = mark n) : m = n := by
  unfold mark at h
  split at h <;> split at h <;> omega

/-- The bytes of some entries. -/
def entryBytes (entries : List (Nat × String)) : Nat :=
  (entries.map fun e => e.2.utf8ByteSize).sum

/-! ## Appending -/

namespace Attempt

theorem map_fst_numbered (first : Nat) (records : List String) :
    (numbered first records).map (·.1) = List.range' first records.length := by
  rw [numbered, List.map_map]
  exact List.zipIdx_map_snd first records

theorem map_snd_numbered (first : Nat) (records : List String) :
    (numbered first records).map (·.2) = records := by
  simp [numbered, Function.comp_def]

theorem length_numbered (first : Nat) (records : List String) :
    (numbered first records).length = records.length := by
  simp [numbered]

theorem entryBytes_numbered (first : Nat) (records : List String) :
    entryBytes (numbered first records) = (records.map String.utf8ByteSize).sum := by
  rw [← congrArg (fun l => (l.map String.utf8ByteSize).sum) (map_snd_numbered first records)]
  simp [entryBytes, Function.comp_def]

theorem fitting_le_length (bytes : Int) (limit : Nat) (sizes : List Nat) :
    fitting bytes limit sizes ≤ sizes.length := by
  induction sizes generalizing bytes with
  | nil => exact le_rfl
  | cons size sizes ih =>
    unfold fitting
    split
    · simpa using ih (bytes + size)
    · exact Nat.zero_le _

/-- The prefix that is appended stays under the byte limit. -/
theorem fitting_le (bytes : Int) (limit : Nat) (sizes : List Nat) (h : bytes ≤ limit) :
    bytes + ((sizes.take (fitting bytes limit sizes)).sum : Nat) ≤ limit := by
  induction sizes generalizing bytes with
  | nil => simpa [fitting] using h
  | cons size sizes ih =>
    unfold fitting
    split
    · next hfits =>
      have := ih (bytes + size) hfits
      rw [List.take_succ_cons, List.sum_cons, Nat.cast_add]
      omega
    · simpa using h

theorem setSizes_of_notMem {size : Nat → Option Nat} {entries : List (Nat × String)} {id : Nat}
    (h : id ∉ entries.map (·.1)) : setSizes size entries id = size id := by
  unfold setSizes
  induction entries generalizing size with
  | nil => rfl
  | cons e es ih =>
    rw [List.map_cons, List.mem_cons, not_or] at h
    rw [List.foldl_cons, ih h.2, Function.update_of_ne h.1]

theorem setSizes_of_mem {size : Nat → Option Nat} {entries : List (Nat × String)}
    (hnodup : (entries.map (·.1)).Nodup) {e : Nat × String} (h : e ∈ entries) :
    setSizes size entries e.1 = some e.2.utf8ByteSize := by
  induction entries generalizing size with
  | nil => simp at h
  | cons e' es ih =>
    rw [List.map_cons, List.nodup_cons] at hnodup
    rcases List.mem_cons.mp h with rfl | h
    · show setSizes (Function.update size e.1 (some e.2.utf8ByteSize)) es e.1 = _
      rw [setSizes_of_notMem hnodup.1, Function.update_self]
    · exact ih hnodup.2 h

theorem following_mark (n : Nat) : following (mark n) = n + 1 := by
  cases n with
  | zero => rfl
  | succ n =>
    rw [mark_of_pos (Nat.succ_pos n)]
    exact if_neg (by omega)

/-- What an `append` can do: refuse, find the queue full, or add the longest prefix that fits
directly after everything published. -/
theorem append_cases {a a' : Attempt} {previous : Int} {first : Nat} {lastTerminal : Bool}
    {records : List String} {r : Except String Nat} {log : List (Nat × String)}
    {acked : String → Nat} (htracks : a.stream.Tracks log acked)
    (hpublished : a.state.published = mark log.length)
    (h : a.append previous first lastTerminal records = (r, a')) :
    (a' = a ∧ (r = .ok 0 ∨ ∃ e, r = .error e)) ∨
    ∃ k stream, r = .ok k ∧ 0 < k ∧ k ≤ records.length ∧ first = log.length + 1 ∧
      a.state.terminal = none ∧
      fitting a.state.bytes a.state.limit (records.map String.utf8ByteSize) = k ∧
      a.stream.xaddAll (numbered first (records.take k)) = (true, stream) ∧
      a' = ⟨stream, appended a.state first lastTerminal records k⟩ := by
  unfold append at h
  simp only at h
  split at h
  · cases h
    exact Or.inl ⟨rfl, Or.inr ⟨_, rfl⟩⟩
  split at h
  · cases h
    exact Or.inl ⟨rfl, Or.inr ⟨_, rfl⟩⟩
  next hsequence =>
  split at h
  · cases h
    exact Or.inl ⟨rfl, Or.inr ⟨_, rfl⟩⟩
  next hfirst =>
  split at h
  · cases h
    exact Or.inl ⟨rfl, Or.inr ⟨_, rfl⟩⟩
  split at h
  · cases h
    exact Or.inl ⟨rfl, Or.inl rfl⟩
  next hk =>
  simp only [Bool.or_eq_true, decide_eq_true_eq, not_or, ne_eq, not_not] at hsequence hfirst
  have hnone : a.state.terminal = none := by
    simpa using hsequence.2
  -- `published` is what the caller expects, so the IDs continue the history.
  have hfirst' : first = log.length + 1 := by
    have hprevious : previous = mark log.length := by rw [← hsequence.1.2, hpublished]
    have hexpected := hfirst.2
    rw [hprevious, following_mark] at hexpected
    omega
  have hle := fitting_le_length a.state.bytes a.state.limit (records.map String.utf8ByteSize)
  rw [List.length_map] at hle
  generalize hkeq : fitting a.state.bytes a.state.limit (records.map String.utf8ByteSize) = k
    at h hk hle
  have hids : (numbered first (records.take k)).map (·.1) =
      List.range' (log.length + 1) (numbered first (records.take k)).length := by
    rw [map_fst_numbered, length_numbered, hfirst']
  obtain ⟨stream, hadd, -⟩ := htracks.xaddAll hids
  rw [hadd] at h
  cases h
  exact Or.inr ⟨k, stream, rfl, by omega, hle, hfirst', hnone, rfl, hadd, rfl⟩

/-- The bookkeeping agrees with the stream: every stored entry has its size field, and `bytes` is
their total. -/
structure Counted (a : Attempt) : Prop where
  size : ∀ e ∈ a.stream.entries, a.state.size e.1 = some e.2.utf8ByteSize
  bytes : a.state.bytes = entryBytes a.stream.entries

theorem weight_eq_entryBytes {size : Nat → Option Nat} {entries : List (Nat × String)}
    (h : ∀ e ∈ entries, size e.1 = some e.2.utf8ByteSize) :
    GroupStream.weight (fun id => (size id).getD 0) entries = entryBytes entries := by
  unfold GroupStream.weight entryBytes
  congr 1
  apply List.map_congr_left
  intro e he
  show (size e.1).getD 0 = _
  rw [h e he]
  rfl

theorem Counted.append {a : Attempt} (h : Counted a) {log : List (Nat × String)}
    {acked : String → Nat} (htracks : a.stream.Tracks log acked) {stream : GroupStream String String}
    {k : Nat} {records : List String} (lastTerminal : Bool)
    (hentries : stream.entries =
      a.stream.entries ++ numbered (log.length + 1) (records.take k)) :
    Counted ⟨stream, appended a.state (log.length + 1) lastTerminal records k⟩ := by
  have hids := map_fst_numbered (log.length + 1) (records.take k)
  constructor
  · intro e he
    show setSizes a.state.size (numbered (log.length + 1) (records.take k)) e.1 = _
    rw [hentries] at he
    rcases List.mem_append.mp he with he | he
    · -- An old entry has an ID of the log, and the new IDs come after it.
      rw [setSizes_of_notMem, h.size e he]
      rw [hids, List.mem_range'_1]
      rw [htracks.entries] at he
      have hlog : e.1 ∈ log.map (·.1) := List.mem_map_of_mem (List.mem_of_mem_filter he)
      rw [htracks.ids, List.mem_range'_1] at hlog
      omega
    · apply setSizes_of_mem _ he
      rw [hids]
      exact List.nodup_range'
  · show a.state.bytes + _ = (entryBytes stream.entries : Int)
    rw [hentries, h.bytes, ← entryBytes_numbered (log.length + 1)]
    simp [entryBytes]

/-- What an `ack` of everything a group has pending can do: refuse, or move the group's prefix on,
delete what every group has acknowledged, and account for it. -/
theorem ack_cases {a a' : Attempt} {group : String} {previous last : Int} {n : Nat}
    {r : Except String Nat} {log : List (Nat × String)} {acked : String → Nat}
    (htracks : a.stream.Tracks log acked) (hcounted : Counted a)
    (hgroup : group ∈ a.stream.groups) (hn : acked group + n = a.stream.delivered group)
    (h : a.ack group previous last (List.range' (acked group + 1) n) = (r, a')) :
    (a' = a ∧ ∃ e, r = .error e) ∨
    ∃ k stream, r = .ok k ∧
      stream.Tracks log (Function.update acked group (acked group + n)) ∧
      stream.groups = a.stream.groups ∧ stream.delivered = a.stream.delivered ∧
      Counted a' ∧ a'.stream = stream ∧ a'.state.bytes ≤ a.state.bytes ∧
      a'.state = { a.state with
        bytes := a'.state.bytes
        size := a'.state.size
        done := Function.update a.state.done group last } := by
  unfold ack at h
  simp only at h
  split at h
  · cases h
    exact Or.inl ⟨rfl, _, rfl⟩
  split at h
  · cases h
    exact Or.inl ⟨rfl, _, rfl⟩
  split at h
  · next lo hi hlo hhi =>
    split at h
    · cases h
      exact Or.inl ⟨rfl, _, rfl⟩
    split at h
    · cases h
      exact Or.inl ⟨rfl, _, rfl⟩
    obtain ⟨rs, stream, hrun, hrs, htracks', hgroups, hdelivered, hentries, hweight⟩ :=
      htracks.xackdelAll hgroup hn.le fun id => (a.state.size id).getD 0
    rw [hrun] at h
    simp only at h
    split at h
    · next hmissing =>
      obtain ⟨r', hr', hmiss⟩ := List.any_eq_true.mp hmissing
      exact absurd (by simpa using hmiss) (hrs r' hr')
    cases h
    refine Or.inr ⟨_, stream, rfl, htracks', hgroups, hdelivered, ?_, rfl, ?_, rfl⟩
    · have hsize : ∀ e ∈ stream.entries, a.state.size e.1 = some e.2.utf8ByteSize :=
        fun e he => hcounted.size e (hentries e he).1
      constructor
      · intro e he
        show (if e.1 ∈ _ then none else a.state.size e.1) = _
        rw [if_neg (hentries e he).2, hsize e he]
      · rw [weight_eq_entryBytes hcounted.size, weight_eq_entryBytes hsize] at hweight
        show a.state.bytes - _ = (entryBytes stream.entries : Int)
        rw [hcounted.bytes]
        omega
    · show a.state.bytes - _ ≤ a.state.bytes
      omega
  · cases h
    exact Or.inl ⟨rfl, _, rfl⟩

end Attempt

/-! ## The invariant -/

namespace System

variable {δ : Type} {dec : RecordDecoder δ} {s s' : System δ} {g : String}

/-- How far a group has got: it has acknowledged no more than its hook has returned for, and its
hook has returned for no more than was delivered. -/
structure Progress (s : System δ) (g : String) : Prop where
  acked : s.acked g = List.range' 1 (s.acked g).length
  done : s.attempt.state.done g = mark (s.acked g).length
  hooked : s.hooked g = s.history.take (s.hooked g).length
  acked_le : (s.acked g).length ≤ (s.hooked g).length
  hooked_le : (s.hooked g).length ≤ s.attempt.stream.delivered g

/-- What a consumer that has not failed knows. Between polls everything delivered is acknowledged;
in a poll, `ids` is what the hook has returned for and `entries` is the rest of the batch. -/
structure Local (dec : RecordDecoder δ) (s : System δ) (g : String) : Prop where
  completed : (s.consumer g).completed = mark (s.acked g).length
  sequence : dec.sequence (s.consumer g).decoder + 1 = (s.hooked g).length
  phase : match (s.consumer g).phase with
    | .working entries ids =>
      ids = List.range' ((s.acked g).length + 1) ((s.hooked g).length - (s.acked g).length) ∧
      entries = (s.history.drop (s.hooked g).length).take
        (s.attempt.stream.delivered g - (s.hooked g).length)
    | _ => (s.acked g).length = s.attempt.stream.delivered g

/-- The part of the invariant that is not about what consumers know. -/
structure Shared (s : System δ) : Prop where
  groups : s.attempt.stream.groups = s.attempt.state.groups
  tracks : s.attempt.stream.Tracks s.history fun g => (s.acked g).length
  counted : s.attempt.Counted
  limit : s.attempt.state.bytes ≤ s.attempt.state.limit
  published : s.attempt.state.published = mark s.history.length
  terminal : ∀ t, s.attempt.state.terminal = some t → t = s.history.length ∧ 0 < t
  progress : ∀ g ∈ s.attempt.state.groups, s.Progress g
  reported : ∀ g, s.reported g = true → s.attempt.state.terminal.isSome = true ∧
    ∀ g' ∈ s.attempt.state.groups, (s.acked g').length = s.history.length

structure Inv (dec : RecordDecoder δ) (s : System δ) : Prop where
  shared : s.Shared
  consumer : ∀ g ∈ s.attempt.state.groups, (s.consumer g).phase ≠ .failed → s.Local dec g

/-- A step of `g` leaves the other groups as they are. -/
structure Frame (s s' : System δ) (g : String) : Prop where
  groups : s'.attempt.state.groups = s.attempt.state.groups
  history : s'.history = s.history
  consumer : ∀ g' ≠ g, s'.consumer g' = s.consumer g'
  hooked : ∀ g' ≠ g, s'.hooked g' = s.hooked g'
  acked : ∀ g' ≠ g, s'.acked g' = s.acked g'
  delivered : ∀ g' ≠ g,
    s'.attempt.stream.delivered g' = s.attempt.stream.delivered g'

/-- What a consumer knows does not depend on the steps of the others. -/
theorem Local.frame {g' : String} (h : Local dec s g') (hframe : Frame s s' g) (hne : g' ≠ g) :
    Local dec s' g' := by
  constructor
  · rw [hframe.consumer g' hne, hframe.acked g' hne, h.completed]
  · rw [hframe.consumer g' hne, hframe.hooked g' hne, h.sequence]
  · rw [hframe.consumer g' hne, hframe.history, hframe.hooked g' hne, hframe.acked g' hne,
      hframe.delivered g' hne]
    exact h.phase

/-- A step of one group keeps the invariant if it keeps the shared part and what the consumer
knows, should it not have failed. -/
theorem Inv.step_of (h : Inv dec s) (hshared : s'.Shared) (hframe : Frame s s' g)
    (hlocal : g ∈ s.attempt.state.groups → (s'.consumer g).phase ≠ .failed → s'.Local dec g) :
    Inv dec s' where
  shared := hshared
  consumer g' hg' hlive := by
    rw [hframe.groups] at hg'
    by_cases hne : g' = g
    · subst hne
      exact hlocal hg' hlive
    · rw [hframe.consumer g' hne] at hlive
      exact (h.consumer g' hg' hlive).frame hframe hne

/-- The consumers are no part of what is shared. -/
theorem Shared.of_consumer (h : s.Shared) (consumer : String → Consumer δ) :
    ({ s with consumer := consumer } : System δ).Shared :=
  { h with progress := fun g hg => { h.progress g hg with } }

theorem frame_consumer (s : System δ) (g : String) (c : Consumer δ) :
    Frame s { s with consumer := Function.update s.consumer g c } g where
  groups := rfl
  history := rfl
  consumer _ hne := Function.update_of_ne hne _ _
  hooked _ _ := rfl
  acked _ _ := rfl
  delivered _ _ := rfl

theorem Frame.fail (h : Frame s s' g) : Frame s (s'.fail g) g :=
  { h with
    consumer := fun g' hne => (Function.update_of_ne hne _ _).trans (h.consumer g' hne) }

/-- A consumer that fails takes nothing along. -/
theorem Inv.fail_of (h : Inv dec s) (hshared : s'.Shared) (hframe : Frame s s' g) :
    Inv dec (s'.fail g) := by
  refine h.step_of (hshared.of_consumer _) hframe.fail fun _ hlive => ?_
  simp [System.fail, System.setPhase] at hlive

theorem frame_refl (s : System δ) (g : String) : Frame s s g :=
  ⟨rfl, rfl, fun _ _ => rfl, fun _ _ => rfl, fun _ _ => rfl, fun _ _ => rfl⟩

theorem Inv.fail (h : Inv dec s) (g : String) : Inv dec (s.fail g) :=
  h.fail_of h.shared (frame_refl s g)

/-- Between two phases outside the batch loop nothing changes hands. -/
theorem Inv.setPhase (h : Inv dec s) {phase : Phase}
    (hlive : (s.consumer g).phase ≠ .failed)
    (hfrom : ∀ entries ids, (s.consumer g).phase ≠ .working entries ids)
    (hto : ∀ entries ids, phase ≠ .working entries ids) : Inv dec (s.setPhase g phase) := by
  refine h.step_of (h.shared.of_consumer _) (frame_consumer s g _) fun hg _ => ?_
  have hlocal := h.consumer g hg hlive
  have hphase := hlocal.phase
  constructor
  · simpa [System.setPhase] using hlocal.completed
  · simpa [System.setPhase] using hlocal.sequence
  · simp only [System.setPhase, Function.update_self]
    split at hphase
    · next entries ids hworking => exact absurd hworking (hfrom entries ids)
    · exact hphase

theorem Inv.settle (h : Inv dec s) {reply : Reply} {ok : Bool} {next : System δ → System δ}
    (hnext : Inv dec (next s)) : Inv dec (s.settle g reply ok next) := by
  unfold System.settle
  split
  · exact hnext
  · exact h.fail g

/-- The flags of the state hash do not enter the invariant. -/
theorem Inv.of_flags (h : Inv dec s) (poisoned : Bool) (joined : String → Bool) :
    Inv dec { s with
      attempt := { s.attempt with
        state := { s.attempt.state with poisoned := poisoned, joined := joined } } } where
  shared := { h.shared with
    counted := { h.shared.counted with }
    progress := fun g hg => { h.shared.progress g hg with } }
  consumer g hg hlive := { h.consumer g hg hlive with }

/-! ## The actions -/

theorem Inv.poison (h : Inv dec s) : Inv dec { s with attempt := s.attempt.poison } :=
  h.of_flags true s.attempt.state.joined

theorem Inv.join {reply : Reply} (h : Inv dec s) (hstep : s.join g reply = some s') :
    Inv dec s' := by
  unfold System.join at hstep
  split at hstep
  · cases hstep
  next habsent =>
  simp only [ne_eq, not_not] at habsent
  have hjoin : ∀ r a, s.attempt.join g = (r, a) →
      Inv dec (({ s with attempt := a } : System δ).settle g reply r.isOk
        (·.setPhase g .idle)) := by
    intro r a hra
    have hinv : Inv dec { s with attempt := a } := by
      unfold Attempt.join at hra
      split at hra
      · cases hra
        exact h
      split at hra
      · cases hra
        exact h
      · cases hra
        exact h.of_flags s.attempt.state.poisoned _
    exact hinv.settle
      (hinv.setPhase (by simp [habsent]) (fun _ _ => by simp [habsent]) (fun _ _ => by simp))
  cases reply with
  | dropped =>
    cases hstep
    exact h.fail g
  | arrived =>
    cases hstep
    exact hjoin _ _ rfl
  | lost =>
    cases hstep
    exact hjoin _ _ rfl

theorem Inv.check {reply : Reply} (h : Inv dec s) (hstep : s.check dec g reply = some s') :
    Inv dec s' := by
  unfold System.check at hstep
  simp only at hstep
  split at hstep
  · cases hstep
  next hidle =>
  simp only [Bool.or_eq_true, decide_eq_true_eq, not_or, ne_eq, not_not] at hidle
  cases hstep
  exact h.settle
    (h.setPhase (by simp [hidle.1]) (fun _ _ => by simp [hidle.1]) (fun _ _ => by simp))

/-- A read delivers the next entries of the history to the group. -/
theorem Inv.read {reply : Reply} (h : Inv dec s) (hg : g ∈ s.attempt.state.groups)
    (hstep : s.read g reply = some s') : Inv dec s' := by
  unfold System.read at hstep
  simp only at hstep
  split at hstep
  · cases hstep
  next hchecked =>
  simp only [ne_eq, not_not] at hchecked
  have hg' : g ∈ s.attempt.stream.groups := by
    rw [h.shared.groups]
    exact hg
  obtain ⟨stream, hread, htracks, hgroups, hentries, hdelivered⟩ :=
    h.shared.tracks.xreadgroup hg' (s.consumer g).batchEntries
  generalize hbatch : (s.history.drop (s.attempt.stream.delivered g)).take
    (s.consumer g).batchEntries = batch at hread hdelivered
  rw [hread] at hstep
  have hprogress := h.shared.progress g hg
  have hshared : Shared { s with attempt := { s.attempt with stream := stream } } := by
    refine { h.shared with groups := ?_, tracks := htracks, counted := ?_, progress := ?_ }
    · exact hgroups.trans h.shared.groups
    · exact ⟨fun e he => h.shared.counted.size e (hentries ▸ he),
        by rw [h.shared.counted.bytes, ← hentries]⟩
    · intro g₁ hg₁
      refine { h.shared.progress g₁ hg₁ with hooked_le := ?_ }
      have hle := (h.shared.progress g₁ hg₁).hooked_le
      show _ ≤ stream.delivered g₁
      rw [hdelivered]
      by_cases heq : g₁ = g
      · subst heq
        rw [Function.update_self]
        exact hle.trans (Nat.le_add_right _ _)
      · rwa [Function.update_of_ne heq]
  have hframe : Frame s { s with attempt := { s.attempt with stream := stream } } g :=
    ⟨rfl, rfl, fun _ _ => rfl, fun _ _ => rfl, fun _ _ => rfl,
      fun g₁ hne => by
        show stream.delivered g₁ = _
        rw [hdelivered, Function.update_of_ne hne]⟩
  have hsettle : ∀ ok, Inv dec (({ s with attempt := { s.attempt with stream := stream } } :
      System δ).settle g reply ok (·.setPhase g (.working batch []))) := by
    intro ok
    unfold System.settle
    split
    · refine h.step_of (hshared.of_consumer _)
        { hframe with consumer := fun g₁ hne => Function.update_of_ne hne _ _ } fun _ _ => ?_
      have hlocal := h.consumer g hg (by simp [hchecked])
      have hphase := hlocal.phase
      rw [hchecked] at hphase
      -- Everything delivered before is acknowledged, so the batch starts with nothing done.
      have hhooked : (s.hooked g).length = s.attempt.stream.delivered g := by
        have := hprogress.acked_le
        have := hprogress.hooked_le
        have : (s.acked g).length = s.attempt.stream.delivered g := hphase
        omega
      constructor
      · simpa [System.setPhase] using hlocal.completed
      · simpa [System.setPhase] using hlocal.sequence
      · simp only [System.setPhase, Function.update_self, hdelivered, hhooked]
        refine ⟨?_, ?_⟩
        · have : (s.acked g).length = s.attempt.stream.delivered g := hphase
          simp [this]
        · rw [Nat.add_sub_cancel_left, ← hbatch, List.take_eq_take_iff]
          simp
    · exact h.fail_of hshared hframe
  cases reply with
  | dropped =>
    cases hstep
    exact h.fail g
  | arrived =>
    cases hstep
    exact hsettle _
  | lost =>
    cases hstep
    exact hsettle _

/-- One round of the batch loop: the hook has returned for one more entry of the history. -/
theorem Inv.process {returns : Bool} (h : Inv dec s) (hg : g ∈ s.attempt.state.groups)
    (hstep : s.process dec g returns = some s') : Inv dec s' := by
  unfold System.process at hstep
  simp only at hstep
  split at hstep
  · next e entries ids hphase =>
    split at hstep
    · cases hstep
      exact h.fail g
    split at hstep
    · cases hstep
      exact h.fail g
    next d happly =>
    split at hstep
    · cases hstep
      have hlocal := h.consumer g hg (by simp [hphase])
      have hprogress := h.shared.progress g hg
      have hwork := hlocal.phase
      rw [hphase] at hwork
      obtain ⟨hids, hentries⟩ := hwork
      have hacked := hprogress.acked_le
      have hlen := congrArg List.length hentries
      simp only [List.length_cons, List.length_take, List.length_drop] at hlen
      have hat : s.history[(s.hooked g).length]? = some e := by
        have := congrArg List.head? hentries
        simpa [List.head?_take, List.head?_drop, show s.attempt.stream.delivered g -
          (s.hooked g).length ≠ 0 by omega] using this.symm
      have hid : e.1 = (s.hooked g).length + 1 := h.shared.tracks.id_eq hat
      have htake : s.hooked g ++ [e] = s.history.take ((s.hooked g).length + 1) := by
        rw [List.take_add_one, hat, ← hprogress.hooked]
        rfl
      refine h.step_of (g := g) ?_ ?_ ?_
      · refine { h.shared with progress := fun g₁ hg₁ => ?_ }
        have hprogress₁ := h.shared.progress g₁ hg₁
        by_cases heq : g₁ = g
        · subst heq
          refine { hprogress₁ with hooked := ?_, acked_le := ?_, hooked_le := ?_ }
          · simpa using htake
          · simp
            omega
          · simp
            omega
        · refine { hprogress₁ with hooked := ?_, acked_le := ?_, hooked_le := ?_ }
          · simpa [heq] using hprogress₁.hooked
          · simpa [heq] using hprogress₁.acked_le
          · simpa [heq] using hprogress₁.hooked_le
      · exact ⟨rfl, rfl, fun _ hne => Function.update_of_ne hne _ _,
          fun _ hne => Function.update_of_ne hne _ _, fun _ _ => rfl, fun _ _ => rfl⟩
      · intro _ _
        constructor
        · simpa using hlocal.completed
        · have := hlocal.sequence
          simp [dec.sequence_apply _ _ _ happly]
          omega
        · simp only [Function.update_self, List.length_append, List.length_singleton]
          constructor
          · rw [hids, hid, show (s.hooked g).length + 1 - (s.acked g).length =
              (s.hooked g).length - (s.acked g).length + 1 by omega, List.range'_concat]
            congr 2
            omega
          · have := congrArg List.tail hentries
            rw [List.tail_cons, ← List.drop_one, List.drop_take, List.drop_drop] at this
            rw [this]
            congr 1
    · cases hstep
      exact h.fail g
  · cases hstep

/-- Once the batch is worked off, the hook has returned for everything delivered. -/
theorem Inv.hooked_eq_delivered (h : Inv dec s) (hg : g ∈ s.attempt.state.groups)
    {ids : List Nat} (hphase : (s.consumer g).phase = .working [] ids) :
    (s.hooked g).length = s.attempt.stream.delivered g := by
  have hwork := (h.consumer g hg (by simp [hphase])).phase
  rw [hphase] at hwork
  have hlen := congrArg List.length hwork.2
  have hle := (h.shared.progress g hg).hooked_le
  have hdelivered := h.shared.tracks.delivered_le g (h.shared.groups ▸ hg)
  simp only [List.length_nil, List.length_take, List.length_drop] at hlen
  omega

/-- A refused acknowledgement wrote nothing. -/
theorem Inv.ack_refused (h : Inv dec s) (hg : g ∈ s.attempt.state.groups) {e : String}
    {a : Attempt} {ids : List Nat} (hphase : (s.consumer g).phase = .working [] ids)
    (hack : s.attempt.ack g (s.consumer g).completed (dec.sequence (s.consumer g).decoder + 1) ids =
      (.error e, a)) : a = s.attempt := by
  have hwork := (h.consumer g hg (by simp [hphase])).phase
  rw [hphase] at hwork
  rw [hwork.1] at hack
  have hdelivered := h.hooked_eq_delivered hg hphase
  have hle := (h.shared.progress g hg).acked_le
  rcases Attempt.ack_cases h.shared.tracks h.shared.counted (h.shared.groups ▸ hg) (by omega) hack
    with ⟨hsame, -⟩ | ⟨_, _, hok, -⟩
  · exact hsame
  · cases hok

/-- The shared part of the invariant once the server has acknowledged a batch. -/
theorem Inv.acknowledge (h : Inv dec s) (hg : g ∈ s.attempt.state.groups) {k : Nat} {a : Attempt}
    {ids : List Nat} (hphase : (s.consumer g).phase = .working [] ids) (hne : ids ≠ [])
    (hack : s.attempt.ack g (s.consumer g).completed (dec.sequence (s.consumer g).decoder + 1) ids =
      (.ok k, a)) :
    (s.acknowledge g a ids).Shared ∧ Frame s (s.acknowledge g a ids) g ∧
      (s.acked g ++ ids).length = (s.hooked g).length ∧
      a.stream.delivered g = s.attempt.stream.delivered g := by
  have hlocal := h.consumer g hg (by simp [hphase])
  have hprogress := h.shared.progress g hg
  have hle := hprogress.acked_le
  have hwork := hlocal.phase
  rw [hphase] at hwork
  obtain ⟨hids, -⟩ := hwork
  have hdelivered := h.hooked_eq_delivered hg hphase
  have hlen : (s.acked g ++ ids).length = (s.hooked g).length := by
    rw [List.length_append, hids, List.length_range']
    omega
  have hpos : 0 < (s.hooked g).length := by
    have := List.length_pos_iff.mpr hne
    simp only [List.length_append] at hlen
    omega
  rw [hids] at hack
  rcases Attempt.ack_cases h.shared.tracks h.shared.counted (h.shared.groups ▸ hg) (by omega) hack
    with ⟨-, e, he⟩ | ⟨-, stream, -, htracks, hgroups, hsame, hcounted, rfl, hbytes, hstate⟩
  · cases he
  have hfields : a.state.groups = s.attempt.state.groups ∧
      a.state.limit = s.attempt.state.limit ∧ a.state.published = s.attempt.state.published ∧
      a.state.terminal = s.attempt.state.terminal ∧
      a.state.done = Function.update s.attempt.state.done g
        (dec.sequence (s.consumer g).decoder + 1) := by
    rw [hstate]
    exact ⟨rfl, rfl, rfl, rfl, rfl⟩
  obtain ⟨hgroups', hlimit, hpublished, hterminal, hdone⟩ := hfields
  have hlength : (fun g' => ((s.acknowledge g a ids).acked g').length) =
      Function.update (fun g' => (s.acked g').length) g (s.hooked g).length := by
    funext g'
    by_cases heq : g' = g
    · subst heq
      simpa [System.acknowledge] using hlen
    · simp [System.acknowledge, heq]
  refine ⟨⟨?_, ?_, hcounted, ?_, ?_, ?_, ?_, ?_⟩, ⟨hgroups', rfl, fun _ _ => rfl, fun _ _ => rfl, ?_, ?_⟩,
    hlen, by rw [hsame]⟩
  · exact (hgroups.trans h.shared.groups).trans hgroups'.symm
  · rw [hlength]
    rw [show (s.acked g).length + ((s.hooked g).length - (s.acked g).length) =
      (s.hooked g).length by omega] at htracks
    exact htracks
  · show a.state.bytes ≤ a.state.limit
    rw [hlimit]
    exact hbytes.trans h.shared.limit
  · exact hpublished.trans h.shared.published
  · intro t ht
    exact h.shared.terminal t (hterminal ▸ ht)
  · intro g' hg'
    have hprogress' := h.shared.progress g' (hgroups' ▸ hg')
    by_cases heq : g' = g
    · subst heq
      refine ⟨?_, ?_, hprogress'.hooked, ?_, ?_⟩
      · simp only [System.acknowledge, Function.update_self]
        rw [hlen, hids]
        nth_rewrite 1 [hprogress'.acked]
        rw [Nat.add_comm _ 1, List.range'_append_1]
        congr 1
        omega
      · have hsequence := hlocal.sequence
        simp only [System.acknowledge, Function.update_self, hdone, hlen]
        rw [mark_of_pos hpos]
        omega
      · simp only [System.acknowledge, Function.update_self, hlen]
        exact le_rfl
      · simp only [System.acknowledge, hsame]
        exact hprogress'.hooked_le
    · refine ⟨?_, ?_, hprogress'.hooked, ?_, ?_⟩
      · simpa [System.acknowledge, heq] using hprogress'.acked
      · simpa [System.acknowledge, heq, hdone] using hprogress'.done
      · simpa [System.acknowledge, heq] using hprogress'.acked_le
      · simpa [System.acknowledge, hsame] using hprogress'.hooked_le
  · -- A group that has acknowledged everything has nothing left to acknowledge.
    intro g₁ hreported
    obtain ⟨hsome, hall⟩ := h.shared.reported g₁ hreported
    refine ⟨by show a.state.terminal.isSome = true; rw [hterminal]; exact hsome, ?_⟩
    intro g' hg'
    have hall' := hall g' (hgroups' ▸ hg')
    by_cases heq : g' = g
    · subst heq
      have hle' := h.shared.tracks.delivered_le g' (h.shared.groups ▸ hg)
      simp only [System.acknowledge, Function.update_self, hlen]
      omega
    · simpa [System.acknowledge, heq] using hall'
  · intro g' hne'
    simp [System.acknowledge, hne']
  · intro g' _
    show a.stream.delivered g' = _
    rw [hsame]

/-- The consumer learns of the acknowledgement, or fails. -/
theorem Inv.settle_ack {reply : Reply} (h : Inv dec s) (hg : g ∈ s.attempt.state.groups)
    {a : Attempt} {ids : List Nat} (hphase : (s.consumer g).phase = .working [] ids)
    (hne : ids ≠ []) (hshared : (s.acknowledge g a ids).Shared) (hframe : Frame s (s.acknowledge g a ids) g)
    (hlen : (s.acked g ++ ids).length = (s.hooked g).length)
    (hdelivered : a.stream.delivered g = s.attempt.stream.delivered g) :
    Inv dec ((s.acknowledge g a ids).settle g reply true
      (·.completePoll g (dec.sequence (s.consumer g).decoder + 1))) := by
  unfold System.settle
  split
  · have hlocal := h.consumer g hg (by simp [hphase])
    have hsequence := hlocal.sequence
    have hpos : 0 < (s.hooked g).length := by
      have := List.length_pos_iff.mpr hne
      simp only [List.length_append] at hlen
      omega
    refine h.step_of (hshared.of_consumer _)
      { hframe with
        consumer := fun g' hne => (Function.update_of_ne hne _ _).trans (hframe.consumer g' hne) }
      fun _ _ => ⟨?_, ?_, ?_⟩
    · simp only [completePoll, Function.update_self, System.acknowledge, hlen]
      rw [hsequence, mark_of_pos hpos]
    · simpa [completePoll, System.acknowledge] using hsequence
    · simp only [completePoll, Function.update_self, System.acknowledge, hlen, hdelivered]
      exact h.hooked_eq_delivered hg hphase
  · exact h.fail_of hshared hframe

/-- The end of a poll: the whole batch is acknowledged, and it is all that was pending. -/
theorem Inv.ack {reply : Reply} (h : Inv dec s) (hg : g ∈ s.attempt.state.groups)
    (hstep : s.ack dec g reply = some s') : Inv dec s' := by
  unfold System.ack at hstep
  simp only at hstep
  have hprogress := h.shared.progress g hg
  split at hstep
  · next hphase =>
    cases hstep
    have hlocal := h.consumer g hg (by simp [hphase])
    have hwork := hlocal.phase
    rw [hphase] at hwork
    have hids := congrArg List.length hwork.1
    simp only [List.length_nil, List.length_range'] at hids
    have hdelivered := h.hooked_eq_delivered hg hphase
    have hacked := hprogress.acked_le
    refine h.step_of (h.shared.of_consumer _) (frame_consumer s g _) fun _ _ => ⟨?_, ?_, ?_⟩
    · simpa [System.setPhase] using hlocal.completed
    · simpa [System.setPhase] using hlocal.sequence
    · simp only [System.setPhase, Function.update_self]
      omega
  · next ids hne hphase =>
    cases reply with
    | dropped =>
      cases hstep
      exact h.fail g
    | _ =>
      simp only at hstep
      split at hstep
      · next e a hack =>
        cases hstep
        rw [h.ack_refused hg hphase hack]
        exact h.fail g
      · next k a hack =>
        cases hstep
        obtain ⟨hshared, hframe, hlen, hdelivered⟩ := h.acknowledge hg hphase hne hack
        exact h.settle_ack hg hphase hne hshared hframe hlen hdelivered
  · cases hstep

/-- A group that is done with the terminal entry has acknowledged the whole history. -/
theorem Shared.complete (h : s.Shared) (hcomplete : complete s.attempt.state = true) :
    s.attempt.state.terminal.isSome = true ∧
      ∀ g ∈ s.attempt.state.groups, (s.acked g).length = s.history.length := by
  unfold System.complete at hcomplete
  split at hcomplete
  · cases hcomplete
  next t ht =>
  refine ⟨by rw [ht]; rfl, fun g hg => ?_⟩
  obtain ⟨hlen, hpos⟩ := h.terminal t ht
  have hdone := List.all_eq_true.mp hcomplete g hg
  rw [decide_eq_true_eq, (h.progress g hg).done, ← mark_of_pos hpos] at hdone
  rw [mark_inj hdone, hlen]

theorem Inv.finish {reply : Reply} (h : Inv dec s) (hstep : s.finish dec g reply = some s') :
    Inv dec s' := by
  unfold System.finish at hstep
  simp only at hstep
  split at hstep
  · cases hstep
  split at hstep
  · cases hstep
    exact h.fail g
  split at hstep
  · cases hstep
    exact h.fail g
  next state hcheck =>
  cases hstep
  have hstate : state = s.attempt.state := by
    unfold Attempt.check at hcheck
    split at hcheck
    · cases hcheck
    · cases hcheck
      rfl
  refine h.settle ⟨?_, fun g' hg' hlive => { h.consumer g' hg' hlive with }⟩
  refine { h.shared with progress := fun g' hg' => { h.shared.progress g' hg' with }, reported := ?_ }
  intro g₁ hreported
  by_cases hold : s.reported g₁ = true
  · exact h.shared.reported g₁ hold
  · -- It is this call that reported.
    have hcomplete : complete s.attempt.state = true := by
      by_cases heq : g₁ = g
      · subst heq
        simpa [hold, hstate] using hreported
      · simp [heq, hold] at hreported
    exact h.shared.complete hcomplete

/-- The publisher's call appends to the history. -/
theorem Inv.append (h : Inv dec s) (previous : Int) (first : Nat) (lastTerminal : Bool)
    (records : List String) : Inv dec (s.append previous first lastTerminal records) := by
  unfold System.append
  rcases happend : s.attempt.append previous first lastTerminal records with ⟨r, a⟩
  rcases Attempt.append_cases h.shared.tracks h.shared.published happend with
    ⟨rfl, rfl | ⟨e, rfl⟩⟩ | ⟨k, stream, rfl, hpos, hle, rfl, hnone, hk, hadd, rfl⟩
  · simpa [Attempt.numbered] using h
  · exact h
  simp only
  have hlen : (Attempt.numbered (s.history.length + 1) (records.take k)).length = k := by
    rw [Attempt.length_numbered, List.length_take, Nat.min_eq_left hle]
  have hids : (Attempt.numbered (s.history.length + 1) (records.take k)).map (·.1) =
      List.range' (s.history.length + 1)
        (Attempt.numbered (s.history.length + 1) (records.take k)).length := by
    rw [Attempt.map_fst_numbered, Attempt.length_numbered]
  obtain ⟨stream', hadd', htracks, hgroups, hdelivered, -, hentries⟩ :=
    h.shared.tracks.xaddAll hids
  obtain rfl : stream' = stream := by
    rw [hadd] at hadd'
    exact (Prod.mk.inj hadd').2.symm
  have hdelivered_le : ∀ g ∈ s.attempt.state.groups,
      s.attempt.stream.delivered g ≤ s.history.length :=
    fun g hg => h.shared.tracks.delivered_le g (h.shared.groups ▸ hg)
  constructor
  · constructor
    case groups => exact hgroups.trans h.shared.groups
    case tracks => exact htracks
    case counted => exact h.shared.counted.append h.shared.tracks lastTerminal hentries
    case limit =>
      have hfit := Attempt.fitting_le s.attempt.state.bytes s.attempt.state.limit
        (records.map String.utf8ByteSize) h.shared.limit
      rw [hk, ← List.map_take] at hfit
      exact hfit
    case published =>
      show ((s.history.length + 1 + k - 1 : Nat) : Int) = mark (s.history ++ _).length
      rw [List.length_append, hlen, mark_of_pos (by omega)]
      congr 1
      omega
    case terminal =>
      intro t ht
      simp only [Attempt.appended, hnone] at ht
      split at ht
      · cases ht
        rw [List.length_append, hlen]
        omega
      · cases ht
    case progress =>
      intro g hg
      have hprogress := h.shared.progress g hg
      refine { hprogress with hooked := ?_, hooked_le := ?_ }
      · rw [List.take_append_of_le_length (hprogress.hooked_le.trans (hdelivered_le g hg))]
        exact hprogress.hooked
      · simpa only [hdelivered] using hprogress.hooked_le
    case reported =>
      intro g hreported
      have := (h.shared.reported g hreported).1
      simp [hnone] at this
  · -- What is delivered to a group lies within the old history.
    intro g hg hlive
    have hlocal := h.consumer g hg hlive
    have hphase := hlocal.phase
    have hhooked := (h.shared.progress g hg).hooked_le
    have hdel := hdelivered_le g hg
    refine ⟨hlocal.completed, hlocal.sequence, ?_⟩
    simp only [hdelivered]
    split
    · next entries ids hworking =>
      rw [hworking] at hphase
      refine ⟨hphase.1, hphase.2.trans ?_⟩
      rw [List.drop_append_of_le_length (by omega), List.take_append_of_le_length (by simp; omega)]
    · next hother =>
      split at hphase
      · next entries ids hworking => exact absurd hworking (hother entries ids)
      · exact hphase

/-! ## Runs -/

theorem Inv.step (h : Inv dec s) {action : Action} (hstep : s.step dec action = some s') :
    Inv dec s' := by
  unfold System.step at hstep
  split at hstep
  · cases hstep
    exact h.append _ _ _ _
  · cases hstep
    exact h.poison
  · split at hstep
    · exact h.join hstep
    · cases hstep
  · split at hstep
    · exact h.check hstep
    · cases hstep
  · split at hstep
    · next hg => exact h.read hg hstep
    · cases hstep
  · split at hstep
    · next hg => exact h.process hg hstep
    · cases hstep
  · split at hstep
    · next hg => exact h.ack hg hstep
    · cases hstep
  · split at hstep
    · exact h.finish hstep
    · cases hstep
  · split at hstep
    · cases hstep
      exact h.fail _
    · cases hstep

theorem Inv.run (h : Inv dec s) {actions : List Action} (hrun : s.run dec actions = some s') :
    Inv dec s' := by
  induction actions generalizing s with
  | nil =>
    cases hrun
    exact h
  | cons action actions ih =>
    obtain ⟨s₁, hstep, hrest⟩ := Option.bind_eq_some_iff.mp hrun
    exact ih (h.step hstep) hrest

theorem inv_start {groups : List String} {limit entry : Nat} {batch : String → Nat × Nat}
    (h : start dec groups limit entry batch = some s) : Inv dec s := by
  unfold start at h
  obtain ⟨a, hsetup, rfl⟩ := Option.map_eq_some_iff.mp h
  unfold Attempt.setup at hsetup
  split at hsetup
  · cases hsetup
    refine ⟨⟨rfl, GroupStream.tracks_create groups, ⟨(fun e he => nomatch he), rfl⟩,
      Int.natCast_nonneg limit, rfl, (fun t ht => nomatch ht), ?_, (fun g hg => nomatch hg)⟩, ?_⟩
    · exact fun g _ => ⟨rfl, rfl, rfl, le_rfl, le_rfl⟩
    · intro g _ _
      exact ⟨rfl, by simp [dec.sequence_fresh], rfl⟩
  · cases hsetup

/-! ## What the protocol guarantees -/

/-- What holds in every state the system reaches. Entry `i` of the history, from 0, is the wire
sequence `i`, under the ID `i + 1`. -/
structure Safe (s : System δ) : Prop where
  /-- The published sequence is dense. -/
  dense : s.history.map (·.1) = List.range' 1 s.history.length
  published : s.attempt.state.published = mark s.history.length
  /-- The accounted bytes are those of what is in the stream, and within the limit. -/
  bytes : s.attempt.state.bytes = entryBytes s.attempt.stream.entries
  bytes_le : s.attempt.state.bytes ≤ s.attempt.state.limit
  /-- Nothing is in the stream but what was published, and what has left it every group has
  acknowledged. -/
  stored : s.attempt.stream.entries.Sublist s.history
  left : ∀ e ∈ s.history, e ∉ s.attempt.stream.entries →
    s.attempt.state.groups ≠ [] ∧ ∀ g ∈ s.attempt.state.groups, e.1 ∈ s.acked g
  /-- A group's counter counts its acknowledged records, in order and without a gap. -/
  done : ∀ g ∈ s.attempt.state.groups,
    s.acked g = List.range' 1 (s.acked g).length ∧
      s.attempt.state.done g = mark (s.acked g).length ∧ (s.acked g).length ≤ s.history.length
  /-- If every group's consumer has reported completion, every hook has returned once for every
  record, in order. -/
  complete : (∀ g ∈ s.attempt.state.groups, s.reported g = true) →
    ∀ g ∈ s.attempt.state.groups, s.hooked g = s.history

theorem Inv.safe (h : Inv dec s) : s.Safe where
  dense := h.shared.tracks.ids
  published := h.shared.published
  bytes := h.shared.counted.bytes
  bytes_le := h.shared.limit
  stored := by
    rw [h.shared.tracks.entries]
    exact List.filter_sublist
  left e he hnot := by
    rw [h.shared.tracks.entries, List.mem_filter, not_and, h.shared.groups] at hnot
    have hheld := hnot he
    simp only [GroupStream.held, Bool.or_eq_true, List.isEmpty_iff, List.any_eq_true,
      decide_eq_true_eq, not_or, not_exists, not_and, not_lt] at hheld
    refine ⟨hheld.1, fun g hg => ?_⟩
    have hid : e.1 ∈ s.history.map (·.1) := List.mem_map_of_mem he
    rw [h.shared.tracks.ids, List.mem_range'_1] at hid
    rw [(h.shared.progress g hg).acked, List.mem_range'_1]
    have := hheld.2 g hg
    omega
  done g hg := by
    have hprogress := h.shared.progress g hg
    have hdelivered := h.shared.tracks.delivered_le g (h.shared.groups ▸ hg)
    exact ⟨hprogress.acked, hprogress.done,
      (hprogress.acked_le.trans hprogress.hooked_le).trans hdelivered⟩
  complete hall g hg := by
    have hprogress := h.shared.progress g hg
    have hdone := (h.shared.reported g (hall g hg)).2 g hg
    have hle := hprogress.acked_le
    rw [hprogress.hooked, List.take_of_length_le (by omega)]

/-- What holds of every single action. -/
structure StepSafe (s : System δ) (action : Action) (s' : System δ) : Prop where
  /-- The marker is set only by a flagged call all of whose entries were appended, and it names the
  last of them. -/
  marked : s'.attempt.state.terminal ≠ s.attempt.state.terminal →
    ∃ previous first records, action = .append previous first true records ∧
      s'.history = s.history ++ Attempt.numbered first records ∧
      s'.attempt.state.terminal = some s'.history.length
  /-- Nothing is appended after it. -/
  closed : s.attempt.state.terminal.isSome = true → s'.history = s.history
  /-- A group's counter moves by one for each record acknowledged, in order. -/
  advanced : ∀ g ∈ s.attempt.state.groups, ∃ n,
    s'.acked g = s.acked g ++ List.range' ((s.acked g).length + 1) n

/-- An action that publishes nothing. -/
structure Quiet (s s' : System δ) : Prop where
  history : s'.history = s.history
  groups : s'.attempt.state.groups = s.attempt.state.groups
  terminal : s'.attempt.state.terminal = s.attempt.state.terminal
  acked : ∀ g, ∃ ids, s'.acked g = s.acked g ++ ids

theorem quiet_of_eq (history : s'.history = s.history)
    (state : s'.attempt.state.groups = s.attempt.state.groups ∧
      s'.attempt.state.terminal = s.attempt.state.terminal)
    (acked : s'.acked = s.acked) : Quiet s s' :=
  ⟨history, state.1, state.2, fun g => ⟨[], by rw [acked, List.append_nil]⟩⟩

theorem Quiet.settle {next : System δ → System δ} {reply : Reply} {ok : Bool}
    (hnext : Quiet s (next s')) (hfail : Quiet s s') :
    Quiet s (s'.settle g reply ok next) := by
  unfold System.settle
  split
  · exact hnext
  · exact { hfail with }

theorem state_join (a : Attempt) (g : String) :
    (a.join g).2.state.groups = a.state.groups ∧
      (a.join g).2.state.terminal = a.state.terminal := by
  unfold Attempt.join
  split <;> [skip; split] <;> exact ⟨rfl, rfl⟩

theorem state_ack (a : Attempt) (g : String) (previous last : Int) (ids : List Nat) :
    (a.ack g previous last ids).2.state.groups = a.state.groups ∧
      (a.ack g previous last ids).2.state.terminal = a.state.terminal := by
  unfold Attempt.ack
  simp only
  repeat' split
  all_goals exact ⟨rfl, rfl⟩

theorem quiet_join {reply : Reply} (h : s.join g reply = some s') : Quiet s s' := by
  unfold System.join at h
  split at h
  · cases h
  have hstate := state_join s.attempt g
  cases reply with
  | dropped =>
    cases h
    exact quiet_of_eq rfl ⟨rfl, rfl⟩ rfl
  | _ =>
    cases h
    exact Quiet.settle (quiet_of_eq rfl hstate rfl) (quiet_of_eq rfl hstate rfl)

theorem quiet_check {reply : Reply} (h : s.check dec g reply = some s') : Quiet s s' := by
  unfold System.check at h
  simp only at h
  split at h
  · cases h
  · cases h
    exact Quiet.settle (quiet_of_eq rfl ⟨rfl, rfl⟩ rfl) (quiet_of_eq rfl ⟨rfl, rfl⟩ rfl)

theorem quiet_read {reply : Reply} (h : s.read g reply = some s') : Quiet s s' := by
  unfold System.read at h
  simp only at h
  split at h
  · cases h
  cases reply with
  | dropped =>
    cases h
    exact quiet_of_eq rfl ⟨rfl, rfl⟩ rfl
  | _ =>
    cases h
    exact Quiet.settle (quiet_of_eq rfl ⟨rfl, rfl⟩ rfl) (quiet_of_eq rfl ⟨rfl, rfl⟩ rfl)

theorem quiet_process {returns : Bool} (h : s.process dec g returns = some s') : Quiet s s' := by
  unfold System.process at h
  simp only at h
  split at h
  · split at h
    · cases h
      exact quiet_of_eq rfl ⟨rfl, rfl⟩ rfl
    split at h
    · cases h
      exact quiet_of_eq rfl ⟨rfl, rfl⟩ rfl
    split at h
    · cases h
      exact quiet_of_eq rfl ⟨rfl, rfl⟩ rfl
    · cases h
      exact quiet_of_eq rfl ⟨rfl, rfl⟩ rfl
  · cases h

theorem quiet_acknowledge (s : System δ) (g : String) {a : Attempt}
    (hstate : a.state.groups = s.attempt.state.groups ∧
      a.state.terminal = s.attempt.state.terminal) (ids : List Nat) :
    Quiet s (s.acknowledge g a ids) := by
  refine ⟨rfl, hstate.1, hstate.2, fun g' => ?_⟩
  by_cases heq : g' = g
  · subst heq
    exact ⟨ids, by simp [System.acknowledge]⟩
  · exact ⟨[], by simp [System.acknowledge, heq]⟩

theorem quiet_ack {reply : Reply} (h : s.ack dec g reply = some s') : Quiet s s' := by
  unfold System.ack at h
  simp only at h
  split at h
  · cases h
    exact quiet_of_eq rfl ⟨rfl, rfl⟩ rfl
  · next ids _ _ =>
    have hstate := state_ack s.attempt g (s.consumer g).completed
      (dec.sequence (s.consumer g).decoder + 1) ids
    cases reply with
    | dropped =>
      cases h
      exact quiet_of_eq rfl ⟨rfl, rfl⟩ rfl
    | _ =>
      simp only at h
      split at h
      · next e a hack =>
        cases h
        rw [hack] at hstate
        exact quiet_of_eq rfl hstate rfl
      · next k a hack =>
        cases h
        rw [hack] at hstate
        have hquiet := quiet_acknowledge s g hstate ids
        exact Quiet.settle { hquiet with } hquiet
  · cases h

theorem quiet_finish {reply : Reply} (h : s.finish dec g reply = some s') : Quiet s s' := by
  unfold System.finish at h
  simp only at h
  split at h
  · cases h
  split at h
  · cases h
    exact quiet_of_eq rfl ⟨rfl, rfl⟩ rfl
  split at h
  · cases h
    exact quiet_of_eq rfl ⟨rfl, rfl⟩ rfl
  · cases h
    exact Quiet.settle (quiet_of_eq rfl ⟨rfl, rfl⟩ rfl) (quiet_of_eq rfl ⟨rfl, rfl⟩ rfl)

/-- Only the publisher's call publishes. -/
theorem step_cases {action : Action} (h : s.step dec action = some s') :
    (∃ previous first lastTerminal records,
      action = .append previous first lastTerminal records ∧
        s' = s.append previous first lastTerminal records) ∨ Quiet s s' := by
  unfold System.step at h
  split at h
  · cases h
    exact Or.inl ⟨_, _, _, _, rfl, rfl⟩
  · cases h
    exact Or.inr (quiet_of_eq rfl ⟨rfl, rfl⟩ rfl)
  all_goals split at h
  · exact Or.inr (quiet_join h)
  · cases h
  · exact Or.inr (quiet_check h)
  · cases h
  · exact Or.inr (quiet_read h)
  · cases h
  · exact Or.inr (quiet_process h)
  · cases h
  · exact Or.inr (quiet_ack h)
  · cases h
  · exact Or.inr (quiet_finish h)
  · cases h
  · cases h
    exact Or.inr (quiet_of_eq rfl ⟨rfl, rfl⟩ rfl)
  · cases h

/-- An append either leaves the history and the marker alone, or it continues an open history. -/
theorem Shared.append_cases (h : s.Shared) (previous : Int) (first : Nat) (lastTerminal : Bool)
    (records : List String) :
    Quiet s (s.append previous first lastTerminal records) ∨
    ∃ k, k ≤ records.length ∧ s.attempt.state.terminal = none ∧
      (s.append previous first lastTerminal records).attempt.state.groups =
        s.attempt.state.groups ∧
      (s.append previous first lastTerminal records).history =
        s.history ++ Attempt.numbered first (records.take k) ∧
      (s.append previous first lastTerminal records).acked = s.acked ∧
      (s.append previous first lastTerminal records).attempt.state.terminal =
        if k = records.length && lastTerminal then
          some (s.append previous first lastTerminal records).history.length
        else none := by
  unfold System.append
  rcases happend : s.attempt.append previous first lastTerminal records with ⟨r, a⟩
  rcases Attempt.append_cases h.tracks h.published happend with
    ⟨rfl, rfl | ⟨e, rfl⟩⟩ | ⟨k, stream, rfl, hpos, hle, rfl, hnone, hk, hadd, rfl⟩
  · exact Or.inl (quiet_of_eq (by simp [Attempt.numbered]) ⟨rfl, rfl⟩ rfl)
  · exact Or.inl (quiet_of_eq rfl ⟨rfl, rfl⟩ rfl)
  · refine Or.inr ⟨k, hle, hnone, rfl, rfl, rfl, ?_⟩
    simp only [Attempt.appended, hnone, List.length_append, Attempt.length_numbered,
      List.length_take, Nat.min_eq_left hle]
    rw [show s.history.length + 1 + k - 1 = s.history.length + k by omega]

theorem Inv.stepSafe (h : Inv dec s) {action : Action} (hstep : s.step dec action = some s') :
    StepSafe s action s' := by
  have hsafe := h.safe
  have hsafe' := (h.step hstep).safe
  -- The acknowledged IDs of a group are an initial stretch before the action and after it.
  have hadvanced : (∀ g, ∃ ids, s'.acked g = s.acked g ++ ids) →
      s'.attempt.state.groups = s.attempt.state.groups → ∀ g ∈ s.attempt.state.groups, ∃ n,
        s'.acked g = s.acked g ++ List.range' ((s.acked g).length + 1) n := by
    intro hext hgroups g hg
    obtain ⟨ids, hids⟩ := hext g
    refine ⟨ids.length, ?_⟩
    have hacked := (hsafe.done g hg).1
    have hacked' := (hsafe'.done g (hgroups ▸ hg)).1
    rw [hids, List.length_append, ← List.range'_append_1, ← hacked] at hacked'
    rw [hids, List.append_cancel_left hacked', Nat.add_comm 1]
    simp
  rcases step_cases hstep with ⟨previous, first, lastTerminal, records, rfl, rfl⟩ | hquiet
  · rcases h.shared.append_cases previous first lastTerminal records with
      hquiet | ⟨k, hle, hnone, hgroups, hhistory, hacked, hterminal⟩
    · exact ⟨fun hne => absurd hquiet.terminal hne, fun _ => hquiet.history,
        hadvanced hquiet.acked hquiet.groups⟩
    · refine ⟨fun hne => ?_, fun hsome => by simp [hnone] at hsome,
        hadvanced (fun g => ⟨[], by rw [hacked, List.append_nil]⟩) hgroups⟩
      rw [hterminal] at hne
      split at hne
      · next hall =>
        simp only [Bool.and_eq_true, decide_eq_true_eq] at hall
        rw [hall.1, List.take_length] at hhistory
        rw [hall.2] at hhistory hterminal ⊢
        refine ⟨previous, first, records, rfl, hhistory, ?_⟩
        rw [hterminal, if_pos (by simp [hall.1])]
      · exact absurd hnone.symm hne
  · exact ⟨fun hne => absurd hquiet.terminal hne, fun _ => hquiet.history,
      hadvanced hquiet.acked hquiet.groups⟩

/-- Safety of the stream protocol: whatever the publisher sends, for any groups, and in whatever
order the participants act, fail and lose replies. -/
theorem stream_protocol_safe (dec : RecordDecoder δ) (groups : List String) (limit entry : Nat)
    (batch : String → Nat × Nat) (s₀ s : System δ) (actions : List Action)
    (hstart : start dec groups limit entry batch = some s₀)
    (hrun : s₀.run dec actions = some s) :
    s.Safe ∧ ∀ action s', s.step dec action = some s' → StepSafe s action s' := by
  have hinv : Inv dec s := (inv_start hstart).run hrun
  exact ⟨hinv.safe, fun action s' hstep => hinv.stepSafe hstep⟩

/-- A decoder that counts its records and ends with a terminal one. -/
def sampleDecoder : RecordDecoder (Int × Bool) where
  fresh := (-1, false)
  sequence := Prod.fst
  terminal := Prod.snd
  apply d r := if d.2 then none else some (d.1 + 1, r == "terminal")
  sequence_fresh := rfl
  sequence_apply := by
    intro d r d' h
    split at h
    · cases h
    · cases h
      rfl

/-- Three records through a queue that holds two of them, for two groups at different speeds. -/
def sampleActions : List Action :=
  [.append (-1) 1 true ["initial", "cut", "terminal"], .join "a" .arrived, .check "a" .arrived,
    .read "a" .arrived, .process "a" true, .process "a" true, .append 2 3 true ["terminal"],
    .ack "a" .arrived, .join "b" .arrived, .check "b" .arrived, .read "b" .arrived,
    .process "b" true, .process "b" true, .ack "b" .arrived, .append 2 3 true ["terminal"],
    .check "a" .arrived, .read "a" .arrived, .check "b" .arrived, .read "b" .arrived,
    .process "b" true, .process "a" true, .ack "a" .arrived, .finish "a" .arrived,
    .ack "b" .arrived, .finish "b" .arrived, .finish "a" .arrived]

/-- The state the sample run ends in. -/
def sampleEnd : Option (System (Int × Bool)) :=
  (start sampleDecoder ["a", "b"] 12 8 fun _ => (4, 64)).bind (·.run sampleDecoder sampleActions)

theorem stream_protocol_safe_sample :
    ∃ s, sampleEnd = some s ∧ s.Safe ∧
      s.hooked "a" = [(1, "initial"), (2, "cut"), (3, "terminal")] ∧ s.hooked "b" = s.hooked "a" := by
  have hsome : sampleEnd.isSome = true := by decide
  obtain ⟨s, hs⟩ := Option.isSome_iff_exists.mp hsome
  obtain ⟨s₀, hstart, hrun⟩ := Option.bind_eq_some_iff.mp hs
  have hsafe := (stream_protocol_safe sampleDecoder _ _ _ _ s₀ s _ hstart hrun).1
  have hgroups : sampleEnd.map (·.attempt.state.groups) = some ["a", "b"] := by decide
  have hreported : sampleEnd.map (fun s => (s.reported "a", s.reported "b")) =
      some (true, true) := by decide
  have hhistory : sampleEnd.map (·.history) =
      some [(1, "initial"), (2, "cut"), (3, "terminal")] := by decide
  rw [hs] at hgroups hreported hhistory
  simp only [Option.map_some, Option.some.injEq, Prod.mk.injEq] at hgroups hreported hhistory
  have hall : ∀ g ∈ s.attempt.state.groups, s.reported g = true := by
    rw [hgroups]
    simpa using hreported
  have ha := hsafe.complete hall "a" (by rw [hgroups]; simp)
  have hb := hsafe.complete hall "b" (by rw [hgroups]; simp)
  exact ⟨s, hs, hsafe, ha.trans hhistory, hb.trans ha.symm⟩

end System

end PredictionIndexer.Streams
