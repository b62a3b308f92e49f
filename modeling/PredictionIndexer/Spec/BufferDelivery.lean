import PredictionIndexer.Engine.Buffer

/-!
# What the publish buffer delivers

The buffer is run over an arbitrary list of inserts and flushes, against an arbitrary backend
whose append calls are logged. `Buffered` is the invariant of such a run: what the backend
accepted, followed by what is still buffered, is what was inserted, and every logged call was
made at the right place, within the byte limit and with the right terminal flag. It needs
nothing of the backend. That no call fails, and that a blocking drain ends, rest on the contract
of the `StreamSink` trait, stated as `StreamSink.Keeps` and `StreamSink.EventuallyAccepts`.
-/

namespace PredictionIndexer.Engine

open Fallible

/-! ## Runs against a recorded backend -/

/-- One append call the backend answered, with the number of entries it accepted. -/
structure AppendCall where
  first : Nat
  entries : List String
  terminal : Bool
  accepted : Nat
deriving DecidableEq

/-- What a log of calls put into the stream. -/
def acceptedEntries (log : List AppendCall) : List String :=
  log.flatMap fun c => c.entries.take c.accepted

@[simp] theorem acceptedEntries_nil : acceptedEntries [] = [] := rfl

@[simp] theorem acceptedEntries_append (log log' : List AppendCall) :
    acceptedEntries (log ++ log') = acceptedEntries log ++ acceptedEntries log' := by
  simp [acceptedEntries]

@[simp] theorem acceptedEntries_singleton (c : AppendCall) :
    acceptedEntries [c] = c.entries.take c.accepted := by
  simp [acceptedEntries]

/-- The bytes of a call. -/
def payload (entries : List String) : Nat := (entries.map String.utf8ByteSize).sum

/-- The backend with a log of the calls it answered. -/
def StreamSink.recorded {σ : Type} (sink : StreamSink σ) : StreamSink (σ × List AppendCall) where
  append state first entries terminal :=
    match sink.append state.1 first entries terminal with
    | (.ok n, s) => (.ok n, (s, state.2 ++ [⟨first, entries, terminal, n⟩]))
    | (.error e, s) => (.error e, (s, state.2))

/-- A call of one of the two methods that write. -/
inductive BufferOp where
  | insert (entry : Entry)
  | flush
deriving DecidableEq

def BufferOp.entry? : BufferOp → Option Entry
  | .insert e => some e
  | .flush => none

/-- The entries a list of calls inserts. -/
def inserted (ops : List BufferOp) : List Entry := ops.filterMap BufferOp.entry?

/-- Consecutive sequences from 0, every entry within the cap, nothing after a terminal entry, and
no entry whose successor has no sequence. -/
def Consecutive (maxEntryBytes : Nat) (entries : List Entry) : Prop :=
  ∀ i e, entries[i]? = some e →
    e.sequence = i ∧ e.record.utf8ByteSize ≤ maxEntryBytes ∧ i + 1 < 2 ^ 64 ∧
      (e.terminal = true → i + 1 = entries.length)

namespace PublishBuffer

variable {σ : Type}

def perform (sink : StreamSink σ) (fuel : Nat) (b : PublishBuffer σ) :
    BufferOp → Option (Except TransportError Unit × PublishBuffer σ)
  | .insert entry => b.insert sink fuel entry
  | .flush => b.flush sink fuel

/-- The calls in order; every error is fatal. -/
def run (sink : StreamSink σ) (fuel : Nat) (b : PublishBuffer σ) :
    List BufferOp → Option (Except TransportError Unit × PublishBuffer σ)
  | [] => some (.ok (), b)
  | op :: ops =>
    match b.perform sink fuel op with
    | some (.ok (), b') => run sink fuel b' ops
    | stopped => stopped

end PublishBuffer

/-! ## The contract of a backend -/

namespace StreamSink

variable {σ : Type}

/-- `Ready s first`: the stream in state `s` is open and `first` directly follows its last entry.
A ready backend accepts some prefix of what it is sent, possibly none, and stays ready unless
the terminal entry went in. -/
structure Keeps (sink : StreamSink σ) (maxEntryBytes : Nat) (Ready : σ → Nat → Prop) : Prop where
  answers : ∀ s first entries terminal, Ready s first → entries ≠ [] →
    (∀ r ∈ entries, r.utf8ByteSize ≤ maxEntryBytes) →
    ∃ n s', sink.append s first entries terminal = (.ok n, s') ∧ n ≤ entries.length ∧
      ((terminal = true → n < entries.length) → Ready s' (first + n))

/-- Sent the same call over and over, the backend accepts something at last. -/
inductive Yields (sink : StreamSink σ) (first : Nat) (entries : List String) (terminal : Bool) :
    σ → Prop where
  | accept {s s' : σ} {n : Nat} : sink.append s first entries terminal = (.ok n, s') → 0 < n →
      Yields sink first entries terminal s
  | refuse {s s' : σ} : sink.append s first entries terminal = (.ok 0, s') →
      Yields sink first entries terminal s' → Yields sink first entries terminal s

/-- A blocking drain meets no queue that stays full for ever. -/
def EventuallyAccepts (sink : StreamSink σ) (maxEntryBytes : Nat) (Ready : σ → Nat → Prop) :
    Prop :=
  ∀ s first entries terminal, Ready s first → entries ≠ [] →
    (∀ r ∈ entries, r.utf8ByteSize ≤ maxEntryBytes) → sink.Yields first entries terminal s

end StreamSink

/-! ## The length of a call -/

namespace PublishBuffer

variable {σ : Type}

@[simp] theorem payload_nil : payload [] = 0 := rfl

@[simp] theorem payload_cons (r : String) (rs : List String) :
    payload (r :: rs) = r.utf8ByteSize + payload rs := by
  simp [payload]

theorem le_callLenFrom (limit index bytes : Nat) (entries : List String) :
    index ≤ callLenFrom limit index bytes entries := by
  induction entries generalizing index bytes with
  | nil => exact le_rfl
  | cons r rs ih =>
    unfold callLenFrom
    split
    · omega
    · have := ih (index + 1) (bytes + r.utf8ByteSize)
      omega

theorem callLenFrom_le (limit index bytes : Nat) (entries : List String) :
    callLenFrom limit index bytes entries ≤ index + entries.length := by
  induction entries generalizing index bytes with
  | nil => exact le_rfl
  | cons r rs ih =>
    unfold callLenFrom
    simp only [List.length_cons]
    split
    · omega
    · have := ih (index + 1) (bytes + r.utf8ByteSize)
      omega

/-- The prefix the loop settles on stays within the limit. Only the first entry could break it,
and no single entry is longer than the limit. -/
theorem payload_callLenFrom {limit index bytes : Nat} {entries : List String}
    (hfit : ∀ r ∈ entries, r.utf8ByteSize ≤ limit) (hbytes : bytes ≤ limit)
    (hstart : index = 0 → bytes = 0) :
    bytes + payload (entries.take (callLenFrom limit index bytes entries - index)) ≤ limit := by
  induction entries generalizing index bytes with
  | nil => simpa using hbytes
  | cons r rs ih =>
    have hr : r.utf8ByteSize ≤ limit := hfit r (by simp)
    unfold callLenFrom
    split
    · next hover =>
      have hindex : index ≠ 0 := fun h => by have := hstart h; omega
      have hmax : max index 1 - index = 0 := by omega
      simpa [hmax] using hbytes
    · next hunder =>
      have hrest := ih (fun r' hr' => hfit r' (by simp [hr'])) (Nat.le_of_not_lt hunder)
        (show index + 1 = 0 → _ from fun h => by omega)
      have hle := le_callLenFrom limit (index + 1) (bytes + r.utf8ByteSize) rs
      obtain ⟨k, hk⟩ := Nat.exists_eq_add_of_le hle
      have hsub : callLenFrom limit (index + 1) (bytes + r.utf8ByteSize) rs - index = k + 1 := by
        omega
      have hsub' : callLenFrom limit (index + 1) (bytes + r.utf8ByteSize) rs - (index + 1) = k := by
        omega
      rw [hsub'] at hrest
      rw [hsub, List.take_succ_cons, payload_cons]
      omega

theorem callLen_le (b : PublishBuffer σ) : b.callLen ≤ b.entries.length := by
  simpa [callLen] using callLenFrom_le b.maxCallBytes 0 0 b.entries

theorem callLen_pos {b : PublishBuffer σ} (hne : b.entries ≠ []) : 0 < b.callLen := by
  obtain ⟨r, rs, hrs⟩ := List.exists_cons_of_ne_nil hne
  unfold callLen
  rw [hrs, callLenFrom]
  split
  · omega
  · exact le_callLenFrom b.maxCallBytes 1 (0 + r.utf8ByteSize) rs

theorem payload_callLen {b : PublishBuffer σ}
    (hfit : ∀ r ∈ b.entries, r.utf8ByteSize ≤ b.maxCallBytes) :
    payload (b.entries.take b.callLen) ≤ b.maxCallBytes := by
  have h := payload_callLenFrom hfit (Nat.zero_le _) (show 0 = 0 → 0 = 0 from fun _ => rfl)
  simpa [callLen] using h

/-! ## One turn of the drain loop -/

/-- The buffer once the backend has answered an append with `n` accepted entries. -/
def answer (b : PublishBuffer σ) (s : σ) (n : Nat) : PublishBuffer σ :=
  if n > 0 then { b with sink := s }.accept n else { b with sink := s }

section Answer

variable (b : PublishBuffer σ) (s : σ) (n : Nat)

@[simp] theorem answer_sink : (b.answer s n).sink = s := by
  unfold answer; split <;> rfl

@[simp] theorem answer_entries : (b.answer s n).entries = b.entries.drop n := by
  unfold answer
  split
  · rfl
  · have hn : n = 0 := by omega
    simp [hn]

@[simp] theorem answer_first : (b.answer s n).first = b.first + n := by
  unfold answer
  split
  · rfl
  · have hn : n = 0 := by omega
    simp [hn]

@[simp] theorem answer_next : (b.answer s n).next = b.next := by
  unfold answer; split <;> rfl

@[simp] theorem answer_terminal : (b.answer s n).terminal = b.terminal := by
  unfold answer; split <;> rfl

@[simp] theorem answer_batch : (b.answer s n).batch = b.batch := by
  unfold answer; split <;> rfl

@[simp] theorem answer_capacity : (b.answer s n).capacity = b.capacity := by
  unfold answer; split <;> rfl

@[simp] theorem answer_maxEntryBytes : (b.answer s n).maxEntryBytes = b.maxEntryBytes := by
  unfold answer; split <;> rfl

@[simp] theorem answer_maxCallBytes : (b.answer s n).maxCallBytes = b.maxCallBytes := by
  unfold answer; split <;> rfl

end Answer

/-- The flag of the call the buffer makes next. -/
def callTerminal (b : PublishBuffer σ) : Bool := b.terminal && b.callLen == b.entries.length

section Turn

variable {sink : StreamSink σ} {blocking : Bool} {fuel backoff : Nat} {b : PublishBuffer σ}

theorem drainFrom_empty (h : b.entries = []) :
    drainFrom sink blocking (fuel + 1) backoff b = some (.ok (), { b with attempted := false }) := by
  simp [drainFrom, h]

theorem drainFrom_error (hne : b.entries ≠ []) {e : TransportError} {s : σ}
    (h : sink.append b.sink b.first (b.entries.take b.callLen) b.callTerminal = (.error e, s)) :
    drainFrom sink blocking (fuel + 1) backoff b = some (.error e, { b with sink := s }) := by
  unfold callTerminal at h
  simp [drainFrom, hne, h]

theorem drainFrom_overrun (hne : b.entries ≠ []) {n : Nat} {s : σ}
    (h : sink.append b.sink b.first (b.entries.take b.callLen) b.callTerminal = (.ok n, s))
    (hn : b.callLen < n) :
    drainFrom sink blocking (fuel + 1) backoff b =
      some (.error (.protocol "append reply"), { b with sink := s }) := by
  unfold callTerminal at h
  simp [drainFrom, hne, h, hn]

/-- The whole call went in: the loop goes round. -/
theorem drainFrom_all (hne : b.entries ≠ []) {s : σ}
    (h : sink.append b.sink b.first (b.entries.take b.callLen) b.callTerminal =
      (.ok b.callLen, s)) :
    drainFrom sink blocking (fuel + 1) backoff b =
      drainFrom sink blocking fuel fullBackoffStart (b.answer s b.callLen) := by
  have hpos := callLen_pos hne
  unfold callTerminal at h
  simp [drainFrom, hne, h, answer, hpos]

/-- A short reply ends a drain that does not block. -/
theorem drainFrom_defer (hne : b.entries ≠ []) {n : Nat} {s : σ}
    (h : sink.append b.sink b.first (b.entries.take b.callLen) b.callTerminal = (.ok n, s))
    (hn : n < b.callLen) :
    drainFrom sink false (fuel + 1) backoff b =
      some (.ok (), { b.answer s n with attempted := true }) := by
  have hle : ¬ b.callLen < n := by omega
  have hall : n ≠ b.callLen := by omega
  unfold callTerminal at h
  simp [drainFrom, hne, h, hle, hall, answer]

/-- A short reply makes a blocking drain wait and try again. -/
theorem drainFrom_retry (hne : b.entries ≠ []) {n : Nat} {s : σ}
    (h : sink.append b.sink b.first (b.entries.take b.callLen) b.callTerminal = (.ok n, s))
    (hn : n < b.callLen) :
    drainFrom sink true (fuel + 1) backoff b =
      let backoff := if n > 0 then fullBackoffStart else backoff
      drainFrom sink true fuel (min (backoff * 2) fullBackoffCap)
        ((b.answer s n).wait backoff) := by
  have hle : ¬ b.callLen < n := by omega
  have hall : n ≠ b.callLen := by omega
  unfold callTerminal at h
  simp [drainFrom, hne, h, hle, hall, answer]

end Turn

/-! ## The invariant -/

/-- What one logged call looks like, given how many entries went in before it. -/
structure CallSpec (limit : Nat) (ins : List Entry) (before : Nat) (c : AppendCall) : Prop where
  first : c.first = before
  nonempty : c.entries ≠ []
  accepted : c.accepted ≤ c.entries.length
  entries : c.entries = ((ins.map Entry.record).drop c.first).take c.entries.length
  bytes : payload c.entries ≤ limit
  terminal : c.terminal = true ↔
    ∃ e, ins[c.first + c.entries.length - 1]? = some e ∧ e.terminal = true

/-- The arguments a buffer is built with. -/
structure Limits where
  batch : Nat
  maxEntryBytes : Nat
  maxQueueBytes : Nat
deriving DecidableEq

def Limits.maxCallBytes (lim : Limits) : Nat := max lim.maxQueueBytes lim.maxEntryBytes

def Limits.buffer (lim : Limits) (sink : σ) : PublishBuffer σ :=
  new sink lim.batch lim.maxEntryBytes lim.maxQueueBytes

/-- The invariant of a run that has inserted `ins`. -/
structure Buffered (lim : Limits) (ins : List Entry) (b : PublishBuffer (σ × List AppendCall)) :
    Prop where
  batch : b.batch = clampBatch lim.batch
  capacity : b.capacity = hardCapacity (clampBatch lim.batch)
  maxEntry : b.maxEntryBytes = lim.maxEntryBytes
  maxCall : b.maxCallBytes = lim.maxCallBytes
  content : acceptedEntries b.sink.2 ++ b.entries = ins.map Entry.record
  first : b.first = (acceptedEntries b.sink.2).length
  next : b.next = ins.length
  terminal : b.terminal = true ↔ ∃ e, ins[ins.length - 1]? = some e ∧ e.terminal = true
  /-- Nothing follows a terminal entry. -/
  closed : ∀ i e, ins[i]? = some e → e.terminal = true → i + 1 = ins.length
  fits : ∀ r ∈ b.entries, r.utf8ByteSize ≤ lim.maxEntryBytes
  calls : ∀ before c after, b.sink.2 = before ++ c :: after →
    CallSpec lim.maxCallBytes ins (acceptedEntries before).length c

section Buffered

variable {lim : Limits} {ins : List Entry} {b : PublishBuffer (σ × List AppendCall)}

/-- The invariant reads neither the statistics nor the deferral flag. -/
theorem Buffered.attempt (h : Buffered lim ins b) (a : Bool) :
    Buffered lim ins { b with attempted := a } := { h with }

theorem Buffered.wait (h : Buffered lim ins b) (backoff : Nat) :
    Buffered lim ins (b.wait backoff) := { h with }

theorem Buffered.entries_eq (h : Buffered lim ins b) :
    b.entries = (ins.map Entry.record).drop b.first := by
  rw [h.first, ← h.content, List.drop_left]

theorem Buffered.length_eq (h : Buffered lim ins b) : b.first + b.entries.length = ins.length := by
  have := congrArg List.length h.content
  simpa [h.first] using this

theorem Buffered.take_fits (h : Buffered lim ins b) :
    ∀ r ∈ b.entries, r.utf8ByteSize ≤ b.maxCallBytes := by
  intro r hr
  rw [h.maxCall]
  exact le_max_of_le_right (h.fits r hr)

/-- The call the buffer makes in a state that satisfies the invariant. -/
theorem Buffered.callSpec (h : Buffered lim ins b) (hne : b.entries ≠ []) {n : Nat}
    (hn : n ≤ b.callLen) :
    CallSpec lim.maxCallBytes ins (acceptedEntries b.sink.2).length
      ⟨b.first, b.entries.take b.callLen, b.callTerminal, n⟩ := by
  have hlen : (b.entries.take b.callLen).length = b.callLen := by
    simpa using b.callLen_le
  have hpos := callLen_pos hne
  have htotal := h.length_eq
  refine ⟨h.first, ?_, ?_, ?_, ?_, ?_⟩
  · show b.entries.take b.callLen ≠ []
    exact List.ne_nil_of_length_pos (by omega)
  · simpa only [hlen] using hn
  · simp only [hlen, ← h.entries_eq]
  · rw [← h.maxCall]
    exact payload_callLen h.take_fits
  · simp only [hlen, callTerminal, Bool.and_eq_true, beq_iff_eq]
    constructor
    · -- The call takes everything buffered, so its last entry is the last one inserted.
      rintro ⟨hterminal, hall⟩
      rw [show b.first + b.callLen - 1 = ins.length - 1 by omega]
      exact h.terminal.mp hterminal
    · rintro ⟨e, he, hterminal⟩
      have hlast := h.closed _ _ he hterminal
      refine ⟨h.terminal.mpr ⟨e, ?_, hterminal⟩, by omega⟩
      rw [← hlast]
      exact he

/-- An answered append keeps the invariant. -/
theorem Buffered.answer (h : Buffered lim ins b) (hne : b.entries ≠ []) {n : Nat}
    (hn : n ≤ b.callLen) (s : σ) :
    Buffered lim ins (b.answer (s, b.sink.2 ++
      [⟨b.first, b.entries.take b.callLen, b.callTerminal, n⟩]) n) := by
  have htake : (b.entries.take b.callLen).take n = b.entries.take n := by
    rw [List.take_take, Nat.min_eq_left hn]
  have hnlen : n ≤ b.entries.length := hn.trans b.callLen_le
  constructor
  case batch => simpa using h.batch
  case capacity => simpa using h.capacity
  case maxEntry => simpa using h.maxEntry
  case maxCall => simpa using h.maxCall
  case content => simpa [htake] using h.content
  case first => simp [htake, h.first, Nat.min_eq_left hnlen]
  case next => simpa using h.next
  case terminal => simpa using h.terminal
  case closed => exact h.closed
  case fits =>
    intro r hr
    rw [answer_entries] at hr
    exact h.fits r (List.mem_of_mem_drop hr)
  case calls =>
    -- The new call is the last of the log; every other one was there before.
    intro before c after heq
    rw [answer_sink] at heq
    rcases List.eq_nil_or_concat after with rfl | ⟨after', last, rfl⟩
    · obtain ⟨hbefore, hc⟩ := List.append_inj' heq rfl
      cases hc
      rw [← hbefore]
      exact h.callSpec hne hn
    · have heq' : b.sink.2 ++ [⟨b.first, b.entries.take b.callLen, b.callTerminal, n⟩] =
          (before ++ c :: after') ++ [last] := by simpa using heq
      exact h.calls before c after' (List.append_inj' heq' rfl).1

/-- A call lies within what was inserted when it was made. -/
theorem CallSpec.end_le {limit before : Nat} {c : AppendCall} (h : CallSpec limit ins before c) :
    c.first + c.entries.length ≤ ins.length := by
  have hpos := List.length_pos_iff.mpr h.nonempty
  have hlen := congrArg List.length h.entries
  simp only [List.length_take, List.length_drop, List.length_map] at hlen
  omega

/-- What a call looked like does not change as more entries come in. -/
theorem CallSpec.push {limit before : Nat} {c : AppendCall} (h : CallSpec limit ins before c)
    (e : Entry) : CallSpec limit (ins ++ [e]) before c := by
  have hend := h.end_le
  have hpos := List.length_pos_iff.mpr h.nonempty
  refine { h with entries := ?_, terminal := ?_ }
  · rw [List.map_append, List.drop_append_of_le_length (by simp; omega),
      List.take_append_of_le_length (by simp; omega)]
    exact h.entries
  · rw [List.getElem?_append_left (by omega)]
    exact h.terminal

/-- The buffer once `insert` has taken an entry, before any drain. -/
def push (b : PublishBuffer σ) (entry : Entry) : PublishBuffer σ :=
  { b with
    entries := b.entries ++ [entry.record]
    next := b.next + 1
    terminal := entry.terminal }

theorem Buffered.push (h : Buffered lim ins b) {e : Entry} (hopen : b.terminal = false)
    (hsize : e.record.utf8ByteSize ≤ lim.maxEntryBytes) :
    Buffered lim (ins ++ [e]) (b.push e) := by
  constructor
  case batch => exact h.batch
  case capacity => exact h.capacity
  case maxEntry => exact h.maxEntry
  case maxCall => exact h.maxCall
  case content =>
    show acceptedEntries b.sink.2 ++ (b.entries ++ [e.record]) = _
    rw [← List.append_assoc, h.content]
    simp
  case first => exact h.first
  case next => simp [PublishBuffer.push, h.next]
  case terminal => simp [PublishBuffer.push]
  case closed =>
    -- The buffer was open, so no entry before this one is terminal.
    intro i e' hi hterminal
    rcases Nat.lt_or_ge i ins.length with hlt | hge
    · rw [List.getElem?_append_left hlt] at hi
      have hlast := h.closed i e' hi hterminal
      have : b.terminal = true := h.terminal.mpr ⟨e', by rw [← hlast]; exact hi, hterminal⟩
      simp [hopen] at this
    · have hlt := (List.getElem?_eq_some_iff.mp hi).1
      simp only [List.length_append, List.length_singleton] at hlt ⊢
      omega
  case fits =>
    intro r hr
    rcases List.mem_append.mp hr with hr | hr
    · exact h.fits r hr
    · rw [List.mem_singleton.mp hr]
      exact hsize
  case calls =>
    intro before c after heq
    exact (h.calls before c after heq).push e

end Buffered

/-! ## What a drain, a call and a run preserve -/

section Run

variable {sink : StreamSink σ} {blocking : Bool} {lim : Limits} {ins : List Entry}
  {b b' : PublishBuffer (σ × List AppendCall)}

/-- What a successful drain leaves behind. -/
structure Drained (lim : Limits) (ins : List Entry) (blocking : Bool) (len : Nat)
    (b : PublishBuffer (σ × List AppendCall)) : Prop where
  buffered : Buffered lim ins b
  length_le : b.entries.length ≤ len
  emptied : blocking = true → b.entries = []

theorem Drained.mono {len len' : Nat} (h : Drained lim ins blocking len b) (hle : len ≤ len') :
    Drained lim ins blocking len' b :=
  { h with length_le := h.length_le.trans hle }

/-- An append of the recorded backend that succeeds is logged. -/
theorem recorded_append_ok {state : σ × List AppendCall} {first n : Nat} {entries : List String}
    {terminal : Bool} {state' : σ × List AppendCall}
    (h : sink.recorded.append state first entries terminal = (.ok n, state')) :
    state'.2 = state.2 ++ [⟨first, entries, terminal, n⟩] := by
  unfold StreamSink.recorded at h
  simp only at h
  split at h <;> simp only [Prod.mk.injEq, Except.ok.injEq, reduceCtorEq, false_and] at h
  obtain ⟨rfl, rfl⟩ := h
  rfl

/-- The invariant rule of the drain loop: by induction on the fuel, one turn at a time. -/
theorem drainFrom_drained {fuel backoff : Nat} (hb : Buffered lim ins b)
    (h : drainFrom sink.recorded blocking fuel backoff b = some (.ok (), b')) :
    Drained lim ins blocking b.entries.length b' := by
  induction fuel generalizing b backoff with
  | zero => simp [drainFrom] at h
  | succ fuel ih =>
    by_cases hne : b.entries = []
    · rw [drainFrom_empty hne] at h
      cases h
      exact ⟨hb.attempt false, le_rfl, fun _ => hne⟩
    · rcases happend : sink.recorded.append b.sink b.first (b.entries.take b.callLen)
        b.callTerminal with ⟨_ | n, state⟩
      · rw [drainFrom_error hne happend] at h
        cases h
      · rcases Nat.lt_or_ge b.callLen n with hover | hn
        · rw [drainFrom_overrun hne happend hover] at h
          cases h
        · have hanswer : Buffered lim ins (b.answer state n) := by
            have hlog := recorded_append_ok happend
            have := hb.answer hne hn state.1
            rwa [← hlog] at this
          have hshrink : (b.answer state n).entries.length ≤ b.entries.length := by simp
          rcases Nat.eq_or_lt_of_le hn with rfl | hshort
          · rw [drainFrom_all hne happend] at h
            exact (ih hanswer h).mono hshrink
          · cases blocking with
            | false =>
              rw [drainFrom_defer hne happend hshort] at h
              cases h
              exact ⟨hanswer.attempt true, hshrink, fun hb => nomatch hb⟩
            | true =>
              rw [drainFrom_retry hne happend hshort] at h
              exact (ih (hanswer.wait _) h).mono hshrink

/-- What `insert` checked, and which drain it ran, when it succeeds. -/
theorem insert_ok {σ : Type} {sink : StreamSink σ} {fuel : Nat} {b b' : PublishBuffer σ}
    {e : Entry} (h : b.insert sink fuel e = some (.ok (), b')) :
    b.terminal = false ∧ e.sequence = b.next ∧ e.record.utf8ByteSize ≤ b.maxEntryBytes ∧
      ((b.capacity ≤ b.entries.length + 1 ∧ drain sink true fuel (b.push e) = some (.ok (), b')) ∨
        (b.entries.length + 1 < b.capacity ∧
          (drain sink false fuel (b.push e) = some (.ok (), b') ∨ b' = b.push e))) := by
  unfold insert at h
  split at h
  · cases h
  next hsequence =>
  split at h
  · cases h
  next hsize =>
  simp only [Bool.or_eq_true, bne_iff_ne, ne_eq, not_or, Bool.not_eq_true, not_not] at hsequence
  refine ⟨hsequence.1, hsequence.2, Nat.le_of_not_lt hsize, ?_⟩
  simp only at h
  split at h
  · cases h
  next next hnext =>
  rw [checkedAdd_eq_some] at hnext
  rw [hnext.2] at h
  simp only [List.length_append, List.length_singleton] at h
  split at h
  · next hfull => exact Or.inl ⟨hfull, h⟩
  · next hfull =>
    refine Or.inr ⟨Nat.lt_of_not_le hfull, ?_⟩
    split at h
    · exact Or.inl h
    · cases h
      exact Or.inr rfl

/-- Where a run stands between two calls. -/
structure Settled (lim : Limits) (ins : List Entry) (b : PublishBuffer (σ × List AppendCall)) :
    Prop where
  buffered : Buffered lim ins b
  below : b.entries.length < hardCapacity (clampBatch lim.batch)

theorem hardCapacity_clampBatch_pos (batch : Nat) : 0 < hardCapacity (clampBatch batch) := by
  unfold hardCapacity clampBatch minBatchEntries maxBatchEntries
  split <;> [skip; split] <;> omega

theorem insert_settled {fuel : Nat} {e : Entry} (hb : Settled lim ins b)
    (h : b.insert sink.recorded fuel e = some (.ok (), b')) : Settled lim (ins ++ [e]) b' := by
  obtain ⟨hopen, -, hsize, hdrain⟩ := insert_ok h
  rw [hb.buffered.maxEntry] at hsize
  have hpush := hb.buffered.push hopen hsize
  rw [hb.buffered.capacity] at hdrain
  rcases hdrain with ⟨-, hdrain⟩ | ⟨hbelow, hdrain | rfl⟩
  · have hdrained := drainFrom_drained hpush hdrain
    refine ⟨hdrained.buffered, ?_⟩
    rw [hdrained.emptied rfl]
    exact hardCapacity_clampBatch_pos lim.batch
  · have hdrained := drainFrom_drained hpush hdrain
    refine ⟨hdrained.buffered, lt_of_le_of_lt hdrained.length_le ?_⟩
    simpa [push] using hbelow
  · exact ⟨hpush, by simpa [push] using hbelow⟩

theorem flush_settled {fuel : Nat} (hb : Settled lim ins b)
    (h : b.flush sink.recorded fuel = some (.ok (), b')) :
    Settled lim ins b' ∧ b'.entries = [] := by
  have hdrained := drainFrom_drained hb.buffered h
  exact ⟨⟨hdrained.buffered, lt_of_le_of_lt hdrained.length_le hb.below⟩, hdrained.emptied rfl⟩

/-- A run keeps the invariant, and one that ends with a flush leaves nothing buffered. -/
theorem run_settled {fuel : Nat} {ops : List BufferOp} (hb : Settled lim ins b)
    (h : b.run sink.recorded fuel ops = some (.ok (), b')) :
    Settled lim (ins ++ inserted ops) b' ∧ (ops.getLast? = some .flush → b'.entries = []) := by
  induction ops generalizing b ins with
  | nil =>
    cases h
    exact ⟨by simpa [inserted] using hb, fun hlast => nomatch hlast⟩
  | cons op ops ih =>
    unfold run at h
    split at h
    next b₁ hperform =>
      cases op with
      | insert e =>
        obtain ⟨hsettled, hlast⟩ := ih (insert_settled hb hperform) h
        refine ⟨by simpa [inserted, BufferOp.entry?] using hsettled, fun hflush => hlast ?_⟩
        cases ops with
        | nil => cases hflush
        | cons op' ops' => simpa using hflush
      | flush =>
        obtain ⟨hb₁, hempty⟩ := flush_settled hb hperform
        obtain ⟨hsettled, hlast⟩ := ih hb₁ h
        refine ⟨by simpa [inserted, List.filterMap_cons, BufferOp.entry?] using hsettled,
          fun hflush => ?_⟩
        cases ops with
        | nil =>
          cases h
          exact hempty
        | cons op' ops' => exact hlast (by simpa using hflush)
    next hstopped =>
      exact absurd h (hstopped b')

end Run

/-! ## No call fails -/

section Succeeds

variable {sink : StreamSink σ} {Ready : σ → Nat → Prop} {maxEntryBytes : Nat} {blocking : Bool}
  {b b' : PublishBuffer σ}

/-- The backend is ready for the next append, unless the terminal entry is in the stream. -/
structure Standing (Ready : σ → Nat → Prop) (maxEntryBytes : Nat) (b : PublishBuffer σ) :
    Prop where
  ready : (b.terminal = true → b.entries ≠ []) → Ready b.sink b.first
  fits : ∀ r ∈ b.entries, r.utf8ByteSize ≤ maxEntryBytes

theorem Standing.wait (hb : Standing Ready maxEntryBytes b) (backoff : Nat) :
    Standing Ready maxEntryBytes (b.wait backoff) := { hb with }

/-- The append a drain makes is answered, and the buffer stands after it. -/
theorem Standing.append (hkeeps : sink.Keeps maxEntryBytes Ready)
    (hb : Standing Ready maxEntryBytes b) (hne : b.entries ≠ []) :
    ∃ n s, sink.append b.sink b.first (b.entries.take b.callLen) b.callTerminal = (.ok n, s) ∧
      n ≤ b.callLen ∧ Standing Ready maxEntryBytes (b.answer s n) := by
  have hpos := callLen_pos hne
  have hlen : (b.entries.take b.callLen).length = b.callLen := by simpa using b.callLen_le
  have htake : b.entries.take b.callLen ≠ [] := List.ne_nil_of_length_pos (by omega)
  obtain ⟨n, s, happend, hn, hready⟩ := hkeeps.answers b.sink b.first _ b.callTerminal
    (hb.ready fun _ => hne) htake fun r hr => hb.fits r (List.mem_of_mem_take hr)
  rw [hlen] at hn hready
  refine ⟨n, s, happend, hn, ?_, ?_⟩
  · intro hopen
    rw [answer_terminal, answer_entries] at hopen
    rw [answer_sink, answer_first]
    -- The whole call went in and was flagged only if nothing is left of a closed buffer.
    refine hready fun hterminal => ?_
    simp only [callTerminal, Bool.and_eq_true, beq_iff_eq] at hterminal
    have hleft := List.length_pos_iff.mpr (hopen hterminal.1)
    rw [List.length_drop] at hleft
    omega
  · intro r hr
    rw [answer_entries] at hr
    exact hb.fits r (List.mem_of_mem_drop hr)

theorem drainFrom_succeeds {fuel backoff : Nat} {r : Except TransportError Unit × PublishBuffer σ}
    (hkeeps : sink.Keeps maxEntryBytes Ready) (hb : Standing Ready maxEntryBytes b)
    (h : drainFrom sink blocking fuel backoff b = some r) :
    ∃ b', r = (.ok (), b') ∧ Standing Ready maxEntryBytes b' := by
  induction fuel generalizing b backoff with
  | zero => simp [drainFrom] at h
  | succ fuel ih =>
    by_cases hne : b.entries = []
    · rw [drainFrom_empty hne] at h
      cases h
      exact ⟨_, rfl, { hb with }⟩
    · obtain ⟨n, s, happend, hn, hanswer⟩ := hb.append hkeeps hne
      rcases Nat.eq_or_lt_of_le hn with rfl | hshort
      · rw [drainFrom_all hne happend] at h
        exact ih hanswer h
      · cases blocking with
        | false =>
          rw [drainFrom_defer hne happend hshort] at h
          cases h
          exact ⟨_, rfl, { hanswer with }⟩
        | true =>
          rw [drainFrom_retry hne happend hshort] at h
          exact ih (hanswer.wait _) h

/-- `insert` once its checks have passed. -/
theorem insert_eq {fuel : Nat} {e : Entry} (hopen : b.terminal = false)
    (hsequence : e.sequence = b.next) (hsize : e.record.utf8ByteSize ≤ b.maxEntryBytes)
    (hnext : b.next + 1 < 2 ^ 64) :
    b.insert sink fuel e =
      if b.capacity ≤ b.entries.length + 1 then drain sink true fuel (b.push e)
      else if !b.attempted && b.batch ≤ b.entries.length + 1 then
        drain sink false fuel (b.push e)
      else some (.ok (), b.push e) := by
  have hsize' : ¬ b.maxEntryBytes < e.record.utf8ByteSize := Nat.not_lt_of_le hsize
  have hadd : checkedAdd b.next 1 = some (b.next + 1) := checkedAdd_eq_some.mpr ⟨hnext, rfl⟩
  simp [insert, hopen, hsequence, hsize', hadd, push]

theorem Standing.push (hb : Standing Ready maxEntryBytes b) {e : Entry}
    (hopen : b.terminal = false) (hsize : e.record.utf8ByteSize ≤ maxEntryBytes) :
    Standing Ready maxEntryBytes (b.push e) := by
  refine ⟨fun _ => hb.ready fun h => ?_, fun r hr => ?_⟩
  · rw [hopen] at h
    cases h
  · rcases List.mem_append.mp hr with hr | hr
    · exact hb.fits r hr
    · rw [List.mem_singleton.mp hr]
      exact hsize

theorem insert_succeeds {fuel : Nat} {e : Entry}
    {r : Except TransportError Unit × PublishBuffer σ} (hkeeps : sink.Keeps maxEntryBytes Ready)
    (hb : Standing Ready maxEntryBytes b) (hmax : b.maxEntryBytes = maxEntryBytes)
    (hopen : b.terminal = false) (hsequence : e.sequence = b.next)
    (hsize : e.record.utf8ByteSize ≤ maxEntryBytes) (hnext : b.next + 1 < 2 ^ 64)
    (h : b.insert sink fuel e = some r) :
    ∃ b', r = (.ok (), b') ∧ Standing Ready maxEntryBytes b' := by
  rw [insert_eq hopen hsequence (hmax ▸ hsize) hnext] at h
  have hpush := hb.push hopen hsize
  split at h
  · exact drainFrom_succeeds hkeeps hpush h
  · split at h
    · exact drainFrom_succeeds hkeeps hpush h
    · cases h
      exact ⟨_, rfl, hpush⟩

theorem recorded_append {s s' : σ} {first n : Nat} {entries : List String} {terminal : Bool}
    (h : sink.append s first entries terminal = (.ok n, s')) (log : List AppendCall) :
    sink.recorded.append (s, log) first entries terminal =
      (.ok n, (s', log ++ [⟨first, entries, terminal, n⟩])) := by
  simp [StreamSink.recorded, h]

/-- A recorded backend keeps the contract of the one it records. -/
theorem recorded_keeps (hkeeps : sink.Keeps maxEntryBytes Ready) :
    sink.recorded.Keeps maxEntryBytes fun state => Ready state.1 := by
  refine ⟨fun state first entries terminal hready hne hfits => ?_⟩
  obtain ⟨n, s, happend, hn, hready'⟩ :=
    hkeeps.answers state.1 first entries terminal hready hne hfits
  exact ⟨n, _, recorded_append happend state.2, hn, hready'⟩

end Succeeds

/-! ## Enough fuel -/

section Fuel

variable {sink : StreamSink σ} {Ready : σ → Nat → Prop} {maxEntryBytes : Nat} {blocking : Bool}
  {b : PublishBuffer σ} {fuel fuel' : Nat} {r : Except TransportError Unit × PublishBuffer σ}

/-- More fuel does not change a result. -/
theorem drainFrom_fuel_le {backoff : Nat} (h : drainFrom sink blocking fuel backoff b = some r)
    (hle : fuel ≤ fuel') : drainFrom sink blocking fuel' backoff b = some r := by
  induction fuel generalizing b backoff fuel' with
  | zero => simp [drainFrom] at h
  | succ fuel ih =>
    obtain ⟨fuel', rfl⟩ : ∃ k, fuel' = k + 1 := ⟨fuel' - 1, by omega⟩
    have hle' : fuel ≤ fuel' := by omega
    by_cases hne : b.entries = []
    · rw [drainFrom_empty hne] at h ⊢
      exact h
    · rcases happend : sink.append b.sink b.first (b.entries.take b.callLen)
        b.callTerminal with ⟨_ | n, s⟩
      · rw [drainFrom_error hne happend] at h ⊢
        exact h
      · rcases Nat.lt_or_ge b.callLen n with hover | hn
        · rw [drainFrom_overrun hne happend hover] at h ⊢
          exact h
        · rcases Nat.eq_or_lt_of_le hn with rfl | hshort
          · rw [drainFrom_all hne happend] at h ⊢
            exact ih h hle'
          · cases blocking with
            | false =>
              rw [drainFrom_defer hne happend hshort] at h ⊢
              exact h
            | true =>
              rw [drainFrom_retry hne happend hshort] at h ⊢
              exact ih h hle'

theorem perform_fuel_le {op : BufferOp} (h : b.perform sink fuel op = some r)
    (hle : fuel ≤ fuel') : b.perform sink fuel' op = some r := by
  cases op with
  | flush => exact drainFrom_fuel_le h hle
  | insert e =>
    simp only [perform, insert, drain] at h ⊢
    cases hadd : checkedAdd b.next 1 with
    | none =>
      rw [hadd] at h
      exact h
    | some next =>
      rw [hadd] at h
      simp only at h ⊢
      split_ifs at h ⊢
      · exact h
      · exact h
      · exact drainFrom_fuel_le h hle
      · exact drainFrom_fuel_le h hle
      · exact h

theorem run_fuel_le {ops : List BufferOp} (h : b.run sink fuel ops = some r)
    (hle : fuel ≤ fuel') : b.run sink fuel' ops = some r := by
  induction ops generalizing b with
  | nil => exact h
  | cons op ops ih =>
    unfold run at h ⊢
    cases hperform : b.perform sink fuel op with
    | none => simp [hperform] at h
    | some out =>
      rw [hperform] at h
      rw [perform_fuel_le hperform hle]
      rcases out with ⟨_ | _, b₁⟩
      · exact h
      · exact ih h

/-- A drain ends. The outer induction is on the number of buffered entries; in between, the
backend refuses the same call a finite number of times. -/
theorem drainFrom_terminates (hkeeps : sink.Keeps maxEntryBytes Ready)
    (hyields : sink.EventuallyAccepts maxEntryBytes Ready) (len : Nat) :
    ∀ (b : PublishBuffer σ) (backoff : Nat), b.entries.length = len →
      Standing Ready maxEntryBytes b →
      ∃ fuel r, drainFrom sink blocking fuel backoff b = some r := by
  induction len using Nat.strong_induction_on with
  | _ len ih =>
    intro b backoff hlen hb
    by_cases hne : b.entries = []
    · exact ⟨1, _, drainFrom_empty hne⟩
    have hpos := callLen_pos hne
    have hlen' : (b.entries.take b.callLen).length = b.callLen := by simpa using b.callLen_le
    have htake : b.entries.take b.callLen ≠ [] := List.ne_nil_of_length_pos (by omega)
    have hy := hyields b.sink b.first _ b.callTerminal (hb.ready fun _ => hne) htake
      fun r hr => hb.fits r (List.mem_of_mem_take hr)
    generalize hs : b.sink = s at hy
    generalize hf : b.first = first at hy
    generalize he : b.entries.take b.callLen = entries at hy
    generalize ht : b.callTerminal = terminal at hy
    clear hlen' htake
    induction hy generalizing b backoff with
    | @accept s s' n happend hn =>
      subst hs hf he ht
      obtain ⟨n', s'', happend', hle, hanswer⟩ := hb.append hkeeps hne
      rw [happend] at happend'
      cases happend'
      have hless : (b.answer s' n).entries.length < len := by
        have := b.callLen_le
        rw [answer_entries, List.length_drop]
        omega
      rcases Nat.eq_or_lt_of_le hle with rfl | hshort
      · obtain ⟨fuel, r, hr⟩ := ih _ hless _ fullBackoffStart rfl hanswer
        exact ⟨fuel + 1, r, by rw [drainFrom_all hne happend, hr]⟩
      · cases blocking with
        | false => exact ⟨1, _, drainFrom_defer hne happend hshort⟩
        | true =>
          obtain ⟨fuel, r, hr⟩ := ih _ hless ((b.answer s' n).wait _) _ rfl (hanswer.wait _)
          exact ⟨fuel + 1, r, by rw [drainFrom_retry hne happend hshort, hr]⟩
    | @refuse s s' happend _ ihy =>
      subst hs hf he ht
      obtain ⟨n', s'', happend', -, hanswer⟩ := hb.append hkeeps hne
      rw [happend] at happend'
      cases happend'
      cases blocking with
      | false => exact ⟨1, _, drainFrom_defer hne happend hpos⟩
      | true =>
        obtain ⟨fuel, r, hr⟩ := ihy ((b.answer s' 0).wait _) _ hlen (hanswer.wait _) hne hpos
          rfl rfl rfl rfl
        exact ⟨fuel + 1, r, by rw [drainFrom_retry hne happend hpos, hr]⟩

end Fuel

/-! ## Delivery -/

section Delivery

variable {sink : StreamSink σ} {Ready : σ → Nat → Prop} {lim : Limits} {ins : List Entry}
  {b b' : PublishBuffer (σ × List AppendCall)} {fuel : Nat}

/-- The next entry of a consecutive list passes every check of `insert`. -/
theorem Buffered.next_entry (hb : Buffered lim ins b) {e : Entry} {rest : List Entry}
    (h : Consecutive lim.maxEntryBytes (ins ++ e :: rest)) :
    b.terminal = false ∧ e.sequence = b.next ∧ e.record.utf8ByteSize ≤ lim.maxEntryBytes ∧
      b.next + 1 < 2 ^ 64 := by
  have hat : (ins ++ e :: rest)[ins.length]? = some e := by simp
  obtain ⟨hsequence, hsize, hnext, -⟩ := h _ _ hat
  rw [hb.next]
  refine ⟨?_, hsequence, hsize, hnext⟩
  by_contra hclosed
  obtain ⟨last, hlast, hterminal⟩ := hb.terminal.mp (by simpa using hclosed)
  have hlt := (List.getElem?_eq_some_iff.mp hlast).1
  have hend := (h (ins.length - 1) last (by rw [List.getElem?_append_left hlt]; exact hlast)).2.2.2
    hterminal
  simp only [List.length_append, List.length_cons] at hend
  omega

/-- Both halves of the invariant: what was delivered, and that the backend still listens. -/
structure Alive (Ready : σ → Nat → Prop) (lim : Limits) (ins : List Entry)
    (b : PublishBuffer (σ × List AppendCall)) : Prop where
  settled : Settled lim ins b
  standing : Standing (fun state => Ready state.1) lim.maxEntryBytes b

theorem perform_alive (hkeeps : sink.Keeps lim.maxEntryBytes Ready) {op : BufferOp}
    {ops : List BufferOp} {r : Except TransportError Unit × PublishBuffer (σ × List AppendCall)}
    (hb : Alive Ready lim ins b)
    (hops : Consecutive lim.maxEntryBytes (ins ++ inserted (op :: ops)))
    (h : b.perform sink.recorded fuel op = some r) :
    ∃ b' ins', r = (.ok (), b') ∧ Alive Ready lim ins' b' ∧
      ins' ++ inserted ops = ins ++ inserted (op :: ops) := by
  cases op with
  | insert e =>
    obtain ⟨hopen, hsequence, hsize, hnext⟩ := hb.settled.buffered.next_entry hops
    obtain ⟨b', rfl, hstanding⟩ := insert_succeeds (recorded_keeps hkeeps) hb.standing
      hb.settled.buffered.maxEntry hopen hsequence hsize hnext h
    exact ⟨b', ins ++ [e], rfl, ⟨insert_settled hb.settled h, hstanding⟩,
      by simp [inserted, BufferOp.entry?]⟩
  | flush =>
    obtain ⟨b', rfl, hstanding⟩ := drainFrom_succeeds (recorded_keeps hkeeps) hb.standing h
    exact ⟨b', ins, rfl, ⟨(flush_settled hb.settled h).1, hstanding⟩,
      by simp [inserted, List.filterMap_cons, BufferOp.entry?]⟩

theorem run_succeeds (hkeeps : sink.Keeps lim.maxEntryBytes Ready) {ops : List BufferOp}
    {r : Except TransportError Unit × PublishBuffer (σ × List AppendCall)}
    (hb : Alive Ready lim ins b) (hops : Consecutive lim.maxEntryBytes (ins ++ inserted ops))
    (h : b.run sink.recorded fuel ops = some r) : ∃ b', r = (.ok (), b') := by
  induction ops generalizing b ins with
  | nil =>
    cases h
    exact ⟨b, rfl⟩
  | cons op ops ih =>
    unfold run at h
    cases hperform : b.perform sink.recorded fuel op with
    | none => simp [hperform] at h
    | some out =>
      obtain ⟨b₁, ins₁, rfl, hb₁, hins⟩ := perform_alive hkeeps hb hops hperform
      rw [hperform] at h
      exact ih hb₁ (hins ▸ hops) h

/-- A recorded backend yields when the one it records does. -/
theorem recorded_yields {first : Nat} {entries : List String} {terminal : Bool} {s : σ}
    (h : sink.Yields first entries terminal s) (log : List AppendCall) :
    sink.recorded.Yields first entries terminal (s, log) := by
  induction h generalizing log with
  | accept happend hn => exact .accept (recorded_append happend log) hn
  | refuse happend _ ih => exact .refuse (recorded_append happend log) (ih _)

theorem perform_terminates (hkeeps : sink.Keeps lim.maxEntryBytes Ready)
    (hyields : sink.EventuallyAccepts lim.maxEntryBytes Ready) {op : BufferOp}
    {ops : List BufferOp} (hb : Alive Ready lim ins b)
    (hops : Consecutive lim.maxEntryBytes (ins ++ inserted (op :: ops))) :
    ∃ fuel r, b.perform sink.recorded fuel op = some r := by
  have hdrain : ∀ (blocking : Bool) (b₁ : PublishBuffer (σ × List AppendCall)),
      Standing (fun state => Ready state.1) lim.maxEntryBytes b₁ →
        ∃ fuel r, drain sink.recorded blocking fuel b₁ = some r := fun blocking b₁ hb₁ =>
    drainFrom_terminates (recorded_keeps hkeeps)
      (fun state first entries terminal hready hne hfits =>
        recorded_yields (hyields state.1 first entries terminal hready hne hfits) state.2)
      _ b₁ fullBackoffStart rfl hb₁
  cases op with
  | flush => exact hdrain true b hb.standing
  | insert e =>
    obtain ⟨hopen, hsequence, hsize, hnext⟩ := hb.settled.buffered.next_entry hops
    have hpush := hb.standing.push hopen hsize
    have hsize' : e.record.utf8ByteSize ≤ b.maxEntryBytes := by
      rw [hb.settled.buffered.maxEntry]
      exact hsize
    simp only [perform, insert_eq hopen hsequence hsize' hnext]
    split
    · exact hdrain true _ hpush
    · split
      · exact hdrain false _ hpush
      · exact ⟨0, _, rfl⟩

theorem run_terminates (hkeeps : sink.Keeps lim.maxEntryBytes Ready)
    (hyields : sink.EventuallyAccepts lim.maxEntryBytes Ready) {ops : List BufferOp}
    (hb : Alive Ready lim ins b) (hops : Consecutive lim.maxEntryBytes (ins ++ inserted ops)) :
    ∃ fuel b', b.run sink.recorded fuel ops = some (.ok (), b') := by
  induction ops generalizing b ins with
  | nil => exact ⟨0, b, rfl⟩
  | cons op ops ih =>
    obtain ⟨fuel₁, r, hperform⟩ := perform_terminates hkeeps hyields hb hops
    obtain ⟨b₁, ins₁, rfl, hb₁, hins⟩ := perform_alive hkeeps hb hops hperform
    obtain ⟨fuel₂, b', hrun⟩ := ih hb₁ (hins ▸ hops)
    refine ⟨max fuel₁ fuel₂, b', ?_⟩
    unfold run
    rw [perform_fuel_le hperform (le_max_left _ _)]
    exact run_fuel_le hrun (le_max_right _ _)

theorem new_buffered (lim : Limits) (s : σ) : Buffered lim [] (lim.buffer (s, [])) := by
  constructor <;> simp [Limits.buffer, new, Limits.maxCallBytes]

theorem new_alive {s : σ} (hready : Ready s 0) (lim : Limits) :
    Alive Ready lim [] (lim.buffer (s, [])) :=
  ⟨⟨new_buffered lim s, hardCapacity_clampBatch_pos lim.batch⟩,
    fun _ => hready, fun _ hr => nomatch hr⟩

theorem hardCapacity_clampBatch_le {batch : Nat} (h : minBatchEntries ≤ batch) :
    hardCapacity (clampBatch batch) ≤ hardCapacity batch := by
  unfold hardCapacity clampBatch
  split <;> [skip; split] <;> omega

/-- What a finished run delivered. The log holds every append call of the run, in order. -/
structure Delivered (lim : Limits) (ops : List BufferOp)
    (b : PublishBuffer (σ × List AppendCall)) : Prop where
  content : acceptedEntries b.sink.2 ++ b.entries = (inserted ops).map Entry.record
  calls : ∀ before c after, b.sink.2 = before ++ c :: after →
    c.first = (acceptedEntries before).length ∧ payload c.entries ≤ lim.maxCallBytes ∧
      (c.terminal = true ↔
        ∃ e, (inserted ops)[c.first + c.entries.length - 1]? = some e ∧ e.terminal = true)
  /-- What each call carried is a stretch of the inserted records, and it is not empty. -/
  carried : ∀ c ∈ b.sink.2, c.entries ≠ [] ∧ c.accepted ≤ c.entries.length ∧
    c.entries = (((inserted ops).map Entry.record).drop c.first).take c.entries.length
  below : b.buffered < hardCapacity (clampBatch lim.batch)
  below_given : minBatchEntries ≤ lim.batch → b.buffered < hardCapacity lim.batch
  flushed : ops.getLast? = some .flush → b.buffered = 0

theorem Settled.delivered {ops : List BufferOp} (hb : Settled lim (inserted ops) b)
    (hflushed : ops.getLast? = some .flush → b.entries = []) : Delivered lim ops b where
  content := hb.buffered.content
  calls before c after h :=
    have hc := hb.buffered.calls before c after h
    ⟨hc.first, hc.bytes, hc.terminal⟩
  carried c hmem := by
    obtain ⟨before, after, h⟩ := List.append_of_mem hmem
    have hc := hb.buffered.calls before c after h
    exact ⟨hc.nonempty, hc.accepted, hc.entries⟩
  below := hb.below
  below_given hbatch := hb.below.trans_le (hardCapacity_clampBatch_le hbatch)
  flushed h := by simp [PublishBuffer.buffered, hflushed h]

/-- Publish buffering never changes what is delivered: over every list of inserts and flushes
with consecutive sequences, and every backend that keeps its contract, a run that ends has
succeeded and delivered what was inserted. If the backend eventually accepts something, the run
does end. -/
theorem publish_buffer_delivers (sink : StreamSink σ) (Ready : σ → Nat → Prop) (s : σ)
    (lim : Limits) (ops : List BufferOp)
    (hkeeps : sink.Keeps lim.maxEntryBytes Ready) (hready : Ready s 0)
    (hops : Consecutive lim.maxEntryBytes (inserted ops)) :
    (∀ fuel r, (lim.buffer (s, [])).run sink.recorded fuel ops = some r →
      ∃ b, r = (.ok (), b) ∧ Delivered lim ops b) ∧
    (sink.EventuallyAccepts lim.maxEntryBytes Ready →
      ∃ fuel₀, ∀ fuel ≥ fuel₀, ∃ b,
        (lim.buffer (s, [])).run sink.recorded fuel ops = some (.ok (), b)) := by
  have halive : Alive Ready lim [] (lim.buffer (s, [])) := new_alive hready lim
  constructor
  · intro fuel r hrun
    obtain ⟨b, rfl⟩ := run_succeeds hkeeps halive hops hrun
    obtain ⟨hsettled, hflushed⟩ := run_settled halive.settled hrun
    exact ⟨b, rfl, Settled.delivered hsettled hflushed⟩
  · intro hyields
    obtain ⟨fuel₀, b, hrun⟩ := run_terminates hkeeps hyields halive hops
    exact ⟨fuel₀, fun fuel hfuel => ⟨b, run_fuel_le hrun hfuel⟩⟩

end Delivery

/-! ## A queue with scripted acceptance -/

/-- The in-memory queue of the unit tests, without a byte limit: it checks the sequence and that
the stream is open, and takes at most the next of the scripted numbers of entries, any number
once they run out. -/
structure ScriptedQueue where
  stream : List String
  terminal : Bool
  caps : List Nat
deriving DecidableEq

namespace ScriptedQueue

def accepted (q : ScriptedQueue) (entries : List String) : Nat :=
  match q.caps with
  | [] => entries.length
  | cap :: _ => min cap entries.length

def take (q : ScriptedQueue) (entries : List String) (terminal : Bool) : ScriptedQueue where
  stream := q.stream ++ entries.take (q.accepted entries)
  terminal := terminal && q.accepted entries == entries.length
  caps := q.caps.tail

def sink : StreamSink ScriptedQueue where
  append q first entries terminal :=
    if first ≠ q.stream.length ∨ q.terminal = true then (.error (.protocol "sequence"), q)
    else (.ok (q.accepted entries), q.take entries terminal)

def Ready (q : ScriptedQueue) (first : Nat) : Prop :=
  first = q.stream.length ∧ q.terminal = false

theorem append_ready {q : ScriptedQueue} {first : Nat} (h : q.Ready first)
    (entries : List String) (terminal : Bool) :
    sink.append q first entries terminal =
      (.ok (q.accepted entries), q.take entries terminal) := by
  obtain ⟨rfl, hopen⟩ := h
  simp [sink, hopen]

theorem accepted_le (q : ScriptedQueue) (entries : List String) :
    q.accepted entries ≤ entries.length := by
  unfold accepted
  split <;> omega

theorem keeps (maxEntryBytes : Nat) : sink.Keeps maxEntryBytes Ready := by
  refine ⟨fun q first entries terminal hready _ _ => ?_⟩
  have hle := q.accepted_le entries
  refine ⟨_, _, append_ready hready entries terminal, hle, fun hshort => ⟨?_, ?_⟩⟩
  · simp [take, hready.1, hle]
  · by_cases hterminal : terminal = true
    · have hne : q.accepted entries ≠ entries.length := (hshort hterminal).ne
      simp [take, hne]
    · simp [take, hterminal]

theorem eventuallyAccepts (maxEntryBytes : Nat) : sink.EventuallyAccepts maxEntryBytes Ready := by
  rintro ⟨stream, closed, caps⟩ first entries terminal hready hne -
  have hlen := List.length_pos_iff.mpr hne
  -- Each refusal uses up one of the scripted numbers.
  induction caps with
  | nil => exact .accept (append_ready hready entries terminal) hlen
  | cons cap caps ih =>
    rcases Nat.eq_zero_or_pos cap with rfl | hpos
    · have hopen : closed = false := hready.2
      have hshort : 0 ≠ entries.length := by omega
      have hrefuse : sink.append ⟨stream, closed, 0 :: caps⟩ first entries terminal =
          (.ok 0, ⟨stream, closed, caps⟩) := by
        rw [append_ready hready]
        simp [accepted, take, hopen, hshort]
      exact .refuse hrefuse (ih hready)
    · exact .accept (append_ready hready entries terminal) (lt_min hpos hlen)

end ScriptedQueue

/-- Six four-byte entries, the last one terminal, and a flush. -/
def sampleOps : List BufferOp :=
  [.insert ⟨0, "0000", false⟩, .insert ⟨1, "0001", false⟩, .insert ⟨2, "0002", false⟩,
    .insert ⟨3, "0003", false⟩, .insert ⟨4, "0004", false⟩, .insert ⟨5, "0005", true⟩, .flush]

def sampleLimits : Limits := ⟨4, 4, 10⟩

def sampleQueue : ScriptedQueue := ⟨[], false, [0, 0, 1, 0]⟩

theorem publish_buffer_delivers_sample :
    ∃ fuel b, (sampleLimits.buffer (sampleQueue, [])).run ScriptedQueue.sink.recorded fuel
      sampleOps = some (.ok (), b) ∧ Delivered sampleLimits sampleOps b := by
  have hops : Consecutive 4 (inserted sampleOps) := by
    have hlen : (inserted sampleOps).length = 6 := rfl
    intro i e hi
    have hlt := (List.getElem?_eq_some_iff.mp hi).1
    rw [hlen] at hlt ⊢
    interval_cases i <;> cases hi <;> decide
  have h := publish_buffer_delivers ScriptedQueue.sink ScriptedQueue.Ready sampleQueue
    sampleLimits sampleOps (ScriptedQueue.keeps 4) ⟨rfl, rfl⟩ hops
  obtain ⟨fuel, hrun⟩ := h.2 (ScriptedQueue.eventuallyAccepts 4)
  obtain ⟨b, hb⟩ := hrun fuel le_rfl
  obtain ⟨b', heq, hdelivered⟩ := h.1 fuel _ hb
  cases heq
  exact ⟨fuel, b, hb, hdelivered⟩

-- Back-pressure at the batch, at the capacity and after one entry; the flag is on the last call.
example :
    ((sampleLimits.buffer (sampleQueue, [])).run ScriptedQueue.sink.recorded 20
      sampleOps).map (·.2.sink.2) =
    some [⟨0, ["0000", "0001"], false, 0⟩, ⟨0, ["0000", "0001"], false, 0⟩,
      ⟨0, ["0000", "0001"], false, 1⟩, ⟨1, ["0001", "0002"], false, 0⟩,
      ⟨1, ["0001", "0002"], false, 2⟩, ⟨3, ["0003", "0004"], false, 2⟩,
      ⟨5, ["0005"], true, 1⟩] := by
  decide

end PublishBuffer

end PredictionIndexer.Engine
