import PredictionIndexer.Streams.Book

/-!
# The stream decoder

`replay/streams/protocol.py`, class `Decoder`, from the accepted initial record on: it guards
the envelope, chains book revisions and applies the decisions of each cut to its books. A
record is the value `json.loads` returns; the byte limit and the parser are left out, and so is
the validation of the initial record apart from the books it creates.

`books_sha256` is modelled up to its preimage, the text lines; `sha256` is a parameter.
-/

namespace PredictionIndexer.Streams

/-! ## Keys -/

/-- `(instrument, orientation)`. Tuples of strings compare by code points, left to right. -/
structure PlanKey where
  instrument : String
  orientation : String
deriving DecidableEq

instance : Ord PlanKey :=
  ⟨compareLex (compareOn PlanKey.instrument) (compareOn PlanKey.orientation)⟩
instance : Std.TransOrd PlanKey :=
  inferInstanceAs (Std.TransCmp
    (compareLex (compareOn PlanKey.instrument) (compareOn PlanKey.orientation)))
instance : Std.LawfulEqOrd PlanKey :=
  Std.lawfulEqCmp_compareLex_compareOn _ _ (by
    rintro ⟨i, o⟩ ⟨i', o'⟩ hi ho
    cases hi; cases ho; rfl)

abbrev Books := Std.ExtTreeMap PlanKey Book

/-- `books.get((instrument, orientation))`: an unhashable part raises `TypeError`, any other
    part that is no string is in no key. -/
def lookup (books : Books) (instrument orientation : Json) :
    Except Raise (Option (PlanKey × Book)) :=
  match instrument, orientation with
  | .array _, _ | .object _, _ | _, .array _ | _, .object _ => .error .malformed
  | .string i, .string o => .ok (books[(⟨i, o⟩ : PlanKey)]?.map fun book => (⟨i, o⟩, book))
  | _, _ => .ok none

/-! ## Strict helpers -/

/-- `obj`: an object with exactly these fields. -/
def obj (v : Json) (names : List String) : Except Raise Unit :=
  match v with
  | .object fields =>
    require (names.all (fields.map (·.1)).contains && (fields.map (·.1)).all names.contains)
      "closed schema"
  | _ => .error (.protocol "closed schema")

/-- `re.fullmatch(r"0|[1-9][0-9]*", text)`. -/
def canonicalUint (text : String) : Bool :=
  match text.toList with
  | [] => false
  | c :: cs => (c = '0' && cs.isEmpty) || (c ≠ '0' && (c :: cs).all Char.isDigit)

/-- `uint`: a canonical unsigned integer string. -/
def uint (v : Json) (maximum : Nat) : Except Raise Int :=
  match v with
  | .string s => do
    require (canonicalUint s) "invalid wire value"
    require (s.length ≤ 20) "invalid wire value"
    let n ← int v
    require (n ≤ maximum) "integer range"
    pure n
  | _ => .error (.protocol "invalid wire value")

/-! ## The terminal digest -/

/-- `",".join(f"{p}:{q}" for p, q in book.levels(side))`. -/
def joinLevels (levels : List (Int × Int)) : String :=
  String.intercalate "," (levels.map fun pq => toString pq.1 ++ ":" ++ toString pq.2)

/-- The line of one book. -/
def bookLine (key : PlanKey) (book : Book) : Except Raise String := do
  let bids ← book.levels .bid none
  let asks ← book.levels .ask none
  pure (key.instrument ++ "\t" ++ key.orientation ++ "\t" ++ toString book.revision ++ "\t" ++
    book.validity.spelling ++ "\t" ++ joinLevels bids ++ "\t" ++ joinLevels asks ++ "\n")

/-- `books_sha256` up to the digest: one line for every book, sorted by key. -/
def bookLines (books : Books) : Except Raise (List String) :=
  books.toList.mapM fun kb => bookLine kb.1 kb.2

/-! ## The decoder -/

structure Decoder where
  runId : String
  attemptId : String
  books : Books
  sequence : Nat
  terminal : Bool
  poisoned : Bool

namespace Decoder

/-- The decoder after the initial record: a fresh book for every planned key with its price
    scale. -/
def initial (runId attemptId : String) (plans : List (PlanKey × Nat)) : Decoder where
  runId := runId
  attemptId := attemptId
  books := plans.foldl (fun books p => books.insert p.1 (Book.new p.2)) ∅
  sequence := 0
  terminal := false
  poisoned := false

/-- What the decision of a transition does to its book. An invalidation reads no dependency. -/
def decide (book : Book) (t : Json) : Except Raise Book := do
  let d ← item t "decision"
  let kind ← item d "kind"
  if equals kind "operations" then
    require (book.validity = .usable) "operations on unusable book"
    let book ← book.operations (← item d "operations")
    pure { book with dependency := ← item t "dependency" }
  else if equals kind "snapshot" then
    let book ← book.snapshot (← item d "bids") (← item d "asks")
    pure { book with validity := .usable, dependency := ← item t "dependency", reason := .null }
  else
    require (equals kind "invalidation") "unknown decision"
    let book ← book.clear
    pure { book with
      validity := .unusable
      dependency := .null
      reason := ← item d "reason" }

/-- One round of the transition loop of `_cut`. -/
def transition (origin : Json) (books : Books) (t : Json) : Except Raise Books := do
  let k ← item t "key"
  match ← lookup books (← item k "instrument") (← item k "orientation") with
  | none => .error (.protocol "unplanned transition")
  | some (key, book) =>
    let revision ← int (← item t "revision")
    let previous ← int (← item t "previous_revision")
    require (previous = book.revision && revision = book.revision + 1) "book revision gap"
    let book ← decide book t
    pure (books.insert key { book with revision := revision, asOf := origin })

/-- `_cut`. -/
def cut (d : Decoder) (body : Json) : Except Raise Decoder := do
  let origin ← item body "origin"
  let transitions ← iterate (← item body "book_transitions")
  let books ← transitions.foldlM (transition origin) d.books
  pure { d with books := books }

/-- The fields of a record. -/
def envelopeFields : List String :=
  ["version", "run_id", "attempt_id", "sequence", "kind", "body"]

/-- `_apply` past the parser. -/
def applyRecord (sha256 : String → String) (d : Decoder) (r : Json) : Except Raise Decoder := do
  obj r envelopeFields
  require (equals (← item r "version") "2" && equals (← item r "run_id") d.runId &&
    equals (← item r "attempt_id") d.attemptId) "identity/version"
  let seq := d.sequence + 1
  require (equals (← item r "sequence") (toString seq)) "stream sequence gap or duplicate"
  let kind ← item r "kind"
  let body ← item r "body"
  let d ←
    if equals kind "terminal" then do
      obj body ["cuts", "books_sha256"]
      let cuts ← uint (← item body "cuts") (2 ^ 64 - 1)
      require (cuts = seq - 1) "terminal count"
      let lines ← bookLines d.books
      require (equals (← item body "books_sha256") (sha256 (String.join lines)))
        "terminal book digest"
      pure { d with terminal := true }
    else do
      require (equals kind "cut") "record kind"
      d.cut body
  pure { d with sequence := seq }

/-- `apply`: a raise poisons the decoder. What it did to the books before it raised is never
    read again, so the poisoned decoder keeps the books of the last accepted record. -/
def apply (sha256 : String → String) (d : Decoder) (r : Json) : Decoder × Option Raise :=
  if d.poisoned || d.terminal then (d, some (.protocol "closed decoder"))
  else
    match d.applyRecord sha256 r with
    | .ok d' => (d', none)
    | .error raised => ({ d with poisoned := true }, some raised)

/-- An accepted record moves the sequence on by one. -/
theorem sequence_of_apply {sha256 : String → String} {d d' : Decoder} {r : Json}
    (h : d.apply sha256 r = (d', none)) : d'.sequence = d.sequence + 1 := by
  unfold apply at h
  split at h
  · cases h
  split at h
  · next d₁ happly =>
    cases h
    unfold applyRecord at happly
    simp only [Except.bind_eq_ok, Except.pure_eq_ok] at happly
    obtain ⟨_, _, _, _, _, _, _, _, _, _, _, _, _, _, _, _, _, _, hbody⟩ := happly
    split at hbody
    · simp only [Except.bind_eq_ok, Except.ok.injEq] at hbody
      obtain ⟨_, _, _, _, _, _, _, _, _, _, _, _, _, _, _, _, rfl⟩ := hbody
      rfl
    · simp only [Except.bind_eq_ok, Except.ok.injEq] at hbody
      obtain ⟨_, _, _, _, rfl⟩ := hbody
      rfl
  · cases h

/-- Applies records in order until one raises. -/
def applyAll (sha256 : String → String) (d : Decoder) : List Json → Decoder × Option Raise
  | [] => (d, none)
  | r :: records =>
    match d.apply sha256 r with
    | (d', none) => d'.applyAll sha256 records
    | (d', some raised) => (d', some raised)

end Decoder

end PredictionIndexer.Streams
