import Mathlib

/-!
# Flat JSON objects

A JSON object whose members are plain strings, natural numbers and nulls, as a hand-written
encoder produces it: no blanks, no escapes. `render` is the text and `parse` reads it back.

## Key results

- `parse_render`: a rendered object reads back as its members
-/

namespace FlatJson

/-- The value of a member. -/
inductive Value where
  | text (s : String)
  | number (n : Nat)
  | null
deriving DecidableEq

/-- A character that stands for itself between quotes. -/
def PlainChar (c : Char) : Prop := c ≠ '"' ∧ c ≠ '\\' ∧ 32 ≤ c.toNat

instance : DecidablePred PlainChar := fun _ => inferInstanceAs (Decidable (_ ∧ _))

/-- Text that needs no escape. -/
def PlainText (s : String) : Prop := ∀ c ∈ s.toList, PlainChar c

instance : DecidablePred PlainText := fun s => List.decidableBAll PlainChar s.toList

def Value.Plain : Value → Prop
  | text s => PlainText s
  | _ => True

instance : DecidablePred Value.Plain
  | .text s => inferInstanceAs (Decidable (PlainText s))
  | .number _ => .isTrue trivial
  | .null => .isTrue trivial

/-! ## Rendering -/

def quoted (s : String) : List Char := '"' :: (s.toList ++ ['"'])

def Value.render : Value → List Char
  | text s => quoted s
  | number n => Nat.toDigits 10 n
  | null => ['n', 'u', 'l', 'l']

def member (m : String × Value) : List Char := quoted m.1 ++ ':' :: m.2.render

/-- The members after the first, each behind its comma, and the closing brace. -/
def tail : List (String × Value) → List Char
  | [] => ['}']
  | m :: ms => ',' :: (member m ++ tail ms)

def render : List (String × Value) → List Char
  | [] => ['{', '}']
  | m :: ms => '{' :: (member m ++ tail ms)

/-! ## Parsing -/

/-- The text up to a closing quote, and what follows it. -/
def parseQuoted : List Char → Option (String × List Char)
  | '"' :: cs =>
    match cs.dropWhile (decide <| PlainChar ·) with
    | '"' :: rest => some (String.ofList (cs.takeWhile (decide <| PlainChar ·)), rest)
    | _ => none
  | _ => none

def parseValue : List Char → Option (Value × List Char)
  | '"' :: cs => (parseQuoted ('"' :: cs)).map fun (s, rest) => (.text s, rest)
  | 'n' :: 'u' :: 'l' :: 'l' :: rest => some (.null, rest)
  | cs =>
    match cs.takeWhile Char.isDigit with
    | [] => none
    | ds => some (.number (Nat.ofDigitChars 10 ds 0), cs.dropWhile Char.isDigit)

def parseMember (cs : List Char) : Option ((String × Value) × List Char) :=
  match parseQuoted cs with
  | some (key, ':' :: rest) => (parseValue rest).map fun (v, rest) => ((key, v), rest)
  | _ => none

/-- The members after the first; the fuel bounds their number. -/
def parseTail : Nat → List Char → Option (List (String × Value))
  | _, ['}'] => some []
  | fuel + 1, ',' :: cs =>
    match parseMember cs with
    | some (m, rest) => (parseTail fuel rest).map (m :: ·)
    | none => none
  | _, _ => none

def parse : List Char → Option (List (String × Value))
  | ['{', '}'] => some []
  | '{' :: cs =>
    match parseMember cs with
    | some (m, rest) => (parseTail rest.length rest).map (m :: ·)
    | none => none
  | _ => none

/-! ## Reading back -/

/-- A run of characters that satisfy a test stops before the first that does not. -/
theorem takeWhile_dropWhile_append_cons {p : Char → Bool} {l rest : List Char} {c : Char}
    (hl : ∀ d ∈ l, p d = true) (hc : p c = false) :
    (l ++ c :: rest).takeWhile p = l ∧ (l ++ c :: rest).dropWhile p = c :: rest := by
  rw [List.takeWhile_append_of_pos hl, List.dropWhile_append_of_pos hl]
  simp [hc]

theorem parseQuoted_quoted {s : String} {rest : List Char} (hs : PlainText s) :
    parseQuoted (quoted s ++ rest) = some (s, rest) := by
  have hplain : ∀ c ∈ s.toList, decide (PlainChar c) = true := fun c hc => by simpa using hs c hc
  have hquote : decide (PlainChar '"') = false := by decide
  obtain ⟨htake, hdrop⟩ := @takeWhile_dropWhile_append_cons _ _ rest _ hplain hquote
  simp only [parseQuoted, quoted, List.cons_append, List.append_assoc, List.nil_append, hdrop,
    htake, String.ofList_toList]

/-- What follows a value in an object. -/
def Follows (rest : List Char) : Prop := ∃ c cs, rest = c :: cs ∧ c.isDigit = false

theorem parseValue_render {v : Value} {rest : List Char} (hv : v.Plain) (hrest : Follows rest) :
    parseValue (v.render ++ rest) = some (v, rest) := by
  cases v with
  | null => rfl
  | text s =>
    have h := @parseQuoted_quoted s rest hv
    simp only [Value.render, quoted, List.cons_append, parseValue] at h ⊢
    rw [h]
    rfl
  | number n =>
    obtain ⟨c, cs, rfl, hc⟩ := hrest
    have hdigits : ∀ d ∈ Nat.toDigits 10 n, d.isDigit = true := fun d hd =>
      Nat.isDigit_of_mem_toDigits (by decide) (by decide) hd
    obtain ⟨htake, hdrop⟩ := @takeWhile_dropWhile_append_cons _ _ cs _ hdigits hc
    have hne : Nat.toDigits 10 n ≠ [] := Nat.toDigits_ne_nil
    -- a digit opens neither a quoted text nor `null`
    have hhead : ∀ d tl, Nat.toDigits 10 n ++ c :: cs = d :: tl → d.isDigit = true := by
      intro d tl h
      obtain ⟨e, es, hes⟩ := List.exists_cons_of_ne_nil hne
      rw [hes] at h
      cases h
      exact hdigits d (by simp [hes])
    rw [Value.render, parseValue]
    · rw [htake, hdrop]
      split
      · contradiction
      · rw [Nat.ofDigitChars_toDigits (by decide) (by decide)]
    · intro tl h
      exact absurd (hhead _ _ h) (by decide)
    · intro tl h
      exact absurd (hhead _ _ h) (by decide)

theorem parseMember_member {m : String × Value} {rest : List Char} (hk : PlainText m.1)
    (hv : m.2.Plain) (hrest : Follows rest) :
    parseMember (member m ++ rest) = some (m, rest) := by
  rw [member, List.append_assoc, parseMember, parseQuoted_quoted hk, List.cons_append]
  simp only
  rw [parseValue_render hv hrest]
  rfl

theorem follows_tail (ms : List (String × Value)) : Follows (tail ms) := by
  cases ms with
  | nil => exact ⟨'}', [], rfl, by decide⟩
  | cons m ms => exact ⟨',', _, rfl, by decide⟩

theorem parseTail_tail {ms : List (String × Value)} {fuel : Nat} (hfuel : ms.length ≤ fuel)
    (hms : ∀ m ∈ ms, PlainText m.1 ∧ m.2.Plain) : parseTail fuel (tail ms) = some ms := by
  induction ms generalizing fuel with
  | nil => cases fuel <;> rfl
  | cons m ms ih =>
    obtain ⟨fuel, rfl⟩ : ∃ k, fuel = k + 1 := ⟨fuel - 1, by simp at hfuel; omega⟩
    obtain ⟨hk, hv⟩ := hms m List.mem_cons_self
    simp only [List.length_cons] at hfuel
    have hrest : parseTail fuel (tail ms) = some ms :=
      ih (by omega) fun m hm => hms m (List.mem_cons_of_mem _ hm)
    simp [tail, parseTail, parseMember_member hk hv (follows_tail ms), hrest]

theorem length_le_tail (ms : List (String × Value)) : ms.length ≤ (tail ms).length := by
  induction ms with
  | nil => simp
  | cons m ms ih =>
    simp only [tail, List.length_cons, List.length_append]
    omega

/-- A rendered object reads back as its members. -/
theorem parse_render {ms : List (String × Value)} (hms : ∀ m ∈ ms, PlainText m.1 ∧ m.2.Plain) :
    parse (render ms) = some ms := by
  cases ms with
  | nil => rfl
  | cons m ms =>
    obtain ⟨hk, hv⟩ := hms m List.mem_cons_self
    have htail := parseTail_tail (length_le_tail ms) fun m hm =>
      hms m (List.mem_cons_of_mem _ hm)
    have hmember := parseMember_member hk hv (follows_tail ms)
    show parse ('{' :: (member m ++ tail ms)) = _
    rw [parse]
    · rw [hmember]
      simp [htail]
    · simp [member, quoted]

end FlatJson
