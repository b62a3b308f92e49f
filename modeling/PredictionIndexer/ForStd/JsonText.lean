import PredictionIndexer.ForStd.Double
import PredictionIndexer.ForStd.Json

/-!
# JSON text

What a JSON text says before any reader makes values of it: integers as they are written,
numbers with a fraction or an exponent, strings in which an escape may leave half of a surrogate
pair, and the members of an object in order, whatever their names. `parse` is the grammar that
Python's `json.loads` and Rust's `serde_json` share, with the three constants only Python knows.

`loads` is what Python makes of it. `Serde` are the primitives of a derived `Deserialize`.
-/

/-- A character of a string, or half of a surrogate pair. -/
inductive Rune where
  | char (c : Char)
  | surrogate (unit : Nat)
deriving DecidableEq

namespace Rune

def code : Rune → Nat
  | char c => c.toNat
  | surrogate unit => unit

def char? : Rune → Option Char
  | char c => some c
  | surrogate _ => none

/-- The text, if no surrogate is left over. -/
def text? (runes : List Rune) : Option String := (runes.mapM char?).map String.ofList

/-- A surrogate pair is one character. -/
def join : List Rune → List Rune
  | surrogate a :: surrogate b :: rest =>
    if 0xD800 ≤ a ∧ a < 0xDC00 ∧ 0xDC00 ≤ b ∧ b < 0xE000 then
      char (Char.ofNat (0x10000 + (a - 0xD800) * 0x400 + (b - 0xDC00))) :: join rest
    else surrogate a :: join (surrogate b :: rest)
  | r :: rest => r :: join rest
  | [] => []

end Rune

inductive JsonText where
  | null
  | bool (b : Bool)
  | integer (negative : Bool) (magnitude : Nat)
  | decimal (value : ℚ)
  | constant (name : String)
  | string (runes : List Rune)
  | array (items : List JsonText)
  | object (members : List (List Rune × JsonText))

namespace JsonText

/-! ## Parsing -/

def skip (cs : List Char) : List Char :=
  cs.dropWhile fun c => c = ' ' || c = '\t' || c = '\n' || c = '\r'

def hexValue (c : Char) : Option Nat :=
  if c.isDigit then some (c.toNat - '0'.toNat)
  else if 'a' ≤ c ∧ c ≤ 'f' then some (c.toNat - 'a'.toNat + 10)
  else if 'A' ≤ c ∧ c ≤ 'F' then some (c.toNat - 'A'.toNat + 10)
  else none

/-- Four hexadecimal digits. -/
def codeUnit : List Char → Option (Rune × List Char)
  | a :: b :: c :: d :: rest => do
    let a ← hexValue a
    let b ← hexValue b
    let c ← hexValue c
    let d ← hexValue d
    let unit := ((a * 16 + b) * 16 + c) * 16 + d
    some (if 0xD800 ≤ unit ∧ unit < 0xE000 then .surrogate unit else .char (Char.ofNat unit), rest)
  | _ => none

def escaped : Char → Option Char
  | '"' => some '"'
  | '\\' => some '\\'
  | '/' => some '/'
  | 'b' => some '\x08'
  | 'f' => some '\x0c'
  | 'n' => some '\n'
  | 'r' => some '\r'
  | 't' => some '\t'
  | _ => none

/-- A string behind its opening quote. The fuel bounds its length. -/
def runes : Nat → List Char → Option (List Rune × List Char)
  | _, '"' :: rest => some ([], rest)
  | fuel + 1, '\\' :: 'u' :: rest => do
    let (r, rest) ← codeUnit rest
    let (rs, rest) ← runes fuel rest
    some (r :: rs, rest)
  | fuel + 1, '\\' :: c :: rest => do
    let c ← escaped c
    let (rs, rest) ← runes fuel rest
    some (.char c :: rs, rest)
  | fuel + 1, c :: rest =>
    if c = '\\' ∨ c.toNat < 32 then none
    else do
      let (rs, rest) ← runes fuel rest
      some (.char c :: rs, rest)
  | _, _ => none

def quoted (fuel : Nat) (cs : List Char) : Option (List Rune × List Char) :=
  (runes fuel cs).map fun x => (Rune.join x.1, x.2)

/-- At least one digit. -/
def digits (cs : List Char) : Option (List Char × List Char) :=
  match cs.takeWhile Char.isDigit with
  | [] => none
  | ds => some (ds, cs.dropWhile Char.isDigit)

def natOf (ds : List Char) : Nat := Nat.ofDigitChars 10 ds 0

/-- The digits before a point or an exponent: a zero, or no leading zero. -/
def whole : List Char → Option (List Char × List Char)
  | '0' :: rest => some (['0'], rest)
  | cs => digits cs

def fraction : List Char → Option (List Char × List Char)
  | '.' :: rest => digits rest
  | cs => some ([], cs)

def signedExponent : List Char → Option (Int × List Char)
  | '-' :: rest => (digits rest).map fun x => (-natOf x.1, x.2)
  | '+' :: rest => (digits rest).map fun x => ((natOf x.1 : Int), x.2)
  | rest => (digits rest).map fun x => ((natOf x.1 : Int), x.2)

def exponent : List Char → Option (Option Int × List Char)
  | c :: rest =>
    if c = 'e' ∨ c = 'E' then (signedExponent rest).map fun x => (some x.1, x.2)
    else some (none, c :: rest)
  | [] => some (none, [])

/-- A number behind its sign. -/
def number (negative : Bool) (cs : List Char) : Option (JsonText × List Char) := do
  let (ds, rest) ← whole cs
  let (fs, rest) ← fraction rest
  let (e, rest) ← exponent rest
  if fs = [] ∧ e = none then some (.integer negative (natOf ds), rest)
  else
    let magnitude : ℚ := natOf (ds ++ fs) * 10 ^ (e.getD 0 - fs.length)
    some (.decimal (if negative then -magnitude else magnitude), rest)

/-- A value that is no array and no object. -/
def scalar (fuel : Nat) : List Char → Option (JsonText × List Char)
  | 'n' :: 'u' :: 'l' :: 'l' :: rest => some (.null, rest)
  | 't' :: 'r' :: 'u' :: 'e' :: rest => some (.bool true, rest)
  | 'f' :: 'a' :: 'l' :: 's' :: 'e' :: rest => some (.bool false, rest)
  | 'N' :: 'a' :: 'N' :: rest => some (.constant "NaN", rest)
  | 'I' :: 'n' :: 'f' :: 'i' :: 'n' :: 'i' :: 't' :: 'y' :: rest => some (.constant "Infinity", rest)
  | '-' :: 'I' :: 'n' :: 'f' :: 'i' :: 'n' :: 'i' :: 't' :: 'y' :: rest =>
    some (.constant "-Infinity", rest)
  | '"' :: rest => (quoted fuel rest).map fun x => (.string x.1, x.2)
  | '-' :: rest => number true rest
  | cs => number false cs

mutual

/-- A value. The fuel bounds the number of values and members on the way to it. -/
def value : Nat → List Char → Option (JsonText × List Char)
  | 0, _ => none
  | fuel + 1, cs =>
    match skip cs with
    | '[' :: rest =>
      match skip rest with
      | ']' :: rest => some (.array [], rest)
      | rest => (items fuel rest).map fun x => (.array x.1, x.2)
    | '\x7b' :: rest =>
      match skip rest with
      | '\x7d' :: rest => some (.object [], rest)
      | rest => (members fuel rest).map fun x => (.object x.1, x.2)
    | rest => scalar rest.length rest

/-- The items of an array up to its end. -/
def items : Nat → List Char → Option (List JsonText × List Char)
  | 0, _ => none
  | fuel + 1, cs => do
    let (v, rest) ← value fuel cs
    match skip rest with
    | ']' :: rest => some ([v], rest)
    | ',' :: rest => (items fuel rest).map fun x => (v :: x.1, x.2)
    | _ => none

/-- The members of an object up to its end. -/
def members : Nat → List Char → Option (List (List Rune × JsonText) × List Char)
  | 0, _ => none
  | fuel + 1, cs =>
    match skip cs with
    | '"' :: rest => do
      let (name, rest) ← quoted rest.length rest
      match skip rest with
      | ':' :: rest => do
        let (v, rest) ← value fuel rest
        match skip rest with
        | '\x7d' :: rest => some ([(name, v)], rest)
        | ',' :: rest => (members fuel rest).map fun x => ((name, v) :: x.1, x.2)
        | _ => none
      | _ => none
    | _ => none

end

/-- A whole text. -/
def parse (cs : List Char) : Option JsonText :=
  match value (2 * cs.length + 2) cs with
  | some (v, rest) => if skip rest = [] then some v else none
  | none => none

/-! ## Python -/

/-- How many digits an integer may have, and how deep a value may nest. -/
structure Limits where
  digits : Nat
  depth : Nat

mutual

def within (digits : Nat) : Nat → JsonText → Bool
  | _, .integer _ n => (Nat.toDigits 10 n).length ≤ digits
  | depth, .array items => 0 < depth && withinItems digits (depth - 1) items
  | depth, .object members => 0 < depth && withinMembers digits (depth - 1) members
  | _, _ => true

def withinItems (digits : Nat) : Nat → List JsonText → Bool
  | _, [] => true
  | depth, v :: vs => within digits depth v && withinItems digits depth vs

def withinMembers (digits : Nat) : Nat → List (List Rune × JsonText) → Bool
  | _, [] => true
  | depth, (_, v) :: ms => within digits depth v && withinMembers digits depth ms

end

def pyString (runes : List Rune) : Json :=
  match Rune.text? runes with
  | some s => .string s
  | none => .illFormed (runes.map Rune.code)

mutual

/-- The value. Of two members of one name the last counts, so it comes first. A name that is no
    text is that of no field. -/
def toPython : JsonText → Json
  | .null => .null
  | .bool b => .bool b
  | .integer negative n => .number (if negative then -n else n)
  | .decimal value => .float (some (Double.round value))
  | .constant _ => .float none
  | .string runes => pyString runes
  | .array items => .array (toPythonItems items)
  | .object members => .object (toPythonMembers members).reverse

def toPythonItems : List JsonText → List Json
  | [] => []
  | v :: vs => toPython v :: toPythonItems vs

def toPythonMembers : List (List Rune × JsonText) → List (String × Json)
  | [] => []
  | (name, v) :: ms =>
    match Rune.text? name with
    | some name => (name, toPython v) :: toPythonMembers ms
    | none => toPythonMembers ms

end

/-- `json.loads`. -/
def loads (limits : Limits) (cs : List Char) : Option Json :=
  match parse cs with
  | some t => if within limits.digits limits.depth t then some t.toPython else none
  | none => none

/-! ## Serde -/

/-- The members of an object by the names that are text. -/
def named (members : List (List Rune × JsonText)) : List (String × JsonText) :=
  members.filterMap fun m => (Rune.text? m.1).map (·, m.2)

/-- The values of the members of one name. -/
def occurrences (members : List (String × JsonText)) (name : String) : List JsonText :=
  (members.filter (·.1 = name)).map (·.2)

namespace Serde

mutual

/-- A value that nothing is read of only has to be JSON. -/
def ignorable : JsonText → Bool
  | .constant _ => false
  | .array items => ignorableItems items
  | .object members => ignorableMembers members
  | _ => true

def ignorableItems : List JsonText → Bool
  | [] => true
  | v :: vs => ignorable v && ignorableItems vs

def ignorableMembers : List (List Rune × JsonText) → Bool
  | [] => true
  | (_, v) :: ms => ignorable v && ignorableMembers ms

end

/-- `u64`. Minus zero is a float. -/
def u64 : JsonText → Option Nat
  | .integer false n => if n < 2 ^ 64 then some n else none
  | _ => none

def string : JsonText → Option String
  | .string runes => Rune.text? runes
  | _ => none

def bool : JsonText → Option Bool
  | .bool b => some b
  | _ => none

/-- `Vec<String>`. -/
def strings : JsonText → Option (List String)
  | .array items => items.mapM string
  | _ => none

/-- `Option<T>`. -/
def option {α : Type} (f : JsonText → Option α) : JsonText → Option (Option α)
  | .null => some none
  | v => (f v).map some

/-- A field, which has to be there once. -/
def field {α : Type} (members : List (String × JsonText)) (name : String)
    (f : JsonText → Option α) : Option α :=
  match occurrences members name with
  | [v] => f v
  | _ => none

/-- An optional field, which may be left out. -/
def optionalField {α : Type} (members : List (String × JsonText)) (name : String)
    (f : JsonText → Option α) : Option (Option α) :=
  match occurrences members name with
  | [] => some none
  | [v] => option f v
  | _ => none

/-- A struct without `deny_unknown_fields`, of the given field names in order: an object, or an
    array of exactly the fields' values. -/
def struct {α : Type} (names : List String) (ofMembers : List (String × JsonText) → Option α) :
    JsonText → Option α
  | .array items =>
    if items.length = names.length then ofMembers (names.zip items) else none
  | .object members =>
    if members.all fun m => (Rune.text? m.1).any fun name => name ∈ names || ignorable m.2 then
      ofMembers (named members)
    else none
  | _ => none

end Serde

end JsonText
