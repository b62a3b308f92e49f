import Mathlib

/-!
# JSON values

A JSON document as both ends of a wire see it: an object is a list of fields that is read by
name. Rendering to text and parsing are not part of this file; a value that is sent is the value
that arrives.
-/

/-- A JSON value. A writer sends integers and text; a reader may also be given a float, of no
    value when it is not finite, and a string with half of a surrogate pair in it. -/
inductive Json where
  | null
  | bool (b : Bool)
  | number (n : Int)
  | float (value : Option ℚ)
  | string (s : String)
  | illFormed (codes : List Nat)
  | array (items : List Json)
  | object (fields : List (String × Json))

namespace Json

/-- The field of an object by its name. -/
def field? (fields : List (String × Json)) (name : String) : Option Json :=
  fields.lookup name

/-- An optional value, absent as `null`. -/
def ofOption {α : Type} (f : α → Json) : Option α → Json
  | none => .null
  | some a => f a

end Json
