import PredictionIndexer.ForStd.JsonText
import PredictionIndexer.ForStd.Result
import PredictionIndexer.ForStd.Utf8Slice

/-!
# Normalization

`contains_reserved_value_key` of `engine/crates/normalize/src/lib.rs`: a scan of a raw JSON text for
object keys that `serde_json` reserves for itself. Offsets count bytes. `serde_json::from_str` reads
a key token.
-/

namespace PredictionIndexer.Engine

open Fallible

/-- `u8::is_ascii_whitespace` -/
def isAsciiWhitespace (b : UInt8) : Bool := b = 32 || b = 9 || b = 10 || b = 12 || b = 13

/-- The loop to the end of a string: the offset of its closing quote, if it has one. -/
def stringEnd (bytes : List UInt8) (offset : Nat) : Nat :=
  match _h : bytes[offset]? with
  | none => offset
  | some b =>
    if b = 92 then stringEnd bytes (offset + 2)
    else if b = 34 then offset
    else stringEnd bytes (offset + 1)
termination_by bytes.length - offset
decreasing_by
  all_goals
    have hlt := (List.getElem?_eq_some_iff.mp _h).1
    omega

/-- The loop over the white space behind a string. -/
def skipWhitespace (bytes : List UInt8) (next : Nat) : Nat :=
  match _h : bytes[next]? with
  | none => next
  | some b => if isAsciiWhitespace b then skipWhitespace bytes (next + 1) else next
termination_by bytes.length - next
decreasing_by
  have hlt := (List.getElem?_eq_some_iff.mp _h).1
  omega

/-- The key is one of the markers. -/
def isReservedKey (key : String) : Bool :=
  key = "$serde_json::private::Number" || key = "$serde_json::private::RawValue"

/-- `serde_json::from_str::<String>(token)` is a marker. -/
def isReservedToken (token : List Char) : Bool :=
  ((JsonText.parse token).bind JsonText.Serde.string).any isReservedKey

theorem stringEnd_eq (bytes : List UInt8) (offset : Nat) : stringEnd bytes offset =
    match bytes[offset]? with
    | none => offset
    | some b =>
      if b = 92 then stringEnd bytes (offset + 2)
      else if b = 34 then offset
      else stringEnd bytes (offset + 1) := by
  rw [stringEnd]
  split <;> simp_all

theorem le_stringEnd (bytes : List UInt8) (offset : Nat) : offset ≤ stringEnd bytes offset := by
  induction offset using stringEnd.induct bytes with
  | case1 offset hnone =>
    rw [stringEnd_eq, hnone]
  | case2 offset hbyte ih =>
    rw [stringEnd_eq, hbyte]
    simp only [if_true]
    omega
  | case3 offset hbyte hslash =>
    rw [stringEnd_eq, hbyte]
    simp only [hslash, if_true, if_false, le_refl]
  | case4 offset b hbyte hslash hquote ih =>
    rw [stringEnd_eq, hbyte]
    simp only [hslash, hquote, if_false]
    omega

/-- The loop over the text. -/
def scanReserved (raw : List Char) (bytes : List UInt8) (offset : Nat) : Except Halt Bool :=
  match _h : bytes[offset]? with
  | none => .ok false
  | some b =>
    if b ≠ 34 then scanReserved raw bytes (offset + 1)
    else
      let stop := stringEnd bytes (offset + 1)
      if bytes.length ≤ stop then .ok false
      else if bytes[skipWhitespace bytes (stop + 1)]? ≠ some 58 then
        scanReserved raw bytes (stop + 1)
      else do
        let token ← unwrap (Utf8.slice raw offset (stop + 1))
        if isReservedToken token then return true
        else scanReserved raw bytes (stop + 1)
termination_by bytes.length - offset
decreasing_by
  all_goals
    have hlt := (List.getElem?_eq_some_iff.mp _h).1
    have hle := le_stringEnd bytes (offset + 1)
    omega

/-- `contains_reserved_value_key` -/
def containsReservedValueKey (raw : String) : Except Halt Bool :=
  scanReserved raw.toList raw.utf8Bytes 0

end PredictionIndexer.Engine
