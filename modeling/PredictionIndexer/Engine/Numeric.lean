import PredictionIndexer.Engine.Domain
import PredictionIndexer.ForStd.Result

/-!
# Decimal text and rescaling

`engine/crates/domain/src/numeric.rs`: prices and quantities read from decimal text, and moved from
one scale to another. What the source computes without a check (`*`, `pow`, `-`) follows the build's `Arithmetic` on the type it is
computed in. Past the second check the text is ASCII, so that a character is a byte.
-/

namespace PredictionIndexer.Engine

open Fallible (Arithmetic)

inductive NumericError where
  | empty
  | invalidSyntax
  | negativePrice
  | negativeQuantity
  | zeroQuantity
  | conditionalPriceOutOfRange
  | logicalMaximumExceeded
  | scaleOutOfRange
  | overflow
  | underflow
  | inexactRescale
deriving DecidableEq

/-- Why a function of the module does not return. -/
inductive NumericHalt where
  | error (e : NumericError)
  | panic
deriving DecidableEq

/-! ## Machine integers -/

/-- A result of unchecked arithmetic below `2 ^ width`. -/
def unchecked (mode : Arithmetic) (width n : Nat) : Except NumericHalt Nat :=
  if n < 2 ^ width then .ok n
  else match mode with
    | .checked => .error .panic
    | .wrapping => .ok (n % 2 ^ width)

/-- `a - b` on `usize`. -/
def uncheckedSub (mode : Arithmetic) (a b : Nat) : Except NumericHalt Nat :=
  if b ≤ a then .ok (a - b)
  else match mode with
    | .checked => .error .panic
    | .wrapping => .ok ((2 ^ 64 + a - b) % 2 ^ 64)

/-- `checked_mul` and `checked_add` on `u128`. -/
def checked128 (n : Nat) : Except NumericHalt Nat :=
  if n < 2 ^ 128 then .ok n else .error (.error .overflow)

/-! ## Parsing -/

/-- `power_of_ten`. -/
def powerOfTen (mode : Arithmetic) (exponent : Nat) : Except NumericHalt Nat :=
  unchecked mode 128 (10 ^ exponent)

def parseDigit (value : Nat) (c : Char) : Except NumericHalt Nat :=
  if !c.isDigit then .error (.error .invalidSyntax)
  else do checked128 ((← checked128 (value * 10)) + (c.toNat - '0'.toNat))

/-- `parse_digits`. -/
def parseDigits (cs : List Char) : Except NumericHalt Nat := cs.foldlM parseDigit 0

/-- `str::split('.')`: the whole part and the fraction, if there are at most these and none of them
    is empty. -/
def splitPoint (cs : List Char) : Except NumericHalt (List Char × List Char) :=
  match cs.splitOn '.' with
  | [whole] =>
    if whole.isEmpty then .error (.error .invalidSyntax) else .ok (whole, [])
  | [whole, fraction] =>
    if whole.isEmpty || fraction.isEmpty then .error (.error .invalidSyntax)
    else .ok (whole, fraction)
  | _ => .error (.error .invalidSyntax)

/-- The digits of the fraction that the scale has room for. Those beyond may only be zeros. -/
def keep (scale : DecimalScale) (fractional : List Char) : Except NumericHalt (List Char) :=
  if scale.exponent < fractional.length then
    if (fractional.drop scale.exponent).any (· ≠ '0') then .error (.error .inexactRescale)
    else .ok (fractional.take scale.exponent)
  else .ok fractional

/-- The value of the two parts at a scale. -/
def combine (mode : Arithmetic) (scale : DecimalScale) (whole fractional : List Char) :
    Except NumericHalt Nat := do
  let fractional ← keep scale fractional
  let whole ← parseDigits whole
  let fraction ← parseDigits fractional
  let padding ← uncheckedSub mode scale.exponent fractional.length
  let value ← checked128 (whole * (← powerOfTen mode scale.exponent))
  checked128 (value + (← unchecked mode 128 (fraction * (← powerOfTen mode (padding % 256)))))

/-- `parse_unsigned_decimal`. -/
def parseUnsignedDecimal (mode : Arithmetic) (text : String) (scale : DecimalScale) :
    Except NumericHalt Nat :=
  let cs := text.toList
  if cs = [] then .error (.error .empty)
  else if !cs.all fun c => c.toNat < 128 then .error (.error .invalidSyntax)
  else if cs.head? = some '+' ∨ cs.head? = some '-' then .error (.error .invalidSyntax)
  else do
    let (whole, fractional) ← splitPoint cs
    if !(whole ++ fractional).all Char.isDigit then .error (.error .invalidSyntax)
    else combine mode scale whole fractional

/-! ## Rescaling -/

/-- `atoms as u128`: a negative `i64` is sign-extended. -/
def asU128 (atoms : Int) : Nat := (atoms % 2 ^ 128).toNat

/-- `try_from` into an integer type with this many values. -/
def narrow (limit n : Nat) : Except NumericHalt Nat :=
  if n < limit then .ok n else .error (.error .overflow)

/-- What `rescale_i64` and `rescale_u64` do with a value between two different scales. -/
def rescale (mode : Arithmetic) (limit value : Nat) (source destination : DecimalScale) :
    Except NumericHalt Nat :=
  if source.exponent < destination.exponent then do
    let factor ← powerOfTen mode (destination.exponent - source.exponent)
    narrow limit (← unchecked mode 128 (value * factor))
  else do
    let divisor ← powerOfTen mode (source.exponent - destination.exponent)
    if value % divisor ≠ 0 then
      if value ≠ 0 ∧ value < divisor then .error (.error .underflow)
      else .error (.error .inexactRescale)
    else narrow limit (value / divisor)

def rescaleI64 (mode : Arithmetic) (atoms : Int) (source destination : DecimalScale) :
    Except NumericHalt Int :=
  if destination.exponent = source.exponent then .ok atoms
  else do
    let n ← rescale mode (2 ^ 63) (asU128 atoms) source destination
    return (n : Int)

def rescaleU64 (mode : Arithmetic) (atoms : Nat) (source destination : DecimalScale) :
    Except NumericHalt Nat :=
  if destination.exponent = source.exponent then .ok atoms
  else rescale mode (2 ^ 64) atoms source destination

/-! ## Prices -/

def Px.parse (mode : Arithmetic) (text : String) (scale : DecimalScale) : Except NumericHalt Px :=
  if text.toList.head? = some '-' then .error (.error .negativePrice)
  else do
    let atoms ← parseUnsignedDecimal mode text scale
    if atoms < 2 ^ 63 then .ok ⟨atoms, scale, .quotePerContract, Int.natCast_nonneg atoms⟩
    else .error (.error .overflow)

/-- `TryFrom<Px>`. The power is one of `i64`, which no scale takes it out of. -/
def ConditionalMarketPrice.ofPx (mode : Arithmetic) (price : Px) :
    Except NumericHalt ConditionalMarketPrice := do
  let _ ← unchecked mode 63 (10 ^ price.scale.exponent)
  if h : price.atoms ≤ 10 ^ price.scale.exponent then .ok ⟨price, h⟩
  else .error (.error .conditionalPriceOutOfRange)

def Px.fromAtoms (atoms : Int) (scale : DecimalScale) : Except NumericHalt Px :=
  if h : atoms < 0 then .error (.error .negativePrice)
  else .ok ⟨atoms, scale, .quotePerContract, not_lt.mp h⟩

def Px.checkedRescale (mode : Arithmetic) (price : Px) (scale : DecimalScale) :
    Except NumericHalt Px := do
  Px.fromAtoms (← rescaleI64 mode price.atoms price.scale scale) scale

def ConditionalMarketPrice.checkedRescale (mode : Arithmetic) (price : ConditionalMarketPrice)
    (scale : DecimalScale) : Except NumericHalt ConditionalMarketPrice := do
  ConditionalMarketPrice.ofPx mode (← price.px.checkedRescale mode scale)

def ConditionalMarketPrice.parse (mode : Arithmetic) (text : String) (scale : DecimalScale) :
    Except NumericHalt ConditionalMarketPrice := do
  ConditionalMarketPrice.ofPx mode (← Px.parse mode text scale)

/-! ## Quantities -/

/-- Unit-free, unsigned exact arithmetic. -/
structure Magnitude where
  atoms : Nat
  scale : DecimalScale
deriving DecidableEq

def Magnitude.parse (mode : Arithmetic) (text : String) (scale : DecimalScale) :
    Except NumericHalt Magnitude := do
  let atoms ← parseUnsignedDecimal mode text scale
  if atoms < 2 ^ 64 then .ok ⟨atoms, scale⟩ else .error (.error .overflow)

def Magnitude.checkedRescale (mode : Arithmetic) (m : Magnitude) (scale : DecimalScale) :
    Except NumericHalt Magnitude := do
  return ⟨← rescaleU64 mode m.atoms m.scale scale, scale⟩

/-- `from_magnitude`. -/
def Qty.ofMagnitude (m : Magnitude) : Except NumericHalt Qty :=
  if h : m.atoms ≤ maxQuantityAtoms then .ok ⟨m.atoms, m.scale, .contracts, h⟩
  else .error (.error .logicalMaximumExceeded)

def Qty.magnitude (q : Qty) : Magnitude := ⟨q.atoms, q.scale⟩

def Qty.checkedRescale (mode : Arithmetic) (q : Qty) (scale : DecimalScale) :
    Except NumericHalt Qty := do
  Qty.ofMagnitude (← q.magnitude.checkedRescale mode scale)

def Qty.parse (mode : Arithmetic) (text : String) (scale : DecimalScale) :
    Except NumericHalt Qty :=
  if text.toList.head? = some '-' then .error (.error .negativeQuantity)
  else do Qty.ofMagnitude (← Magnitude.parse mode text scale)

/-- `PositiveQty::new`. -/
def PositiveQty.new (quantity : Qty) : Except NumericHalt PositiveQty :=
  if h : quantity.atoms = 0 then .error (.error .zeroQuantity)
  else .ok ⟨quantity, Nat.pos_of_ne_zero h⟩

def PositiveQty.checkedRescale (mode : Arithmetic) (q : PositiveQty) (scale : DecimalScale) :
    Except NumericHalt PositiveQty := do
  PositiveQty.new (← q.qty.checkedRescale mode scale)

def PositiveQty.parse (mode : Arithmetic) (text : String) (scale : DecimalScale) :
    Except NumericHalt PositiveQty := do
  PositiveQty.new (← Qty.parse mode text scale)

end PredictionIndexer.Engine
