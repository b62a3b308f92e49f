import Mathlib

/-!
# Integers read from text

The grammar of Python's `int(text)` on ASCII digits: surrounding white space, an optional sign,
digit groups that single underscores separate. Decimal text of an integer reads back as that
integer.
-/

namespace PyInt

/-- `str.isspace` of one character. -/
def isSpace (c : Char) : Bool :=
  let n := c.toNat
  (9 ≤ n && n ≤ 13) || (28 ≤ n && n ≤ 32) || n = 0x85 || n = 0xa0 || n = 0x1680 ||
    (0x2000 ≤ n && n ≤ 0x200a) || n = 0x2028 || n = 0x2029 || n = 0x202f || n = 0x205f ||
    n = 0x3000

/-- `str.strip` on characters. -/
def strip (cs : List Char) : List Char :=
  ((cs.dropWhile isSpace).reverse.dropWhile isSpace).reverse

/-- Nonempty digit groups with single underscores between them. -/
def digits (cs : List Char) : Option Nat :=
  let groups := cs.splitOn '_'
  if groups.all fun g => !g.isEmpty && g.all Char.isDigit then
    some (Nat.ofDigitChars 10 groups.flatten 0)
  else none

/-- `int(text)`. -/
def parse (s : String) : Option Int :=
  match strip s.toList with
  | '-' :: cs => (digits cs).map fun n => -Int.ofNat n
  | '+' :: cs => (digits cs).map Int.ofNat
  | cs => (digits cs).map Int.ofNat

/-! ## Decimal text -/

/-- Text without white space is not stripped. -/
theorem strip_of_forall {cs : List Char} (h : ∀ c ∈ cs, isSpace c = false) : strip cs = cs := by
  have hdrop : ∀ l : List Char, (∀ c ∈ l, isSpace c = false) → l.dropWhile isSpace = l := by
    intro l hl
    cases l with
    | nil => rfl
    | cons c l => rw [List.dropWhile_cons, hl c (by simp)]; rfl
  rw [strip, hdrop cs h, hdrop cs.reverse fun c hc => h c (by simpa using hc), List.reverse_reverse]

theorem isSpace_of_isDigit {c : Char} (h : c.isDigit = true) : isSpace c = false := by
  have h₁ : 48 ≤ c.toNat ∧ c.toNat ≤ 57 := by
    rw [Char.isDigit] at h
    simp only [ge_iff_le, Bool.and_eq_true, decide_eq_true_eq] at h
    exact ⟨UInt32.le_iff_toNat_le.mp h.1, UInt32.le_iff_toNat_le.mp h.2⟩
  simp only [isSpace, Bool.or_eq_false_iff, Bool.and_eq_false_iff, decide_eq_false_iff_not]
  omega

/-- Digits without an underscore are one group. -/
theorem digits_of_forall {cs : List Char} (hne : cs ≠ []) (h : ∀ c ∈ cs, c.isDigit = true) :
    digits cs = some (Nat.ofDigitChars 10 cs 0) := by
  have hsplit : cs.splitOn '_' = [cs] := by
    rw [List.splitOn_eq_singleton]
    intro hmem
    have := h _ hmem
    simp at this
  have hall : cs.all Char.isDigit = true := List.all_eq_true.mpr h
  simp [digits, hsplit, hall, hne]

/-- What decimal digits read as, as an unsigned number. -/
theorem digits_toDigits (n : Nat) : digits (Nat.toDigits 10 n) = some n := by
  have hdigit : ∀ c ∈ Nat.toDigits 10 n, c.isDigit = true := fun c hc =>
    Nat.isDigit_of_mem_toDigits (by decide) (by decide) hc
  rw [digits_of_forall Nat.toDigits_ne_nil hdigit,
    Nat.ofDigitChars_toDigits (by decide) (by decide)]

theorem parse_toString_nat (n : Nat) : parse (toString n) = some (n : Int) := by
  have hdigit : ∀ c ∈ Nat.toDigits 10 n, c.isDigit = true := fun c hc =>
    Nat.isDigit_of_mem_toDigits (by decide) (by decide) hc
  have hlist : (toString n).toList = Nat.toDigits 10 n := by simp
  rw [parse, hlist, strip_of_forall fun c hc => isSpace_of_isDigit (hdigit c hc)]
  -- a digit is no sign
  split
  · rename_i cs heq
    have := hdigit '-' (by rw [heq]; simp)
    simp at this
  · rename_i cs heq
    have := hdigit '+' (by rw [heq]; simp)
    simp at this
  · rw [digits_toDigits]
    rfl

/-- Decimal text reads back. -/
theorem parse_toString (n : Int) : parse (toString n) = some n := by
  cases n with
  | ofNat n => exact parse_toString_nat n
  | negSucc n =>
    have hdigit : ∀ c ∈ Nat.toDigits 10 (n + 1), c.isDigit = true := fun c hc =>
      Nat.isDigit_of_mem_toDigits (by decide) (by decide) hc
    have hlist : (toString (Int.negSucc n)).toList = '-' :: Nat.toDigits 10 (n + 1) := by
      show ("-" ++ toString (n + 1)).toList = _
      simp
    have hspace : ∀ c ∈ '-' :: Nat.toDigits 10 (n + 1), isSpace c = false := by
      intro c hc
      rcases List.mem_cons.mp hc with rfl | hc
      · decide
      · exact isSpace_of_isDigit (hdigit c hc)
    rw [parse, hlist, strip_of_forall hspace]
    simp only [digits_toDigits, Option.map_some, Option.some.injEq]
    rfl

end PyInt
