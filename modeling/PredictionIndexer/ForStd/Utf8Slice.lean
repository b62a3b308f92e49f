import PredictionIndexer.ForStd.Utf8

/-!
# Byte offsets into text

Text that is scanned byte by byte, as `str::as_bytes` gives it, and sliced at byte offsets. A byte
below 0x80 is a character of its own, so a scan for such bytes never stops inside a character, and
a slice between two of them is in bounds.
-/

namespace Utf8

/-- The bytes of characters. -/
def encode (cs : List Char) : List UInt8 := cs.flatMap String.utf8EncodeChar

/-- What is behind a byte offset; nothing where the offset is inside a character. -/
def dropBytes (n : Nat) : List Char → Option (List Char)
  | [] => if n = 0 then some [] else none
  | c :: cs =>
    if n = 0 then some (c :: cs)
    else if c.utf8Size ≤ n then dropBytes (n - c.utf8Size) cs
    else none

/-- What is before a byte offset. -/
def takeBytes (n : Nat) : List Char → Option (List Char)
  | [] => if n = 0 then some [] else none
  | c :: cs =>
    if n = 0 then some []
    else if c.utf8Size ≤ n then (takeBytes (n - c.utf8Size) cs).map (c :: ·)
    else none

/-- `&text[start..stop]`, which panics where this gives nothing. -/
def slice (text : List Char) (start stop : Nat) : Option (List Char) :=
  if start ≤ stop then (dropBytes start text).bind (takeBytes (stop - start)) else none

variable {c : Char} {cs before inner behind : List Char} {b : UInt8} {n : Nat}

@[simp] theorem encode_nil : encode [] = [] := rfl

@[simp] theorem encode_cons : encode (c :: cs) = String.utf8EncodeChar c ++ encode cs := rfl

@[simp] theorem encode_append : encode (before ++ cs) = encode before ++ encode cs :=
  List.flatMap_append

theorem length_encode_cons : (encode (c :: cs)).length = c.utf8Size + (encode cs).length := by
  simp

/-- A byte below 0x80 is a character of its own. -/
theorem ascii_of_mem (hb : b ∈ String.utf8EncodeChar c) (hlt : b.toNat < 0x80) :
    String.utf8EncodeChar c = [b] ∧ c.toNat = b.toNat := by
  have hne : ∀ m, 0x80 ≤ m → m < 0x100 → b ≠ UInt8.ofNat m := by
    intro m hlow hhigh heq
    have htoNat := congrArg UInt8.toNat heq
    simp at htoNat
    omega
  rcases String.utf8EncodeChar_cases c with ⟨hc, hcode⟩ | ⟨hc, hc', hcode⟩ | ⟨hc, hc', hcode⟩ |
    ⟨hc, hc', hcode⟩
  · rw [hcode, List.mem_singleton] at hb
    refine ⟨by rw [hcode, hb], ?_⟩
    rw [hb]
    simp
    omega
  all_goals
    rw [hcode] at hb
    simp only [List.mem_cons, List.not_mem_nil, or_false] at hb
    exfalso
  · rcases hb with h | h <;> exact hne _ (by omega) (by omega) h
  · rcases hb with h | h | h <;> exact hne _ (by omega) (by omega) h
  · rcases hb with h | h | h | h <;> exact hne _ (by omega) (by omega) h

theorem encode_ascii (hc : c.toNat < 0x80) : String.utf8EncodeChar c = [UInt8.ofNat c.toNat] := by
  rcases String.utf8EncodeChar_cases c with ⟨_, hcode⟩ | ⟨h, _⟩ | ⟨h, _⟩ | ⟨h, _⟩
  · exact hcode
  all_goals omega

theorem dropBytes_append : dropBytes (encode before).length (before ++ cs) = some cs := by
  induction before with
  | nil => cases cs <;> simp [dropBytes]
  | cons c before ih =>
    have hpos := c.utf8Size_pos
    rw [List.cons_append, dropBytes, length_encode_cons, if_neg (by omega), if_pos (by omega),
      Nat.add_sub_cancel_left, ih]

theorem takeBytes_append : takeBytes (encode before).length (before ++ cs) = some before := by
  induction before with
  | nil => cases cs <;> simp [takeBytes]
  | cons c before ih =>
    have hpos := c.utf8Size_pos
    rw [List.cons_append, takeBytes, length_encode_cons, if_neg (by omega), if_pos (by omega),
      Nat.add_sub_cancel_left, ih]
    rfl

/-- A slice between two characters is in bounds. -/
theorem slice_append : slice (before ++ (inner ++ behind)) (encode before).length
    ((encode before).length + (encode inner).length) = some inner := by
  rw [slice, if_pos (by omega), dropBytes_append, Nat.add_sub_cancel_left]
  exact takeBytes_append

end Utf8
