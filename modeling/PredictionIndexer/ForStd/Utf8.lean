import Mathlib

/-!
# UTF-8 keeps the order of strings

Comparing strings byte by byte and comparing them code point by code point is the same: of two
different characters, the smaller one has the smaller encoding, and neither encoding starts the
other. The first section says so for any such code, the second for UTF-8.
-/

namespace List

variable {α β : Type} [LinearOrder α] [LT β]

/-- `u` and `v` differ inside of both, and `u` is smaller there. -/
def Below (u v : List β) : Prop :=
  ∃ p x y s t, u = p ++ x :: s ∧ v = p ++ y :: t ∧ x < y

/-- What follows the difference does not matter. -/
theorem Below.append_lt_append {u v : List β} (h : Below u v) (u' v' : List β) :
    u ++ u' < v ++ v' := by
  obtain ⟨p, x, y, s, t, rfl, rfl, hxy⟩ := h
  induction p with
  | nil => exact List.Lex.rel hxy
  | cons a p ih => exact List.Lex.cons ih

/-- A code that separates any two letters in their order keeps the order of words. -/
theorem flatMap_lt_flatMap {f : α → List β} (hf : ∀ a b, a < b → Below (f a) (f b))
    (hne : ∀ a, f a ≠ []) {l l' : List α} (h : l < l') : l.flatMap f < l'.flatMap f := by
  induction h with
  | nil =>
    rename_i a l'
    rw [List.flatMap_nil, List.flatMap_cons]
    cases hfa : f a with
    | nil => exact absurd hfa (hne a)
    | cons x xs => exact List.Lex.nil
  | cons h ih =>
    rename_i a l l'
    rw [List.flatMap_cons, List.flatMap_cons]
    exact List.append_left_lt ih
  | rel hab =>
    rw [List.flatMap_cons, List.flatMap_cons]
    exact (hf _ _ hab).append_lt_append _ _

theorem flatMap_lt_flatMap_iff [Std.Asymm ((· < ·) : β → β → Prop)] {f : α → List β}
    (hf : ∀ a b, a < b → Below (f a) (f b)) (hne : ∀ a, f a ≠ []) {l l' : List α} :
    l.flatMap f < l'.flatMap f ↔ l < l' := by
  constructor
  · intro h
    rcases lt_trichotomy l l' with hlt | heq | hgt
    · exact hlt
    · rw [heq] at h
      exact absurd h (List.lt_asymm h)
    · exact absurd (flatMap_lt_flatMap hf hne hgt) (List.lt_asymm h)
  · exact flatMap_lt_flatMap hf hne

theorem below_cons_of_lt {x y : β} (h : x < y) (s t : List β) : Below (x :: s) (y :: t) :=
  ⟨[], x, y, s, t, rfl, rfl, h⟩

theorem Below.cons {u v : List β} (h : Below u v) (x : β) : Below (x :: u) (x :: v) := by
  obtain ⟨p, a, b, s, t, rfl, rfl, hab⟩ := h
  exact ⟨x :: p, a, b, s, t, rfl, rfl, hab⟩

end List

namespace String

open List

theorem ofNat_lt_ofNat {a b : Nat} (hab : a < b) (hb : b < 256) :
    UInt8.ofNat a < UInt8.ofNat b := by
  rw [UInt8.lt_iff_toNat_lt]
  simp
  omega

/-- The shape of an encoding: its number of bytes is decided by the code point. -/
theorem utf8EncodeChar_cases (c : Char) :
    (c.toNat ≤ 0x7f ∧ utf8EncodeChar c = [UInt8.ofNat c.toNat]) ∨
    (0x7f < c.toNat ∧ c.toNat ≤ 0x7ff ∧ utf8EncodeChar c =
      [UInt8.ofNat (c.toNat / 64 + 0xc0), UInt8.ofNat (c.toNat % 64 + 0x80)]) ∨
    (0x7ff < c.toNat ∧ c.toNat ≤ 0xffff ∧ utf8EncodeChar c =
      [UInt8.ofNat (c.toNat / 4096 + 0xe0), UInt8.ofNat (c.toNat / 64 % 64 + 0x80),
        UInt8.ofNat (c.toNat % 64 + 0x80)]) ∨
    (0xffff < c.toNat ∧ c.toNat < 0x110000 ∧ utf8EncodeChar c =
      [UInt8.ofNat (c.toNat / 262144 + 0xf0), UInt8.ofNat (c.toNat / 4096 % 64 + 0x80),
        UInt8.ofNat (c.toNat / 64 % 64 + 0x80), UInt8.ofNat (c.toNat % 64 + 0x80)]) := by
  have hmax : c.toNat < 0x110000 := by
    have := c.valid
    simp only [UInt32.isValidChar, Nat.isValidChar] at this
    have h : c.toNat = c.val.toNat := rfl
    omega
  have hv : c.val.toNat = c.toNat := rfl
  simp only [utf8EncodeChar, hv]
  by_cases h₁ : c.toNat ≤ 0x7f
  · left
    exact ⟨h₁, if_pos h₁⟩
  · right
    by_cases h₂ : c.toNat ≤ 0x7ff
    · left
      refine ⟨by omega, h₂, ?_⟩
      rw [if_neg h₁, if_pos h₂]
      have hm : c.toNat / 64 % 32 = c.toNat / 64 := by omega
      rw [hm]
    · right
      by_cases h₃ : c.toNat ≤ 0xffff
      · left
        refine ⟨by omega, h₃, ?_⟩
        rw [if_neg h₁, if_neg h₂, if_pos h₃]
        have hm : c.toNat / 4096 % 16 = c.toNat / 4096 := by omega
        rw [hm]
      · right
        refine ⟨by omega, hmax, ?_⟩
        rw [if_neg h₁, if_neg h₂, if_neg h₃]
        have hm : c.toNat / 262144 % 8 = c.toNat / 262144 := by omega
        rw [hm]

/-- Of two characters, the smaller one has the smaller encoding, and the encodings differ
    inside of both. -/
theorem below_utf8EncodeChar {c d : Char} (h : c < d) :
    Below (utf8EncodeChar c) (utf8EncodeChar d) := by
  have hlt : c.toNat < d.toNat := h
  -- bytes that are equal by their numbers are passed over, the first smaller one decides
  have hskip : ∀ {a b : Nat} {u v : List UInt8}, a ≤ b → b < 256 → (a = b → Below u v) →
      Below (UInt8.ofNat a :: u) (UInt8.ofNat b :: v) := by
    intro a b u v hab hb huv
    rcases Nat.lt_or_eq_of_le hab with hlt | rfl
    · exact below_cons_of_lt (ofNat_lt_ofNat hlt hb) u v
    · exact (huv rfl).cons _
  rcases utf8EncodeChar_cases c with ⟨hc, ec⟩ | ⟨hc, hc', ec⟩ | ⟨hc, hc', ec⟩ | ⟨hc, hc', ec⟩ <;>
  rcases utf8EncodeChar_cases d with ⟨hd, ed⟩ | ⟨hd, hd', ed⟩ | ⟨hd, hd', ed⟩ | ⟨hd, hd', ed⟩ <;>
  rw [ec, ed] <;> (apply hskip <;> [omega; omega; intro e₁]) <;> try omega
  · apply hskip <;> [omega; omega; intro e₂]
    omega
  · apply hskip <;> [omega; omega; intro e₂]
    apply hskip <;> [omega; omega; intro e₃]
    omega
  · apply hskip <;> [omega; omega; intro e₂]
    apply hskip <;> [omega; omega; intro e₃]
    apply hskip <;> [omega; omega; intro e₄]
    omega

/-- The bytes of a string, `str::as_bytes`. -/
def utf8Bytes (s : String) : List UInt8 := s.toList.flatMap utf8EncodeChar

/-- A byte below 0x80 is a character of its own. -/
theorem mem_of_ofNat_mem_utf8Bytes {s : String} {n : Nat} (hn : n < 0x80)
    (h : UInt8.ofNat n ∈ s.utf8Bytes) : ∃ c ∈ s.toList, c.toNat = n := by
  obtain ⟨c, hc, hmem⟩ := List.mem_flatMap.mp h
  have hne : ∀ m, 0x80 ≤ m → m < 0x100 → UInt8.ofNat n ≠ UInt8.ofNat m := by
    intro m hlow hhigh heq
    have := congrArg UInt8.toNat heq
    simp at this
    omega
  rcases utf8EncodeChar_cases c with ⟨hc₁, ec⟩ | ⟨hc₁, hc₂, ec⟩ | ⟨hc₁, hc₂, ec⟩ | ⟨hc₁, hc₂, ec⟩
  · rw [ec, List.mem_singleton] at hmem
    have := congrArg UInt8.toNat hmem
    simp at this
    exact ⟨c, hc, by omega⟩
  all_goals
    rw [ec] at hmem
    simp only [List.mem_cons, List.not_mem_nil, or_false] at hmem
    exfalso
  · rcases hmem with h | h <;> exact hne _ (by omega) (by omega) h
  · rcases hmem with h | h | h <;> exact hne _ (by omega) (by omega) h
  · rcases hmem with h | h | h | h <;> exact hne _ (by omega) (by omega) h

/-- Byte order is code point order. -/
theorem utf8Bytes_lt_utf8Bytes {s t : String} : s.utf8Bytes < t.utf8Bytes ↔ s < t := by
  rw [lt_iff]
  exact flatMap_lt_flatMap_iff (fun _ _ => below_utf8EncodeChar) fun _ => utf8EncodeChar_ne_nil

theorem utf8Bytes_le_utf8Bytes {s t : String} : s.utf8Bytes ≤ t.utf8Bytes ↔ s ≤ t := by
  rw [← List.not_lt, ← String.not_lt, utf8Bytes_lt_utf8Bytes]

theorem utf8Bytes_inj {s t : String} : s.utf8Bytes = t.utf8Bytes ↔ s = t := by
  refine ⟨?_, fun h => h ▸ rfl⟩
  intro h
  apply String.le_antisymm
  · rw [← utf8Bytes_le_utf8Bytes, h]
    exact List.le_refl _
  · rw [← utf8Bytes_le_utf8Bytes, h]
    exact List.le_refl _

/-- The bytes of a string read back as the string. -/
theorem fromUTF8?_utf8Bytes (s : String) : fromUTF8? ⟨s.utf8Bytes.toArray⟩ = some s := by
  have h : (⟨s.utf8Bytes.toArray⟩ : ByteArray) = s.toByteArray := by
    rw [← utf8Encode_toList]
    apply ByteArray.ext
    simp [List.utf8Encode, utf8Bytes, List.flatMap]
  rw [h, fromUTF8?, dif_pos s.isValidUTF8]
  rfl

theorem compare_eq_lt {s t : String} : Ord.compare s t = .lt ↔ s < t :=
  compareOfLessAndEq_eq_lt

theorem isLE_compare {s t : String} : (Ord.compare s t).isLE = true ↔ s ≤ t := by
  rw [← String.not_lt, ← compare_eq_lt,
    show Ord.compare t s = _ from Std.OrientedCmp.eq_swap]
  cases Ord.compare s t <;> simp

end String
