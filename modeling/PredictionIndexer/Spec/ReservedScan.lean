import PredictionIndexer.Engine.Normalize

/-!
# The scan for reserved keys

The scan for reserved keys is one over characters: it walks from string to string, and a string with
a colon behind it is a key. A quote, a backslash, white space and a colon are bytes of their own, so
the walk over bytes meets them where the one over characters does, and the text is sliced between
two quotes, never inside a character.

Key results:
- `At.stringEnd` — the closing quote of the bytes is that of the characters
- `containsReservedValueKey_eq` — the bytes are scanned as the characters are
-/

namespace PredictionIndexer.Engine

open Fallible Utf8

/-! ## The scan of characters -/

/-- A string up to its closing quote, and what is behind it. -/
def splitString : List Char → Option (List Char × List Char)
  | [] => none
  | '"' :: rest => some ([], rest)
  | '\\' :: c :: rest => (splitString rest).map fun x => ('\\' :: c :: x.1, x.2)
  | c :: rest => (splitString rest).map fun x => (c :: x.1, x.2)

def isSpace (c : Char) : Bool := c = ' ' || c = '\t' || c = '\n' || c = '\x0c' || c = '\r'

/-- A colon is next, behind white space. -/
def colonNext (cs : List Char) : Bool := (cs.dropWhile isSpace).head? = some ':'

theorem eq_of_splitString {cs inner behind : List Char}
    (h : splitString cs = some (inner, behind)) : cs = inner ++ '"' :: behind := by
  induction cs using splitString.induct generalizing inner behind with
  | case1 => simp [splitString] at h
  | case2 rest =>
    simp only [splitString, Option.some.injEq, Prod.mk.injEq] at h
    rw [← h.1, ← h.2]
    rfl
  | case3 c rest ih =>
    simp only [splitString, Option.map_eq_some_iff, Prod.mk.injEq] at h
    obtain ⟨⟨inner', behind'⟩, hsplit, rfl, rfl⟩ := h
    rw [ih hsplit]
    rfl
  | case4 c rest hquote hescape ih =>
    rw [splitString] at h
    · simp only [Option.map_eq_some_iff, Prod.mk.injEq] at h
      obtain ⟨⟨inner', behind'⟩, hsplit, rfl, rfl⟩ := h
      rw [ih hsplit]
      rfl
    · exact hquote
    · exact hescape

theorem length_of_splitString {cs inner behind : List Char}
    (h : splitString cs = some (inner, behind)) : behind.length < cs.length := by
  rw [eq_of_splitString h, List.length_append, List.length_cons]
  omega

/-- The scan, on characters. -/
def scanChars : List Char → Bool
  | [] => false
  | c :: rest =>
    if c ≠ '"' then scanChars rest
    else
      match _h : splitString rest with
      | none => false
      | some (inner, behind) =>
        (colonNext behind && isReservedToken ('"' :: (inner ++ ['"']))) || scanChars behind
termination_by cs => cs.length
decreasing_by
  · simp
  · have hlt := length_of_splitString _h
    rw [List.length_cons]
    omega

@[simp] theorem scanChars_nil : scanChars [] = false := by rw [scanChars]

theorem scanChars_cons {c : Char} {rest : List Char} (hc : c ≠ '"') :
    scanChars (c :: rest) = scanChars rest := by
  rw [scanChars, if_pos hc]

theorem scanChars_quote {rest inner behind : List Char}
    (h : splitString rest = some (inner, behind)) :
    scanChars ('"' :: rest) =
      ((colonNext behind && isReservedToken ('"' :: (inner ++ ['"']))) || scanChars behind) := by
  rw [scanChars, if_neg (by simp)]
  split
  next hnone => simp [h] at hnone
  next hsome =>
    rw [h] at hsome
    cases hsome
    rfl

theorem scanChars_unclosed {rest : List Char} (h : splitString rest = none) :
    scanChars ('"' :: rest) = false := by
  rw [scanChars, if_neg (by simp)]
  split
  next => rfl
  next hsome => simp [h] at hsome

/-! ## Bytes and characters -/

/-- The characters ahead at a byte offset. -/
def At (bytes : List UInt8) (n : Nat) (cs : List Char) : Prop := bytes.drop n = encode cs

section At

variable {bytes : List UInt8} {n : Nat} {c : Char} {cs rest inner behind : List Char}

theorem At.nil (h : At bytes n []) : bytes.length ≤ n := by
  simpa [At] using h

theorem At.cons (h : At bytes n (c :: cs)) : At bytes (n + c.utf8Size) cs := by
  have hsize : (String.utf8EncodeChar c).length = c.utf8Size := String.length_utf8EncodeChar c
  unfold At at h ⊢
  rw [← List.drop_drop, h, encode_cons, ← hsize, List.drop_left]

theorem At.append (h : At bytes n (inner ++ cs)) : At bytes (n + (encode inner).length) cs := by
  unfold At at h ⊢
  rw [← List.drop_drop, h, encode_append, List.drop_left]

/-- The bytes of the next character. -/
theorem At.byte (h : At bytes n (c :: cs)) {i : Nat} (hi : i < c.utf8Size) :
    ∃ b ∈ String.utf8EncodeChar c, bytes[n + i]? = some b := by
  have hlt : i < (String.utf8EncodeChar c).length := by
    rw [String.length_utf8EncodeChar]
    exact hi
  refine ⟨(String.utf8EncodeChar c)[i], List.getElem_mem hlt, ?_⟩
  rw [← List.getElem?_drop, h, encode_cons, List.getElem?_append_left hlt,
    List.getElem?_eq_getElem hlt]

/-- A character below 0x80 is one byte. -/
theorem At.ascii (h : At bytes n (c :: cs)) (hc : c.toNat < 0x80) :
    bytes[n]? = some (UInt8.ofNat c.toNat) ∧ At bytes (n + 1) cs := by
  have hcode := encode_ascii hc
  have hsize : c.utf8Size = 1 := by
    rw [← String.length_utf8EncodeChar, hcode]
    rfl
  obtain ⟨b, hb, hbyte⟩ := @At.byte _ _ _ _ h 0 (by omega)
  rw [hcode, List.mem_singleton] at hb
  refine ⟨by rw [← hb]; exact hbyte, ?_⟩
  have hnext := h.cons
  rwa [hsize] at hnext

/-- The bytes of a character say which ASCII character it is, or that it is none. -/
theorem eq_iff_of_mem {b : UInt8} (hb : b ∈ String.utf8EncodeChar c) (d : Char)
    (hd : d.toNat < 0x80) : b = UInt8.ofNat d.toNat ↔ c = d := by
  constructor
  · rintro rfl
    have hcode := (ascii_of_mem hb (by simp; omega)).2
    have htoNat : c.toNat = d.toNat := by
      rw [hcode]
      simp
      omega
    exact Char.ext (UInt32.toNat_inj.mp htoNat)
  · rintro rfl
    rwa [encode_ascii hd, List.mem_singleton] at hb

/-- Bytes that are no quote and no backslash are passed over. -/
theorem stringEnd_skip {k : Nat}
    (h : ∀ i < k, ∃ b, bytes[n + i]? = some b ∧ b ≠ 92 ∧ b ≠ 34) :
    stringEnd bytes n = stringEnd bytes (n + k) := by
  induction k generalizing n with
  | zero => rfl
  | succ k ih =>
    obtain ⟨b, hbyte, hslash, hquote⟩ := h 0 (Nat.succ_pos k)
    have hrest : ∀ i < k, ∃ b, bytes[n + 1 + i]? = some b ∧ b ≠ 92 ∧ b ≠ 34 := by
      intro i hi
      have hnext := h (i + 1) (by omega)
      rwa [show n + (i + 1) = n + 1 + i by omega] at hnext
    rw [Nat.add_zero] at hbyte
    rw [stringEnd_eq, hbyte]
    simp only [hslash, hquote, if_false]
    rw [ih hrest, show n + 1 + k = n + (k + 1) by omega]

/-- The bytes of a character that is no quote and no backslash, from any of them on. -/
theorem At.skip (h : At bytes n (c :: cs)) (hc : c ≠ '"') (hc' : c ≠ '\\') {j : Nat}
    (hj : j ≤ c.utf8Size) : stringEnd bytes (n + j) = stringEnd bytes (n + c.utf8Size) := by
  have hbytes : ∀ i < c.utf8Size - j, ∃ b, bytes[n + j + i]? = some b ∧ b ≠ 92 ∧ b ≠ 34 := by
    intro i hi
    obtain ⟨b, hb, hbyte⟩ := @At.byte _ _ _ _ h (j + i) (by omega)
    rw [← Nat.add_assoc] at hbyte
    exact ⟨b, hbyte, mt (eq_iff_of_mem hb '\\' (by decide)).mp hc',
      mt (eq_iff_of_mem hb '"' (by decide)).mp hc⟩
  rw [stringEnd_skip hbytes, show n + j + (c.utf8Size - j) = n + c.utf8Size by omega]

/-- A character that is no quote has no byte of one. -/
theorem At.not_quote (h : At bytes n (c :: cs)) (hc : c ≠ '"') {i : Nat} (hi : i < c.utf8Size) :
    ∃ b, bytes[n + i]? = some b ∧ b ≠ 34 := by
  obtain ⟨b, hb, hbyte⟩ := h.byte hi
  exact ⟨b, hbyte, mt (eq_iff_of_mem hb '"' (by decide)).mp hc⟩

theorem stringEnd_of_length_le (h : bytes.length ≤ n) : bytes.length ≤ stringEnd bytes n :=
  h.trans (le_stringEnd bytes n)

/-- An escaped character is passed over, the bytes behind its first one as they come. -/
theorem At.stringEnd_escape (h : At bytes n ('\\' :: c :: cs)) :
    stringEnd bytes n = stringEnd bytes (n + 1 + c.utf8Size) := by
  obtain ⟨hbyte, hescaped⟩ := h.ascii (by decide)
  have hjump : stringEnd bytes n = stringEnd bytes (n + 1 + 1) := by
    rw [stringEnd_eq, hbyte]
    rfl
  rw [hjump]
  have hpos := c.utf8Size_pos
  by_cases hsize : c.utf8Size = 1
  · rw [hsize]
  · have hquote : c ≠ '"' := by
      rintro rfl
      exact hsize rfl
    have hslash : c ≠ '\\' := by
      rintro rfl
      exact hsize rfl
    exact hescaped.skip hquote hslash (by omega)

/-- The closing quote of the bytes is that of the characters. -/
theorem At.stringEnd (h : At bytes n cs) :
    match splitString cs with
    | none => bytes.length ≤ Engine.stringEnd bytes n
    | some (inner, _) => Engine.stringEnd bytes n = n + (encode inner).length := by
  induction cs using splitString.induct generalizing n with
  | case1 => exact stringEnd_of_length_le h.nil
  | case2 rest =>
    rw [stringEnd_eq, (h.ascii (by decide)).1]
    rfl
  | case3 c rest ih =>
    have hrest := ih (h.ascii (by decide)).2.cons
    rw [h.stringEnd_escape, splitString]
    cases hsplit : splitString rest with
    | none => simpa [hsplit] using hrest
    | some x =>
      rw [hsplit] at hrest
      simp only [Option.map_some, length_encode_cons]
      simp only at hrest
      rw [hrest, show ('\\').utf8Size = 1 from rfl]
      omega
  | case4 c rest hquote hescape ih =>
    rw [splitString]
    rotate_left
    · exact hquote
    · exact hescape
    by_cases hslash : c = '\\'
    · subst hslash
      cases rest with
      | cons c' rest => exact absurd rfl (hescape c' rest rfl)
      | nil =>
        obtain ⟨hbyte, hnil⟩ := h.ascii (by decide)
        have hlength := hnil.nil
        rw [stringEnd_eq, hbyte]
        exact stringEnd_of_length_le (by omega)
    · have hrest := ih h.cons
      have hskip := @At.skip _ _ _ _ h hquote hslash 0 (Nat.zero_le _)
      rw [Nat.add_zero] at hskip
      rw [hskip]
      cases hsplit : splitString rest with
      | none => simpa [hsplit] using hrest
      | some x =>
        rw [hsplit] at hrest
        simp only [Option.map_some, length_encode_cons]
        simp only at hrest
        rw [hrest]
        omega

theorem skipWhitespace_eq (bytes : List UInt8) (next : Nat) : skipWhitespace bytes next =
    match bytes[next]? with
    | none => next
    | some b => if isAsciiWhitespace b then skipWhitespace bytes (next + 1) else next := by
  rw [skipWhitespace]
  split <;> simp_all

theorem utf8Size_of_isSpace (h : isSpace c = true) : c.utf8Size = 1 := by
  simp only [isSpace, Bool.or_eq_true, decide_eq_true_eq] at h
  rcases h with (((rfl | rfl) | rfl) | rfl) | rfl <;> rfl

/-- A character is white space as its first byte is, and a colon as that is. -/
theorem At.first (h : At bytes n (c :: cs)) :
    ∃ b, bytes[n]? = some b ∧ isAsciiWhitespace b = isSpace c ∧ (b = 58 ↔ c = ':') := by
  obtain ⟨b, hb, hbyte⟩ := h.byte c.utf8Size_pos
  have hspace : isAsciiWhitespace b = isSpace c := by
    rw [Bool.eq_iff_iff]
    simp only [isAsciiWhitespace, isSpace, Bool.or_eq_true, decide_eq_true_eq]
    rw [← eq_iff_of_mem hb ' ' (by decide), ← eq_iff_of_mem hb '\t' (by decide),
      ← eq_iff_of_mem hb '\n' (by decide), ← eq_iff_of_mem hb '\x0c' (by decide),
      ← eq_iff_of_mem hb '\r' (by decide)]
    rfl
  exact ⟨b, hbyte, hspace, eq_iff_of_mem hb ':' (by decide)⟩

theorem At.colonNext (h : At bytes n cs) :
    bytes[skipWhitespace bytes n]? = some 58 ↔ Engine.colonNext cs = true := by
  induction cs generalizing n with
  | nil =>
    have hnone : bytes[n]? = none := List.getElem?_eq_none h.nil
    rw [skipWhitespace_eq, hnone]
    simp [hnone, Engine.colonNext]
  | cons c cs ih =>
    obtain ⟨b, hbyte, hspace, hcolon⟩ := h.first
    rw [skipWhitespace_eq, hbyte]
    simp only [hspace]
    by_cases hc : isSpace c = true
    · have hnext := h.cons
      rw [utf8Size_of_isSpace hc] at hnext
      rw [if_pos hc, ih hnext, Engine.colonNext, Engine.colonNext, List.dropWhile_cons_of_pos hc]
    · rw [if_neg hc, hbyte, Engine.colonNext, List.dropWhile_cons_of_neg hc]
      simp [hcolon]

end At

/-! ## One scan -/

theorem scanReserved_eq_cons (raw : List Char) (bytes : List UInt8) (offset : Nat) :
    scanReserved raw bytes offset =
      match bytes[offset]? with
      | none => .ok false
      | some b =>
        if b ≠ 34 then scanReserved raw bytes (offset + 1)
        else if bytes.length ≤ stringEnd bytes (offset + 1) then .ok false
        else if bytes[skipWhitespace bytes (stringEnd bytes (offset + 1) + 1)]? ≠ some 58 then
          scanReserved raw bytes (stringEnd bytes (offset + 1) + 1)
        else unwrap (Utf8.slice raw offset (stringEnd bytes (offset + 1) + 1)) >>= fun token =>
          if isReservedToken token then pure true
          else scanReserved raw bytes (stringEnd bytes (offset + 1) + 1) := by
  rw [scanReserved]
  split <;> simp_all

/-- Bytes that are no quote are passed over. -/
theorem scanReserved_skip {raw : List Char} {bytes : List UInt8} {n k : Nat}
    (h : ∀ i < k, ∃ b, bytes[n + i]? = some b ∧ b ≠ 34) :
    scanReserved raw bytes n = scanReserved raw bytes (n + k) := by
  induction k generalizing n with
  | zero => rfl
  | succ k ih =>
    obtain ⟨b, hbyte, hquote⟩ := h 0 (Nat.succ_pos k)
    have hrest : ∀ i < k, ∃ b, bytes[n + 1 + i]? = some b ∧ b ≠ 34 := by
      intro i hi
      have hnext := h (i + 1) (by omega)
      rwa [show n + (i + 1) = n + 1 + i by omega] at hnext
    rw [Nat.add_zero] at hbyte
    rw [scanReserved_eq_cons, hbyte]
    simp only [hquote, ne_eq, not_false_eq_true, if_true]
    rw [ih hrest, show n + 1 + k = n + (k + 1) by omega]

/-- At a quote the string behind it is a key that is reserved, or the scan goes on behind it. -/
theorem scanReserved_quote {before rest inner behind : List Char} {found : Bool}
    (hsplit : splitString rest = some (inner, behind))
    (hfound : scanReserved (before ++ '"' :: rest) (encode (before ++ '"' :: rest))
      (encode (before ++ '"' :: (inner ++ ['"']))).length = .ok found) :
    scanReserved (before ++ '"' :: rest) (encode (before ++ '"' :: rest)) (encode before).length =
      .ok ((colonNext behind && isReservedToken ('"' :: (inner ++ ['"']))) || found) := by
  have hrest := eq_of_splitString hsplit
  have hat : At (encode (before ++ '"' :: rest)) (encode before).length ('"' :: rest) := by
    rw [At, encode_append, List.drop_left]
  obtain ⟨hquote, hinside⟩ := hat.ascii (by decide)
  have hend := hinside.stringEnd
  rw [hsplit] at hend
  simp only at hend
  have hsize : (encode ('"' :: (inner ++ ['"']))).length = 1 + (encode inner).length + 1 := by
    rw [length_encode_cons, encode_append, List.length_append, length_encode_cons,
      show ('"').utf8Size = 1 from rfl]
    simp
    omega
  have hoffset : (encode (before ++ '"' :: (inner ++ ['"']))).length =
      (encode before).length + 1 + (encode inner).length + 1 := by
    rw [encode_append, List.length_append, hsize]
    omega
  have hslice : slice (before ++ '"' :: rest) (encode before).length
      ((encode before).length + 1 + (encode inner).length + 1) = some ('"' :: (inner ++ ['"'])) := by
    have hquoted : before ++ '"' :: rest = before ++ ('"' :: (inner ++ ['"']) ++ behind) := by
      simp [hrest]
    rw [hquoted, show (encode before).length + 1 + (encode inner).length + 1 =
      (encode before).length + (encode ('"' :: (inner ++ ['"']))).length by omega]
    exact slice_append
  have hinside' := hinside
  nth_rewrite 2 [hrest] at hinside'
  obtain ⟨hclose, hbehind⟩ := hinside'.append.ascii (by decide)
  have hlt := (List.getElem?_eq_some_iff.mp hclose).1
  rw [hoffset] at hfound
  rw [scanReserved_eq_cons, hquote]
  simp only [show UInt8.ofNat ('"').toNat = 34 from rfl, ne_eq, not_true_eq_false, if_false]
  rw [hend, if_neg (by omega), hslice, hfound]
  by_cases hcolon : colonNext behind = true
  · rw [if_neg (not_not.mpr (hbehind.colonNext.mpr hcolon)), hcolon]
    show (if isReservedToken ('"' :: (inner ++ ['"'])) then Except.ok true else Except.ok found) = _
    cases isReservedToken ('"' :: (inner ++ ['"'])) <;> rfl
  · rw [if_pos (mt hbehind.colonNext.mp hcolon), Bool.eq_false_iff.mpr hcolon]
    rfl

/-- From a character on, the bytes are scanned as the characters are. -/
theorem scanReserved_eq (before cs : List Char) :
    scanReserved (before ++ cs) (encode (before ++ cs)) (encode before).length =
      .ok (scanChars cs) := by
  induction hlength : cs.length using Nat.strong_induction_on generalizing before cs with
  | _ m ih =>
    have hat : At (encode (before ++ cs)) (encode before).length cs := by
      rw [At, encode_append, List.drop_left]
    cases cs with
    | nil =>
      rw [scanReserved_eq_cons, List.getElem?_eq_none hat.nil, scanChars_nil]
    | cons c rest =>
      rw [List.length_cons] at hlength
      by_cases hc : c = '"'
      · subst hc
        cases hsplit : splitString rest with
        | none =>
          obtain ⟨hquote, hinside⟩ := hat.ascii (by decide)
          have hend := hinside.stringEnd
          rw [hsplit] at hend
          rw [scanReserved_eq_cons, hquote]
          simp only [show UInt8.ofNat ('"').toNat = 34 from rfl, ne_eq, not_true_eq_false, if_false]
          rw [if_pos hend, scanChars_unclosed hsplit]
        | some x =>
          obtain ⟨inner, behind⟩ := x
          have hshorter := length_of_splitString hsplit
          have hrest := ih behind.length (by omega) (before ++ '"' :: (inner ++ ['"'])) behind rfl
          rw [show before ++ '"' :: (inner ++ ['"']) ++ behind = before ++ '"' :: rest by
            simp [eq_of_splitString hsplit]] at hrest
          rw [scanReserved_quote hsplit hrest, scanChars_quote hsplit]
      · have hrest := ih rest.length (by omega) (before ++ [c]) rest rfl
        rw [List.append_assoc, List.singleton_append] at hrest
        rw [scanReserved_skip fun i hi => hat.not_quote hc hi, scanChars_cons hc, ← hrest]
        simp

/-- The scan ends on every text, and slices it between characters. -/
theorem containsReservedValueKey_eq (raw : String) :
    containsReservedValueKey raw = .ok (scanChars raw.toList) :=
  scanReserved_eq [] raw.toList

end PredictionIndexer.Engine
