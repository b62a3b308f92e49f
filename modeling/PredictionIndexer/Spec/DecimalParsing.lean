import PredictionIndexer.Engine.Numeric

/-!
# Decimal text is read exactly

A text is accepted just if it is a decimal literal whose value is a whole number of atoms within the
bound of the type. No digit is lost on the way and no computation leaves the integers it is made in,
however long the text is.

## Key results

- `combine_eq`: the atoms of a literal, by its two parts
- `parse_exact`: the parsers of the module
-/

namespace PredictionIndexer.Engine

open Fallible (Arithmetic)

variable {mode : Arithmetic} {scale : DecimalScale} {cs w f : List Char}

/-! ## Decimal literals -/

/-- `[0-9]+(\.[0-9]+)?`, by its whole part and its fraction. -/
inductive Decimal : List Char → List Char → List Char → Prop
  | whole {w : List Char} (hne : w ≠ []) (hw : ∀ c ∈ w, c.isDigit = true) : Decimal w w []
  | point {w f : List Char} (hne : w ≠ []) (hw : ∀ c ∈ w, c.isDigit = true) (hfne : f ≠ [])
    (hf : ∀ c ∈ f, c.isDigit = true) : Decimal (w ++ '.' :: f) w f

/-- The number that digits write. -/
def number (cs : List Char) : Nat := Nat.ofDigitChars 10 cs 0

/-- The number that a literal with these parts stands for. -/
def value (w f : List Char) : ℚ := number w + number f / 10 ^ f.length

/-- The text is a literal of `n` atoms at the scale. -/
def Denotes (text : String) (scale : DecimalScale) (n : Nat) : Prop :=
  ∃ w f, Decimal text.toList w f ∧ value w f * 10 ^ scale.exponent = n

theorem Decimal.digits (h : Decimal cs w f) : ∀ c ∈ w ++ f, c.isDigit = true := by
  intro c hc
  cases h with
  | whole hne hw => exact hw c (by simpa using hc)
  | point hne hw hfne hf =>
    rcases List.mem_append.mp hc with hc | hc
    · exact hw c hc
    · exact hf c hc

theorem toNat_of_isDigit {c : Char} (h : c.isDigit = true) : 48 ≤ c.toNat ∧ c.toNat ≤ 57 := by
  rw [Char.isDigit] at h
  simp only [ge_iff_le, Bool.and_eq_true, decide_eq_true_eq] at h
  exact ⟨UInt32.le_iff_toNat_le.mp h.1, UInt32.le_iff_toNat_le.mp h.2⟩

theorem Decimal.ascii (h : Decimal cs w f) : ∀ c ∈ cs, c.toNat < 128 := by
  intro c hc
  have hdigit : ∀ d : Char, d.isDigit = true → d.toNat < 128 := fun d hd => by
    have := toNat_of_isDigit hd
    omega
  cases h with
  | whole hne hw => exact hdigit c (hw c hc)
  | point hne hw hfne hf =>
    rcases List.mem_append.mp hc with hc | hc
    · exact hdigit c (hw c hc)
    · rcases List.mem_cons.mp hc with rfl | hc
      · decide
      · exact hdigit c (hf c hc)

/-- A literal begins with a digit. -/
theorem Decimal.head? (h : Decimal cs w f) : ∃ c, cs.head? = some c ∧ c.isDigit = true := by
  have hhead : ∀ (w rest : List Char), w ≠ [] → (∀ c ∈ w, c.isDigit = true) →
      ∃ c, (w ++ rest).head? = some c ∧ c.isDigit = true := by
    intro w rest hne hw
    cases w with
    | nil => exact absurd rfl hne
    | cons c w => exact ⟨c, rfl, hw c List.mem_cons_self⟩
  cases h with
  | whole hne hw => simpa using hhead cs [] hne hw
  | point hne hw hfne hf => exact hhead w ('.' :: f) hne hw

theorem point_notMem {l : List Char} (h : ∀ c ∈ l, c.isDigit = true) : '.' ∉ l := by
  intro hmem
  have := h _ hmem
  simp at this

/-- The split finds the parts of a literal, and finds parts of nothing else. -/
theorem splitPoint_iff :
    (splitPoint cs = .ok (w, f) ∧ ∀ c ∈ w ++ f, c.isDigit = true) ↔ Decimal cs w f := by
  constructor
  · rintro ⟨h, hdigits⟩
    have hcs : ['.'].intercalate (cs.splitOn '.') = cs :=
        List.intercalate_splitOn '.'
    unfold splitPoint at h
    split at h
    · rename_i whole hsplit
      rw [hsplit] at hcs
      replace hcs : whole = cs := by simpa using hcs
      split at h
      · cases h
      · rename_i hne
        cases h
        rw [← hcs]
        exact .whole (by simpa using hne) fun c hc => hdigits c (by simpa using hc)
    · rename_i whole fraction hsplit
      rw [hsplit] at hcs
      replace hcs : whole ++ '.' :: fraction = cs := by simpa [List.intercalate] using hcs
      split at h
      · cases h
      · rename_i hne
        cases h
        rw [Bool.or_eq_true, not_or] at hne
        rw [← hcs]
        exact .point (by simpa using hne.1) (fun c hc => hdigits c (List.mem_append_left _ hc))
          (by simpa using hne.2) fun c hc => hdigits c (List.mem_append_right _ hc)
    · cases h
  · intro h
    refine ⟨?_, h.digits⟩
    cases h with
    | whole hne hw =>
      simp [splitPoint, List.splitOn_eq_singleton (point_notMem hw), hne]
    | point hne hw hfne hf =>
      have hsplit : (w ++ '.' :: f).splitOn '.' = [w, f] := by
        rw [List.splitOn_append_cons_self, List.splitOn_eq_singleton (point_notMem hw),
          List.splitOn_eq_singleton (point_notMem hf)]
        rfl
      simp [splitPoint, hsplit, hne, hfne]

/-! ## Digits -/

theorem number_append (a b : List Char) : number (a ++ b) = number a * 10 ^ b.length + number b := by
  rw [number, Nat.ofDigitChars_append, Nat.ofDigitChars_eq_ofDigitChars_zero, Nat.mul_comm]
  rfl

theorem number_lt (h : ∀ c ∈ cs, c.isDigit = true) : number cs < 10 ^ cs.length := by
  induction cs using List.reverseRecOn with
  | nil => decide
  | append_singleton cs c ih =>
    have hc := toNat_of_isDigit (h c (by simp))
    have hcs := ih fun d hd => h d (by simp [hd])
    have hone : number [c] = c.toNat - 48 := by simp [number, Nat.ofDigitChars_cons]
    rw [number_append, hone, List.length_append, List.length_singleton, pow_succ]
    omega

/-- Digits are worth nothing just if they are zeros. -/
theorem number_eq_zero_iff (h : ∀ c ∈ cs, c.isDigit = true) :
    number cs = 0 ↔ ∀ c ∈ cs, c = '0' := by
  induction cs using List.reverseRecOn with
  | nil => simp [number]
  | append_singleton cs c ih =>
    have hc := toNat_of_isDigit (h c (by simp))
    have hone : number [c] = 0 ↔ c = '0' := by
      have hvalue : number [c] = c.toNat - 48 := by simp [number, Nat.ofDigitChars_cons]
      rw [hvalue, ← Char.toNat_inj]
      show _ ↔ c.toNat = 48
      omega
    have hcs := ih fun d hd => h d (by simp [hd])
    rw [number_append]
    simp [hone, hcs, or_imp, forall_and]

theorem checked128_of_lt {n : Nat} (h : n < 2 ^ 128) : checked128 n = .ok n := if_pos h

theorem foldlM_parseDigit (h : ∀ c ∈ cs, c.isDigit = true) {init : Nat} (hinit : init < 2 ^ 128) :
    cs.foldlM parseDigit init = checked128 (Nat.ofDigitChars 10 cs init) := by
  induction cs generalizing init with
  | nil => simp [checked128_of_lt hinit]
  | cons c cs ih =>
    have hstep : parseDigit init c = checked128 (10 * init + (c.toNat - 48)) := by
      have hdigit := h c List.mem_cons_self
      simp only [parseDigit, hdigit, Bool.not_true, Bool.false_eq_true, if_false]
      by_cases hmul : init * 10 < 2 ^ 128
      · rw [checked128_of_lt hmul, Except.ok_bind, Nat.mul_comm init]
        rfl
      · have hsum : ¬10 * init + (c.toNat - 48) < 2 ^ 128 := by omega
        rw [checked128, if_neg hmul, checked128, if_neg hsum]
        rfl
    rw [List.foldlM_cons, hstep, Nat.ofDigitChars_cons]
    show _ = checked128 (Nat.ofDigitChars 10 cs (10 * init + (c.toNat - 48)))
    by_cases hsum : 10 * init + (c.toNat - 48) < 2 ^ 128
    · rw [checked128_of_lt hsum, Except.ok_bind]
      exact ih (fun d hd => h d (List.mem_cons_of_mem _ hd)) hsum
    · -- what is too large already only grows
      have hgrows : ¬Nat.ofDigitChars 10 cs (10 * init + (c.toNat - 48)) < 2 ^ 128 := by
        rw [Nat.ofDigitChars_eq_ofDigitChars_zero]
        have hle : 10 * init + (c.toNat - 48) ≤ 10 ^ cs.length * (10 * init + (c.toNat - 48)) :=
          Nat.le_mul_of_pos_left _ (by positivity)
        omega
      rw [checked128, if_neg hsum, checked128, if_neg hgrows]
      rfl

theorem parseDigits_eq (h : ∀ c ∈ cs, c.isDigit = true) : parseDigits cs = checked128 (number cs) :=
  foldlM_parseDigit h (by decide)

/-! ## Parts -/

theorem unchecked_of_lt {width n : Nat} (h : n < 2 ^ width) : unchecked mode width n = .ok n :=
  if_pos h

/-- Ten to the exponent of a scale, and what is below it, is far from the width of the type. -/
theorem pow_exponent_le (scale : DecimalScale) : 10 ^ scale.exponent ≤ 10 ^ 18 :=
  Nat.pow_le_pow_right (by decide) scale.exponent_le

/-- What is kept of a fraction is the whole of its value, at the scale. -/
theorem keep_eq_ok (h : ∀ c ∈ f, c.isDigit = true) {k : List Char} (hkeep : keep scale f = .ok k) :
    (∀ c ∈ k, c.isDigit = true) ∧ k.length ≤ scale.exponent ∧
      (number f : ℚ) / 10 ^ f.length * 10 ^ scale.exponent =
        (number k * 10 ^ (scale.exponent - k.length) : Nat) := by
  unfold keep at hkeep
  split at hkeep
  · rename_i hlong
    split at hkeep
    · cases hkeep
    · rename_i hzeros
      cases hkeep
      have hdrop : number (f.drop scale.exponent) = 0 :=
        (number_eq_zero_iff fun c hc => h c (List.mem_of_mem_drop hc)).mpr (by simpa using hzeros)
      have hlen : (f.take scale.exponent).length = scale.exponent := by
        rw [List.length_take, min_eq_left hlong.le]
      have hnumber : number f =
          number (f.take scale.exponent) * 10 ^ (f.length - scale.exponent) := by
        conv_lhs => rw [← List.take_append_drop scale.exponent f, number_append, hdrop]
        rw [Nat.add_zero, List.length_drop]
      refine ⟨fun c hc => h c (List.mem_of_mem_take hc), hlen.le, ?_⟩
      have hpow : (10 : ℚ) ^ f.length = 10 ^ (f.length - scale.exponent) * 10 ^ scale.exponent := by
        rw [← pow_add, Nat.sub_add_cancel hlong.le]
      rw [hlen, hnumber, hpow, Nat.sub_self, pow_zero, Nat.mul_one]
      push_cast
      field_simp
  · rename_i hshort
    cases hkeep
    replace hshort : f.length ≤ scale.exponent := not_lt.mp hshort
    refine ⟨h, hshort, ?_⟩
    have hpow : (10 : ℚ) ^ scale.exponent = 10 ^ (scale.exponent - f.length) * 10 ^ f.length := by
      rw [← pow_add, Nat.sub_add_cancel hshort]
    rw [hpow]
    push_cast
    field_simp

/-- What the scale has no room for is no whole number of atoms. -/
theorem keep_eq_error (h : ∀ c ∈ f, c.isDigit = true) {e : NumericHalt}
    (hkeep : keep scale f = .error e) :
    e = .error .inexactRescale ∧
      ∀ n : Nat, (number f : ℚ) / 10 ^ f.length * 10 ^ scale.exponent ≠ n := by
  unfold keep at hkeep
  split at hkeep
  · rename_i hlong
    split at hkeep
    · rename_i hany
      cases hkeep
      refine ⟨rfl, fun n hn => ?_⟩
      have hrest : ∀ c ∈ f.drop scale.exponent, c.isDigit = true :=
        fun c hc => h c (List.mem_of_mem_drop hc)
      have hlt := number_lt hrest
      have hpos : number (f.drop scale.exponent) ≠ 0 := by
        rw [Ne, number_eq_zero_iff hrest]
        intro hzeros
        obtain ⟨c, hc, hne⟩ := List.any_eq_true.mp hany
        exact absurd (hzeros c hc) (by simpa using hne)
      have hpow : (10 : ℚ) ^ f.length = 10 ^ (f.length - scale.exponent) * 10 ^ scale.exponent := by
        rw [← pow_add, Nat.sub_add_cancel hlong.le]
      -- the atoms would have to divide what is not kept
      have hmul : number f = n * 10 ^ (f.length - scale.exponent) := by
        rw [hpow] at hn
        field_simp at hn
        rw [Nat.mul_comm]
        exact_mod_cast hn
      have hnumber : number f = number (f.take scale.exponent) * 10 ^ (f.length - scale.exponent) +
          number (f.drop scale.exponent) := by
        conv_lhs => rw [← List.take_append_drop scale.exponent f, number_append]
        rw [List.length_drop]
      rw [List.length_drop] at hlt
      have hdvd : 10 ^ (f.length - scale.exponent) ∣ number (f.drop scale.exponent) :=
        (Nat.dvd_add_right (Dvd.intro_left _ rfl)).mp (hnumber ▸ hmul ▸ Dvd.intro_left n rfl)
      exact absurd (Nat.le_of_dvd (Nat.pos_of_ne_zero hpos) hdvd) (not_le.mpr hlt)
    · cases hkeep
  · cases hkeep

/-- The atoms of a literal: none of the steps on the way is out of range when the end is not. -/
theorem combine_eq (hw : ∀ c ∈ w, c.isDigit = true) (hf : ∀ c ∈ f, c.isDigit = true)
    {k : List Char} (hkeep : keep scale f = .ok k) :
    combine mode scale w f = checked128 (number w * 10 ^ scale.exponent +
      number k * 10 ^ (scale.exponent - k.length)) := by
  obtain ⟨hk, hlen, -⟩ := keep_eq_ok hf hkeep
  have hexp := pow_exponent_le scale
  have hbelow : ∀ m ≤ scale.exponent, (10 : Nat) ^ m ≤ 10 ^ scale.exponent := fun m hm =>
    Nat.pow_le_pow_right (by decide) hm
  have hscale : powerOfTen mode scale.exponent = .ok (10 ^ scale.exponent) :=
    unchecked_of_lt (by omega)
  have hpadding : powerOfTen mode ((scale.exponent - k.length) % 256) =
      .ok (10 ^ (scale.exponent - k.length)) := by
    have hmod : (scale.exponent - k.length) % 256 = scale.exponent - k.length := by
      have hmax : scale.exponent ≤ 18 := scale.exponent_le
      omega
    have := hbelow (scale.exponent - k.length) (Nat.sub_le _ _)
    rw [hmod]
    exact unchecked_of_lt (by omega)
  have hnumber := number_lt hk
  have hlenPow := hbelow k.length hlen
  have hfraction : number k * 10 ^ (scale.exponent - k.length) < 10 ^ scale.exponent := by
    calc number k * 10 ^ (scale.exponent - k.length)
        < 10 ^ k.length * 10 ^ (scale.exponent - k.length) :=
          Nat.mul_lt_mul_of_pos_right hnumber (by positivity)
      _ = 10 ^ scale.exponent := by rw [← pow_add, Nat.add_sub_cancel' hlen]
  have hproduct : unchecked mode 128 (number k * 10 ^ (scale.exponent - k.length)) =
      .ok (number k * 10 ^ (scale.exponent - k.length)) := unchecked_of_lt (by omega)
  have hparse : parseDigits k = .ok (number k) := by
    rw [parseDigits_eq hk, checked128_of_lt (by omega)]
  have hsub : uncheckedSub mode scale.exponent k.length = .ok (scale.exponent - k.length) :=
    if_pos hlen
  have hgrows : number w ≤ number w * 10 ^ scale.exponent :=
    Nat.le_mul_of_pos_right _ (by positivity)
  simp only [combine, hkeep, Except.ok_bind, parseDigits_eq hw, hparse, hsub, hscale, hpadding,
    hproduct]
  by_cases hwhole : number w < 2 ^ 128
  · rw [checked128_of_lt hwhole, Except.ok_bind]
    by_cases hscaled : number w * 10 ^ scale.exponent < 2 ^ 128
    · rw [checked128_of_lt hscaled, Except.ok_bind]
    · rw [checked128, if_neg hscaled, checked128, if_neg (by omega)]
      rfl
  · rw [checked128, if_neg hwhole, checked128, if_neg (by omega)]
    rfl

/-! ## Texts -/

theorem Decimal.unique (h : Decimal cs w f) {w' f' : List Char} (h' : Decimal cs w' f') :
    w = w' ∧ f = f' := by
  have hsplit := (splitPoint_iff.mpr h).1
  rw [(splitPoint_iff.mpr h').1] at hsplit
  cases hsplit
  exact ⟨rfl, rfl⟩

theorem ne_sign_of_isDigit {c : Char} (h : c.isDigit = true) : c ≠ '+' ∧ c ≠ '-' := by
  constructor
  · rintro rfl
    cases h
  · rintro rfl
    cases h

/-- The first checks let every literal through. -/
theorem parseUnsignedDecimal_of_decimal {text : String} (h : Decimal text.toList w f) :
    parseUnsignedDecimal mode text scale = combine mode scale w f := by
  obtain ⟨c, hhead, hdigit⟩ := h.head?
  obtain ⟨hplus, hminus⟩ := ne_sign_of_isDigit hdigit
  have hne : text.toList ≠ [] := by
    intro hnil
    rw [hnil] at hhead
    cases hhead
  have hascii : (text.toList.all fun c => decide (c.toNat < 128)) = true :=
    List.all_eq_true.mpr fun c hc => decide_eq_true (h.ascii c hc)
  have hall : (w ++ f).all Char.isDigit = true := List.all_eq_true.mpr h.digits
  simp only [parseUnsignedDecimal, hne, hascii, hhead, Option.some.injEq, hplus, hminus,
    (splitPoint_iff.mpr h).1, Except.ok_bind, hall, Bool.not_true, Bool.false_eq_true, or_self,
    if_false]

theorem splitPoint_eq_error {e : NumericHalt} (h : splitPoint cs = .error e) :
    e = .error .invalidSyntax := by
  unfold splitPoint at h
  split at h
  · split at h <;> cases h
    rfl
  · split at h <;> cases h
    rfl
  · cases h
    rfl

/-- Any other text is an error of its syntax. -/
theorem parseUnsignedDecimal_of_not {text : String} (h : ∀ w f, ¬Decimal text.toList w f) :
    ∃ e, parseUnsignedDecimal mode text scale = .error (.error e) := by
  unfold parseUnsignedDecimal
  dsimp only
  split
  · exact ⟨_, rfl⟩
  · split
    · exact ⟨_, rfl⟩
    · split
      · exact ⟨_, rfl⟩
      · cases hsplit : splitPoint text.toList with
        | error e =>
          rw [splitPoint_eq_error hsplit]
          exact ⟨_, rfl⟩
        | ok parts =>
          obtain ⟨w, f⟩ := parts
          rw [Except.ok_bind]
          dsimp only
          split
          · exact ⟨_, rfl⟩
          · rename_i hall
            refine absurd (splitPoint_iff.mp ⟨hsplit, ?_⟩) (h w f)
            simpa [or_imp, forall_and] using hall

/-! ## The parsers -/

/-- The parser returns the literals of at most `bound` atoms and nothing else, and never panics. -/
structure ReadsExactly {α : Type} (text : String) (scale : DecimalScale) (bound : Nat)
    (fixed : α → Int × DecimalScale) (parse : Except NumericHalt α) : Prop where
  returns : ∀ a, parse = .ok a → ∃ n : Nat, Denotes text scale n ∧ n ≤ bound ∧
    fixed a = ((n : Int), scale)
  accepts : ∀ n : Nat, Denotes text scale n → n ≤ bound → ∃ a, parse = .ok a ∧
    fixed a = ((n : Int), scale)
  total : parse ≠ .error .panic

theorem checked128_eq_ok {n m : Nat} : checked128 n = .ok m ↔ n = m ∧ n < 2 ^ 128 := by
  unfold checked128
  split
  · simp_all
  · rename_i hge
    refine ⟨fun h => (by cases h), fun h => absurd h.2 hge⟩

theorem checked128_ne_panic (n : Nat) : checked128 n ≠ .error .panic := by
  unfold checked128
  split <;> simp

theorem parseUnsignedDecimal_exact (mode : Arithmetic) (text : String) (scale : DecimalScale) :
    ReadsExactly text scale (2 ^ 128 - 1) (fun n : Nat => ((n : Int), scale))
      (parseUnsignedDecimal mode text scale) := by
  by_cases h : ∃ w f, Decimal text.toList w f
  · obtain ⟨w, f, h⟩ := h
    have hw : ∀ c ∈ w, c.isDigit = true := fun c hc => h.digits c (List.mem_append_left _ hc)
    have hf : ∀ c ∈ f, c.isDigit = true := fun c hc => h.digits c (List.mem_append_right _ hc)
    have hdenotes : ∀ n : Nat, Denotes text scale n ↔ value w f * 10 ^ scale.exponent = n := by
      refine fun n => ⟨?_, fun hn => ⟨w, f, h, hn⟩⟩
      rintro ⟨w', f', h', hn⟩
      obtain ⟨rfl, rfl⟩ := h.unique h'
      exact hn
    rw [parseUnsignedDecimal_of_decimal h]
    cases hkeep : keep scale f with
    | error e =>
      obtain ⟨rfl, hnone⟩ := keep_eq_error hf hkeep
      have herror : combine mode scale w f = .error (.error .inexactRescale) := by
        simp only [combine, hkeep, Except.error_bind]
      rw [herror]
      refine ⟨fun a ha => (by cases ha), fun n hn _ => ?_, by simp⟩
      -- the fraction would be the difference of two whole numbers
      rw [hdenotes, value, add_mul] at hn
      have hle : number w * 10 ^ scale.exponent ≤ n := by
        have hpos : (0 : ℚ) ≤ number f / 10 ^ f.length * 10 ^ scale.exponent := by positivity
        exact_mod_cast (le_add_of_nonneg_right hpos).trans_eq hn
      refine absurd ?_ (hnone (n - number w * 10 ^ scale.exponent))
      rw [Nat.cast_sub hle, ← hn]
      push_cast
      ring
    | ok k =>
      obtain ⟨-, -, hvalue⟩ := keep_eq_ok hf hkeep
      have hatoms : value w f * 10 ^ scale.exponent = (number w * 10 ^ scale.exponent +
          number k * 10 ^ (scale.exponent - k.length) : Nat) := by
        rw [value, add_mul, hvalue]
        push_cast
        rfl
      have hiff : ∀ n : Nat, Denotes text scale n ↔ number w * 10 ^ scale.exponent +
          number k * 10 ^ (scale.exponent - k.length) = n := by
        intro n
        rw [hdenotes, hatoms]
        exact Nat.cast_inj
      rw [combine_eq hw hf hkeep]
      refine ⟨fun a ha => ?_, fun n hn hle => ?_, checked128_ne_panic _⟩
      · obtain ⟨rfl, hlt⟩ := checked128_eq_ok.mp ha
        exact ⟨_, (hiff _).mpr rfl, by omega, rfl⟩
      · exact ⟨n, checked128_eq_ok.mpr ⟨(hiff n).mp hn, by rw [(hiff n).mp hn]; omega⟩, rfl⟩
  · have hnone : ∀ w f, ¬Decimal text.toList w f := fun w f hd => h ⟨w, f, hd⟩
    obtain ⟨e, he⟩ := @parseUnsignedDecimal_of_not mode scale _ hnone
    rw [he]
    exact ⟨fun a ha => (by cases ha), fun n ⟨w, f, hd, _⟩ => absurd hd (hnone w f), by simp⟩

section ReadsExactly

variable {α β : Type} {text : String} {bound bound' : Nat} {fixed : α → Int × DecimalScale}
  {fixed' : β → Int × DecimalScale} {parse : Except NumericHalt α}

/-- A narrower type: what is beyond its bound is an error. -/
theorem ReadsExactly.narrow (h : ReadsExactly text scale bound fixed parse) (hle : bound' ≤ bound)
    {f : α → Except NumericHalt β}
    (hok : ∀ a (n : Nat), fixed a = ((n : Int), scale) → n ≤ bound' → ∃ b, f a = .ok b ∧
      fixed' b = ((n : Int), scale))
    (herror : ∀ a (n : Nat), fixed a = ((n : Int), scale) → bound' < n → ∃ e, f a = .error (.error e)) :
    ReadsExactly text scale bound' fixed' (parse >>= f) := by
  refine ⟨fun b hb => ?_, fun n hn hbound => ?_, fun hpanic => ?_⟩
  · obtain ⟨a, ha, hb⟩ := Except.bind_eq_ok.mp hb
    obtain ⟨n, hn, -, hfixed⟩ := h.returns a ha
    by_cases hbound : n ≤ bound'
    · obtain ⟨b', hb', hfixed'⟩ := hok a n hfixed hbound
      rw [hb] at hb'
      cases hb'
      exact ⟨n, hn, hbound, hfixed'⟩
    · obtain ⟨e, he⟩ := herror a n hfixed (not_le.mp hbound)
      rw [hb] at he
      cases he
  · obtain ⟨a, ha, hfixed⟩ := h.accepts n hn (hbound.trans hle)
    obtain ⟨b, hb, hfixed'⟩ := hok a n hfixed hbound
    exact ⟨b, Except.bind_eq_ok.mpr ⟨a, ha, hb⟩, hfixed'⟩
  · cases hparse : parse with
    | error e =>
      rw [hparse, Except.error_bind] at hpanic
      cases hpanic
      exact h.total hparse
    | ok a =>
      rw [hparse, Except.ok_bind] at hpanic
      obtain ⟨n, -, -, hfixed⟩ := h.returns a hparse
      by_cases hbound : n ≤ bound'
      · obtain ⟨b, hb, -⟩ := hok a n hfixed hbound
        rw [hb] at hpanic
        cases hpanic
      · obtain ⟨e, he⟩ := herror a n hfixed (not_le.mp hbound)
        rw [he] at hpanic
        cases hpanic

/-- No literal has a sign. -/
theorem ReadsExactly.unsigned (h : ReadsExactly text scale bound fixed parse) (e : NumericError) :
    ReadsExactly text scale bound fixed
      (if text.toList.head? = some '-' then .error (.error e) else parse) := by
  split
  · rename_i hhead
    refine ⟨fun a ha => (by cases ha), fun n hn _ => ?_, by simp⟩
    obtain ⟨w, f, hd, -⟩ := hn
    obtain ⟨c, hc, hdigit⟩ := hd.head?
    rw [hhead] at hc
    cases hc
    exact absurd rfl (ne_sign_of_isDigit hdigit).2
  · exact h

end ReadsExactly

theorem px_parse_exact (mode : Arithmetic) (text : String) (scale : DecimalScale) :
    ReadsExactly text scale (2 ^ 63 - 1) (fun p : Px => (p.atoms, p.scale))
      (Px.parse mode text scale) := by
  refine ReadsExactly.unsigned (ReadsExactly.narrow (parseUnsignedDecimal_exact mode text scale)
    (by decide) ?_ ?_) .negativePrice
  · intro a n ha hn
    obtain ⟨hatoms, -⟩ := Prod.mk.inj ha
    have hlt : a < 2 ^ 63 := by omega
    exact ⟨_, if_pos hlt, Prod.ext hatoms rfl⟩
  · intro a n ha hn
    obtain ⟨hatoms, -⟩ := Prod.mk.inj ha
    have hge : ¬a < 2 ^ 63 := by omega
    exact ⟨_, if_neg hge⟩

theorem conditionalMarketPrice_parse_exact (mode : Arithmetic) (text : String)
    (scale : DecimalScale) :
    ReadsExactly text scale (10 ^ scale.exponent)
      (fun p : ConditionalMarketPrice => (p.atoms, p.scale))
      (ConditionalMarketPrice.parse mode text scale) := by
  have hexp := pow_exponent_le scale
  have hof : ∀ (p : Px), p.scale = scale → ConditionalMarketPrice.ofPx mode p =
      if h : p.atoms ≤ 10 ^ p.scale.exponent then .ok ⟨p, h⟩
      else .error (.error .conditionalPriceOutOfRange) := by
    intro p hp
    have hone : unchecked mode 63 (10 ^ p.scale.exponent) = .ok (10 ^ p.scale.exponent) :=
      unchecked_of_lt (by rw [hp]; omega)
    rw [ConditionalMarketPrice.ofPx, hone, Except.ok_bind]
  refine ReadsExactly.narrow (px_parse_exact mode text scale) (by omega) ?_ ?_
  · intro p n hp hn
    obtain ⟨hatoms, hscale⟩ := Prod.mk.inj hp
    have hle : p.atoms ≤ 10 ^ p.scale.exponent := by
      rw [hatoms, hscale]
      exact_mod_cast hn
    rw [hof p hscale, dif_pos hle]
    exact ⟨_, rfl, hp⟩
  · intro p n hp hn
    obtain ⟨hatoms, hscale⟩ := Prod.mk.inj hp
    have hlt : ¬p.atoms ≤ 10 ^ p.scale.exponent := by
      rw [hatoms, hscale, not_le]
      exact_mod_cast hn
    rw [hof p hscale, dif_neg hlt]
    exact ⟨_, rfl⟩

theorem magnitude_parse_exact (mode : Arithmetic) (text : String) (scale : DecimalScale) :
    ReadsExactly text scale (2 ^ 64 - 1) (fun m : Magnitude => ((m.atoms : Int), m.scale))
      (Magnitude.parse mode text scale) := by
  refine ReadsExactly.narrow (parseUnsignedDecimal_exact mode text scale) (by decide) ?_ ?_
  · intro a n ha hn
    obtain ⟨hatoms, -⟩ := Prod.mk.inj ha
    have hlt : a < 2 ^ 64 := by omega
    exact ⟨_, if_pos hlt, Prod.ext hatoms rfl⟩
  · intro a n ha hn
    obtain ⟨hatoms, -⟩ := Prod.mk.inj ha
    have hge : ¬a < 2 ^ 64 := by omega
    exact ⟨_, if_neg hge⟩

theorem qty_parse_exact (mode : Arithmetic) (text : String) (scale : DecimalScale) :
    ReadsExactly text scale maxQuantityAtoms (fun q : Qty => ((q.atoms : Int), q.scale))
      (Qty.parse mode text scale) := by
  refine ReadsExactly.unsigned (ReadsExactly.narrow (magnitude_parse_exact mode text scale)
    (by decide) ?_ ?_) .negativeQuantity
  · intro m n hm hn
    obtain ⟨hatoms, -⟩ := Prod.mk.inj hm
    have hle : m.atoms ≤ maxQuantityAtoms := by omega
    exact ⟨_, dif_pos hle, hm⟩
  · intro m n hm hn
    obtain ⟨hatoms, -⟩ := Prod.mk.inj hm
    have hgt : ¬m.atoms ≤ maxQuantityAtoms := by omega
    exact ⟨_, dif_neg hgt⟩

/-- Every parser of the module reads exactly the literals of its type, whatever the text and the
    scale, and none of its computations overflows. -/
theorem parse_exact (mode : Arithmetic) (text : String) (scale : DecimalScale) :
    ReadsExactly text scale (2 ^ 128 - 1) (fun n : Nat => ((n : Int), scale))
      (parseUnsignedDecimal mode text scale) ∧
    ReadsExactly text scale (2 ^ 63 - 1) (fun p : Px => (p.atoms, p.scale))
      (Px.parse mode text scale) ∧
    ReadsExactly text scale (10 ^ scale.exponent)
      (fun p : ConditionalMarketPrice => (p.atoms, p.scale))
      (ConditionalMarketPrice.parse mode text scale) ∧
    ReadsExactly text scale (2 ^ 64 - 1) (fun m : Magnitude => ((m.atoms : Int), m.scale))
      (Magnitude.parse mode text scale) ∧
    ReadsExactly text scale maxQuantityAtoms (fun q : Qty => ((q.atoms : Int), q.scale))
      (Qty.parse mode text scale) :=
  ⟨parseUnsignedDecimal_exact mode text scale, px_parse_exact mode text scale,
    conditionalMarketPrice_parse_exact mode text scale, magnitude_parse_exact mode text scale,
    qty_parse_exact mode text scale⟩

end PredictionIndexer.Engine
