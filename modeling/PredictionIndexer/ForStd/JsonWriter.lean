import PredictionIndexer.ForStd.JsonText

/-!
# Compact JSON

What `json.dumps(..., ensure_ascii=False, separators=(",", ":"))` writes: no blanks, characters as
they are, an escape only where JSON asks for one. `Reads text v` says that a text is read as the
value `v` wherever a value may stand; the texts of numbers, strings and objects are.

## Key results

- `reads_quote`, `reads_number`, `reads_object`: what is written is read back
- `newline_notMem_quote`: a string is written on one line
-/

namespace JsonText

/-! ## Writing -/

/-- One character between quotes. -/
def escapeChar (c : Char) : List Char :=
  if c = '"' then ['\\', '"']
  else if c = '\\' then ['\\', '\\']
  else if c = '\n' then ['\\', 'n']
  else if c = '\r' then ['\\', 'r']
  else if c = '\t' then ['\\', 't']
  else if c = '\x0c' then ['\\', 'f']
  else if c = '\x08' then ['\\', 'b']
  else if c.toNat < 32 then
    ['\\', 'u', '0', '0', Nat.digitChar (c.toNat / 16), Nat.digitChar (c.toNat % 16)]
  else [c]

def escape (cs : List Char) : List Char := cs.flatMap escapeChar

def quote (cs : List Char) : List Char := '"' :: (escape cs ++ ['"'])

/-- The members of an object, each behind its comma but the first. -/
def memberTexts : List (List Char × List Char) → List Char
  | [] => []
  | [m] => quote m.1 ++ ':' :: m.2
  | m :: ms => quote m.1 ++ ':' :: (m.2 ++ ',' :: memberTexts ms)

def objectText (members : List (List Char × List Char)) : List Char :=
  '\x7b' :: (memberTexts members ++ ['\x7d'])

/-! ## Characters -/

/-- A character that stands for itself. -/
def Verbatim (c : Char) : Prop := c ≠ '"' ∧ c ≠ '\\' ∧ 32 ≤ c.toNat

instance : DecidablePred Verbatim := fun c =>
  inferInstanceAs (Decidable (c ≠ '"' ∧ c ≠ '\\' ∧ 32 ≤ c.toNat))

theorem escapeChar_of_verbatim {c : Char} (h : Verbatim c) : escapeChar c = [c] := by
  obtain ⟨hquote, hslash, hcontrol⟩ := h
  have hne : ∀ d : Char, d.toNat < 32 → c ≠ d := by
    rintro d hd rfl
    omega
  simp [escapeChar, hquote, hslash, hne '\n' (by decide), hne '\r' (by decide),
    hne '\t' (by decide), hne '\x0c' (by decide), hne '\x08' (by decide), Nat.not_lt.mpr hcontrol]

/-- The control characters, by their code. -/
theorem exists_ofNat_of_lt {c : Char} (h : c.toNat < 32) : ∃ n : Fin 32, c = Char.ofNat n :=
  ⟨⟨c.toNat, h⟩, (Char.ofNat_toNat c).symm⟩

/-- Any other character is written with a backslash in front. -/
theorem escapeChar_of_not_verbatim {c : Char} (h : ¬Verbatim c) :
    ∃ rest, escapeChar c = '\\' :: rest := by
  have hcases : c = '"' ∨ c = '\\' ∨ c.toNat < 32 := by
    by_contra hnot
    simp only [not_or, not_lt] at hnot
    exact h ⟨hnot.1, hnot.2.1, hnot.2.2⟩
  rcases hcases with rfl | rfl | hlt
  · exact ⟨_, rfl⟩
  · exact ⟨_, rfl⟩
  · obtain ⟨n, rfl⟩ := exists_ofNat_of_lt hlt
    have hall : ∀ n : Fin 32, (escapeChar (Char.ofNat n)).head? = some '\\' := by decide +kernel
    exact List.head?_eq_some_iff.mp (hall n)

theorem newline_notMem_escapeChar (c : Char) : '\n' ∉ escapeChar c := by
  by_cases hv : Verbatim c
  · rw [escapeChar_of_verbatim hv, List.mem_singleton]
    rintro rfl
    exact absurd hv.2.2 (by decide)
  · by_cases hlt : c.toNat < 32
    · obtain ⟨n, rfl⟩ := exists_ofNat_of_lt hlt
      have hall : ∀ n : Fin 32, '\n' ∉ escapeChar (Char.ofNat n) := by decide +kernel
      exact hall n
    · have hcases : c = '"' ∨ c = '\\' := by
        by_contra hnot
        simp only [not_or] at hnot
        exact hv ⟨hnot.1, hnot.2, Nat.not_lt.mp hlt⟩
      rcases hcases with rfl | rfl <;> decide

theorem newline_notMem_quote (cs : List Char) : '\n' ∉ quote cs := by
  simp only [quote, escape, List.mem_cons, List.mem_append, List.mem_flatMap, List.not_mem_nil,
    or_false, not_or, not_exists, not_and]
  exact ⟨by decide, fun c _ => newline_notMem_escapeChar c, by decide⟩

theorem runes_verbatim {c : Char} (h : Verbatim c) (fuel : Nat) (rest : List Char) :
    runes (fuel + 1) (c :: rest) = (runes fuel rest).map fun x => (.char c :: x.1, x.2) := by
  obtain ⟨hquote, hslash, hcontrol⟩ := h
  have hlt : ¬c.toNat < 32 := Nat.not_lt.mpr hcontrol
  rw [runes.eq_def]
  split
  · rename_i heq
    exact absurd (List.cons.inj heq).1 hquote
  · rename_i heq
    exact absurd (List.cons.inj heq).1 hslash
  · rename_i heq
    exact absurd (List.cons.inj heq).1 hslash
  · rename_i hfuel heq
    obtain ⟨rfl, rfl⟩ := List.cons.inj heq
    obtain rfl := Nat.succ.inj hfuel
    rw [if_neg (by simp [hslash, hlt])]
    cases runes fuel rest <;> rfl
  · rename_i hno
    exact absurd rfl (hno fuel c rest rfl)

/-- Whether a text is an escape of a character. -/
def isEscape (c : Char) : List Char → Bool
  | ['\\', x] => x ≠ 'u' ∧ escaped x = some c
  | ['\\', 'u', a, b, d, e] => codeUnit [a, b, d, e] = some (.char c, [])
  | _ => false

theorem isEscape_escapeChar {c : Char} (h : ¬Verbatim c) : isEscape c (escapeChar c) = true := by
  by_cases hlt : c.toNat < 32
  · obtain ⟨n, rfl⟩ := exists_ofNat_of_lt hlt
    have hall : ∀ n : Fin 32, isEscape (Char.ofNat n) (escapeChar (Char.ofNat n)) = true := by
      decide +kernel
    exact hall n
  · have hcases : c = '"' ∨ c = '\\' := by
      by_contra hnot
      simp only [not_or] at hnot
      exact h ⟨hnot.1, hnot.2, Nat.not_lt.mp hlt⟩
    rcases hcases with rfl | rfl <;> decide

theorem codeUnit_append {a b c d : Char} {r : Rune} (h : codeUnit [a, b, c, d] = some (r, []))
    (rest : List Char) : codeUnit (a :: b :: c :: d :: rest) = some (r, rest) := by
  simp only [codeUnit, Option.bind_eq_bind, Option.bind_eq_some_iff, Option.some.injEq,
    Prod.mk.injEq, and_true] at h ⊢
  exact h

/-- An escape is read as its character. -/
theorem runes_escapeChar (c : Char) (fuel : Nat) (rest : List Char) :
    runes (fuel + 1) (escapeChar c ++ rest) =
      (runes fuel rest).map fun x => (.char c :: x.1, x.2) := by
  by_cases hv : Verbatim c
  · rw [escapeChar_of_verbatim hv]
    exact runes_verbatim hv fuel rest
  · have h := isEscape_escapeChar hv
    unfold isEscape at h
    split at h
    · rename_i x hx
      obtain ⟨hu, hescaped⟩ := of_decide_eq_true h
      rw [hx]
      show runes (fuel + 1) ('\\' :: x :: rest) = _
      rw [runes.eq_3 _ _ _ (by simpa using hu), hescaped]
      cases runes fuel rest <;> rfl
    · rename_i a b d e hx
      rw [hx]
      show runes (fuel + 1) ('\\' :: 'u' :: a :: b :: d :: e :: rest) = _
      rw [runes.eq_2, codeUnit_append (of_decide_eq_true h)]
      cases hrest : runes fuel rest <;> simp [hrest]
    · cases h

/-! ## Reading back -/

/-- The text between the quotes is read as its characters. -/
theorem runes_escape (cs : List Char) {fuel : Nat} (h : cs.length ≤ fuel) (rest : List Char) :
    runes fuel (escape cs ++ '"' :: rest) = some (cs.map .char, rest) := by
  induction cs generalizing fuel with
  | nil => cases fuel <;> rfl
  | cons c cs ih =>
    obtain ⟨fuel, rfl⟩ := Nat.exists_eq_add_of_lt (Nat.lt_of_lt_of_le (Nat.zero_lt_succ _) h)
    rw [Nat.zero_add] at h ⊢
    show runes (fuel + 1) (escapeChar c ++ escape cs ++ '"' :: rest) = _
    rw [List.append_assoc, runes_escapeChar, ih (Nat.le_of_succ_le_succ h)]
    rfl

theorem join_map_char (cs : List Char) : Rune.join (cs.map .char) = cs.map .char := by
  induction cs with
  | nil => rfl
  | cons c cs ih => simp [Rune.join, ih]

theorem length_le_escape (cs : List Char) : cs.length ≤ (escape cs).length := by
  have hne : ∀ c, 1 ≤ (escapeChar c).length := by
    intro c
    by_cases hv : Verbatim c
    · rw [escapeChar_of_verbatim hv, List.length_singleton]
    · obtain ⟨rest, hrest⟩ := escapeChar_of_not_verbatim hv
      rw [hrest, List.length_cons]
      omega
  induction cs with
  | nil => exact Nat.zero_le _
  | cons c cs ih =>
    show (cs.length + 1) ≤ (escapeChar c ++ escape cs).length
    rw [List.length_append]
    have := hne c
    omega

theorem quoted_escape (cs : List Char) {fuel : Nat} (h : cs.length ≤ fuel) (rest : List Char) :
    quoted fuel (escape cs ++ '"' :: rest) = some (cs.map .char, rest) := by
  rw [quoted, runes_escape cs h, Option.map_some, join_map_char]

/-- What follows a value inside an object or behind it. -/
def Delimited (rest : List Char) : Prop :=
  rest = [] ∨ ∃ cs, rest = ',' :: cs ∨ rest = '\x7d' :: cs

/-- A text that starts with no blank. -/
def Solid (text : List Char) : Prop :=
  ∃ c cs, text = c :: cs ∧ c ≠ ' ' ∧ c ≠ '\t' ∧ c ≠ '\n' ∧ c ≠ '\r'

theorem skip_append {text : List Char} (h : Solid text) (rest : List Char) :
    skip (text ++ rest) = text ++ rest := by
  obtain ⟨c, cs, rfl, hspace, htab, hline, hreturn⟩ := h
  simp [skip, hspace, htab, hline, hreturn]

/-- A text that is read as a value wherever one may stand. -/
structure Reads (text : List Char) (v : JsonText) : Prop where
  value : ∀ fuel, text.length ≤ fuel → ∀ rest, Delimited rest →
    value fuel (text ++ rest) = some (v, rest)
  solid : Solid text

theorem value_of_scalar {fuel : Nat} {c : Char} {cs : List Char} (hsolid : Solid (c :: cs))
    (hc : c ≠ '[' ∧ c ≠ '\x7b') :
    value (fuel + 1) (c :: cs) = scalar (c :: cs).length (c :: cs) := by
  have hskip : skip (c :: cs) = c :: cs := by simpa using skip_append hsolid []
  rw [value, hskip]
  split
  · rename_i heq
    exact absurd (List.cons.inj heq).1 hc.1
  · rename_i heq
    exact absurd (List.cons.inj heq).1 hc.2
  · rfl

/-- A text is read as a value if the reader of scalars does. -/
theorem reads_of_scalar {c : Char} {cs : List Char} {v : JsonText} (hsolid : Solid (c :: cs))
    (hc : c ≠ '[' ∧ c ≠ '\x7b')
    (h : ∀ fuel, cs.length ≤ fuel → ∀ rest, Delimited rest →
      scalar fuel (c :: (cs ++ rest)) = some (v, rest)) : Reads (c :: cs) v := by
  refine ⟨?_, hsolid⟩
  intro fuel hfuel rest hrest
  obtain ⟨fuel, rfl⟩ := Nat.exists_eq_add_of_lt (Nat.lt_of_lt_of_le (Nat.zero_lt_succ _) hfuel)
  obtain ⟨d, ds, heq, hblank⟩ := hsolid
  rw [Nat.zero_add, List.cons_append, value_of_scalar ⟨c, _, rfl, by grind⟩ hc]
  refine h _ ?_ rest hrest
  simp only [List.length_cons, List.length_append]
  omega

theorem reads_null : Reads "null".toList .null :=
  reads_of_scalar ⟨_, _, rfl, by decide⟩ (by decide) fun _ _ _ _ => rfl

theorem reads_quote (cs : List Char) : Reads (quote cs) (.string (cs.map .char)) := by
  refine reads_of_scalar ⟨_, _, rfl, by decide⟩ (by decide) ?_
  intro fuel hfuel rest _
  have hlen : cs.length ≤ fuel := by
    have := length_le_escape cs
    simp only [List.length_append] at hfuel
    omega
  show (quoted fuel (escape cs ++ ['"'] ++ rest)).map _ = _
  rw [List.append_assoc, List.singleton_append, quoted_escape cs hlen, Option.map_some]

/-! ## Numbers -/

/-- The first digit of a number is no zero. -/
theorem head_toDigits_ne_zero {n : Nat} (h : 0 < n) : (Nat.toDigits 10 n).head? ≠ some '0' := by
  induction n using Nat.strong_induction_on with
  | _ n ih =>
    by_cases hn : n < 10
    · rw [Nat.toDigits_of_lt_base hn]
      simpa using h.ne'
    · have hdiv : 0 < n / 10 := by omega
      rw [Nat.toDigits_of_base_le (by decide) (by omega), List.head?_append]
      have := ih (n / 10) (by omega) hdiv
      cases hhead : (Nat.toDigits 10 (n / 10)).head? with
      | none => exact absurd (List.head?_eq_none_iff.mp hhead) Nat.toDigits_ne_nil
      | some c => rwa [hhead] at this

theorem takeWhile_toDigits (n : Nat) {rest : List Char} (h : Delimited rest) :
    (Nat.toDigits 10 n ++ rest).takeWhile Char.isDigit = Nat.toDigits 10 n ∧
      (Nat.toDigits 10 n ++ rest).dropWhile Char.isDigit = rest := by
  have hall : ∀ c ∈ Nat.toDigits 10 n, c.isDigit = true :=
    fun c hc => Nat.isDigit_of_mem_toDigits (by decide) (by decide) hc
  have htake : rest.takeWhile Char.isDigit = [] ∧ rest.dropWhile Char.isDigit = rest := by
    rcases h with rfl | ⟨cs, rfl | rfl⟩ <;> exact ⟨rfl, rfl⟩
  rw [List.takeWhile_append_of_pos hall, List.dropWhile_append_of_pos hall, htake.1, htake.2,
    List.append_nil]
  exact ⟨rfl, rfl⟩

theorem whole_toDigits (n : Nat) {rest : List Char} (h : Delimited rest) :
    whole (Nat.toDigits 10 n ++ rest) = some (Nat.toDigits 10 n, rest) := by
  rcases Nat.eq_zero_or_pos n with rfl | hpos
  · rfl
  · have hdigits : digits (Nat.toDigits 10 n ++ rest) = some (Nat.toDigits 10 n, rest) := by
      obtain ⟨htake, hdrop⟩ := takeWhile_toDigits n h
      rw [digits, htake, hdrop]
      cases hds : Nat.toDigits 10 n with
      | nil => exact absurd hds Nat.toDigits_ne_nil
      | cons d ds => rfl
    rw [whole.eq_2 _ ?_, hdigits]
    intro cs hcs
    apply head_toDigits_ne_zero hpos
    cases hds : Nat.toDigits 10 n with
    | nil => exact absurd hds Nat.toDigits_ne_nil
    | cons d ds =>
      rw [hds] at hcs
      rw [List.head?_cons, (List.cons.inj hcs).1]

theorem number_toDigits (n : Nat) {rest : List Char} (h : Delimited rest) :
    number false (Nat.toDigits 10 n ++ rest) = some (.integer false n, rest) := by
  have hfraction : fraction rest = some ([], rest) := by
    rcases h with rfl | ⟨cs, rfl | rfl⟩ <;> rfl
  have hexponent : exponent rest = some (none, rest) := by
    rcases h with rfl | ⟨cs, rfl | rfl⟩ <;> rfl
  rw [number, whole_toDigits n h]
  simp only [Option.bind_eq_bind, Option.bind_some, hfraction, hexponent, and_self, if_true]
  rw [natOf, Nat.ofDigitChars_toDigits (by decide) (by decide)]

theorem scalar_of_isDigit {fuel : Nat} {c : Char} {cs : List Char} (h : c.isDigit = true) :
    scalar fuel (c :: cs) = number false (c :: cs) := by
  have hne : ∀ d : Char, d.isDigit = false → c ≠ d := by
    rintro d hd rfl
    rw [h] at hd
    cases hd
  rw [scalar.eq_def]
  split <;> first | rfl | exact absurd (List.cons.inj ‹_›).1 (hne _ (by decide))

theorem reads_number (n : Nat) : Reads (Nat.toDigits 10 n) (.integer false n) := by
  cases hds : Nat.toDigits 10 n with
  | nil => exact absurd hds Nat.toDigits_ne_nil
  | cons d ds =>
    have hd : d.isDigit = true :=
      Nat.isDigit_of_mem_toDigits (n := n) (b := 10) (by decide) (by decide)
        (hds ▸ List.mem_cons_self)
    have hne : ∀ c : Char, c.isDigit = false → d ≠ c := by
      rintro c hc rfl
      rw [hd] at hc
      cases hc
    refine reads_of_scalar ⟨d, ds, rfl, hne _ (by decide), hne _ (by decide), hne _ (by decide),
      hne _ (by decide)⟩ ⟨hne _ (by decide), hne _ (by decide)⟩ ?_
    intro fuel _ rest hrest
    rw [scalar_of_isDigit hd, ← List.cons_append, ← hds, number_toDigits n hrest]

/-! ## Objects -/

/-- The members from one on, by what stands behind it. -/
def afterMember {α : Type} (m : α) (more : List Char → Option (List α × List Char))
    (rest : List Char) : Option (List α × List Char) :=
  match skip rest with
  | '\x7d' :: rest => some ([m], rest)
  | ',' :: rest => (more rest).map fun x => (m :: x.1, x.2)
  | _ => none

/-- One member is read off the text of them all, up to the comma or the brace behind it. -/
theorem members_member {name text : List Char} {v : JsonText} (htext : Reads text v) {fuel : Nat}
    (h : text.length ≤ fuel) {rest : List Char} (hrest : Delimited rest) :
    members (fuel + 1) (quote name ++ ':' :: (text ++ rest)) =
      afterMember (name.map .char, v) (members fuel) rest := by
  have hlen : name.length ≤ (escape name ++ '"' :: ':' :: (text ++ rest)).length := by
    have := length_le_escape name
    rw [List.length_append]
    omega
  have hquoted := quoted_escape name hlen (':' :: (text ++ rest))
  show members (fuel + 1) ('"' :: (escape name ++ ['"'] ++ ':' :: (text ++ rest))) = _
  rw [List.append_assoc, List.singleton_append, members.eq_2]
  show (quoted _ _).bind _ = _
  rw [hquoted, Option.bind_some]
  show (value fuel (text ++ rest)).bind _ = _
  rw [htext.value fuel h rest hrest, Option.bind_some]
  rfl

/-- A member as it is written and as it is read. -/
structure Member where
  name : List Char
  text : List Char
  value : JsonText
  reads : Reads text value

def Member.written (m : Member) : List Char × List Char := (m.name, m.text)

def Member.read (m : Member) : List Rune × JsonText := (m.name.map .char, m.value)

theorem members_memberTexts {ms : List Member} (hne : ms ≠ []) {fuel : Nat}
    (h : (memberTexts (ms.map Member.written)).length < fuel) (rest : List Char) :
    members fuel (memberTexts (ms.map Member.written) ++ '\x7d' :: rest) =
      some (ms.map Member.read, rest) := by
  induction ms generalizing fuel with
  | nil => exact absurd rfl hne
  | cons m ms ih =>
    obtain ⟨fuel, rfl⟩ : ∃ n, fuel = n + 1 := ⟨fuel - 1, by omega⟩
    cases ms with
    | nil =>
      simp only [List.map_cons, List.map_nil, memberTexts, Member.written, List.length_append,
        List.length_cons] at h ⊢
      rw [List.append_assoc, List.cons_append,
        members_member m.reads (by omega) (Or.inr ⟨rest, Or.inr rfl⟩)]
      rfl
    | cons m' ms =>
      simp only [List.map_cons, memberTexts, Member.written, List.length_append,
        List.length_cons] at h ih ⊢
      rw [List.append_assoc, List.cons_append, List.append_assoc, List.cons_append,
        members_member m.reads (by omega) (Or.inr ⟨_, Or.inl rfl⟩)]
      show (members fuel _).map _ = _
      rw [ih (by simp) (by omega)]
      rfl

/-- An object of at least one member is read member by member. -/
theorem reads_object {ms : List Member} (hne : ms ≠ []) :
    Reads (objectText (ms.map Member.written)) (.object (ms.map Member.read)) := by
  refine ⟨?_, ⟨_, _, rfl, by decide⟩⟩
  intro fuel hfuel rest _
  obtain ⟨m, ms', rfl⟩ := List.exists_cons_of_ne_nil hne
  simp only [objectText, List.length_cons, List.length_append] at hfuel
  obtain ⟨fuel, rfl⟩ : ∃ n, fuel = n + 1 := ⟨fuel - 1, by omega⟩
  have hbody : ∃ cs, memberTexts ((m :: ms').map Member.written) ++ '\x7d' :: rest = '"' :: cs := by
    cases ms' <;> exact ⟨_, rfl⟩
  obtain ⟨cs, hcs⟩ := hbody
  have hread := members_memberTexts hne (Nat.lt_of_succ_lt_succ (Nat.lt_of_succ_le hfuel)) rest
  rw [hcs] at hread
  show value (fuel + 1)
    ('\x7b' :: (memberTexts ((m :: ms').map Member.written) ++ ['\x7d'] ++ rest)) = _
  rw [List.append_assoc, List.singleton_append, hcs]
  show (members fuel ('"' :: cs)).map _ = _
  rw [hread]
  rfl

theorem parse_of_reads {text : List Char} {v : JsonText} (h : Reads text v) :
    parse text = some v := by
  have hvalue := h.value (2 * text.length + 2) (by omega) [] (Or.inl rfl)
  rw [List.append_nil] at hvalue
  rw [parse, hvalue]
  rfl

/-! ## Lexemes -/

/-- The members of an object, each value as the text it has there. -/
def lexemes : Nat → List Char → Option (List (List Rune × List Char) × List Char)
  | 0, _ => none
  | fuel + 1, cs =>
    match skip cs with
    | '"' :: rest => do
      let (name, rest) ← quoted rest.length rest
      match skip rest with
      | ':' :: rest => do
        let cs := skip rest
        let (_, rest) ← value fuel cs
        let lexeme := cs.take (cs.length - rest.length)
        match skip rest with
        | '\x7d' :: rest => some ([(name, lexeme)], rest)
        | ',' :: rest => (lexemes fuel rest).map fun x => ((name, lexeme) :: x.1, x.2)
        | _ => none
      | _ => none
    | _ => none

theorem lexemes_member {name text : List Char} {v : JsonText} (htext : Reads text v) {fuel : Nat}
    (h : text.length ≤ fuel) {rest : List Char} (hrest : Delimited rest) :
    lexemes (fuel + 1) (quote name ++ ':' :: (text ++ rest)) =
      afterMember (name.map .char, text) (lexemes fuel) rest := by
  have hlen : name.length ≤ (escape name ++ '"' :: ':' :: (text ++ rest)).length := by
    have := length_le_escape name
    rw [List.length_append]
    omega
  have hquoted := quoted_escape name hlen (':' :: (text ++ rest))
  have htake : (text ++ rest).take ((text ++ rest).length - rest.length) = text := by
    rw [List.length_append, Nat.add_sub_cancel, List.take_left]
  show lexemes (fuel + 1) ('"' :: (escape name ++ ['"'] ++ ':' :: (text ++ rest))) = _
  rw [List.append_assoc, List.singleton_append, lexemes.eq_2]
  show (quoted _ _).bind _ = _
  rw [hquoted, Option.bind_some]
  show (value fuel (skip (text ++ rest))).bind _ = _
  rw [skip_append htext.solid, htext.value fuel h rest hrest, Option.bind_some]
  simp only [htake]
  rfl

def Member.lexeme (m : Member) : List Rune × List Char := (m.name.map .char, m.text)

theorem lexemes_memberTexts {ms : List Member} (hne : ms ≠ []) {fuel : Nat}
    (h : (memberTexts (ms.map Member.written)).length < fuel) (rest : List Char) :
    lexemes fuel (memberTexts (ms.map Member.written) ++ '\x7d' :: rest) =
      some (ms.map Member.lexeme, rest) := by
  induction ms generalizing fuel with
  | nil => exact absurd rfl hne
  | cons m ms ih =>
    obtain ⟨fuel, rfl⟩ : ∃ n, fuel = n + 1 := ⟨fuel - 1, by omega⟩
    cases ms with
    | nil =>
      simp only [List.map_cons, List.map_nil, memberTexts, Member.written, List.length_append,
        List.length_cons] at h ⊢
      rw [List.append_assoc, List.cons_append,
        lexemes_member m.reads (by omega) (Or.inr ⟨rest, Or.inr rfl⟩)]
      rfl
    | cons m' ms =>
      simp only [List.map_cons, memberTexts, Member.written, List.length_append,
        List.length_cons] at h ih ⊢
      rw [List.append_assoc, List.cons_append, List.append_assoc, List.cons_append,
        lexemes_member m.reads (by omega) (Or.inr ⟨_, Or.inl rfl⟩)]
      show (lexemes fuel _).map _ = _
      rw [ih (by simp) (by omega)]
      rfl

/-! ## Values that are written -/

/-- A value without members, its text over the characters `σ`. -/
inductive Scalar (σ : Type) where
  | null
  | number (n : Nat)
  | string (cs : List σ)

/-- A value, or an object of such values. -/
inductive Compact (σ : Type) where
  | scalar (s : Scalar σ)
  | object (members : List (String × Scalar σ))

namespace Scalar

def text : Scalar Char → List Char
  | null => "null".toList
  | number n => Nat.toDigits 10 n
  | string cs => quote cs

def value : Scalar Char → JsonText
  | null => .null
  | number n => .integer false n
  | string cs => .string (cs.map .char)

theorem reads (s : Scalar Char) : Reads s.text s.value := by
  cases s with
  | null => exact reads_null
  | number n => exact reads_number n
  | string cs => exact reads_quote cs

/-- The characters, if no half of a surrogate pair is among them. -/
def chars? : Scalar Rune → Option (Scalar Char)
  | null => some null
  | number n => some (number n)
  | string runes => (runes.mapM Rune.char?).map string

/-- The longest decimal text of an integer in it. -/
def width {σ : Type} : Scalar σ → Nat
  | number n => (Nat.toDigits 10 n).length
  | _ => 0

theorem newline_notMem_text (s : Scalar Char) : '\n' ∉ s.text := by
  cases s with
  | null => decide
  | number n =>
    intro h
    exact absurd (Nat.isDigit_of_mem_toDigits (by decide) (by decide) h) (by decide)
  | string cs => exact newline_notMem_quote cs

end Scalar

namespace Compact

def text : Compact Char → List Char
  | scalar s => s.text
  | object members => objectText (members.map fun m => (m.1.toList, m.2.text))

def value : Compact Char → JsonText
  | scalar s => s.value
  | object members => .object (members.map fun m => (m.1.toList.map .char, m.2.value))

@[simp] theorem text_number (n : Nat) : (scalar (.number n)).text = Nat.toDigits 10 n := rfl

@[simp] theorem text_string (cs : List Char) : (scalar (.string cs)).text = quote cs := rfl

def member (m : String × Scalar Char) : Member where
  name := m.1.toList
  text := m.2.text
  value := m.2.value
  reads := m.2.reads

theorem reads {v : Compact Char} (h : v ≠ object []) : Reads v.text v.value := by
  cases v with
  | scalar s => exact s.reads
  | object members =>
    have hne : members.map member ≠ [] := by
      intro hnil
      rw [List.map_eq_nil_iff] at hnil
      exact h (by rw [hnil])
    have hobject := reads_object hne
    rw [List.map_map, List.map_map] at hobject
    exact hobject

def chars? : Compact Rune → Option (Compact Char)
  | scalar s => s.chars?.map scalar
  | object members =>
    (members.mapM fun m : String × Scalar Rune => m.2.chars?.map fun s => (m.1, s)).map object

@[simp] theorem chars?_number (n : Nat) :
    (scalar (.number n)).chars? = some (scalar (.number n)) := rfl

@[simp] theorem chars?_string (runes : List Rune) :
    (scalar (.string runes)).chars? = (runes.mapM Rune.char?).map fun cs => scalar (.string cs) := by
  show ((runes.mapM Rune.char?).map Scalar.string).map scalar = _
  rw [Option.map_map]
  rfl

def width {σ : Type} : Compact σ → Nat
  | scalar s => s.width
  | object members => (members.map fun m => m.2.width).foldl max 0

end Compact

theorem newline_notMem_objectText {ms : List (List Char × List Char)}
    (h : ∀ m ∈ ms, '\n' ∉ m.2) : '\n' ∉ objectText ms := by
  have hmembers : '\n' ∉ memberTexts ms := by
    induction ms with
    | nil => exact List.not_mem_nil
    | cons m ms ih =>
      have hm := h m List.mem_cons_self
      have hrest := ih fun x hx => h x (List.mem_cons_of_mem _ hx)
      cases ms <;>
        simp only [memberTexts, List.mem_append, List.mem_cons, not_or] <;>
        exact ⟨newline_notMem_quote _, by decide, by simp_all⟩
  simp only [objectText, List.mem_cons, List.mem_append, List.not_mem_nil, or_false, not_or]
  exact ⟨by decide, hmembers, by decide⟩

theorem Compact.newline_notMem_text (v : Compact Char) : '\n' ∉ v.text := by
  cases v with
  | scalar s => exact s.newline_notMem_text
  | object members =>
    apply newline_notMem_objectText
    intro m hm
    obtain ⟨x, _, rfl⟩ := List.mem_map.mp hm
    exact x.2.newline_notMem_text

end JsonText
