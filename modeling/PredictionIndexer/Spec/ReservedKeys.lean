import PredictionIndexer.ForStd.JsonWriter
import PredictionIndexer.Spec.ReservedScan

/-!
# Reserved keys

On a JSON text the scan visits the strings of the grammar: a name has a colon behind it, another
string has not, and nothing else has a quote. So it finds a reserved key just if an object at some
depth has one, however the text spells it.

Key results:
- `spells_of_runes` — the scanner ends a string where the grammar does
- `scan_value` — the scan of a value, and then of what is behind it
- `contains_reserved_exact` — the scan finds a key just if an object has it
-/

namespace PredictionIndexer.Engine

open Fallible Utf8 JsonText

/-! ## Strings -/

/-- A text that says these characters, wherever it stands between two quotes. -/
structure Spells (inner : List Char) (rs : List Rune) : Prop where
  split : ∀ tail, splitString (inner ++ '"' :: tail) = some (inner, tail)
  read : ∀ fuel, inner.length ≤ fuel → ∀ tail, runes fuel (inner ++ '"' :: tail) = some (rs, tail)

section Strings

variable {inner cs rest tail : List Char} {rs : List Rune} {r : Rune} {c : Char} {fuel : Nat}

theorem splitString_plain (hquote : c ≠ '"') (hslash : c ≠ '\\') (rest : List Char) :
    splitString (c :: rest) = (splitString rest).map fun x => (c :: x.1, x.2) :=
  splitString.eq_4 c rest hquote fun _ _ h => absurd h hslash

theorem spells_nil : Spells [] [] := by
  refine ⟨fun tail => rfl, fun fuel _ tail => ?_⟩
  exact runes.eq_1 fuel tail

theorem Spells.plain (h : Spells inner rs) (hc : Verbatim c) :
    Spells (c :: inner) (.char c :: rs) := by
  refine ⟨fun tail => ?_, fun fuel hfuel tail => ?_⟩
  · rw [List.cons_append, splitString_plain hc.1 hc.2.1, h.split]
    rfl
  · obtain ⟨fuel, rfl⟩ := Nat.exists_eq_add_of_lt (Nat.lt_of_lt_of_le (Nat.zero_lt_succ _) hfuel)
    rw [Nat.zero_add] at hfuel ⊢
    rw [List.cons_append, runes_verbatim hc, h.read fuel (Nat.le_of_succ_le_succ hfuel)]
    rfl

theorem Spells.escape {d : Char} (h : Spells inner rs) (hc : c ≠ 'u') (hd : escaped c = some d) :
    Spells ('\\' :: c :: inner) (.char d :: rs) := by
  refine ⟨fun tail => ?_, fun fuel hfuel tail => ?_⟩
  · rw [List.cons_append, List.cons_append, splitString, h.split]
    rfl
  · obtain ⟨fuel, rfl⟩ := Nat.exists_eq_add_of_lt (Nat.lt_of_lt_of_le (Nat.zero_lt_succ _) hfuel)
    rw [Nat.zero_add] at hfuel ⊢
    simp only [List.length_cons] at hfuel
    rw [List.cons_append, List.cons_append, runes.eq_3 _ _ _ hc, hd, h.read fuel (by omega)]
    rfl

theorem hexValue_plain {n : Nat} (h : hexValue c = some n) : c ≠ '"' ∧ c ≠ '\\' := by
  constructor
  · rintro rfl
    simp [hexValue] at h
  · rintro rfl
    simp [hexValue] at h

theorem eq_of_codeUnit (h : codeUnit cs = some (r, rest)) :
    ∃ a b c d, cs = a :: b :: c :: d :: rest ∧ codeUnit [a, b, c, d] = some (r, []) := by
  unfold codeUnit at h
  split at h
  next a b c d rest' =>
    simp only [Option.bind_eq_bind, Option.bind_eq_some_iff, Option.some.injEq, Prod.mk.injEq] at h
    obtain ⟨na, ha, nb, hb, nc, hc, nd, hd, hr, rfl⟩ := h
    refine ⟨a, b, c, d, rfl, ?_⟩
    simp only [codeUnit, ha, hb, hc, hd, Option.bind_eq_bind, Option.bind_some, hr]
  next => cases h

theorem splitString_codeUnit {a b c d : Char} (h : codeUnit [a, b, c, d] = some (r, []))
    (rest : List Char) : splitString (a :: b :: c :: d :: rest) =
      (splitString rest).map fun x => (a :: b :: c :: d :: x.1, x.2) := by
  simp only [codeUnit, Option.bind_eq_bind, Option.bind_eq_some_iff] at h
  obtain ⟨na, ha, nb, hb, nc, hc, nd, hd, _⟩ := h
  rw [splitString_plain (hexValue_plain ha).1 (hexValue_plain ha).2,
    splitString_plain (hexValue_plain hb).1 (hexValue_plain hb).2,
    splitString_plain (hexValue_plain hc).1 (hexValue_plain hc).2,
    splitString_plain (hexValue_plain hd).1 (hexValue_plain hd).2]
  cases splitString rest <;> rfl

theorem Spells.unicode {a b c d : Char} (h : Spells inner rs)
    (hunit : codeUnit [a, b, c, d] = some (r, [])) :
    Spells ('\\' :: 'u' :: a :: b :: c :: d :: inner) (r :: rs) := by
  refine ⟨fun tail => ?_, fun fuel hfuel tail => ?_⟩
  · simp only [List.cons_append]
    rw [splitString, splitString_codeUnit hunit, h.split]
    rfl
  · obtain ⟨fuel, rfl⟩ := Nat.exists_eq_add_of_lt (Nat.lt_of_lt_of_le (Nat.zero_lt_succ _) hfuel)
    rw [Nat.zero_add] at hfuel ⊢
    simp only [List.length_cons] at hfuel
    simp only [List.cons_append]
    rw [runes.eq_2, codeUnit_append hunit]
    simp [h.read fuel (by omega)]

/-- The scanner ends a string where the grammar does. -/
theorem spells_of_runes (h : runes fuel cs = some (rs, rest)) :
    ∃ inner, cs = inner ++ '"' :: rest ∧ Spells inner rs := by
  induction fuel generalizing cs rs with
  | zero =>
    rw [runes.eq_def] at h
    split at h
    next rest' =>
      cases h
      exact ⟨[], rfl, spells_nil⟩
    all_goals simp_all
  | succ fuel ih =>
    rw [runes.eq_def] at h
    split at h
    next rest' =>
      cases h
      exact ⟨[], rfl, spells_nil⟩
    next fuel' behind hfuel =>
      obtain rfl := Nat.succ.inj hfuel
      simp only [Option.bind_eq_bind, Option.bind_eq_some_iff, Option.some.injEq, Prod.mk.injEq] at h
      obtain ⟨⟨r, next⟩, hunit, ⟨rs', rest'⟩, hrunes, rfl, rfl⟩ := h
      obtain ⟨a, b, c, d, rfl, hdigits⟩ := eq_of_codeUnit hunit
      obtain ⟨inner, rfl, hinner⟩ := ih hrunes
      exact ⟨_, rfl, hinner.unicode hdigits⟩
    next fuel' c behind hc hfuel =>
      obtain rfl := Nat.succ.inj hfuel
      simp only [Option.bind_eq_bind, Option.bind_eq_some_iff, Option.some.injEq, Prod.mk.injEq] at h
      obtain ⟨d, hd, ⟨rs', rest'⟩, hrunes, rfl, rfl⟩ := h
      obtain ⟨inner, rfl, hinner⟩ := ih hrunes
      exact ⟨_, rfl, hinner.escape (by simpa using hc) hd⟩
    next fuel' c behind hquote hescape hescape' hfuel =>
      obtain rfl := Nat.succ.inj hfuel
      split at h
      next => cases h
      next hplain =>
        simp only [Option.bind_eq_bind, Option.bind_eq_some_iff, Option.some.injEq,
          Prod.mk.injEq] at h
        obtain ⟨⟨rs', rest'⟩, hrunes, rfl, rfl⟩ := h
        obtain ⟨inner, rfl, hinner⟩ := ih hrunes
        have hverbatim : Verbatim c := by
          rw [not_or] at hplain
          exact ⟨by simpa using hquote, hplain.1, Nat.not_lt.mp hplain.2⟩
        exact ⟨_, rfl, hinner.plain hverbatim⟩
    next => cases h

/-- The name is a marker. -/
def reservedName (name : List Rune) : Bool := (Rune.text? name).any isReservedKey

/-- The token of a string is reserved as what the string says is. -/
theorem Spells.isReservedToken (h : Spells inner rs) :
    isReservedToken ('"' :: (inner ++ ['"'])) = reservedName (Rune.join rs) := by
  have hsolid : Solid ('"' :: (inner ++ ['"'])) := ⟨_, _, rfl, by decide⟩
  have hvalue : JsonText.parse ('"' :: (inner ++ ['"'])) = some (.string (Rune.join rs)) := by
    have hread := h.read ('"' :: (inner ++ ['"'])).length (by simp; omega) []
    rw [JsonText.parse, value_of_scalar hsolid (by decide), scalar, quoted, hread]
    rfl
  rw [Engine.isReservedToken, hvalue]
  rfl

theorem scanChars_append (h : '"' ∉ inner) (rest : List Char) :
    scanChars (inner ++ rest) = scanChars rest := by
  induction inner with
  | nil => rfl
  | cons c inner ih =>
    simp only [List.mem_cons, not_or] at h
    rw [List.cons_append, scanChars_cons (Ne.symm h.1), ih h.2]

/-- A string is a key if a colon is behind it. -/
theorem scanChars_quoted {name : List Rune} (h : quoted fuel cs = some (name, rest)) :
    scanChars ('"' :: cs) = ((colonNext rest && reservedName name) || scanChars rest) := by
  simp only [quoted, Option.map_eq_some_iff, Prod.mk.injEq] at h
  obtain ⟨⟨rs, rest'⟩, hrunes, rfl, rfl⟩ := h
  obtain ⟨inner, rfl, hinner⟩ := spells_of_runes hrunes
  rw [scanChars_quote (hinner.split _), hinner.isReservedToken]

/-! ## What is behind a value -/

theorem scanChars_skip (cs : List Char) : scanChars (skip cs) = scanChars cs := by
  induction cs with
  | nil => rfl
  | cons c cs ih =>
    by_cases hc : c = ' ' ∨ c = '\t' ∨ c = '\n' ∨ c = '\r'
    · have hskip : skip (c :: cs) = skip cs := List.dropWhile_cons_of_pos (by simp; tauto)
      rw [hskip, ih, scanChars_cons]
      rintro rfl
      simp at hc
    · have hskip : skip (c :: cs) = c :: cs := List.dropWhile_cons_of_neg (by simp; tauto)
      rw [hskip]

theorem colonNext_skip (cs : List Char) : colonNext (skip cs) = colonNext cs := by
  induction cs with
  | nil => rfl
  | cons c cs ih =>
    by_cases hc : c = ' ' ∨ c = '\t' ∨ c = '\n' ∨ c = '\r'
    · have hskip : skip (c :: cs) = skip cs := List.dropWhile_cons_of_pos (by simp; tauto)
      have hspace : isSpace c = true := by
        simp only [isSpace, Bool.or_eq_true, decide_eq_true_eq]
        tauto
      rw [hskip, ih, colonNext, colonNext, List.dropWhile_cons_of_pos hspace]
    · have hskip : skip (c :: cs) = c :: cs := List.dropWhile_cons_of_neg (by simp; tauto)
      rw [hskip]

theorem colonNext_cons (hc : isSpace c = false) : colonNext (c :: cs) = decide (c = ':') := by
  rw [colonNext, List.dropWhile_cons_of_neg (by simp [hc])]
  simp

theorem colonNext_of_skip (h : skip cs = c :: rest) (hc : isSpace c = false) :
    colonNext cs = decide (c = ':') := by
  rw [← colonNext_skip, h, colonNext_cons hc]

theorem scanChars_of_skip (h : skip cs = c :: rest) (hc : c ≠ '"') :
    scanChars cs = scanChars rest := by
  rw [← scanChars_skip, h, scanChars_cons hc]

/-! ## Scalars -/

/-- What is read has no quote. -/
def Quoteless (cs rest : List Char) : Prop := ∃ inner, cs = inner ++ rest ∧ '"' ∉ inner

theorem Quoteless.scan (h : Quoteless cs rest) : scanChars cs = scanChars rest := by
  obtain ⟨inner, rfl, hinner⟩ := h
  exact scanChars_append hinner rest

theorem Quoteless.refl (cs : List Char) : Quoteless cs cs := ⟨[], rfl, List.not_mem_nil⟩

theorem Quoteless.cons (h : Quoteless cs rest) (hc : c ≠ '"') : Quoteless (c :: cs) rest := by
  obtain ⟨inner, rfl, hinner⟩ := h
  refine ⟨c :: inner, rfl, ?_⟩
  rw [List.mem_cons, not_or]
  exact ⟨Ne.symm hc, hinner⟩

theorem Quoteless.trans (h : Quoteless cs rest) (h' : Quoteless rest tail) : Quoteless cs tail := by
  obtain ⟨inner, rfl, hinner⟩ := h
  obtain ⟨inner', rfl, hinner'⟩ := h'
  refine ⟨inner ++ inner', (List.append_assoc _ _ _).symm, ?_⟩
  rw [List.mem_append, not_or]
  exact ⟨hinner, hinner'⟩

theorem quoteless_digits {ds : List Char} (h : digits cs = some (ds, rest)) :
    Quoteless cs rest := by
  unfold digits at h
  split at h
  next => cases h
  next ds' hds =>
    simp only [Option.some.injEq, Prod.mk.injEq] at h
    obtain ⟨-, rfl⟩ := h
    refine ⟨cs.takeWhile Char.isDigit, List.takeWhile_append_dropWhile.symm, fun hmem => ?_⟩
    exact absurd (List.mem_takeWhile_imp hmem) (by decide)

theorem quoteless_whole {ds : List Char} (h : whole cs = some (ds, rest)) : Quoteless cs rest := by
  unfold whole at h
  split at h
  next =>
    cases h
    exact (Quoteless.refl _).cons (by decide)
  next => exact quoteless_digits h

theorem quoteless_fraction {ds : List Char} (h : fraction cs = some (ds, rest)) :
    Quoteless cs rest := by
  unfold fraction at h
  split at h
  next => exact (quoteless_digits h).cons (by decide)
  next =>
    cases h
    exact Quoteless.refl _

theorem quoteless_signedExponent {e : Int} (h : signedExponent cs = some (e, rest)) :
    Quoteless cs rest := by
  unfold signedExponent at h
  split at h <;>
    simp only [Option.map_eq_some_iff, Prod.mk.injEq] at h <;>
    obtain ⟨⟨ds, rest'⟩, hdigits, -, rfl⟩ := h
  · exact (quoteless_digits hdigits).cons (by decide)
  · exact (quoteless_digits hdigits).cons (by decide)
  · exact quoteless_digits hdigits

theorem quoteless_exponent {e : Option Int} (h : exponent cs = some (e, rest)) :
    Quoteless cs rest := by
  unfold exponent at h
  split at h
  next c cs =>
    split at h
    next hc =>
      simp only [Option.map_eq_some_iff, Prod.mk.injEq] at h
      obtain ⟨⟨e', rest'⟩, hexp, -, rfl⟩ := h
      refine (quoteless_signedExponent hexp).cons ?_
      rcases hc with rfl | rfl <;> decide
    next =>
      cases h
      exact Quoteless.refl _
  next =>
    cases h
    exact Quoteless.refl _

theorem quoteless_number {negative : Bool} {v : JsonText}
    (h : JsonText.number negative cs = some (v, rest)) :
    Quoteless cs rest := by
  simp only [JsonText.number, Option.bind_eq_bind, Option.bind_eq_some_iff] at h
  obtain ⟨⟨ds, rest₁⟩, hwhole, ⟨fs, rest₂⟩, hfraction, ⟨e, rest₃⟩, hexponent, h⟩ := h
  have hrest : rest₃ = rest := by
    split at h <;> cases h <;> rfl
  subst hrest
  exact (quoteless_whole hwhole).trans
    ((quoteless_fraction hfraction).trans (quoteless_exponent hexponent))

end Strings

/-! ## Keys at every depth -/

/-- An object of the value, at some depth, has a member whose name is a marker. -/
inductive HasReservedKey : JsonText → Prop where
  | here {members : List (List Rune × JsonText)} {name : List Rune} {v : JsonText} :
      (name, v) ∈ members → reservedName name = true → HasReservedKey (.object members)
  | member {members : List (List Rune × JsonText)} {name : List Rune} {v : JsonText} :
      (name, v) ∈ members → HasReservedKey v → HasReservedKey (.object members)
  | item {items : List JsonText} {v : JsonText} :
      v ∈ items → HasReservedKey v → HasReservedKey (.array items)

theorem hasReservedKey_array (items : List JsonText) :
    HasReservedKey (.array items) ↔ ∃ v ∈ items, HasReservedKey v := by
  constructor
  · rintro (_ | _ | ⟨hmem, h⟩)
    exact ⟨_, hmem, h⟩
  · rintro ⟨v, hmem, h⟩
    exact .item hmem h

theorem hasReservedKey_object (members : List (List Rune × JsonText)) :
    HasReservedKey (.object members) ↔
      ∃ m ∈ members, reservedName m.1 = true ∨ HasReservedKey m.2 := by
  constructor
  · rintro (⟨hmem, h⟩ | ⟨hmem, h⟩ | _)
    · exact ⟨_, hmem, .inl h⟩
    · exact ⟨_, hmem, .inr h⟩
  · rintro ⟨⟨name, v⟩, hmem, h | h⟩
    · exact .here hmem h
    · exact .member hmem h

/-! ## The scan of a text -/

section Values

variable {cs rest : List Char} {v : JsonText}

theorem not_hasReservedKey_number {negative : Bool}
    (h : JsonText.number negative cs = some (v, rest)) :
    ¬HasReservedKey v := by
  simp only [JsonText.number, Option.bind_eq_bind, Option.bind_eq_some_iff] at h
  obtain ⟨⟨ds, rest₁⟩, -, ⟨fs, rest₂⟩, -, ⟨e, rest₃⟩, -, h⟩ := h
  intro hkey
  split at h <;> cases h <;> cases hkey

/-- A scalar has no key; a string that is one has no colon behind it. -/
theorem scan_scalar {fuel : Nat} (h : scalar fuel cs = some (v, rest))
    (hrest : colonNext rest = false) : scanChars cs = scanChars rest ∧ ¬HasReservedKey v := by
  unfold scalar at h
  split at h
  case h_7 rest' =>
    simp only [Option.map_eq_some_iff, Prod.mk.injEq] at h
    obtain ⟨⟨name, rest''⟩, hquoted, rfl, rfl⟩ := h
    refine ⟨?_, fun hkey => ?_⟩
    · rw [scanChars_quoted hquoted, hrest]
      rfl
    · cases hkey
  case h_8 rest' _ =>
    exact ⟨((quoteless_number h).cons (by decide)).scan, not_hasReservedKey_number h⟩
  case h_9 =>
    exact ⟨(quoteless_number h).scan, not_hasReservedKey_number h⟩
  all_goals
    cases h
    refine ⟨by simp [scanChars_cons], fun hkey => ?_⟩
    cases hkey

/-- The scan of a value, and then of what is behind it. -/
theorem scan_value (fuel : Nat) :
    (∀ {cs rest v}, JsonText.value fuel cs = some (v, rest) → colonNext rest = false →
      (scanChars cs = true ↔ HasReservedKey v ∨ scanChars rest = true)) ∧
    (∀ {cs rest vs}, items fuel cs = some (vs, rest) →
      (scanChars cs = true ↔ (∃ v ∈ vs, HasReservedKey v) ∨ scanChars rest = true)) ∧
    ∀ {cs rest ms}, members fuel cs = some (ms, rest) →
      (scanChars cs = true ↔
        (∃ m ∈ ms, reservedName m.1 = true ∨ HasReservedKey m.2) ∨ scanChars rest = true) := by
  induction fuel with
  | zero =>
    refine ⟨?_, ?_, ?_⟩ <;> intro cs rest v h
    · rw [JsonText.value] at h
      cases h
    · rw [items] at h
      cases h
    · rw [members] at h
      cases h
  | succ fuel ih =>
    obtain ⟨ihvalue, ihitems, ihmembers⟩ := ih
    refine ⟨fun {cs rest v} h hrest => ?_, fun {cs rest vs} h => ?_, fun {cs rest ms} h => ?_⟩
    · rw [JsonText.value] at h
      split at h
      next rest₁ hskip =>
        rw [scanChars_of_skip hskip (by decide)]
        split at h
        next rest₂ hskip' =>
          cases h
          rw [scanChars_of_skip hskip' (by decide), hasReservedKey_array]
          simp
        next =>
          simp only [Option.map_eq_some_iff, Prod.mk.injEq] at h
          obtain ⟨⟨vs, rest₂⟩, hitems, rfl, rfl⟩ := h
          rw [← scanChars_skip, ihitems hitems, hasReservedKey_array]
      next rest₁ hskip =>
        rw [scanChars_of_skip hskip (by decide)]
        split at h
        next rest₂ hskip' =>
          cases h
          rw [scanChars_of_skip hskip' (by decide), hasReservedKey_object]
          simp
        next =>
          simp only [Option.map_eq_some_iff, Prod.mk.injEq] at h
          obtain ⟨⟨ms, rest₂⟩, hmembers, rfl, rfl⟩ := h
          rw [← scanChars_skip, ihmembers hmembers, hasReservedKey_object]
      next =>
        obtain ⟨hscan, hv⟩ := scan_scalar h hrest
        rw [← scanChars_skip, hscan]
        simp [hv]
    · rw [items] at h
      simp only [Option.bind_eq_bind, Option.bind_eq_some_iff] at h
      obtain ⟨⟨v, rest₁⟩, hvalue, h⟩ := h
      simp only at h
      split at h
      next rest₂ hskip =>
        cases h
        rw [ihvalue hvalue (colonNext_of_skip hskip (by decide)),
          scanChars_of_skip hskip (by decide)]
        simp
      next rest₂ hskip =>
        simp only [Option.map_eq_some_iff, Prod.mk.injEq] at h
        obtain ⟨⟨vs', rest₃⟩, hitems, rfl, rfl⟩ := h
        rw [ihvalue hvalue (colonNext_of_skip hskip (by decide)),
          scanChars_of_skip hskip (by decide), ihitems hitems]
        simp [or_assoc]
      next => cases h
    · rw [members] at h
      split at h
      next rest₁ hskip =>
        simp only [Option.bind_eq_bind, Option.bind_eq_some_iff] at h
        obtain ⟨⟨name, rest₂⟩, hname, h⟩ := h
        simp only at h
        split at h
        next rest₃ hcolon =>
          simp only [Option.bind_eq_some_iff] at h
          obtain ⟨⟨v, rest₄⟩, hvalue, h⟩ := h
          simp only at h
          have hkey : scanChars cs = (reservedName name || scanChars rest₃) := by
            rw [← scanChars_skip, hskip, scanChars_quoted hname,
              colonNext_of_skip hcolon (by decide), scanChars_of_skip hcolon (by decide)]
            simp
          rw [hkey, Bool.or_eq_true]
          split at h
          next rest₅ hskip' =>
            cases h
            rw [ihvalue hvalue (colonNext_of_skip hskip' (by decide)),
              scanChars_of_skip hskip' (by decide)]
            simp [or_assoc]
          next rest₅ hskip' =>
            simp only [Option.map_eq_some_iff, Prod.mk.injEq] at h
            obtain ⟨⟨ms', rest₆⟩, hmembers, rfl, rfl⟩ := h
            rw [ihvalue hvalue (colonNext_of_skip hskip' (by decide)),
              scanChars_of_skip hskip' (by decide), ihmembers hmembers]
            simp [or_assoc]
          next => cases h
        next => cases h
      next => cases h

theorem scanChars_of_parse {text : JsonText} (h : JsonText.parse cs = some text) :
    scanChars cs = true ↔ HasReservedKey text := by
  unfold JsonText.parse at h
  split at h
  next v rest hvalue =>
    split at h
    next hend =>
      cases h
      have hcolon : colonNext rest = false := by
        rw [← colonNext_skip, hend]
        rfl
      have hscan : scanChars rest = false := by
        rw [← scanChars_skip, hend, scanChars_nil]
      rw [(scan_value _).1 hvalue hcolon, hscan]
      simp
    next => cases h
  next => cases h

end Values

/-! ## The scan is exact -/

/-- The scan ends on every text, within bounds and between characters, and on a JSON text it finds
a key just if some object has one. -/
theorem contains_reserved_exact (raw : String) :
    (∃ found, containsReservedValueKey raw = .ok found) ∧
    ∀ text, JsonText.parse raw.toList = some text →
      (containsReservedValueKey raw = .ok true ↔ HasReservedKey text) := by
  rw [containsReservedValueKey_eq]
  refine ⟨⟨_, rfl⟩, fun text htext => ?_⟩
  rw [Except.ok.injEq]
  exact scanChars_of_parse htext

end PredictionIndexer.Engine
