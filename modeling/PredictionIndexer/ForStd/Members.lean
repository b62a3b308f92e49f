import PredictionIndexer.ForStd.JsonText

/-!
# The members of an object

What a derived reader finds under a name, and lists of named values up to their order: where the
names of a list are distinct, another list has the same values just if it has them name by name.

## Key results

- `perm_iff_filter`: equal up to order, name by name
- `struct_object`: the objects that a derived reader takes members from
-/

namespace JsonText

/-! ## Text -/

@[simp] theorem mapM_char?_comp_char (cs : List Char) :
    cs.mapM (Rune.char? ∘ Rune.char) = some cs := by
  induction cs with
  | nil => rfl
  | cons c cs ih => simp [List.mapM_cons, Rune.char?, ih]

theorem mapM_char?_map (cs : List Char) : (cs.map Rune.char).mapM Rune.char? = some cs := by
  simp

theorem mapM_char?_eq_some {runes : List Rune} {cs : List Char} :
    runes.mapM Rune.char? = some cs ↔ runes = cs.map .char := by
  refine ⟨?_, fun h => h ▸ mapM_char?_map cs⟩
  intro h
  induction runes generalizing cs with
  | nil =>
    cases h
    rfl
  | cons r runes ih =>
    simp only [List.mapM_cons, Option.bind_eq_bind, Option.bind_eq_some_iff] at h
    obtain ⟨c, hc, cs', hcs', heq⟩ := h
    cases heq
    cases r with
    | char d =>
      cases hc
      rw [List.map_cons, ← ih hcs']
    | surrogate unit => cases hc

theorem text?_map_char (cs : List Char) : Rune.text? (cs.map .char) = some (String.ofList cs) := by
  rw [Rune.text?, mapM_char?_map]
  rfl

/-- The characters of a text. -/
def spell (s : String) : List Rune := s.toList.map .char

theorem text?_eq_some {runes : List Rune} {s : String} :
    Rune.text? runes = some s ↔ runes = spell s := by
  rw [Rune.text?, Option.map_eq_some_iff]
  constructor
  · rintro ⟨cs, hcs, rfl⟩
    rw [mapM_char?_eq_some.mp hcs, spell, String.toList_ofList]
  · rintro rfl
    exact ⟨s.toList, mapM_char?_map _, String.ofList_toList⟩

@[simp] theorem text?_spell (s : String) : Rune.text? (spell s) = some s := text?_eq_some.mpr rfl

theorem spell_injective : Function.Injective spell := by
  intro s t h
  have hst : Rune.text? (spell s) = Rune.text? (spell t) := by rw [h]
  simpa using hst

theorem string_eq_some {v : JsonText} {s : String} :
    Serde.string v = some s ↔ v = .string (spell s) := by
  cases v with
  | string runes => simp [Serde.string, text?_eq_some]
  | _ => simp [Serde.string]

/-! ## Fields -/

section Fields

variable {members : List (String × JsonText)} {name : String} {α : Type} {f : JsonText → Option α}

theorem field_eq_some {a : α} :
    Serde.field members name f = some a ↔ ∃ v, occurrences members name = [v] ∧ f v = some a := by
  unfold Serde.field
  split
  · next v heq => simp [heq]
  · next hne =>
    constructor
    · intro h
      cases h
    · rintro ⟨v, hv, _⟩
      exact absurd hv (hne v)

theorem optionalField_eq_some {a : Option α} :
    Serde.optionalField members name f = some a ↔ (occurrences members name = [] ∧ a = none) ∨
      ∃ v, occurrences members name = [v] ∧ Serde.option f v = some a := by
  unfold Serde.optionalField
  split
  · next heq => simp [heq, eq_comm]
  · next v heq => simp [heq]
  · next hnil hne =>
    constructor
    · intro h
      cases h
    · rintro (⟨hv, _⟩ | ⟨v, hv, _⟩)
      · exact absurd hv hnil
      · exact absurd hv (hne v)

/-- An optional field is absent when it is left out, and when it is `null`. -/
theorem optionalField_eq_none :
    Serde.optionalField members name f = some none ↔
      occurrences members name = [] ∨ occurrences members name = [.null] := by
  rw [optionalField_eq_some]
  have hoption : ∀ v, Serde.option f v = some none ↔ v = .null := by
    intro v
    cases v <;> simp [Serde.option]
  simp [hoption]

theorem optionalField_eq_present {a : α} (hnull : f .null = none) :
    Serde.optionalField members name f = some (some a) ↔
      ∃ v, occurrences members name = [v] ∧ f v = some a := by
  rw [optionalField_eq_some]
  have hoption : ∀ v, Serde.option f v = some (some a) ↔ f v = some a := by
    intro v
    cases v <;> simp [Serde.option, hnull]
  simp [hoption]

end Fields

/-- The values under a name are those of the members that spell it. -/
theorem occurrences_named (ms : List (List Rune × JsonText)) (name : String) :
    occurrences (named ms) name = (ms.filter (·.1 = spell name)).map (·.2) := by
  induction ms with
  | nil => rfl
  | cons m ms ih =>
    rw [occurrences, named] at ih ⊢
    cases htext : Rune.text? m.1 with
    | none =>
      have hne : m.1 ≠ spell name := by
        intro heq
        simp [heq] at htext
      simpa [htext, hne] using ih
    | some s =>
      have hspell := text?_eq_some.mp htext
      by_cases hs : s = name
      · simpa [hspell, hs] using ih
      · have hne : spell s ≠ spell name := fun heq => hs (spell_injective heq)
        simpa [hspell, hs, hne] using ih

/-! ## Structs -/

section Structs

variable {names : List String} {ms : List (List Rune × JsonText)}
  {members : List (String × JsonText)}

/-- A reader makes its value of the members it is given. -/
theorem struct_eq_bind {α : Type} (names : List String)
    (ofMembers : List (String × JsonText) → Option α) (t : JsonText) :
    Serde.struct names ofMembers t = (Serde.struct names some t).bind ofMembers := by
  unfold Serde.struct
  cases t with
  | array items =>
    dsimp only
    split <;> rfl
  | object ms =>
    dsimp only
    split <;> rfl
  | _ => rfl

theorem struct_object : Serde.struct names some (.object ms) = some members ↔
    members = named ms ∧ (∀ m ∈ ms, Rune.text? m.1 ≠ none) ∧
      ∀ m ∈ ms, ∀ name, Rune.text? m.1 = some name → name ∉ names →
        Serde.ignorable m.2 = true := by
  have hall : (ms.all fun m => (Rune.text? m.1).any fun name =>
      name ∈ names || Serde.ignorable m.2) = true ↔
      (∀ m ∈ ms, Rune.text? m.1 ≠ none) ∧
      ∀ m ∈ ms, ∀ name, Rune.text? m.1 = some name → name ∉ names →
        Serde.ignorable m.2 = true := by
    rw [List.all_eq_true, ← forall₂_and]
    refine forall₂_congr fun m _ => ?_
    cases Rune.text? m.1 with
    | none => simp
    | some name => simp [or_iff_not_imp_left]
  unfold Serde.struct
  dsimp only
  rw [← hall]
  split
  · next h => simp [h, eq_comm]
  · next h => simp [h]

/-- The values of an array, by the fields' names. -/
theorem exists_zip {items : List JsonText} (hnodup : names.Nodup)
    (hlength : items.length = names.length) :
    ∃ value : String → JsonText, items = names.map value ∧
      ∀ name ∈ names, occurrences (names.zip items) name = [value name] := by
  induction names generalizing items with
  | nil => exact ⟨fun _ => .null, by simpa using hlength, by simp⟩
  | cons n names ih =>
    cases items with
    | nil => simp at hlength
    | cons v items =>
      rw [List.nodup_cons] at hnodup
      obtain ⟨value, rfl, hvalue⟩ := ih hnodup.2 (by simpa using hlength)
      have hne : ∀ name ∈ names, name ≠ n := by
        rintro name hname rfl
        exact hnodup.1 hname
      refine ⟨fun name => if name = n then v else value name, ?_, ?_⟩
      · rw [List.map_cons, if_pos rfl]
        congr 1
        exact List.map_congr_left fun name hname => (if_neg (hne name hname)).symm
      · intro name hname
        rcases List.mem_cons.mp hname with rfl | hname
        · have hnone : (names.zip (names.map value)).filter (·.1 = name) = [] := by
            rw [List.filter_eq_nil_iff]
            intro m hm heq
            have hin := (List.of_mem_zip hm).1
            exact hne _ hin (by simpa using heq)
          simp [occurrences, hnone]
        · have hskip := hvalue name hname
          dsimp only
          rw [if_neg (hne name hname), ← hskip]
          simp [occurrences, Ne.symm (hne name hname)]

end Structs

/-! ## Named values up to order -/

section Perm

variable {α β : Type} [DecidableEq α] {l target : List (α × β)}

/-- The only value of a name, taken out. -/
theorem exists_append_of_filter {a : α} {b : β} (h : l.filter (·.1 = a) = [(a, b)]) :
    ∃ before after, l = before ++ (a, b) :: after ∧
      ∀ m ∈ before ++ after, m.1 ≠ a := by
  obtain ⟨before, after, rfl, hbefore, -, hafter⟩ := List.filter_eq_cons_iff.mp h
  refine ⟨before, after, rfl, ?_⟩
  intro m hm
  rcases List.mem_append.mp hm with hm | hm
  · simpa using hbefore m hm
  · simpa using List.filter_eq_nil_iff.mp hafter m hm

/-- Of distinct names, one value at most. -/
theorem filter_of_nodup (htarget : (target.map Prod.fst).Nodup) (a : α) :
    target.filter (·.1 = a) = [] ∨ ∃ m, target.filter (·.1 = a) = [m] := by
  have hnodup : ((target.filter (·.1 = a)).map Prod.fst).Nodup :=
    htarget.sublist (List.filter_sublist.map _)
  have hall : ∀ m ∈ target.filter (·.1 = a), m.1 = a := by
    intro m hm
    simpa using (List.mem_filter.mp hm).2
  revert hnodup hall
  cases target.filter (·.1 = a) with
  | nil => exact fun _ _ => .inl rfl
  | cons m rest =>
    cases rest with
    | nil => exact fun _ _ => .inr ⟨m, rfl⟩
    | cons m' rest =>
      intro hnodup hall
      have heq : m.1 = m'.1 := (hall m (by simp)).trans (hall m' (by simp)).symm
      simp [heq] at hnodup

theorem perm_iff_filter (htarget : (target.map Prod.fst).Nodup) :
    l.Perm target ↔ ∀ a, l.filter (·.1 = a) = target.filter (·.1 = a) := by
  constructor
  · intro hperm a
    have hfilter := hperm.filter (·.1 = a)
    rcases filter_of_nodup htarget a with hnil | ⟨m, hone⟩
    · rw [hnil] at hfilter ⊢
      exact List.perm_nil.mp hfilter
    · rw [hone] at hfilter ⊢
      exact List.perm_singleton.mp hfilter
  · intro h
    induction target generalizing l with
    | nil =>
      have hnil : l = [] := by
        apply List.eq_nil_iff_forall_not_mem.mpr
        intro m hm
        have hm' : m ∈ l.filter (·.1 = m.1) := List.mem_filter.mpr ⟨hm, by simp⟩
        rw [h m.1] at hm'
        simp at hm'
      rw [hnil]
    | cons t target ih =>
      obtain ⟨a, b⟩ := t
      rw [List.map_cons, List.nodup_cons] at htarget
      have hnone : target.filter (·.1 = a) = [] := by
        apply List.filter_eq_nil_iff.mpr
        intro m hm hma
        exact htarget.1 (List.mem_map.mpr ⟨m, hm, by simpa using hma⟩)
      have hone : l.filter (·.1 = a) = [(a, b)] := by
        rw [h a, List.filter_cons_of_pos (by simp), hnone]
      obtain ⟨before, after, rfl, hrest⟩ := exists_append_of_filter hone
      refine List.perm_middle.trans ((ih htarget.2 ?_).cons _)
      intro a'
      by_cases ha : a' = a
      · subst ha
        rw [hnone, List.filter_eq_nil_iff]
        intro m hm
        simpa using hrest m hm
      · have hskip := h a'
        simpa [List.filter_append, List.filter_cons, Ne.symm ha] using hskip

end Perm

end JsonText
