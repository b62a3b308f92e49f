import PredictionIndexer.Spec.EnvelopeReadable

/-!
# What is read as a cursor

`parse_cursor` leaves the value of `source_cursor` to a derived struct and accepts four shapes of
it. The object of a cursor, its members each once and no other, is `Closed`; `Loose` is what the
struct reads beyond it: unknown members, numbers that are `null`, and the values in an array.

## Key results

- `parseCursor_eq_ok`: the shapes, as the struct has them
- `reads_iff`: the struct reads the closed objects, and the loose values
-/

namespace PredictionIndexer.Continuity

open JsonText Fallible
open Splices.Envelope (wireOf optionalU64 cursorKind cursorNumbers cursorWire)

/-! ## Cursors -/

/-- The optional fields of the struct derived for a cursor, in order. -/
def numberNames : List String :=
  ["counter", "last_update_id", "source_time_ms", "first", "last", "previous_last"]

def wireNames : List String := "type" :: numberNames

/-- What the derived reader makes of a value. -/
def cursorStruct : JsonText → Option CursorWire := Serde.struct wireNames wireOf

/-- The members of a cursor's object. -/
def cursorFields (c : SourceCursor) : List (String × JsonText) :=
  ("type", .string (spell (cursorKind c))) ::
    (cursorNumbers c).map fun x => (x.1, .integer false x.2)

/-- Members as they stand in a text. -/
def spelled (fields : List (String × JsonText)) : List (List Rune × JsonText) :=
  fields.map fun f => (spell f.1, f.2)

/-- The value of a cursor's field, if it has it. -/
def cursorField (c : SourceCursor) (name : String) : Option JsonText :=
  (cursorFields c).lookup name

/-- A field of the struct as the cursor has it: a number it has not may be `null`. -/
def Finds (members : List (String × JsonText)) (c : SourceCursor) (name : String) : Prop :=
  occurrences members name = (cursorField c name).toList ∨
    (cursorField c name = none ∧ occurrences members name = [.null])

section Wire

variable {members : List (String × JsonText)} {name : String}

theorem optionalU64_eq_none : optionalU64 members name = some none ↔
    occurrences members name = [] ∨ occurrences members name = [.null] :=
  optionalField_eq_none

theorem u64_eq_some {m : Nat} {n : U64} : Splices.Envelope.u64 m = some n ↔ m = n := by
  unfold Splices.Envelope.u64
  split
  · simp [Fin.ext_iff]
  · rename_i hm
    have hn := n.isLt
    simp only [reduceCtorEq, false_iff]
    omega

theorem optionalU64_eq_some {n : U64} : optionalU64 members name = some (some n) ↔
    occurrences members name = [.integer false n] := by
  have hvalue : ∀ v : JsonText, (Serde.u64 v).bind Splices.Envelope.u64 = some n ↔
      v = .integer false n := by
    intro v
    unfold Serde.u64
    split
    · rename_i m
      have hn := n.isLt
      split
      · simp [u64_eq_some]
      · rename_i hm
        simp only [Option.bind_none, reduceCtorEq, JsonText.integer.injEq, true_and, false_iff]
        omega
    · rename_i hother
      simp only [Option.bind_none, reduceCtorEq, false_iff]
      rintro rfl
      exact hother n rfl
  rw [optionalU64, optionalField_eq_present rfl]
  simp [hvalue]

theorem field_string_eq_some {s : String} : Serde.field members name Serde.string = some s ↔
    occurrences members name = [.string (spell s)] := by
  rw [field_eq_some]
  simp [string_eq_some]

theorem wireOf_eq_some {w : CursorWire} : wireOf members = some w ↔
    Serde.field members "type" Serde.string = some w.kind ∧
      optionalU64 members "counter" = some w.counter ∧
      optionalU64 members "last_update_id" = some w.lastUpdateId ∧
      optionalU64 members "source_time_ms" = some w.sourceTimeMs ∧
      optionalU64 members "first" = some w.first ∧ optionalU64 members "last" = some w.last ∧
      optionalU64 members "previous_last" = some w.previousLast := by
  obtain ⟨kind, counter, lastUpdateId, sourceTimeMs, first, last, previousLast⟩ := w
  simp [wireOf, Option.bind_eq_some_iff]

/-- A number of a cursor, by its name. -/
def cursorNumber (c : SourceCursor) (name : String) : Option Nat := (cursorNumbers c).lookup name

theorem cursorField_type (c : SourceCursor) :
    cursorField c "type" = some (.string (spell (cursorKind c))) := by
  simp [cursorField, cursorFields]

theorem lookup_map {β γ : Type} (f : β → γ) (l : List (String × β)) (name : String) :
    (l.map fun x => (x.1, f x.2)).lookup name = (l.lookup name).map f := by
  induction l with
  | nil => rfl
  | cons x rest ih =>
    rw [List.map_cons, List.lookup_cons, List.lookup_cons, ih]
    cases name == x.1 <;> rfl

theorem cursorField_number (c : SourceCursor) {name : String} (hname : name ≠ "type") :
    cursorField c name = (cursorNumber c name).map (.integer false) := by
  have hskip : (name == "type") = false := by simpa using hname
  rw [cursorField, cursorFields, List.lookup_cons, hskip]
  exact lookup_map _ _ name

/-- A field of the struct that is read as a cursor's number. -/
theorem optionalU64_iff {number : Option Nat} :
    (∃ v, optionalU64 members name = some v ∧ v.map (·.val) = number) ↔
      (∀ n ∈ number, n < 2 ^ 64) ∧
        (occurrences members name = (number.map (JsonText.integer false)).toList ∨
          (number = none ∧ occurrences members name = [.null])) := by
  cases number with
  | none => simp [optionalU64_eq_none]
  | some n =>
    simp only [Option.map_eq_some_iff, Option.mem_some_iff, forall_eq', Option.map_some,
      Option.toList_some, reduceCtorEq, false_and, or_false]
    constructor
    · rintro ⟨_, hv, m, rfl, rfl⟩
      exact ⟨m.isLt, optionalU64_eq_some.mp hv⟩
    · rintro ⟨hn, hocc⟩
      exact ⟨_, (optionalU64_eq_some (n := ⟨n, hn⟩)).mpr hocc, _, rfl, rfl⟩

theorem cursorWire_eq_some {c : SourceCursor} {w : CursorWire} : cursorWire c = some w ↔
    w.kind = cursorKind c ∧ w.counter.map (·.val) = cursorNumber c "counter" ∧
      w.lastUpdateId.map (·.val) = cursorNumber c "last_update_id" ∧
      w.sourceTimeMs.map (·.val) = cursorNumber c "source_time_ms" ∧
      w.first.map (·.val) = cursorNumber c "first" ∧
      w.last.map (·.val) = cursorNumber c "last" ∧
      w.previousLast.map (·.val) = cursorNumber c "previous_last" := by
  obtain ⟨kind, counter, lastUpdateId, sourceTimeMs, first, last, previousLast⟩ := w
  cases c with
  | _ =>
    simp [cursorWire, cursorKind, cursorNumber, cursorNumbers, List.lookup_cons,
      Option.bind_eq_some_iff, u64_eq_some]
    grind

theorem inRange_iff_cursorNumber {c : SourceCursor} :
    c.InRange ↔ ∀ name ∈ numberNames, ∀ n ∈ cursorNumber c name, n < 2 ^ 64 := by
  cases c <;>
    simp [numberNames, SourceCursor.InRange, cursorNumber, cursorNumbers, List.lookup_cons]

theorem finds_iff {c : SourceCursor} :
    (c.InRange ∧ ∀ name ∈ wireNames, Finds members c name) ↔
      occurrences members "type" = [.string (spell (cursorKind c))] ∧
        ∀ name ∈ numberNames,
          ∃ v, optionalU64 members name = some v ∧ v.map (·.val) = cursorNumber c name := by
  have htype : Finds members c "type" ↔
      occurrences members "type" = [.string (spell (cursorKind c))] := by
    simp [Finds, cursorField_type]
  have hnumber : ∀ name ∈ numberNames, ((∀ n ∈ cursorNumber c name, n < 2 ^ 64) ∧
      Finds members c name ↔
        ∃ v, optionalU64 members name = some v ∧ v.map (·.val) = cursorNumber c name) := by
    intro name hname
    have hne : name ≠ "type" := by
      rintro rfl
      revert hname
      decide
    rw [optionalU64_iff, Finds, cursorField_number c hne, Option.map_eq_none_iff]
  rw [wireNames, List.forall_mem_cons, htype, inRange_iff_cursorNumber]
  constructor
  · rintro ⟨hrange, hkind, hfinds⟩
    exact ⟨hkind, fun name hname => (hnumber name hname).mp ⟨hrange name hname, hfinds name hname⟩⟩
  · rintro ⟨hkind, hread⟩
    exact ⟨fun name hname => ((hnumber name hname).mpr (hread name hname)).1, hkind,
      fun name hname => ((hnumber name hname).mpr (hread name hname)).2⟩

/-- Field by field, the struct is the cursor's. -/
theorem wireOf_eq_cursorWire {c : SourceCursor} :
    (∃ w, wireOf members = some w ∧ cursorWire c = some w) ↔
      c.InRange ∧ ∀ name ∈ wireNames, Finds members c name := by
  rw [finds_iff]
  simp only [wireOf_eq_some, cursorWire_eq_some, field_string_eq_some, numberNames,
    List.forall_mem_cons, List.not_mem_nil, false_implies, implies_true, and_true]
  constructor
  · rintro ⟨w, ⟨h₁, h₂, h₃, h₄, h₅, h₆, h₇⟩, hkind, g₂, g₃, g₄, g₅, g₆, g₇⟩
    rw [hkind] at h₁
    exact ⟨h₁, ⟨_, h₂, g₂⟩, ⟨_, h₃, g₃⟩, ⟨_, h₄, g₄⟩, ⟨_, h₅, g₅⟩, ⟨_, h₆, g₆⟩, ⟨_, h₇, g₇⟩⟩
  · rintro ⟨h₁, ⟨v₂, h₂, g₂⟩, ⟨v₃, h₃, g₃⟩, ⟨v₄, h₄, g₄⟩, ⟨v₅, h₅, g₅⟩, ⟨v₆, h₆, g₆⟩,
      ⟨v₇, h₇, g₇⟩⟩
    exact ⟨⟨cursorKind c, v₂, v₃, v₄, v₅, v₆, v₇⟩, ⟨h₁, h₂, h₃, h₄, h₅, h₆, h₇⟩, rfl, g₂, g₃, g₄,
      g₅, g₆, g₇⟩

theorem parseCursor_eq_ok {json : SerdeJson} {lexeme : String} {c : SourceCursor} :
    parseCursor json lexeme = .ok c ↔
      ∃ w, json.cursor lexeme = some w ∧ cursorWire c = some w := by
  unfold parseCursor
  constructor
  · intro h
    split at h
    · cases h
    all_goals
      first
      | rename_i hread
        cases h
        refine ⟨_, hread, cursorWire_eq_some.mpr ?_⟩
        simp [cursorKind, cursorNumber, cursorNumbers, List.lookup_cons]
      | cases h
  · rintro ⟨w, hread, hw⟩
    rw [hread]
    cases c with
    | unsequenced counter =>
      simp only [cursorWire, Option.bind_eq_bind, Option.bind_eq_some_iff, u64_eq_some] at hw
      obtain ⟨n, rfl, heq⟩ := hw
      cases heq
      rfl
    | snapshotId lastUpdateId =>
      simp only [cursorWire, Option.bind_eq_bind, Option.bind_eq_some_iff, u64_eq_some] at hw
      obtain ⟨n, rfl, heq⟩ := hw
      cases heq
      rfl
    | snapshotTime sourceTimeMs =>
      simp only [cursorWire, Option.bind_eq_bind, Option.bind_eq_some_iff, u64_eq_some] at hw
      obtain ⟨n, rfl, heq⟩ := hw
      cases heq
      rfl
    | updateRange first last previousLast =>
      simp only [cursorWire, Option.bind_eq_bind, Option.bind_eq_some_iff, u64_eq_some] at hw
      obtain ⟨f, rfl, l, rfl, p, rfl, heq⟩ := hw
      cases heq
      rfl

end Wire

/-! ## Objects -/

/-- The object of a cursor: its members, each once, in any order, and no other. -/
def Closed (c : SourceCursor) (t : JsonText) : Prop :=
  c.InRange ∧ ∃ ms, t = .object ms ∧ ms.Perm (spelled (cursorFields c))

/-- Members a derived reader passes over: unknown ones, and numbers that are `null`. -/
structure Extras (c : SourceCursor) (extras : List (List Rune × JsonText)) : Prop where
  each : ∀ m ∈ extras, ∃ name, m.1 = spell name ∧
    ((name ∉ wireNames ∧ Serde.ignorable m.2 = true) ∨
      (name ∈ wireNames ∧ cursorField c name = none ∧ m.2 = .null))
  once : ∀ name ∈ wireNames, (extras.filter (·.1 = spell name)).length ≤ 1

/-- The values of the struct's fields in order, without their names. -/
def positional (c : SourceCursor) : List JsonText :=
  wireNames.map fun name => (cursorField c name).getD .null

/-- What else is read as the cursor: its members among others, and its values in an array. -/
def Loose (c : SourceCursor) (t : JsonText) : Prop :=
  c.InRange ∧ ((∃ ms extras, t = .object ms ∧ extras ≠ [] ∧ Extras c extras ∧
    ms.Perm (spelled (cursorFields c) ++ extras)) ∨ t = .array (positional c))

section Objects

variable {c : SourceCursor} {ms extras : List (List Rune × JsonText)} {name : String}

theorem filter_spelled {fields : List (String × JsonText)} (hnodup : (fields.map Prod.fst).Nodup)
    (name : String) : (spelled fields).filter (·.1 = spell name) =
      ((fields.lookup name).map fun v => (spell name, v)).toList := by
  induction fields with
  | nil => rfl
  | cons f fields ih =>
    rw [List.map_cons, List.nodup_cons] at hnodup
    have ih := ih hnodup.2
    rw [spelled] at ih ⊢
    rw [List.map_cons]
    by_cases hname : f.1 = name
    · subst hname
      have hnone : fields.lookup f.1 = none := by
        rw [List.lookup_eq_none_iff]
        intro m hm
        have hne : f.1 ≠ m.1 := fun heq => hnodup.1 (List.mem_map.mpr ⟨m, hm, heq.symm⟩)
        simpa using hne
      rw [List.filter_cons_of_pos (by simp), ih, hnone, List.lookup_cons_self]
      rfl
    · have hne : spell f.1 ≠ spell name := fun heq => hname (spell_injective heq)
      have hskip : (name == f.1) = false := by simpa using Ne.symm hname
      rw [List.filter_cons_of_neg (by simpa using hne), ih, List.lookup_cons, hskip]

theorem cursorFields_nodup (c : SourceCursor) : ((cursorFields c).map Prod.fst).Nodup := by
  cases c <;> simp [cursorFields, cursorNumbers]

theorem mem_wireNames_of_cursorField {v : JsonText} (h : cursorField c name = some v) :
    name ∈ wireNames := by
  obtain ⟨l, r, heq, -⟩ := List.lookup_eq_some_iff.mp h
  have hmem : name ∈ (cursorFields c).map Prod.fst := by simp [heq]
  have hsub : ∀ n ∈ (cursorFields c).map Prod.fst, n ∈ wireNames := by
    cases c <;> simp [cursorFields, cursorNumbers, wireNames, numberNames]
  exact hsub name hmem

/-- The members that spell a field of the cursor. -/
theorem filter_cursorFields (c : SourceCursor) (name : String) :
    (spelled (cursorFields c)).filter (·.1 = spell name) =
      ((cursorField c name).map fun v => (spell name, v)).toList :=
  filter_spelled (cursorFields_nodup c) name

theorem spelled_nodup (c : SourceCursor) : ((spelled (cursorFields c)).map Prod.fst).Nodup := by
  have hmap : (spelled (cursorFields c)).map Prod.fst =
      ((cursorFields c).map Prod.fst).map spell := by
    simp [spelled]
  rw [hmap]
  exact (cursorFields_nodup c).map spell_injective

/-- Members of one name, by their values. -/
theorem filter_eq_map_snd (ms : List (List Rune × JsonText)) (name : String) :
    ms.filter (·.1 = spell name) =
      (occurrences (named ms) name).map fun v => (spell name, v) := by
  rw [occurrences_named, List.map_map]
  refine ((List.map_congr_left ?_).trans (List.map_id _)).symm
  intro m hm
  have hname : m.1 = spell name := by simpa using (List.mem_filter.mp hm).2
  exact Prod.ext hname.symm rfl

/-- What the struct finds, as members of the text. -/
theorem finds_iff_filter : Finds (named ms) c name ↔
    ms.filter (·.1 = spell name) = (spelled (cursorFields c)).filter (·.1 = spell name) ∨
      (cursorField c name = none ∧ ms.filter (·.1 = spell name) = [(spell name, .null)]) := by
  have hinj : Function.Injective fun v : JsonText => (spell name, v) := fun a b h => by
    simpa using h
  have hmap : ∀ l : List JsonText, ms.filter (·.1 = spell name) = l.map (spell name, ·) ↔
      occurrences (named ms) name = l := by
    intro l
    rw [filter_eq_map_snd]
    exact (List.map_injective_iff.mpr hinj).eq_iff
  have hnull := hmap [.null]
  have hfield := hmap (cursorField c name).toList
  rw [Finds, filter_cursorFields, ← hfield, ← hnull]
  cases cursorField c name <;> simp

/-- The members whose names are not the cursor's. -/
def extrasOf (c : SourceCursor) (ms : List (List Rune × JsonText)) :
    List (List Rune × JsonText) :=
  ms.filter fun m => !decide (m.1 ∈ (spelled (cursorFields c)).map Prod.fst)

theorem exists_name_of_mem {r : List Rune} (h : r ∈ (spelled (cursorFields c)).map Prod.fst) :
    ∃ name ∈ wireNames, r = spell name ∧ cursorField c name ≠ none := by
  simp only [spelled, List.map_map, List.mem_map] at h
  obtain ⟨f, hf, rfl⟩ := h
  have hfield : cursorField c f.1 ≠ none := by
    intro hnone
    have hmem : (spell f.1, f.2) ∈ (spelled (cursorFields c)).filter (·.1 = spell f.1) :=
      List.mem_filter.mpr ⟨List.mem_map.mpr ⟨f, hf, rfl⟩, by simp⟩
    simp [filter_cursorFields, hnone] at hmem
  obtain ⟨v, hv⟩ := Option.ne_none_iff_exists'.mp hfield
  exact ⟨f.1, mem_wireNames_of_cursorField hv, rfl, hfield⟩

/-- The cursor's own members are there, once each. -/
theorem perm_of_finds (h : ∀ name ∈ wireNames, Finds (named ms) c name) :
    ms.Perm (spelled (cursorFields c) ++ extrasOf c ms) := by
  have hkept : (ms.filter fun m => m.1 ∈ (spelled (cursorFields c)).map Prod.fst).Perm
      (spelled (cursorFields c)) := by
    rw [perm_iff_filter (spelled_nodup c)]
    intro r
    rw [List.filter_filter]
    by_cases hr : r ∈ (spelled (cursorFields c)).map Prod.fst
    · obtain ⟨name, hname, rfl, hfield⟩ := exists_name_of_mem hr
      rcases finds_iff_filter.mp (h name hname) with heq | ⟨hnone, -⟩
      · rw [← heq]
        apply List.filter_congr
        intro m _
        by_cases hm : m.1 = spell name <;> simp [hm, hr]
      · exact absurd hnone hfield
    · rw [List.filter_eq_nil_iff.mpr, List.filter_eq_nil_iff.mpr]
      · intro m hm hmr
        exact hr (List.mem_map.mpr ⟨m, hm, by simpa using hmr⟩)
      · intro m hm hmr
        simp only [Bool.and_eq_true, decide_eq_true_eq] at hmr
        exact hr (hmr.1 ▸ hmr.2)
  exact (List.filter_append_perm _ ms).symm.trans (hkept.append_right _)

/-- What is left over is passed over. -/
theorem extras_extrasOf (h : ∀ name ∈ wireNames, Finds (named ms) c name)
    (htext : ∀ m ∈ ms, Rune.text? m.1 ≠ none)
    (hignore : ∀ m ∈ ms, ∀ name, Rune.text? m.1 = some name → name ∉ wireNames →
      Serde.ignorable m.2 = true) : Extras c (extrasOf c ms) where
  each := by
    intro m hm
    obtain ⟨hm, hout⟩ := List.mem_filter.mp hm
    obtain ⟨name, hname⟩ := Option.ne_none_iff_exists'.mp (htext m hm)
    have hspell := text?_eq_some.mp hname
    refine ⟨name, hspell, ?_⟩
    by_cases hwire : name ∈ wireNames
    · right
      have hfound : m ∈ ms.filter (·.1 = spell name) := List.mem_filter.mpr ⟨hm, by simpa⟩
      rcases finds_iff_filter.mp (h name hwire) with heq | ⟨hnone, heq⟩
      · rw [heq] at hfound
        have hin := List.mem_map_of_mem (f := Prod.fst) (List.mem_filter.mp hfound).1
        simp [hin] at hout
      · rw [heq, List.mem_singleton] at hfound
        exact ⟨hwire, hnone, by rw [hfound]⟩
    · exact .inl ⟨hwire, hignore m hm name hname hwire⟩
  once := by
    intro name hname
    have hle : ((extrasOf c ms).filter (·.1 = spell name)).length ≤
        (ms.filter (·.1 = spell name)).length :=
      (List.filter_sublist.filter _).length_le
    rcases finds_iff_filter.mp (h name hname) with heq | ⟨-, heq⟩
    · rw [heq, filter_cursorFields] at hle
      refine hle.trans ?_
      cases cursorField c name <;> simp
    · rw [heq] at hle
      exact hle

/-- Members among those a reader passes over are found. -/
theorem finds_of_perm (hextras : Extras c extras)
    (hperm : ms.Perm (spelled (cursorFields c) ++ extras)) (hname : name ∈ wireNames) :
    Finds (named ms) c name := by
  rw [finds_iff_filter]
  have hfilter := hperm.filter (·.1 = spell name)
  rw [List.filter_append] at hfilter
  have hnull : ∀ m ∈ extras.filter (·.1 = spell name), cursorField c name = none ∧
      m = (spell name, .null) := by
    intro m hm
    obtain ⟨hm, heq⟩ := List.mem_filter.mp hm
    obtain ⟨name', hspell, hcase⟩ := hextras.each m hm
    have hsame : name' = name := spell_injective (hspell.symm.trans (by simpa using heq))
    subst hsame
    rcases hcase with ⟨hout, -⟩ | ⟨-, hnone, hvalue⟩
    · exact absurd hname hout
    · exact ⟨hnone, Prod.ext hspell hvalue⟩
  have hlength := hextras.once name hname
  generalize extras.filter (·.1 = spell name) = rest at hfilter hnull hlength
  cases rest with
  | nil =>
    left
    rw [List.append_nil, filter_cursorFields] at hfilter
    rw [filter_cursorFields]
    cases hfield : cursorField c name with
    | none => simpa [hfield] using hfilter
    | some v => simpa [hfield] using hfilter
  | cons m rest =>
    right
    have hrest : rest = [] := List.length_eq_zero_iff.mp (by simpa using hlength)
    obtain ⟨hnone, rfl⟩ := hnull m List.mem_cons_self
    refine ⟨hnone, ?_⟩
    simpa [filter_cursorFields, hnone, hrest] using hfilter

/-- What a derived reader takes for the cursor, of objects. -/
theorem reads_object_iff :
    (∃ w, cursorStruct (.object ms) = some w ∧ cursorWire c = some w) ↔
      c.InRange ∧ ∃ extras, Extras c extras ∧ ms.Perm (spelled (cursorFields c) ++ extras) := by
  unfold cursorStruct
  rw [struct_eq_bind]
  simp only [Option.bind_eq_some_iff, struct_object]
  constructor
  · rintro ⟨w, ⟨members, ⟨rfl, htext, hignore⟩, hwire⟩, hw⟩
    obtain ⟨hrange, hfinds⟩ := wireOf_eq_cursorWire.mp ⟨w, hwire, hw⟩
    exact ⟨hrange, extrasOf c ms, extras_extrasOf hfinds htext hignore, perm_of_finds hfinds⟩
  · rintro ⟨hrange, extras, hextras, hperm⟩
    obtain ⟨w, hwire, hw⟩ := wireOf_eq_cursorWire.mpr
      ⟨hrange, fun name hname => finds_of_perm hextras hperm hname⟩
    have hmember : ∀ m ∈ ms, ∃ name, m.1 = spell name ∧
        (name ∉ wireNames → Serde.ignorable m.2 = true) := by
      intro m hm
      rcases List.mem_append.mp (hperm.mem_iff.mp hm) with hm | hm
      · obtain ⟨name, hname, hspell, -⟩ := exists_name_of_mem (List.mem_map_of_mem hm)
        exact ⟨name, hspell, fun hout => absurd hname hout⟩
      · obtain ⟨name, hspell, ⟨-, hignore⟩ | ⟨hwire, -, -⟩⟩ := hextras.each m hm
        · exact ⟨name, hspell, fun _ => hignore⟩
        · exact ⟨name, hspell, fun hout => absurd hwire hout⟩
    refine ⟨w, ⟨named ms, ⟨rfl, ?_, ?_⟩, hwire⟩, hw⟩
    · intro m hm
      obtain ⟨name, hspell, -⟩ := hmember m hm
      rw [text?_eq_some.mpr hspell]
      exact Option.some_ne_none name
    · intro m hm name hname hout
      obtain ⟨name', hspell, hignore⟩ := hmember m hm
      rw [text?_eq_some.mpr hspell] at hname
      cases hname
      exact hignore hout

/-- What a derived reader takes for the cursor, of arrays. -/
theorem reads_array_iff {items : List JsonText} :
    (∃ w, cursorStruct (.array items) = some w ∧ cursorWire c = some w) ↔
      c.InRange ∧ items = positional c := by
  have hfinds : items.length = wireNames.length →
      ((∀ name ∈ wireNames, Finds (wireNames.zip items) c name) ↔ items = positional c) := by
    intro hlength
    obtain ⟨value, rfl, hvalue⟩ := exists_zip (by decide) hlength
    rw [positional, List.map_inj_left]
    refine forall₂_congr fun name hname => ?_
    rw [Finds, hvalue name hname]
    cases cursorField c name <;> simp
  unfold cursorStruct
  rw [struct_eq_bind]
  simp only [Serde.struct, Option.bind_eq_some_iff, Option.ite_none_right_eq_some]
  constructor
  · rintro ⟨w, ⟨members, ⟨hlength, heq⟩, hwire⟩, hw⟩
    cases heq
    obtain ⟨hrange, hall⟩ := wireOf_eq_cursorWire.mp ⟨w, hwire, hw⟩
    exact ⟨hrange, (hfinds hlength).mp hall⟩
  · rintro ⟨hrange, hitems⟩
    have hlength : items.length = wireNames.length := by simp [hitems, positional]
    obtain ⟨w, hwire, hw⟩ := wireOf_eq_cursorWire.mpr ⟨hrange, (hfinds hlength).mpr hitems⟩
    exact ⟨w, ⟨_, ⟨hlength, rfl⟩, hwire⟩, hw⟩

/-- A value is read as a cursor if it is the cursor's object, or loosely. -/
theorem reads_iff {t : JsonText} :
    (∃ w, cursorStruct t = some w ∧ cursorWire c = some w) ↔ Closed c t ∨ Loose c t := by
  cases t with
  | object ms =>
    rw [reads_object_iff]
    simp only [Closed, Loose, JsonText.object.injEq, reduceCtorEq, or_false]
    constructor
    · rintro ⟨hrange, extras, hextras, hperm⟩
      by_cases hnil : extras = []
      · rw [hnil, List.append_nil] at hperm
        exact .inl ⟨hrange, ms, rfl, hperm⟩
      · exact .inr ⟨hrange, ms, extras, rfl, hnil, hextras, hperm⟩
    · rintro (⟨hrange, ms', rfl, hperm⟩ | ⟨hrange, ms', extras, rfl, -, hextras, hperm⟩)
      · exact ⟨hrange, [], ⟨by simp, by simp⟩, by simpa using hperm⟩
      · exact ⟨hrange, extras, hextras, hperm⟩
  | array items =>
    rw [reads_array_iff]
    simp [Closed, Loose]
  | _ => simp [Closed, Loose, cursorStruct, Serde.struct]

/-- No value is both. -/
theorem Closed.not_loose {c' : SourceCursor} {t : JsonText} (hclosed : Closed c t)
    (hloose : Loose c' t) : False := by
  obtain ⟨-, ms, rfl, hperm⟩ := hclosed
  rcases hloose with ⟨-, ⟨ms', extras, heq, hne, hextras, hperm'⟩ | harray⟩
  · cases heq
    obtain ⟨m, hm⟩ := List.exists_mem_of_ne_nil extras hne
    have hin : m ∈ spelled (cursorFields c) :=
      hperm.mem_iff.mp (hperm'.mem_iff.mpr (List.mem_append_right _ hm))
    obtain ⟨name, hwire, hspell, -⟩ := exists_name_of_mem (List.mem_map_of_mem hin)
    obtain ⟨name', hspell', hcase⟩ := hextras.each m hm
    have hsame : name = name' := spell_injective (hspell.symm.trans hspell')
    rcases hcase with ⟨hout, -⟩ | ⟨-, -, hnull⟩
    · exact hout (hsame ▸ hwire)
    · -- a cursor's own members are never `null`
      have hvalues : ∀ m ∈ spelled (cursorFields c), m.2 ≠ .null := by
        cases c <;> simp [spelled, cursorFields, cursorNumbers]
      exact hvalues m hin hnull
  · cases harray

end Objects

end PredictionIndexer.Continuity
