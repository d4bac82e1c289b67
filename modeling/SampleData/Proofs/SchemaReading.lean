import SampleData.Proofs.FirstFailure
import SampleData.Proofs.JsonMembers
import SampleData.Proofs.SchemaText

/-!
# What the text of a schema becomes

The members of an object are told as they stand in the text, repeated keys included. The ones that
survive make the schema: each key at its first place, with the value that stands last. Values that
a later one replaces are not looked at, whatever they are; the first survivor that is no string
refuses the text. So a schema that was read has no name twice, and what compiling says of repeated
names is never said of it.

* `Schema.readMembers_eq_ok_iff`, `Schema.readMembers_eq_error_iff`: members read one by one.
* `Schema.ofText_eq_written`: the schema of a text, from its members as they stand.
* `Schema.ofText_survivors`: what becomes of any text.
-/

namespace SampleData

open Json

namespace Json

/-- Settling a value leaves its kind. -/
@[simp] theorem kindName_settled (x : Json) : x.settled.kindName = x.kindName := by
  cases x <;> rfl

/-- Only a string is settled as one. -/
theorem settled_eq_text_iff {x : Json} {s : String} : x.settled = .text s ↔ x = .text s := by
  cases x <;> simp [settled]

end Json

namespace Schema

variable {ms : List (String × Json)} {entries : List (String × String)} {e : SchemaError}

@[simp] theorem readMembers_cons_text (name instruction : String) :
    readMembers ((name, .text instruction) :: ms) =
      (readMembers ms).map ((name, instruction) :: ·) :=
  rfl

theorem readMembers_cons_other {value : Json} (h : ∀ s, value ≠ .text s) (name : String) :
    readMembers ((name, value) :: ms) = .error (.nonStringInstruction name value.kindName) := by
  cases value with
  | text s => exact absurd rfl (h s)
  | _ => rfl

/-- Members are definitions exactly if all of them are strings. -/
theorem readMembers_eq_ok_iff :
    readMembers ms = .ok entries ↔ ms = entries.map fun m => (m.1, .text m.2) := by
  refine ⟨fun h => ?_, fun h => h ▸ readMembers_map entries⟩
  induction ms generalizing entries with
  | nil =>
      cases h
      rfl
  | cons m ms ih =>
      obtain ⟨name, value⟩ := m
      by_cases hv : ∃ s, value = .text s
      · obtain ⟨instruction, rfl⟩ := hv
        rw [readMembers_cons_text] at h
        cases hr : readMembers ms with
        | error e => simp [hr, Except.map] at h
        | ok rest =>
            simp only [hr, Except.map, Except.ok.injEq] at h
            rw [← h, List.map_cons, ← ih hr]
      · rw [readMembers_cons_other (not_exists.mp hv)] at h
        cases h

/-- Members are refused for the first of them that is no string. -/
theorem readMembers_eq_error_iff :
    readMembers ms = .error e ↔
      ∃ before name value after, ms = before ++ (name, value) :: after ∧
        (∀ m ∈ before, ∃ s, m.2 = .text s) ∧ (∀ s, value ≠ .text s) ∧
        e = .nonStringInstruction name value.kindName := by
  constructor
  · intro h
    induction ms with
    | nil => cases h
    | cons m ms ih =>
        obtain ⟨name, value⟩ := m
        by_cases hv : ∃ s, value = .text s
        · obtain ⟨instruction, rfl⟩ := hv
          rw [readMembers_cons_text] at h
          have hrest : readMembers ms = .error e := by
            cases hr : readMembers ms with
            | error e' => simpa [hr, Except.map] using h
            | ok rest => simp [hr, Except.map] at h
          obtain ⟨before, name', value, after, rfl, htexts, hvalue, he⟩ := ih hrest
          refine ⟨(name, .text instruction) :: before, name', value, after, rfl, ?_, hvalue, he⟩
          intro m hm
          rcases List.mem_cons.mp hm with rfl | hm
          · exact ⟨instruction, rfl⟩
          · exact htexts m hm
        · rw [readMembers_cons_other (not_exists.mp hv)] at h
          exact ⟨[], name, value, ms, rfl, nofun, not_exists.mp hv, (Except.error.inj h).symm⟩
  · rintro ⟨before, name, value, after, rfl, htexts, hvalue, rfl⟩
    induction before with
    | nil => exact readMembers_cons_other hvalue name
    | cons m before ih =>
        obtain ⟨key, v⟩ := m
        obtain ⟨instruction, rfl⟩ : ∃ s, v = .text s := htexts (key, v) List.mem_cons_self
        rw [List.cons_append, readMembers_cons_text,
          ih fun m hm => htexts m (List.mem_cons_of_mem _ hm)]
        rfl

/-- What is behind the values of members is read as what is settled there. -/
@[simp] theorem readMembers_settled (ms : List (String × Json)) :
    readMembers (ms.map fun m => (m.1, m.2.settled)) = readMembers ms := by
  induction ms with
  | nil => rfl
  | cons m ms ih =>
      obtain ⟨name, value⟩ := m
      rw [List.map_cons]
      by_cases hv : ∃ s, value = .text s
      · obtain ⟨instruction, rfl⟩ := hv
        rw [readMembers_cons_text, ← ih]
        rfl
      · have hsettled : ∀ s, value.settled ≠ .text s :=
          fun s hs => hv ⟨s, Json.settled_eq_text_iff.mp hs⟩
        rw [readMembers_cons_other (not_exists.mp hv), readMembers_cons_other hsettled,
          Json.kindName_settled]

/-- The schema of a text, from its members as they stand. -/
theorem ofText_eq_written (text : String) :
    ofText text = match written.ofText text with
      | .error e => .error (.notJson e)
      | .ok (.object ms) =>
        (readMembers (Members.survivors ms)).map fun entries => { entries := entries }
      | .ok other => .error (.notAnObject other.kindName) := by
  rw [ofText, Json.ofText_eq_written]
  cases written.ofText text with
  | error e => rfl
  | ok x =>
      cases x with
      | object ms =>
          show ofJson (Json.settled (.object ms)) = _
          rw [Json.settled_object, ofJson, readMembers_settled]
      | _ => rfl

theorem ofText_of_refused {text : String} {fault : SyntaxError}
    (h : Json.ofText text = .error fault) : ofText text = .error (.notJson fault) := by
  rw [ofText, h]

theorem ofText_of_other {text : String} {x : Json} (h : IsStrict text x)
    (hx : ∀ ms, x ≠ .object ms) : ofText text = .error (.notAnObject x.kindName) := by
  rw [ofText_eq_written, written_eq_ok_iff.mpr h]
  cases x with
  | object ms => exact absurd rfl (hx ms)
  | _ => rfl

theorem ofText_of_object {text : String} (h : IsStrict text (.object ms)) :
    ofText text =
      (readMembers (Members.survivors ms)).map fun entries => { entries := entries } := by
  rw [ofText_eq_written, written_eq_ok_iff.mpr h]

/-- A text is strict JSON for some value, or it is refused with a fault. -/
theorem isStrict_or_refused (text : String) :
    (∃ x, IsStrict text x) ∨
      (∀ x, ¬ IsStrict text x) ∧ ∃ fault, Json.ofText text = .error fault := by
  cases hread : written.ofText text with
  | ok x => exact .inl ⟨x, written_eq_ok_iff.mp hread⟩
  | error fault =>
      refine .inr ⟨fun x hx => ?_, fault, by rw [Json.ofText_eq_written, hread]; rfl⟩
      rw [written_eq_ok_iff.mpr hx] at hread
      cases hread

/-- What the text of a schema becomes, told by the members as they stand in it. -/
inductive Becomes (text : String) : Except SchemaError Schema → Prop
  | notJson {fault : SyntaxError} (hform : ∀ x, ¬ IsStrict text x)
      (hfault : Json.ofText text = .error fault) : Becomes text (.error (.notJson fault))
  | notAnObject {x : Json} (hform : IsStrict text x) (hx : ∀ ms, x ≠ .object ms) :
      Becomes text (.error (.notAnObject x.kindName))
  | entries {ms : List (String × Json)} {s : Schema} (hform : IsStrict text (.object ms))
      (htexts : Members.survivors ms = s.entries.map fun m => (m.1, .text m.2)) :
      Becomes text (.ok s)
  | nonString {ms before after : List (String × Json)} {field : String} {value : Json}
      (hform : IsStrict text (.object ms))
      (hsplit : Members.survivors ms = before ++ (field, value) :: after)
      (htexts : ∀ m ∈ before, ∃ s, m.2 = .text s) (hvalue : ∀ s, value ≠ .text s) :
      Becomes text (.error (.nonStringInstruction field value.kindName))

/-- Every text becomes one thing and no other. -/
theorem becomes_iff {text : String} {r : Except SchemaError Schema} :
    Becomes text r ↔ ofText text = r := by
  constructor
  · intro h
    cases h with
    | notJson _ hfault => exact ofText_of_refused hfault
    | notAnObject hform hx => exact ofText_of_other hform hx
    | entries hform htexts => rw [ofText_of_object hform, readMembers_eq_ok_iff.mpr htexts]; rfl
    | nonString hform hsplit htexts hvalue =>
        rw [ofText_of_object hform,
          readMembers_eq_error_iff.mpr ⟨_, _, _, _, hsplit, htexts, hvalue, rfl⟩]
        rfl
  · rintro rfl
    rcases isStrict_or_refused text with ⟨x, hform⟩ | ⟨hform, fault, hfault⟩
    · by_cases hx : ∃ ms, x = .object ms
      · obtain ⟨ms, rfl⟩ := hx
        rw [ofText_of_object hform]
        cases hr : readMembers (Members.survivors ms) with
        | ok entries => exact .entries hform (readMembers_eq_ok_iff.mp hr)
        | error e =>
            obtain ⟨_, _, _, _, hsplit, htexts, hvalue, rfl⟩ := readMembers_eq_error_iff.mp hr
            exact .nonString hform hsplit htexts hvalue
      · rw [ofText_of_other hform (not_exists.mp hx)]
        exact .notAnObject hform (not_exists.mp hx)
    · rw [ofText_of_refused hfault]
      exact .notJson hform hfault

/-- A text is refused as no JSON exactly if it is not strict JSON for any value. -/
theorem notJson_iff {text : String} :
    (∃ fault, ofText text = .error (.notJson fault)) ↔ ∀ x, ¬ IsStrict text x := by
  constructor
  · rintro ⟨fault, h⟩
    cases becomes_iff.mpr h with
    | notJson hform _ => exact hform
  · intro hform
    rcases isStrict_or_refused text with ⟨x, hx⟩ | ⟨-, fault, hfault⟩
    · exact absurd hx (hform x)
    · exact ⟨fault, ofText_of_refused hfault⟩

/-- The names of survivors that are strings are different. -/
theorem nodup_of_survivors {s : Schema}
    (h : Members.survivors ms = s.entries.map fun m => (m.1, .text m.2)) :
    (s.entries.map (·.1)).Nodup := by
  have hkeys : s.entries.map (·.1) = (Members.survivors ms).map (·.1) := by
    rw [h, List.map_map]
    rfl
  rw [hkeys, ← Members.settle_eq_survivors]
  exact Members.nodup_keys_settle ms

/-- **A text is refused if it is no strict JSON, as no object or for the first surviving value that
is no string, or the survivors are the schema.** Whatever was read has different names, and
compiling it never finds one that is defined twice. -/
theorem ofText_survivors (text : String) :
    ((∃ fault, ofText text = .error (.notJson fault)) ↔ ∀ x, ¬ IsStrict text x) ∧
      (∀ r, ofText text = r ↔ Becomes text r) ∧
      ∀ s, ofText text = .ok s → (s.entries.map (·.1)).Nodup ∧
        ∀ field instruction, s.compile ≠ .error (.duplicateField field instruction) := by
  refine ⟨notJson_iff, fun r => becomes_iff.symm, fun s h => ?_⟩
  cases becomes_iff.mpr h with
  | entries _ htexts =>
      have hnodup := nodup_of_survivors htexts
      exact ⟨hnodup, compile_ne_duplicateField hnodup⟩

/-- A value that is no string is replaced by one that stands later. -/
example : ofText "\x7b\"a\": 5, \"b\": \"int:1\", \"a\": \"str:rand\"\x7d" =
    .ok ⟨[("a", "str:rand"), ("b", "int:1")]⟩ := by
  decide +kernel

end Schema

end SampleData
