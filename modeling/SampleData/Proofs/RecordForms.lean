import SampleData.Proofs.Conformance
import SampleData.Proofs.JsonText
import SampleData.Proofs.RepeatedKeys
import Mathlib.Data.List.Perm.Subperm
import Mathlib.Algebra.BigOperators.Group.List.Basic

/-!
# The two texts of a record

A record is written in two ways: as it stands, field by field, and as a JSON object, in which each
name has its first place and its last value. The second text is the first one of the record that is
settled. So the texts agree where no name stands twice, and there alone: a name that stands twice
loses a member, and a text with fewer members is shorter, whatever becomes of their order and of
the values that stay. Lengths decide it because what is left of the members is some of them in
another order.

* `Members.settle_subperm`: settled members are some of the members.
* `Json.length_charsOfMembers`: the length of members, one by one.
* `Json.chars_settle_eq_iff`: an object keeps its text exactly where no key stands twice.
* `Record.texts_agree`: the two texts of a record.
-/

namespace SampleData

/-! ## Members that are lost -/

namespace Members

variable {α : Type}

/-- Where a key gets its value, nothing is left that was not there or is given. -/
theorem put_subperm (key : String) (value : α) (ms : List (String × α)) :
    (put key value ms).Subperm ((key, value) :: ms) := by
  induction ms with
  | nil => exact .refl _
  | cons m ms ih =>
      obtain ⟨k, v⟩ := m
      rw [put]
      split
      · next hk =>
          subst hk
          exact ((List.sublist_cons_self (k, v) ms).cons_cons (k, value)).subperm
      · exact ((List.subperm_cons (k, v)).mpr ih).trans (List.Perm.swap _ _ _).subperm

/-- Settled members are some of the members. -/
theorem settle_subperm (ms : List (String × α)) : (settle ms).Subperm ms := by
  induction ms using List.reverseRecOn with
  | nil => exact .refl _
  | append_singleton ms m ih =>
      rw [settle_concat]
      have hput : (put m.1 m.2 (settle ms)).Subperm (m :: settle ms) := put_subperm m.1 m.2 _
      have hlast : (m :: ms).Perm (ms ++ [m]) := (List.perm_append_singleton m ms).symm
      exact (hput.trans ((List.subperm_cons m).mpr ih)).trans hlast.subperm

/-- Members are those that are settled and those that are lost. -/
theorem exists_perm_settle (ms : List (String × α)) : ∃ lost, ms.Perm (settle ms ++ lost) := by
  obtain ⟨kept, hkept, hsub⟩ := settle_subperm ms
  obtain ⟨lost, hlost⟩ := hsub.exists_perm_append
  exact ⟨lost, hlost.trans (hkept.append_right lost)⟩

/-- Where no member is lost, no key stands twice. -/
theorem nodup_of_perm_settle {ms : List (String × α)} (h : ms.Perm (settle ms)) :
    (ms.map (·.1)).Nodup :=
  (h.map (·.1)).nodup_iff.mpr (nodup_keys_settle ms)

end Members

/-! ## The length of an object -/

namespace Json

/-- The room that a member takes, with the comma or the brace that ends it. -/
def memberRoom (m : String × Json) : Nat := (charsOfMember m).length + 1

/-- Members take the room that each of them takes; what ends the last one is not theirs. -/
theorem length_charsOfMembers (ms : List (String × Json)) :
    (charsOfMembers ms).length = (ms.map memberRoom).sum - 1 := by
  induction ms with
  | nil => rfl
  | cons m ms ih =>
      cases ms with
      | nil => simp [memberRoom]
      | cons n ms =>
          simp only [charsOfMembers_cons_cons, List.length_append, List.length_cons, ih,
            List.map_cons, List.sum_cons, memberRoom]
          omega

/-- **An object keeps its text exactly where no key stands twice.** -/
theorem chars_settle_eq_iff {ms : List (String × Json)} :
    chars (.object (Members.settle ms)) = chars (.object ms) ↔ (ms.map (·.1)).Nodup := by
  refine ⟨fun h => ?_, fun h => by rw [Members.settle_of_nodup h]⟩
  obtain ⟨lost, hperm⟩ := Members.exists_perm_settle ms
  have hlength : (charsOfMembers (Members.settle ms)).length = (charsOfMembers ms).length := by
    have hlen := congrArg List.length h
    simp only [chars_object, List.length_cons, List.length_append, List.length_nil] at hlen
    omega
  have hroom : (ms.map memberRoom).sum =
      ((Members.settle ms).map memberRoom).sum + (lost.map memberRoom).sum := by
    rw [(hperm.map memberRoom).sum_eq, List.map_append, List.sum_append]
  -- A member that is lost has a colon and an end at the least, more than the end that is not
  -- counted.
  cases lost with
  | nil => exact Members.nodup_of_perm_settle (by simpa using hperm)
  | cons m lost =>
      have hcolon : 0 < (charsOfMember m).length := by
        simp [charsOfMember]
      rw [length_charsOfMembers, length_charsOfMembers, hroom, List.map_cons, List.sum_cons,
        memberRoom] at hlength
      omega

/-- Members whose values are written alike are written alike. -/
theorem piecesOfMembers_congr {α : Type} {f g : α → Json} (h : ∀ v, pieces (f v) = pieces (g v))
    (ms : List (String × α)) :
    piecesOfMembers (ms.map fun m => (m.1, f m.2)) =
      piecesOfMembers (ms.map fun m => (m.1, g m.2)) := by
  induction ms with
  | nil => rfl
  | cons m ms ih =>
      rw [List.map_cons, List.map_cons, piecesOfMembers, piecesOfMembers, h, ih]

/-- The characters of a value's text. -/
@[simp] theorem toList_render (x : Json) : x.render.toList = chars x := String.toList_join

end Json

/-! ## Records -/

/-- The value, and null in the place of a moment that is no number. -/
def Value.orNull : Value → Value
  | .timestamp t => if t.magnitude? = none then .null else .timestamp t
  | v => v

/-- A moment that is no number is written as null. -/
@[simp] theorem Value.pieces_orNull (v : Value) : v.orNull.toJson.pieces = v.toJson.pieces := by
  cases v with
  | null => rfl
  | integer n => rfl
  | text s => rfl
  | timestamp t =>
      rw [orNull]
      split
      · next h => simp only [toJson, Json.pieces, Json.doubleText, h]
      · rfl

namespace Record

/-- The record that fields are put into, one after the other. -/
def ofPushes (fields : List (String × Value)) : Record :=
  fields.foldl (fun r f => r.push f.1 f.2) empty

/-- The record with null in the place of moments that are no numbers. -/
def orNull (r : Record) : Record := { fields := r.fields.map fun f => (f.1, f.2.orNull) }

/-- Fields stand in a record as they are put. -/
@[simp] theorem ofPushes_eq (fields : List (String × Value)) : ofPushes fields = { fields } := by
  induction fields using List.reverseRecOn with
  | nil => rfl
  | append_singleton fs f ih =>
      rw [ofPushes, List.foldl_append, ← ofPushes, ih]
      rfl

/-- The object of a record is the settled record as it stands. -/
theorem toJson_eq (r : Record) : r.toJson = .object r.settled.members := by
  rw [toJson, members, Members.settle_map Value.toJson]
  rfl

/-- The text of the object is the text of the settled record. -/
@[simp] theorem render_toJson (r : Record) : r.toJson.render = r.settled.text := by
  rw [toJson_eq]
  rfl

/-- The texts are the same exactly if no name stands twice. -/
theorem render_toJson_eq_text_iff (r : Record) : r.toJson.render = r.text ↔ r.names.Nodup := by
  have hnames : r.members.map (·.1) = r.names := by simp [members, names]
  rw [← hnames, ← Json.chars_settle_eq_iff, ← String.toList_inj, Json.toList_render]
  exact iff_of_eq (congrArg _ String.toList_join)

/-- Moments that are no numbers are written as null where the record is written as it stands. -/
@[simp] theorem text_orNull (r : Record) : r.orNull.text = r.text := by
  have hpieces := Json.piecesOfMembers_congr Value.pieces_orNull r.fields
  have hmembers : r.orNull.members = r.fields.map fun f => (f.1, f.2.orNull.toJson) := by
    simp [members, orNull]
  rw [text, text, pieces, pieces, Json.pieces, Json.pieces, hmembers, hpieces]
  rfl

/-- They are so in the object too. -/
@[simp] theorem render_toJson_orNull (r : Record) : r.orNull.toJson.render = r.toJson.render := by
  have hsettled : r.orNull.settled = r.settled.orNull := by
    rw [settled, orNull, Members.settle_map Value.orNull]
    rfl
  simp [hsettled]

/-- **The two texts of a record.** However fields are put, the text of the object is that of the
record which keeps each name once, at its first place and with its last value; moments that are no
numbers are null in both; and the texts are the same exactly if no name stands twice. No name does
in the records of a compiled schema. -/
theorem texts_agree :
    (∀ fields : List (String × Value),
      (ofPushes fields).toJson.render = (Record.mk (Members.survivors fields)).text ∧
        ((ofPushes fields).toJson.render = (ofPushes fields).text ↔
          (fields.map (·.1)).Nodup) ∧
        (ofPushes fields).orNull.text = (ofPushes fields).text ∧
        (ofPushes fields).orNull.toJson.render = (ofPushes fields).toJson.render) ∧
      ∀ {σ : Type} [WordSource σ] {schema : Schema} {p : Plan} {ws : List Warning}
        (clock : Clock) (n : Nat) (s : σ) {rs : List Record},
        schema.compile = .ok (p, ws) → ((p.drawMany clock n).outcome s).1 = .ok rs →
          ∀ r ∈ rs, r.names.Nodup ∧ r.toJson.render = r.text := by
  constructor
  · intro fields
    refine ⟨?_, ?_, text_orNull _, render_toJson_orNull _⟩
    · simp [settled, Members.settle_eq_survivors]
    · rw [render_toJson_eq_text_iff, ofPushes_eq]
      rfl
  · intro σ _ schema p ws clock n s rs hcompile hdrawn r hr
    obtain ⟨hnames, hdistinct, -, hsound⟩ :=
      Plan.compileFrom_sound (Schema.compileFrom_of_compile hcompile).2
    obtain ⟨-, hconform⟩ := (Plan.drawMany_yields hsound clock n).of_outcome_ok hdrawn
    have hnodup : r.names.Nodup := by
      rw [(hconform r hr).names, Plan.names, hnames]
      exact hdistinct
    exact ⟨hnodup, (render_toJson_eq_text_iff r).mpr hnodup⟩

/-- A name that stands twice around another, moments that are no numbers, and a record of a schema
with two fields. -/
theorem texts_agree_repeated :
    let fields : List (String × Value) := [("a", .timestamp ⟨0x7FF8000000000000⟩),
      ("b", .timestamp ⟨0x7FF0000000000000⟩), ("a", .integer 3)]
    (ofPushes fields).text = "\x7b\"a\":null,\"b\":null,\"a\":3\x7d" ∧
      (ofPushes fields).toJson.render = "\x7b\"a\":3,\"b\":null\x7d" ∧
      ¬ (ofPushes fields).names.Nodup ∧
      ∃ p ws, Schema.compile ⟨[("n", "int:rand(0, 3)"), ("s", "str:[a, b]")]⟩ = .ok (p, ws) ∧
        ∃ r, ((p.drawMany .zero 1).outcome (⟨3, 5⟩ : Progression)).1 = .ok [r] ∧
          r.names.Nodup ∧ r.toJson.render = r.text := by
  intro fields
  have htext : (ofPushes fields).text = "\x7b\"a\":null,\"b\":null,\"a\":3\x7d" := by
    decide +kernel
  have hobject : (ofPushes fields).toJson.render = "\x7b\"a\":3,\"b\":null\x7d" := by
    rw [(texts_agree.1 fields).1]
    decide +kernel
  have htwice : ¬ (ofPushes fields).names.Nodup := by
    decide
  have hc : Schema.compile ⟨[("n", "int:rand(0, 3)"), ("s", "str:[a, b]")]⟩ =
      .ok (⟨[⟨"n", .integer, .range 0 3⟩, ⟨"s", .text, .list [.text "a", .text "b"]⟩]⟩, []) := by
    decide +kernel
  have hdrawn : (((Plan.mk [⟨"n", .integer, .range 0 3⟩,
      ⟨"s", .text, .list [.text "a", .text "b"]⟩]).drawMany .zero 1).outcome
        (⟨3, 5⟩ : Progression)).1 = .ok [⟨[("n", .integer 0), ("s", .text "a")]⟩] := by
    decide +kernel
  exact ⟨htext, hobject, htwice, _, _, hc, _, hdrawn,
    texts_agree.2 .zero 1 (⟨3, 5⟩ : Progression) hc hdrawn _ List.mem_cons_self⟩

end Record

end SampleData
