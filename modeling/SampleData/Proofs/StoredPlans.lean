import SampleData.Plan.Stored
import SampleData.Proofs.JsonText
import SampleData.Proofs.SignedNumerals
import Mathlib.Data.List.Forall2

/-!
# Stored plans read back

A plan is stored as text and read from it, with the form of the text in between. Every part of a
plan has the form that its text has, and from this form it is read back, whatever it is: no plan is
too odd to be stored. The reader takes many texts that the writer never gives, so it is not the
inverse of the writer but only undoes it.

* `Json.HasForm`: the form of a text, by the rules of strings, numbers, arrays and objects.
* `Scalar.document`, `Strategy.document`, `Descriptor.document`, `Plan.document`: the form of the
  text of each part; `Scalar.hasForm` and so on say that it is.
* `Strategy.ofDocument?_document`, `Descriptor.ofDocument?_document`,
  `Plan.ofDocument?_document`: what is read from it.
* `Plan.ofText?_render`: a whole text.
-/

namespace SampleData

open Json

/-! ## The form of a text -/

namespace Json

/-- The text of the value has a form. -/
def HasForm (x : Json) (d : Document) : Prop := documents.make? none x = some d

/-- A member of an object has a form. -/
def MemberHasForm (m : String × Json) (e : Option String × Document) : Prop :=
  e.1 = some m.1 ∧ m.2.HasForm e.2

namespace HasForm

theorem text (s : String) : HasForm (.text s) (.text (some s)) := by
  show some (Document.text (some (String.ofList s.toList))) = _
  rw [String.ofList_toList]

theorem integer (n : Int) : HasForm (.integer n) (.number (.ofInt n)) := rfl

/-- An array has the form of its items, which are had one by one from a list. -/
theorem array {ι : Type} {f : ι → Json} {g : ι → Document} (h : ∀ i, HasForm (f i) (g i))
    (is : List ι) : HasForm (.array (is.map f)) (.array (is.map g)) := by
  have hitems : List.Forall₂ HasForm (is.map f) (is.map g) := by
    rw [List.forall₂_map_left_iff, List.forall₂_map_right_iff]
    exact List.forall₂_same.mpr fun i _ => h i
  show (documents.makeItems? none (is.map f)).map Document.array = _
  rw [documents.makeItems?_of_forall₂ hitems]
  rfl

/-- An object has the form of its members. -/
theorem object {ms : List (String × Json)} {es : List (Option String × Document)}
    (h : List.Forall₂ MemberHasForm ms es) : HasForm (.object ms) (.object es) := by
  have hmembers : documents.makeMembers? none ms = some es := by
    refine documents.makeMembers?_of_forall₂ (h.imp fun m e hm => ⟨?_, hm.2⟩)
    show Except.ok (some (String.ofList m.1.toList)) = Except.ok e.1
    rw [String.ofList_toList, hm.1]
  show (documents.makeMembers? none ms).map Document.object = _
  rw [hmembers]
  rfl

end HasForm

/-- A text is read as a document of its form. -/
theorem Document.ofText?_of_hasForm {x : Json} {d : Document} (h : x.HasForm d) :
    Document.ofText? x.render = some d := by
  unfold Document.ofText?
  rw [documents.ofText_render h]
  rfl

end Json

/-! ## Constants -/

/-- The form of a stored constant. -/
def Scalar.document : Scalar → Document
  | .integer n => .number (.ofInt n.toInt)
  | .text s => .text (some s)

theorem Scalar.hasForm (v : Scalar) : v.toJson.HasForm v.document := by
  cases v with
  | integer n => exact .integer n.toInt
  | text s => exact .text s

/-- A stored constant has its JSON value. -/
@[simp] theorem Scalar.value?_document (v : Scalar) (depth : Nat) :
    v.document.value? depth = some v.toJson := by
  cases v with
  | integer n => exact NumberLiteral.value?_toInt n
  | text s => rfl

/-- A signed 64-bit number is read from its JSON value. -/
@[simp] theorem Scalar.readInteger?_toInt (n : Int64) :
    Scalar.readInteger? (.integer n.toInt) = some n :=
  Text.toInt64?_eq_some_iff.mpr rfl

/-- A constant is read from its JSON value, a number as a number and a text as a text, whatever
the text looks like. -/
@[simp] theorem Scalar.ofJson?_toJson (v : Scalar) : Scalar.ofJson? v.toJson = some v := by
  cases v with
  | integer n => simp [toJson, ofJson?]
  | text s => rfl

/-- A text that looks like a number stays a text. -/
example : Scalar.ofJson? (.text "12") = some (.text "12") := by rfl

/-- Stored constants have their JSON values. -/
@[simp] theorem Scalar.valuesOfItems?_map (vs : List Scalar) (depth : Nat) :
    valuesOfItems? depth (vs.map Scalar.document) = some (vs.map Scalar.toJson) := by
  induction vs with
  | nil => rfl
  | cons v vs ih => simp [valuesOfItems?, ih]

/-- Constants are read from their JSON values. -/
@[simp] theorem Scalar.ofJsonList?_map (vs : List Scalar) :
    Scalar.ofJsonList? (vs.map Scalar.toJson) = some vs := by
  induction vs with
  | nil => rfl
  | cons v vs ih => simp [Scalar.ofJsonList?, ih]

/-! ## Strategies -/

/-- The form of a stored strategy, its type first. -/
def Strategy.document : Strategy → Document
  | .random => .object [(some "type", .text (some "random"))]
  | .list values => .object [(some "type", .text (some "list")),
      (some "values", .array (values.map Scalar.document))]
  | .range low high => .object [(some "type", .text (some "range")),
      (some "low", .number (.ofInt low.toInt)), (some "high", .number (.ofInt high.toInt))]
  | .fixed value => .object [(some "type", .text (some "static")), (some "value", value.document)]
  | .empty => .object [(some "type", .text (some "empty"))]

theorem Strategy.hasForm (s : Strategy) : s.toJson.HasForm s.document := by
  cases s with
  | random => exact .object (.cons ⟨rfl, .text _⟩ .nil)
  | list values =>
      exact .object (.cons ⟨rfl, .text _⟩ (.cons ⟨rfl, .array Scalar.hasForm values⟩ .nil))
  | range low high =>
      exact .object (.cons ⟨rfl, .text _⟩
        (.cons ⟨rfl, .integer low.toInt⟩ (.cons ⟨rfl, .integer high.toInt⟩ .nil)))
  | fixed value => exact .object (.cons ⟨rfl, .text _⟩ (.cons ⟨rfl, value.hasForm⟩ .nil))
  | empty => exact .object (.cons ⟨rfl, .text _⟩ .nil)

/-- **A strategy is read back from its form**, which is told from the others by its type. -/
@[simp] theorem Strategy.ofDocument?_document (s : Strategy) (depth : Nat) :
    Strategy.ofDocument? (depth + 2) s.document = some s := by
  cases s with
  | random => rfl
  | list values =>
      simp [document, ofDocument?, valuesOfMembers?, Document.value?, only?, ofMembers?,
        readValues?]
  | range low high =>
      simp [document, ofDocument?, valuesOfMembers?, Document.value?, only?, ofMembers?]
  | fixed value =>
      simp [document, ofDocument?, valuesOfMembers?, Document.value?, only?, ofMembers?]
  | empty => rfl

/-! ## Fields -/

/-- The form of a stored descriptor. -/
def Descriptor.document (d : Descriptor) : Document :=
  .object [(some "name", .text (some d.name)), (some "kind", .text (some d.kind.storedName)),
    (some "strategy", d.strategy.document)]

theorem Descriptor.hasForm (d : Descriptor) : d.toJson.HasForm d.document :=
  .object (.cons ⟨rfl, .text d.name⟩
    (.cons ⟨rfl, .text d.kind.storedName⟩ (.cons ⟨rfl, d.strategy.hasForm⟩ .nil)))

/-- **A descriptor is read back from its form.** -/
@[simp] theorem Descriptor.ofDocument?_document (d : Descriptor) (depth : Nat) :
    Descriptor.ofDocument? (depth + 3) d.document = some d := by
  simp [document, ofDocument?, wholeKeys, only?, ofParts?, Kind.ofDocument?]

/-- Descriptors are read back from their forms. -/
@[simp] theorem Descriptor.ofDocuments?_map (ds : List Descriptor) (depth : Nat) :
    Descriptor.ofDocuments? (depth + 3) (ds.map Descriptor.document) = some ds := by
  induction ds with
  | nil => rfl
  | cons d ds ih => simp [Descriptor.ofDocuments?, ih]

/-! ## Plans -/

/-- The form of a stored plan. -/
def Plan.document (p : Plan) : Document :=
  .object [(some "fields", .array (p.fields.map Descriptor.document))]

theorem Plan.hasForm (p : Plan) : p.toJson.HasForm p.document :=
  .object (.cons ⟨rfl, .array Descriptor.hasForm p.fields⟩ .nil)

/-- **A plan is read back from its form.** -/
@[simp] theorem Plan.ofDocument?_document (p : Plan) (depth : Nat) :
    Plan.ofDocument? (depth + 5) p.document = some p := by
  simp [document, ofDocument?, wholeKeys, only?, ofFields?]

/-- **A stored plan is read back as it was**, whatever its names, kinds and strategies, and no other
plan is stored as the same text. -/
theorem Plan.ofText?_render (p : Plan) :
    Plan.ofText? p.toJson.render = some p ∧
      ∀ q : Plan, q.toJson.render = p.toJson.render ↔ q = p := by
  have hread : ∀ p : Plan, Plan.ofText? p.toJson.render = some p := by
    intro p
    unfold Plan.ofText?
    rw [Document.ofText?_of_hasForm p.hasForm]
    exact p.ofDocument?_document 122
  refine ⟨hread p, fun q => ⟨fun h => ?_, fun h => by rw [h]⟩⟩
  apply Option.some.inj
  rw [← hread q, ← hread p, h]

end SampleData
