import SampleData.Proofs.AcceptedJson
import SampleData.Proofs.RepeatedKeys

/-!
# Members as they stand

What a reader finds in a text does not depend on what is made of it. Where the parts that one
builder makes are the parts another makes, put through a map, so is the whole, and both stop at the
same fault. So the value of a text is had from the members of its objects as they stand, repeated
keys included, by settling them inside and out.

* `Json.Builder.Maps.reading`: one builder behind a map reads as the other does.
* `Json.settled_object`: a settled object, told by the keys and the last value of each.
* `Json.IsStrict`, `Json.written_eq_ok_iff`: the texts that are read.
* `Json.ofText_eq_written`: the value of a text, from the text as it stands.
-/

namespace SampleData

/-! ## Builders behind a map -/

namespace Json.Builder

variable {κ α β : Type} {b : Builder κ α} {b' : Builder κ β} {f : α → β}

/-- Of every part the second builder makes what `f` makes of the first builder's. -/
structure Maps (b : Builder κ α) (b' : Builder κ β) (f : α → β) : Prop where
  depth : b'.depth = b.depth
  null : b'.null = f b.null
  bool : ∀ v, b'.bool v = f (b.bool v)
  number : ∀ l, b'.number l = (b.number l).map f
  text : ∀ content, b'.text content = (b.text content).map f
  key : b'.key = b.key
  array : ∀ items, b'.array (items.map f) = f (b.array items)
  object : ∀ members, b'.object (members.map fun m => (m.1, f m.2)) = f (b.object members)

namespace Maps

theorem readText (h : Maps b b' f) (cs : List Char) :
    b'.readText cs = (b.readText cs).map fun p => (f p.1, p.2) := by
  unfold Builder.readText
  cases readString none cs with
  | error e => rfl
  | ok p =>
      obtain ⟨content, rest⟩ := p
      show ((b'.text content) >>= fun a => pure (a, rest)) = Except.map _ ((b.text content) >>= _)
      rw [h.text]
      cases b.text content <;> rfl

theorem readKey (h : Maps b b' f) (cs : List Char) : b'.readKey cs = b.readKey cs := by
  unfold Builder.readKey
  rw [h.key]

theorem readOther (h : Maps b b' f) (cs : List Char) :
    b'.readOther cs = (b.readOther cs).map fun p => (f p.1, p.2) := by
  unfold Builder.readOther
  split
  · rfl
  · split
    · cases readNumber _ with
      | error e => rfl
      | ok p =>
          obtain ⟨l, rest⟩ := p
          simp only [bind, Except.bind, h.number]
          cases b.number l <;> rfl
    · rfl

end Maps

/-- With so many steps the second builder reads values, items and members as the first does, and
gives what is made of them put through `f`. -/
structure MapsReading (b : Builder κ α) (b' : Builder κ β) (f : α → β) (steps : Nat) : Prop where
  value : ∀ depth cs, b'.readValue steps depth cs =
    (b.readValue steps depth cs).map fun p => (f p.1, p.2)
  items : ∀ depth cs, b'.readItems steps depth cs =
    (b.readItems steps depth cs).map fun p => (p.1.map f, p.2)
  members : ∀ depth cs, b'.readMembers steps depth cs =
    (b.readMembers steps depth cs).map fun p => (p.1.map fun m => (m.1, f m.2), p.2)

namespace Maps

variable {steps : Nat}

theorem value_succ (h : Maps b b' f) (ih : MapsReading b b' f steps) (depth : Option Nat)
    (cs : List Char) : b'.readValue (steps + 1) depth cs =
      (b.readValue (steps + 1) depth cs).map fun p => (f p.1, p.2) := by
  unfold readValue
  split
  · cases readWord _ _ <;> simp [Except.map, h.null]
  · cases readWord _ _ <;> simp [Except.map, h.bool]
  · cases readWord _ _ <;> simp [Except.map, h.bool]
  · exact h.readText _
  · cases inside depth with
    | none => rfl
    | some depth =>
        simp only
        split
        · rfl
        · simp [Except.map, ← h.array]
        · rw [ih.items]
          cases b.readItems steps depth _ <;> simp [Except.map, h.array]
  · cases inside depth with
    | none => rfl
    | some depth =>
        simp only
        split
        · rfl
        · simp [Except.map, ← h.object]
        · rw [ih.members]
          cases b.readMembers steps depth _ <;> simp [Except.map, h.object]
  · exact h.readOther _

theorem items_succ (ih : MapsReading b b' f steps) (depth : Option Nat) (cs : List Char) :
    b'.readItems (steps + 1) depth cs =
      (b.readItems (steps + 1) depth cs).map fun p => (p.1.map f, p.2) := by
  unfold readItems
  rw [ih.value]
  cases b.readValue steps depth cs with
  | error e => rfl
  | ok p =>
      simp only [bind, Except.bind, Except.map]
      split
      · rfl
      · rfl
      · split
        · rfl
        · rw [ih.items]
          cases b.readItems steps depth _ <;> rfl
      · rfl

theorem members_succ (h : Maps b b' f) (ih : MapsReading b b' f steps) (depth : Option Nat)
    (cs : List Char) : b'.readMembers (steps + 1) depth cs =
      (b.readMembers (steps + 1) depth cs).map fun p => (p.1.map fun m => (m.1, f m.2), p.2) := by
  unfold readMembers
  split
  · rfl
  · rfl
  · next heq =>
    obtain rfl := Nat.succ.inj heq
    rw [h.readKey]
    cases b.readKey _ with
    | error e => rfl
    | ok p =>
        simp only [bind, Except.bind, ih.value]
        cases b.readValue steps depth p.2 with
        | error e => rfl
        | ok q =>
            simp only [Except.map]
            split
            · rfl
            · rfl
            · split
              · rfl
              · rw [ih.members]
                cases b.readMembers steps depth _ <;> rfl
            · rfl
  · rfl

/-- **One builder behind a map reads as the other does**, with however many steps. -/
theorem reading (h : Maps b b' f) (steps : Nat) : MapsReading b b' f steps := by
  induction steps with
  | zero => exact ⟨fun _ _ => rfl, fun _ _ => rfl, fun _ _ => by unfold readMembers; rfl⟩
  | succ steps ih => exact ⟨h.value_succ ih, items_succ ih, h.members_succ ih⟩

/-- A whole text is read as by the other builder, or refused with the same error. -/
theorem ofText (h : Maps b b' f) (text : String) : b'.ofText text = (b.ofText text).map f := by
  unfold Builder.ofText readAll
  rw [(h.reading _).value, h.depth]
  cases b.readValue _ b.depth text.toList with
  | error e => rfl
  | ok p =>
      simp only [Except.map, bind, Except.bind]
      split <;> rfl

end Maps

end Json.Builder

/-! ## Values as they stand -/

namespace Json

/-- Makes values in which the members of an object stand as they are written. -/
def written : Builder String Json := { values with object := .object }

mutual

/-- The value with the members of its objects settled, inside and out. -/
def settled : Json → Json
  | .array items => .array (settledItems items)
  | .object members => .object (Members.settle (settledMembers members))
  | .null => .null
  | .bool v => .bool v
  | .integer n => .integer n
  | .double x => .double x
  | .text s => .text s

/-- The items, each settled. -/
def settledItems : List Json → List Json
  | [] => []
  | x :: xs => settled x :: settledItems xs

/-- The members, the value of each settled. -/
def settledMembers : List (String × Json) → List (String × Json)
  | [] => []
  | (k, x) :: ms => (k, settled x) :: settledMembers ms

end

@[simp] theorem settledItems_eq_map (xs : List Json) : settledItems xs = xs.map settled := by
  induction xs with
  | nil => rfl
  | cons x xs ih => rw [settledItems, ih, List.map_cons]

@[simp] theorem settledMembers_eq_map (ms : List (String × Json)) :
    settledMembers ms = ms.map fun m => (m.1, settled m.2) := by
  induction ms with
  | nil => rfl
  | cons m ms ih => rw [settledMembers, ih, List.map_cons]

@[simp] theorem settled_object (ms : List (String × Json)) :
    settled (.object ms) = .object ((Members.survivors ms).map fun m => (m.1, settled m.2)) := by
  rw [settled, settledMembers_eq_map, Members.settle_map, Members.settle_eq_survivors]

/-- A number has no members. -/
theorem settled_of_value? {l : NumberLiteral} {x : Json} (h : l.value? = some x) :
    settled x = x := by
  have hdouble : ∀ y, (l.double?).map Json.double = some y → settled y = y := by
    intro y hy
    obtain ⟨d, -, rfl⟩ := Option.map_eq_some_iff.mp hy
    rfl
  unfold NumberLiteral.value? at h
  simp only at h
  split at h
  · split at h
    · split at h
      · cases h
        rfl
      · exact hdouble x h
    · split at h
      · cases h
        rfl
      · exact hdouble x h
  · exact hdouble x h

/-- Values are what is written, settled. -/
theorem maps_settled : written.Maps values settled where
  depth := rfl
  null := rfl
  bool _ := rfl
  number l := by
    show l.value? = l.value?.map settled
    cases h : l.value? with
    | none => rfl
    | some x => rw [Option.map_some, settled_of_value? h]
  text content := by cases content <;> rfl
  key := rfl
  array items := by
    show Json.array _ = settled (.array items)
    rw [settled, settledItems_eq_map]
  object members := by
    show Json.object _ = settled (.object members)
    rw [settled, settledMembers_eq_map]

/-- They are made of whole strings only. -/
theorem takesWhole_written : written.TakesWhole where
  text {content a} h := by
    cases content with
    | ok s => exact ⟨s, rfl⟩
    | error f => cases h
  key {content key} h := by
    cases content with
    | ok s => exact ⟨s, rfl⟩
    | error f => cases h

/-- A text is strict JSON for a value, the members of its objects as they stand: the numbers are in
range, strings hold no half of a surrogate pair, and at most 127 arrays and objects stand inside one
another. -/
def IsStrict (text : String) (x : Json) : Prop := written.SpellsPart (some maxDepth) x text.toList

/-- What is written is read exactly if the text is strict. -/
theorem written_eq_ok_iff {text : String} {x : Json} :
    written.ofText text = .ok x ↔ IsStrict text x :=
  takesWhole_written.ofText_iff

/-- **The value of a text is what is written there, settled**, and a text that is refused is
refused with the same error. -/
theorem ofText_eq_written (text : String) : ofText text = (written.ofText text).map settled :=
  maps_settled.ofText text

end Json

end SampleData
