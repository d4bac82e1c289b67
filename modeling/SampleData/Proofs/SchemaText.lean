import SampleData.Schema
import SampleData.Proofs.JsonText
import SampleData.Proofs.RepeatedKeys

/-!
# The text of a schema read back

A schema is written as an object, and in an object a name stands once. So what is read from its
text is the schema only if no field is defined twice; else each name has kept its first place and
got its last instruction. Names and instructions may be any texts, whether they mean anything or
not: what is wrong with them is found by compiling.

* `Schema.ofText_toText`: what is read, as members are settled.
* `Schema.toText_read_back`: the same, by names and instructions.
-/

namespace SampleData.Schema

open Json

/-- Each name once, at its first place and with its last instruction. -/
def settled (s : Schema) : Schema := { entries := Members.settle s.entries }

/-- Definitions are read from members that are strings. -/
@[simp] theorem readMembers_map (entries : List (String × String)) :
    readMembers (entries.map fun e => (e.1, .text e.2)) = .ok entries := by
  induction entries with
  | nil => rfl
  | cons e entries ih =>
      rw [List.map_cons, readMembers, ih]
      rfl

/-- The text of a schema is read as the settled schema. -/
@[simp] theorem ofText_toText (s : Schema) : ofText s.toText = .ok s.settled := by
  have hmembers : Members.settle (s.entries.map fun e => (e.1, Json.text e.2)) =
      s.settled.entries.map fun e => (e.1, .text e.2) := Members.settle_map Json.text s.entries
  have hvalues : ∀ m ∈ s.settled.entries.map fun e => (e.1, Json.text e.2),
      values.make? (some (maxDepth - 1)) m.2 = some m.2 := by
    intro m hm
    obtain ⟨e, -, rfl⟩ := List.mem_map.mp hm
    exact make?_text _ e.2
  have hdistinct : ((s.settled.entries.map fun e => (e.1, Json.text e.2)).map (·.1)).Nodup := by
    rw [← hmembers]
    exact Members.nodup_keys_settle _
  have hread : Json.ofText s.toText =
      .ok (.object (s.settled.entries.map fun e => (e.1, .text e.2))) := by
    rw [toText, toJson, hmembers, ofText_render_object hvalues, Members.settle_of_nodup hdistinct]
  rw [ofText, hread]
  show (readMembers _).map _ = _
  rw [readMembers_map]
  rfl

/-- A schema is settled exactly if no field is defined twice. -/
theorem settled_eq_self_iff {s : Schema} : s.settled = s ↔ (s.entries.map (·.1)).Nodup := by
  rw [← Members.settle_eq_self_iff]
  exact ⟨congrArg entries, fun h => congrArg Schema.mk h⟩

/-- **A schema is read back from its text with each name once**, at its first place and with the
instruction that comes last. It is the schema itself exactly if no field is defined twice, and then
it compiles to the same. -/
theorem toText_read_back (s : Schema) :
    ∃ c, ofText s.toText = .ok c ∧
      c.entries.map (·.1) = (s.entries.map (·.1)).eraseDups ∧
      (∀ name, c.entries.lookup name = s.entries.reverse.lookup name) ∧
      if (s.entries.map (·.1)).Nodup then c = s ∧ c.compile = s.compile else c ≠ s := by
  refine ⟨s.settled, ofText_toText s, Members.keys_settle s.entries,
    Members.lookup_settle s.entries, ?_⟩
  split
  · next hdistinct =>
    have hself : s.settled = s := settled_eq_self_iff.mpr hdistinct
    exact ⟨hself, congrArg compile hself⟩
  · next htwice => exact mt settled_eq_self_iff.mp htwice

end SampleData.Schema
