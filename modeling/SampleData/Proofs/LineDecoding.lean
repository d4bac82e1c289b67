import SampleData.Proofs.JsonText
import SampleData.Proofs.WrittenLines
import Mathlib.Data.List.Forall2

/-!
# Lines decode to the records

Each record is one line, since no line feed is left raw in it, and the line is read as the record's
fields: names are escaped like values. Moments are left out, since a double is not written so that
every reader gets it back.

* `Record.ofText_text`: the text of a record is read as an object with its fields.
* `JsonLines.splitOn_text`: the text of records falls into their texts, cut at its line feeds.
* `JsonLines.write_decodes`: what a sink is handed that takes everything.
-/

namespace SampleData

open Text Json

/-! ## One record -/

/-- None of the values is a moment. -/
def Record.Momentless (r : Record) : Prop := ∀ f ∈ r.fields, f.2.timestamp? = none

instance (r : Record) : Decidable r.Momentless := by
  unfold Record.Momentless
  infer_instance

/-- A value that is no moment is made from its JSON as it is. -/
@[simp] theorem Value.make?_toJson {v : Value} (h : v.timestamp? = none) (depth : Option Nat) :
    values.make? depth v.toJson = some v.toJson := by
  cases v with
  | null => rfl
  | integer n => exact NumberLiteral.value?_toInt n
  | text s => exact make?_text depth s
  | timestamp t => cases h

/-- The text of a record is read as an object with the record's fields. -/
theorem Record.ofText_text {r : Record} (hplain : r.Momentless) (hnames : r.names.Nodup) :
    Json.ofText r.text = .ok (.object (r.fields.map fun f => (f.1, f.2.toJson))) := by
  have hvalues : ∀ m ∈ r.members, values.make? (some (maxDepth - 1)) m.2 = some m.2 := by
    intro m hm
    obtain ⟨f, hf, rfl⟩ := List.mem_map.mp hm
    exact Value.make?_toJson (hplain f hf) _
  have hkeys : (r.members.map (·.1)).Nodup := by
    rw [Record.members, List.map_map]
    exact hnames
  calc Json.ofText r.text = .ok (.object (Members.settle r.members)) :=
        ofText_render_object hvalues
    _ = .ok (.object r.members) := by rw [Members.settle_of_nodup hkeys]

/-- A record is written on one line. -/
theorem Record.lineFeed_not_mem_text (r : Record) : '\n' ∉ r.text.toList := by
  rw [Record.text, Record.pieces, String.toList_join]
  exact lineFeed_not_mem_chars (.object r.members)

/-! ## All records -/

namespace JsonLines

/-- Cut at its line feeds, the text of records falls into theirs, with nothing behind the last. -/
@[simp] theorem splitOn_text (rs : List Record) :
    (text rs).toList.splitOn '\n' = (rs.map Record.text).map String.toList ++ [[]] := by
  induction rs with
  | nil => rfl
  | cons r rs ih =>
      have hline : (text (r :: rs)).toList = r.text.toList ++ '\n' :: (text rs).toList := by
        rw [text_cons, line, String.toList_append, String.toList_append, List.append_assoc]
        rfl
      rw [hline, List.splitOn_append_cons_self_of_not_mem r.lineFeed_not_mem_text, ih]
      rfl

/-- There are as many line feeds as records. -/
@[simp] theorem count_lineFeed_text (rs : List Record) :
    (text rs).toList.count '\n' = rs.length := by
  induction rs with
  | nil => rfl
  | cons r rs ih =>
      have hnone : r.text.toList.count '\n' = 0 := List.count_eq_zero.mpr r.lineFeed_not_mem_text
      rw [text_cons, line, String.toList_append, String.toList_append, List.count_append,
        List.count_append, ih, hnone, List.length_cons]
      show 0 + 1 + rs.length = rs.length + 1
      omega

/-- The text of records ends in a line feed. -/
theorem getLast?_text {rs : List Record} (h : rs ≠ []) : (text rs).toList.getLast? = some '\n' := by
  induction rs with
  | nil => exact absurd rfl h
  | cons r rs ih =>
      rw [text_cons, String.toList_append, List.getLast?_append]
      cases rs with
      | nil =>
          rw [line, String.toList_append, List.getLast?_append]
          rfl
      | cons r' rs =>
          rw [ih (List.cons_ne_nil r' rs)]
          rfl

/-- A sink that takes everything has taken what it was handed. -/
theorem gather_keeps {ε : Type} (whole : String) :
    (Sink.gather (ε := ε)).Keeps (.ofState String) (fun t s => s = t) (fun _ _ => False) whole where
  take _ hat := congrArg (· ++ _) hat
  again _ hrefused := hrefused.elim

/-- A sink that takes everything is handed the text of the records. -/
theorem write_gather {ε : Type} (rs : List Record) :
    (write (Sink.gather (ε := ε)) rs).run "" = (.ok rs.length, text rs) := by
  have hwrite := write_sure (L := .ofState String) (gather_keeps (ε := ε) (text rs)) rfl
  rcases hout : (write (Sink.gather (ε := ε)) rs).run "" with ⟨r, taken⟩
  have hended : Ended (fun t s => s = t) (fun _ _ => False) (text rs) r taken ∧
      ∀ n, r = .ok n → n = rs.length := by
    rw [← show ((write (Sink.gather (ε := ε)) rs).run "").1 = r by rw [hout],
      ← show ((write (Sink.gather (ε := ε)) rs).run "").2 = taken by rw [hout]]
    exact hwrite
  cases r with
  | ok n => rw [hended.2 n rfl, show taken = text rs from hended.1]
  | error e =>
      obtain ⟨_, _, hfalse, -⟩ := hended.1
      exact hfalse.elim

/-- **What is written decodes to the records**: a sink that takes everything is handed a text with a
line feed for each record and one at its end; cut at the line feeds it gives, record by record, a
text that is read as an object of the record's names in order, each with the record's value. -/
theorem write_decodes {ε : Type} {rs : List Record} (hplain : ∀ r ∈ rs, r.Momentless)
    (hnames : ∀ r ∈ rs, r.names.Nodup) :
    ∃ whole lines, (write (Sink.gather (ε := ε)) rs).run "" = (.ok rs.length, whole) ∧
      whole.toList.count '\n' = rs.length ∧
      (if rs = [] then whole = "" else whole.toList.getLast? = some '\n') ∧
      whole.toList.splitOn '\n' = lines.map String.toList ++ [[]] ∧
      List.Forall₂ (fun l (r : Record) =>
        Json.ofText l = .ok (.object (r.fields.map fun f => (f.1, f.2.toJson)))) lines rs := by
  refine ⟨text rs, rs.map Record.text, write_gather rs, count_lineFeed_text rs, ?_,
    splitOn_text rs, ?_⟩
  · split
    · next hnil => rw [hnil, text_nil]
    · next hne => exact getLast?_text hne
  · rw [List.forall₂_map_left_iff]
    exact List.forall₂_same.mpr fun r hr => Record.ofText_text (hplain r hr) (hnames r hr)

/-- Records with line feeds, quotes, backslashes and control characters in names and values, the
least number, an empty name, a name that stands in two records, and a record without fields. -/
theorem write_decodes_escapes :
    ∃ whole lines,
      (write (Sink.gather (ε := Unit)) [⟨[("a\n\"\\", .text "\x00\n\x7f/é😀\t"),
        ("", .integer (-9223372036854775808)), ("b", .null)]⟩, ⟨[]⟩, ⟨[("b", .text "")]⟩]).run "" =
        (.ok 3, whole) ∧
      whole.toList.count '\n' = 3 ∧
      whole.toList.getLast? = some '\n' ∧
      whole.toList.splitOn '\n' = lines.map String.toList ++ [[]] ∧
      List.Forall₂ (fun l (r : Record) =>
        Json.ofText l = .ok (.object (r.fields.map fun f => (f.1, f.2.toJson)))) lines
        [⟨[("a\n\"\\", .text "\x00\n\x7f/é😀\t"),
          ("", .integer (-9223372036854775808)), ("b", .null)]⟩, ⟨[]⟩, ⟨[("b", .text "")]⟩] := by
  exact write_decodes (ε := Unit) (by decide) (by decide)

end JsonLines

end SampleData
