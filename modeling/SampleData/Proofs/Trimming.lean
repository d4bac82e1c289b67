import SampleData.Text.Blank
import Mathlib.Data.List.TakeWhile

/-!
# Texts without blanks at their ends

Cutting the blanks from the ends of a text gives a text that starts and ends with no blank, and
such a text is what is left of it with any blanks around it.

* `isTrimmed_trimChars`: nothing is left to cut.
* `trimChars_of_isTrimmed`: a text without blanks at its ends stays as it is.
* `dropBlanks_append_left`, `dropBlanks_append_cons`: what is cut from the front.
-/

namespace SampleData.Text

/-- No blank stands at either end. -/
structure IsTrimmed (cs : List Char) : Prop where
  front : ∀ c ∈ cs.head?, isBlank c = false
  back : ∀ c ∈ cs.getLast?, isBlank c = false

/-- A text in which there is no blank has none at its ends. -/
theorem isTrimmed_of_forall {cs : List Char} (h : ∀ c ∈ cs, isBlank c = false) : IsTrimmed cs where
  front c hc := h c (List.mem_of_mem_head? hc)
  back c hc := h c (List.mem_of_mem_getLast? hc)

/-- A text between two characters that are no blanks. -/
theorem isTrimmed_between {c d : Char} (hc : isBlank c = false) (hd : isBlank d = false)
    (cs : List Char) : IsTrimmed (c :: (cs ++ [d])) where
  front _ h := Option.some.inj h ▸ hc
  back x h := by
    rw [← List.cons_append, List.getLast?_concat] at h
    exact Option.some.inj h ▸ hd

/-! ## The front -/

/-- Blanks in front of a text go with those it starts with. -/
theorem dropBlanks_append_left {l : List Char} (hl : ∀ c ∈ l, isBlank c = true) (cs : List Char) :
    dropBlanks (l ++ cs) = dropBlanks cs := List.dropWhile_append_of_pos hl

/-- A character that is no blank ends the front. -/
theorem dropBlanks_append_cons {c : Char} (hc : isBlank c = false) (cs rest : List Char) :
    dropBlanks (cs ++ c :: rest) = dropBlanks cs ++ c :: rest := by
  unfold dropBlanks
  rw [List.dropWhile_append]
  split
  · next hnil =>
    rw [List.isEmpty_iff.mp hnil, List.dropWhile_cons_of_neg (by rw [hc]; exact Bool.false_ne_true)]
    rfl
  · rfl

/-- From a text that starts with no blank nothing is cut. -/
theorem dropBlanks_of_front {cs : List Char} (h : ∀ c ∈ cs.head?, isBlank c = false) :
    dropBlanks cs = cs := by
  cases cs with
  | nil => rfl
  | cons c cs => exact dropBlanks_append_cons (h c rfl) [] cs

/-- What is cut from the front are blanks. -/
theorem exists_dropBlanks (cs : List Char) :
    ∃ l, (∀ c ∈ l, isBlank c = true) ∧ cs = l ++ dropBlanks cs :=
  ⟨cs.takeWhile isBlank, fun _ hc => List.mem_takeWhile_imp hc,
    List.takeWhile_append_dropWhile.symm⟩

/-- What is left starts with no blank. -/
theorem head?_dropBlanks (cs : List Char) : ∀ c ∈ (dropBlanks cs).head?, isBlank c = false := by
  intro c hc
  obtain ⟨r, hr⟩ := List.head?_eq_some_iff.mp hc
  exact dropBlanks_eq_cons hr

/-! ## Both ends -/

/-- Cutting the end is cutting the front of the text that runs backwards. -/
theorem dropBlanksEnd_of_back {cs : List Char} (h : ∀ c ∈ cs.getLast?, isBlank c = false) :
    dropBlanksEnd cs = cs := by
  rw [← List.head?_reverse] at h
  rw [dropBlanksEnd, dropBlanks_of_front h, List.reverse_reverse]

/-- A text without blanks at its ends stays as it is. -/
theorem trimChars_of_isTrimmed {cs : List Char} (h : IsTrimmed cs) : trimChars cs = cs := by
  rw [trimChars, dropBlanks_of_front h.front, dropBlanksEnd_of_back h.back]

/-- What is left after both ends are cut is the front of what is left after one is. -/
theorem trimChars_prefix_dropBlanks (cs : List Char) : trimChars cs <+: dropBlanks cs := by
  obtain ⟨l, -, hl⟩ := exists_dropBlanks (dropBlanks cs).reverse
  refine ⟨l.reverse, ?_⟩
  rw [trimChars, dropBlanksEnd, ← List.reverse_append, ← hl, List.reverse_reverse]

/-- Cutting the end leaves the first character where it is, or nothing. -/
theorem head?_trimChars {cs : List Char} {c : Char} (h : c ∈ (trimChars cs).head?) :
    c ∈ (dropBlanks cs).head? := by
  obtain ⟨t, ht⟩ := trimChars_prefix_dropBlanks cs
  rw [← ht, List.head?_append, Option.mem_def.mp h]
  rfl

/-- What is left after both ends are cut has no blanks at its ends. -/
theorem isTrimmed_trimChars (cs : List Char) : IsTrimmed (trimChars cs) where
  front c hc := head?_dropBlanks cs c (head?_trimChars hc)
  back c hc := by
    apply head?_dropBlanks (dropBlanks cs).reverse
    rwa [trimChars, dropBlanksEnd, List.getLast?_reverse] at hc

/-- A string without blanks at its ends stays as it is. -/
theorem trim_of_isTrimmed {s : String} (h : IsTrimmed s.toList) : trim s = s := by
  rw [trim, trimChars_of_isTrimmed h, String.ofList_toList]

/-- Nothing is left to cut from a string that was trimmed. -/
theorem isTrimmed_trim (s : String) : IsTrimmed (trim s).toList := by
  rw [trim, String.toList_ofList]
  exact isTrimmed_trimChars s.toList

end SampleData.Text
