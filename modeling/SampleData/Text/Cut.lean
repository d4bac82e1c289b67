/-!
# Cutting a text at a character

The first place where a character stands divides a text in two. Main statements: the two parts
with the character between them are the text, and the first part is free of it.
-/

namespace SampleData.Text

/-- The parts before and after the first `sep`, or nothing if it does not occur. -/
def cutAtFirst (sep : Char) : List Char → Option (List Char × List Char)
  | [] => none
  | c :: cs => if c = sep then some ([], cs) else (cutAtFirst sep cs).map fun p => (c :: p.1, p.2)

/-- A text is cut into two parts exactly when they give it back with the character between them, and
the part before the cut is free of it. -/
theorem cutAtFirst_eq_some_iff {sep : Char} {cs a b : List Char} :
    cutAtFirst sep cs = some (a, b) ↔ cs = a ++ sep :: b ∧ sep ∉ a := by
  induction cs generalizing a with
  | nil => simp [cutAtFirst]
  | cons c cs ih =>
    by_cases hc : c = sep
    · subst hc
      cases a with
      | nil => simp [cutAtFirst, eq_comm]
      | cons d a =>
        rw [cutAtFirst, if_pos rfl, List.mem_cons, not_or, List.cons_append, List.cons.injEq]
        exact iff_of_false nofun fun h => h.2.1 h.1.1
    · rw [cutAtFirst, if_neg hc, Option.map_eq_some_iff]
      cases a with
      | nil => simp [hc]
      | cons d a =>
        constructor
        · rintro ⟨⟨x, y⟩, hp, hxy⟩
          obtain ⟨hx, rfl⟩ := Prod.mk.inj hxy
          obtain ⟨rfl, rfl⟩ := List.cons.inj hx
          obtain ⟨rfl, hfree⟩ := ih.mp hp
          exact ⟨rfl, mt List.mem_cons.mp (not_or.mpr ⟨Ne.symm hc, hfree⟩)⟩
        · rintro ⟨hcs, hfree⟩
          obtain ⟨rfl, rfl⟩ := List.cons.inj hcs
          exact ⟨(a, b), ih.mpr ⟨rfl, mt (List.mem_cons_of_mem _) hfree⟩, rfl⟩

/-- The two parts give the text back. -/
theorem eq_append_of_cutAtFirst {sep : Char} {cs a b : List Char}
    (h : cutAtFirst sep cs = some (a, b)) : cs = a ++ sep :: b := (cutAtFirst_eq_some_iff.mp h).1

/-- The part before the cut is free of the character. -/
theorem not_mem_of_cutAtFirst {sep : Char} {cs a b : List Char}
    (h : cutAtFirst sep cs = some (a, b)) : sep ∉ a := (cutAtFirst_eq_some_iff.mp h).2

/-- A text that is free of the character before its first stand is cut there. -/
theorem cutAtFirst_append {sep : Char} {a b : List Char} (h : sep ∉ a) :
    cutAtFirst sep (a ++ sep :: b) = some (a, b) := cutAtFirst_eq_some_iff.mpr ⟨rfl, h⟩

/-- A text is not cut exactly when the character does not occur in it. -/
theorem cutAtFirst_eq_none_iff {sep : Char} {cs : List Char} :
    cutAtFirst sep cs = none ↔ sep ∉ cs := by
  induction cs with
  | nil => simp [cutAtFirst]
  | cons c cs ih =>
    by_cases hc : c = sep
    · simp [cutAtFirst, hc]
    · simp [cutAtFirst, hc, ih, Ne.symm hc]

/-- The part after the cut is shorter than the text. -/
theorem length_lt_of_cutAtFirst {sep : Char} {cs a b : List Char}
    (h : cutAtFirst sep cs = some (a, b)) : b.length < cs.length := by
  rw [eq_append_of_cutAtFirst h]
  simp only [List.length_append, List.length_cons]
  omega

/-- The text without `c` at its end, or nothing if it does not end so. -/
def stripLast (c : Char) (cs : List Char) : Option (List Char) :=
  match cs.reverse with
  | d :: r => if d = c then some r.reverse else none
  | [] => none

/-- A text loses its last character exactly when that is what it ends in. -/
theorem stripLast_eq_some_iff {c : Char} {cs r : List Char} :
    stripLast c cs = some r ↔ cs = r ++ [c] := by
  constructor
  · intro h
    unfold stripLast at h
    split at h
    · next d t ht =>
      split at h
      · next hd =>
        have h2 := Option.some.inj h
        rw [← List.reverse_reverse cs, ht, List.reverse_cons, h2, hd]
      · simp at h
    · simp at h
  · rintro rfl
    simp [stripLast]

/-- The text without `start` at its front, or nothing if it does not start so. -/
def stripStart : List Char → List Char → Option (List Char)
  | [], cs => some cs
  | _ :: _, [] => none
  | d :: start, c :: cs => if d = c then stripStart start cs else none

/-- A text loses its front exactly when that is what it starts with. -/
theorem stripStart_eq_some_iff {start cs r : List Char} :
    stripStart start cs = some r ↔ cs = start ++ r := by
  induction start generalizing cs with
  | nil => simp [stripStart]
  | cons d start ih =>
    cases cs with
    | nil => simp [stripStart]
    | cons c cs =>
      by_cases hd : d = c
      · simp [stripStart, hd, ih]
      · simp [stripStart, hd, Ne.symm hd]

end SampleData.Text
