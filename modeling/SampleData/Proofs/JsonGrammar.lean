import SampleData.Json.Document
import SampleData.Proofs.JsonStrings
import SampleData.Proofs.NumberLiterals

/-!
# The grammar of JSON text

The texts of a value are told without a reader: words, literals, strings between quotes, arrays and
objects whose parts are separated by commas, and blanks around every part. A reader takes a text
exactly if it is one of them, and makes of it what the builder makes of its parts; so a text that is
refused is none, whatever fault is told.

A number ends only where nothing stands with which it could go on, and the reader takes all blanks
that there are. So the texts of parts are read with something behind them that is no blank and goes
on with no number; and the reader's steps are counted against the characters.

* `Builder.Spells`: the texts of what is made of values.
* `Builder.accepts`: values, items and members are read, by induction on the steps.
* `Builder.ofText_of_spells`: a whole text.
-/

namespace SampleData.Json

open Text

/-! ## Blanks -/

/-- Nothing but blanks. -/
def IsSpaces (cs : List Char) : Prop := ∀ c ∈ cs, isSpace c = true

theorem isSpaces_nil : IsSpaces [] := nofun

/-- Nothing is skipped before what is no blank. -/
theorem skipSpace_cons {c : Char} (h : isSpace c = false) (cs : List Char) :
    skipSpace (c :: cs) = c :: cs := by
  rw [skipSpace, List.dropWhile_cons, h]
  rfl

/-- All blanks are skipped. -/
theorem skipSpace_append {bs : List Char} (h : IsSpaces bs) (cs : List Char) :
    skipSpace (bs ++ cs) = skipSpace cs :=
  List.dropWhile_append_of_pos h

/-- What is skipped are blanks. -/
theorem exists_skipSpace (cs : List Char) : ∃ bs, IsSpaces bs ∧ cs = bs ++ skipSpace cs :=
  ⟨cs.takeWhile isSpace, fun _ hc => List.mem_takeWhile_imp hc, List.takeWhile_append_dropWhile.symm⟩

/-- Once skipped there are none. -/
@[simp] theorem skipSpace_skipSpace (cs : List Char) : skipSpace (skipSpace cs) = skipSpace cs := by
  obtain ⟨bs, hbs, hcs⟩ := exists_skipSpace cs
  conv => rhs; rw [hcs, skipSpace_append hbs]

/-- No number goes on with a blank. -/
theorem IsSpaces.endsNumber {bs rest : List Char} (h : IsSpaces bs) (hrest : EndsNumber rest) :
    EndsNumber (bs ++ rest) := by
  cases bs with
  | nil => exact hrest
  | cons c bs =>
      have hc := h c List.mem_cons_self
      simp only [isSpace, Bool.or_eq_true, decide_eq_true_eq] at hc
      rintro c' hc'
      obtain rfl := Option.some.inj hc'
      rcases hc with ((rfl | rfl) | rfl) | rfl <;> decide

/-- Neither a number goes on here nor blanks. -/
structure Stops (rest : List Char) : Prop where
  ends : EndsNumber rest
  skip : skipSpace rest = rest

/-- What separates parts or closes them stops them. -/
theorem stops_of_mem {c : Char} (h : c ∈ [',', ']', '\x7d']) (rest : List Char) :
    Stops (c :: rest) := by
  rw [List.mem_cons, List.mem_cons, List.mem_singleton] at h
  refine ⟨?_, skipSpace_cons ?_ rest⟩
  · rintro c' hc'
    obtain rfl := Option.some.inj hc'
    rcases h with rfl | rfl | rfl <;> decide
  · rcases h with rfl | rfl | rfl <;> rfl

/-! ## The texts of values -/

namespace Builder

variable {κ α : Type} (b : Builder κ α)

mutual

/-- The texts of what the builder makes of a value, inside which at most `depth` arrays and objects
may stand. -/
inductive Spells : Option Nat → α → List Char → Prop
  | null {depth : Option Nat} : Spells depth b.null ['n', 'u', 'l', 'l']
  | yes {depth : Option Nat} : Spells depth (b.bool true) ['t', 'r', 'u', 'e']
  | no {depth : Option Nat} : Spells depth (b.bool false) ['f', 'a', 'l', 's', 'e']
  | number {depth : Option Nat} {l : NumberLiteral} {a : α} {cs : List Char} (h : l.Spells cs)
      (ha : b.number l = some a) : Spells depth a cs
  | text {depth : Option Nat} {s cs : List Char} {a : α} (h : SpellsChars s cs)
      (ha : b.text (.ok s) = .ok a) : Spells depth a ('"' :: (cs ++ ['"']))
  | emptyArray {depth depth' : Option Nat} {bs : List Char} (hdepth : inside depth = some depth')
      (h : IsSpaces bs) : Spells depth (b.array []) ('[' :: (bs ++ [']']))
  | array {depth depth' : Option Nat} {as : List α} {cs : List Char}
      (hdepth : inside depth = some depth') (h : SpellsItems depth' as cs) :
      Spells depth (b.array as) ('[' :: (cs ++ [']']))
  | emptyObject {depth depth' : Option Nat} {bs : List Char} (hdepth : inside depth = some depth')
      (h : IsSpaces bs) : Spells depth (b.object []) ('\x7b' :: (bs ++ ['\x7d']))
  | object {depth depth' : Option Nat} {ms : List (κ × α)} {cs : List Char}
      (hdepth : inside depth = some depth') (h : SpellsMembers depth' ms cs) :
      Spells depth (b.object ms) ('\x7b' :: (cs ++ ['\x7d']))

/-- The texts of a value with blanks around it. -/
inductive SpellsPart : Option Nat → α → List Char → Prop
  | mk {depth : Option Nat} {a : α} {bs cs bs' : List Char} (hbefore : IsSpaces bs)
      (h : Spells depth a cs) (hafter : IsSpaces bs') : SpellsPart depth a (bs ++ (cs ++ bs'))

/-- The texts of items, one at least, with commas between them. -/
inductive SpellsItems : Option Nat → List α → List Char → Prop
  | last {depth : Option Nat} {a : α} {cs : List Char} (h : SpellsPart depth a cs) :
      SpellsItems depth [a] cs
  | next {depth : Option Nat} {a : α} {as : List α} {cs more : List Char}
      (h : SpellsPart depth a cs) (hs : SpellsItems depth as more) :
      SpellsItems depth (a :: as) (cs ++ ',' :: more)

/-- The texts of a member: a key, a colon and a value, with blanks around each of them. -/
inductive SpellsMember : Option Nat → κ × α → List Char → Prop
  | mk {depth : Option Nat} {key : κ} {a : α} {k bs ks bs' cs : List Char} (hbefore : IsSpaces bs)
      (hk : SpellsChars k ks) (hkey : b.key (.ok k) = .ok key) (hafter : IsSpaces bs')
      (h : SpellsPart depth a cs) :
      SpellsMember depth (key, a) (bs ++ '"' :: (ks ++ '"' :: (bs' ++ ':' :: cs)))

/-- The texts of members, one at least, with commas between them. -/
inductive SpellsMembers : Option Nat → List (κ × α) → List Char → Prop
  | last {depth : Option Nat} {m : κ × α} {cs : List Char} (h : SpellsMember depth m cs) :
      SpellsMembers depth [m] cs
  | next {depth : Option Nat} {m : κ × α} {ms : List (κ × α)} {cs more : List Char}
      (h : SpellsMember depth m cs) (hs : SpellsMembers depth ms more) :
      SpellsMembers depth (m :: ms) (cs ++ ',' :: more)

end

end Builder

/-! ## First characters -/

/-- A character with which a value may begin. -/
def StartsValue (c : Char) : Prop :=
  c = 'n' ∨ c = 't' ∨ c = 'f' ∨ c = '"' ∨ c = '[' ∨ c = '\x7b' ∨ c = '-' ∨
    (digitValue? c).isSome

/-- A value begins with no blank, and with nothing that ends an array. -/
theorem StartsValue.not_end {c : Char} (h : StartsValue c) : isSpace c = false ∧ c ≠ ']' := by
  rcases h with rfl | rfl | rfl | rfl | rfl | rfl | rfl | hd
  any_goals decide
  constructor
  · by_contra hs
    simp only [isSpace, Bool.or_eq_true, decide_eq_true_eq, Bool.not_eq_false] at hs
    rcases hs with ((rfl | rfl) | rfl) | rfl <;> exact absurd hd (by decide)
  · rintro rfl
    exact absurd hd (by decide)

/-- A number begins with a sign or a digit. -/
theorem NumberLiteral.Spells.exists_cons {l : NumberLiteral} {cs : List Char} (h : l.Spells cs) :
    ∃ c cs', cs = c :: cs' ∧ (c = '-' ∨ (digitValue? c).isSome) := by
  cases h with
  | @mk negative _ _ _ _ _ hwhole _ _ _ =>
      cases negative with
      | true => exact ⟨'-', _, rfl, .inl rfl⟩
      | false =>
          obtain ⟨d, ds, rfl, hd⟩ := hwhole.exists_cons
          exact ⟨digitChar d, _, rfl, .inr (hd ▸ rfl)⟩

namespace Builder

variable {κ α : Type} {b : Builder κ α} {depth : Option Nat} {a : α} {as : List α}
  {ms : List (κ × α)} {cs : List Char}

/-- A value begins as values do. -/
theorem Spells.exists_cons (h : b.Spells depth a cs) : ∃ c cs', cs = c :: cs' ∧ StartsValue c := by
  cases h with
  | null => exact ⟨'n', _, rfl, .inl rfl⟩
  | yes => exact ⟨'t', _, rfl, .inr (.inl rfl)⟩
  | no => exact ⟨'f', _, rfl, .inr (.inr (.inl rfl))⟩
  | number h =>
      obtain ⟨c, cs', rfl, hc⟩ := h.exists_cons
      exact ⟨c, cs', rfl, .inr (.inr (.inr (.inr (.inr (.inr hc)))))⟩
  | text => exact ⟨'"', _, rfl, .inr (.inr (.inr (.inl rfl)))⟩
  | emptyArray | array => exact ⟨'[', _, rfl, .inr (.inr (.inr (.inr (.inl rfl))))⟩
  | emptyObject | object => exact ⟨'\x7b', _, rfl, .inr (.inr (.inr (.inr (.inr (.inl rfl)))))⟩

/-- Behind blanks a part begins as values do. -/
theorem SpellsPart.exists_cons (h : b.SpellsPart depth a cs) (rest : List Char) :
    ∃ c cs', skipSpace (cs ++ rest) = c :: cs' ∧ StartsValue c := by
  cases h with
  | mk hbefore h _ =>
      obtain ⟨c, cs', rfl, hc⟩ := h.exists_cons
      rw [List.append_assoc, skipSpace_append hbefore]
      exact ⟨c, _, skipSpace_cons hc.not_end.1 _, hc⟩

/-- So do items. -/
theorem SpellsItems.exists_cons (h : b.SpellsItems depth as cs) (rest : List Char) :
    ∃ c cs', skipSpace (cs ++ rest) = c :: cs' ∧ StartsValue c := by
  cases h with
  | last h => exact h.exists_cons rest
  | next h _ =>
      rw [List.append_assoc]
      exact h.exists_cons _

/-- Behind blanks a member begins with a quote. -/
theorem SpellsMember.exists_cons {m : κ × α} (h : b.SpellsMember depth m cs) (rest : List Char) :
    ∃ cs', skipSpace (cs ++ rest) = '"' :: cs' := by
  cases h with
  | mk hbefore _ _ _ _ =>
      rw [List.append_assoc, skipSpace_append hbefore]
      exact ⟨_, skipSpace_cons (by decide) _⟩

/-- So do members. -/
theorem SpellsMembers.exists_cons (h : b.SpellsMembers depth ms cs) (rest : List Char) :
    ∃ cs', skipSpace (cs ++ rest) = '"' :: cs' := by
  cases h with
  | last h => exact h.exists_cons rest
  | next h _ =>
      rw [List.append_assoc]
      exact h.exists_cons _

/-! ## Texts without blanks -/

/-- No blanks stand around a value. -/
theorem Spells.part (h : b.Spells depth a cs) : b.SpellsPart depth a cs := by
  have hcs : [] ++ (cs ++ []) = cs := by rw [List.nil_append, List.append_nil]
  exact hcs ▸ .mk isSpaces_nil h isSpaces_nil

/-- No blanks stand in a member. -/
theorem Spells.member {key : κ} {k ks : List Char} (hk : SpellsChars k ks)
    (hkey : b.key (.ok k) = .ok key) (h : b.Spells depth a cs) :
    b.SpellsMember depth (key, a) ('"' :: (ks ++ '"' :: ':' :: cs)) := by
  have hm := SpellsMember.mk isSpaces_nil hk hkey isSpaces_nil h.part
  exact hm

/-! ## Reading one part -/

variable (b) {steps : Nat} {depth' : Option Nat} {key : κ} {rest more after : List Char}

/-- Blanks before a value do not matter. -/
@[simp] theorem readValue_skipSpace (steps : Nat) (depth : Option Nat) (cs : List Char) :
    b.readValue steps depth (skipSpace cs) = b.readValue steps depth cs := by
  cases steps with
  | zero => rfl
  | succ steps =>
      unfold readValue
      rw [skipSpace_skipSpace]

/-- A number is read as what is made of its literal. -/
theorem readValue_number {l : NumberLiteral} (h : l.Spells cs) (ha : b.number l = some a)
    (hrest : EndsNumber rest) : b.readValue (steps + 1) depth (cs ++ rest) = .ok (a, rest) := by
  have hread := h.readNumber_append hrest
  obtain ⟨c, cs', rfl, hc⟩ := h.exists_cons
  rw [List.cons_append] at hread ⊢
  have hstart : StartsValue c := .inr (.inr (.inr (.inr (.inr (.inr hc)))))
  have hne : ∀ c' ∈ ['n', 't', 'f', '"', '[', '\x7b'], c ≠ c' := by
    rintro c' hc' rfl
    rcases hc with rfl | hd
    · exact absurd hc' (by decide)
    · have hnone : digitValue? c = none := by
        simp only [List.mem_cons, List.not_mem_nil, or_false] at hc'
        rcases hc' with rfl | rfl | rfl | rfl | rfl | rfl <;> rfl
      rw [hnone] at hd
      cases hd
  have hother : b.readOther (c :: (cs' ++ rest)) = .ok (a, rest) := by
    have hc' : (c = '-' || (digitValue? c).isSome) = true := by
      rcases hc with rfl | hd
      · rfl
      · rw [hd, Bool.or_true]
    simp only [readOther, hc', if_true, hread, ha, bind, Except.bind, pure, Except.pure]
  unfold readValue
  rw [skipSpace_cons hstart.not_end.1]
  split
  all_goals first
    | (next heq => exact absurd (List.cons.inj heq).1 (hne _ (by decide)))
    | exact hother

/-- A string is read as what is made of its characters. -/
theorem readValue_text {s : List Char} (h : SpellsChars s cs) (ha : b.text (.ok s) = .ok a)
    (rest : List Char) :
    b.readValue (steps + 1) depth ('"' :: (cs ++ '"' :: rest)) = .ok (a, rest) := by
  unfold readValue
  rw [skipSpace_cons (by decide)]
  simp only [readText, h.readString_append, ha, bind, Except.bind, pure, Except.pure]

/-- A key is read with the colon behind it. -/
theorem readKey_append {k ks bs : List Char} (hk : SpellsChars k ks)
    (hkey : b.key (.ok k) = .ok key) (h : IsSpaces bs) (rest : List Char) :
    b.readKey (ks ++ '"' :: (bs ++ ':' :: rest)) = .ok (key, rest) := by
  unfold readKey
  simp only [hk.readString_append, hkey, bind, Except.bind, pure, Except.pure]
  rw [skipSpace_append h, skipSpace_cons (by decide)]
  rfl

/-- The item an array ends with. -/
theorem readItems_last (h : b.readValue steps depth cs = .ok (a, more))
    (hmore : skipSpace more = ']' :: rest) :
    b.readItems (steps + 1) depth cs = .ok ([a], rest) := by
  unfold readItems
  simp only [h, hmore, bind, Except.bind]
  rfl

/-- An item with others behind it. -/
theorem readItems_next (h : b.readValue steps depth cs = .ok (a, more))
    (hmore : skipSpace more = ',' :: after)
    (hstart : ∃ c cs', skipSpace after = c :: cs' ∧ StartsValue c)
    (hafter : b.readItems steps depth (skipSpace after) = .ok (as, rest)) :
    b.readItems (steps + 1) depth cs = .ok (a :: as, rest) := by
  obtain ⟨c, cs', hcs', hc⟩ := hstart
  unfold readItems
  simp only [h, hmore, bind, Except.bind]
  split
  · next heq =>
    rw [hcs'] at heq
    exact absurd (List.cons.inj heq).1 hc.not_end.2
  · rw [hafter]
    rfl

/-- The member an object ends with. -/
theorem readMembers_last (hkey : b.readKey cs = .ok (key, after))
    (h : b.readValue steps depth after = .ok (a, more)) (hmore : skipSpace more = '\x7d' :: rest) :
    b.readMembers (steps + 1) depth ('"' :: cs) = .ok ([(key, a)], rest) := by
  unfold readMembers
  simp only [hkey, h, hmore, bind, Except.bind]
  rfl

/-- A member with others behind it. -/
theorem readMembers_next {others : List Char} (hkey : b.readKey cs = .ok (key, after))
    (h : b.readValue steps depth after = .ok (a, more)) (hmore : skipSpace more = ',' :: others)
    (hstart : ∃ cs', skipSpace others = '"' :: cs')
    (hothers : b.readMembers steps depth (skipSpace others) = .ok (ms, rest)) :
    b.readMembers (steps + 1) depth ('"' :: cs) = .ok ((key, a) :: ms, rest) := by
  obtain ⟨cs', hcs'⟩ := hstart
  rw [hcs'] at hothers
  unfold readMembers
  simp only [hkey, h, hmore, hcs', bind, Except.bind]
  show (b.readMembers steps depth ('"' :: cs')).map (fun p => ((key, a) :: p.1, p.2)) = _
  rw [hothers]
  rfl

/-- An array without items. -/
theorem readValue_emptyArray (hdepth : inside depth = some depth') {bs : List Char}
    (h : IsSpaces bs) (rest : List Char) :
    b.readValue (steps + 1) depth ('[' :: (bs ++ ']' :: rest)) = .ok (b.array [], rest) := by
  unfold readValue
  rw [skipSpace_cons (by decide)]
  simp only [hdepth]
  rw [skipSpace_append h, skipSpace_cons (by decide)]
  rfl

/-- An array with items. -/
theorem readValue_array (hdepth : inside depth = some depth')
    (hstart : ∃ c cs', skipSpace cs = c :: cs' ∧ StartsValue c)
    (h : b.readItems steps depth' (skipSpace cs) = .ok (as, rest)) :
    b.readValue (steps + 1) depth ('[' :: cs) = .ok (b.array as, rest) := by
  obtain ⟨c, cs', hcs', hc⟩ := hstart
  rw [hcs'] at h
  unfold readValue
  rw [skipSpace_cons (by decide)]
  simp only [hdepth, hcs']
  split
  · next heq => cases heq
  · next heq => exact absurd (List.cons.inj heq).1 hc.not_end.2
  · rw [h]
    rfl

/-- An object without members. -/
theorem readValue_emptyObject (hdepth : inside depth = some depth') {bs : List Char}
    (h : IsSpaces bs) (rest : List Char) :
    b.readValue (steps + 1) depth ('\x7b' :: (bs ++ '\x7d' :: rest)) = .ok (b.object [], rest) := by
  unfold readValue
  rw [skipSpace_cons (by decide)]
  simp only [hdepth]
  rw [skipSpace_append h, skipSpace_cons (by decide)]
  rfl

/-- An object with members. -/
theorem readValue_object (hdepth : inside depth = some depth')
    (hstart : ∃ cs', skipSpace cs = '"' :: cs')
    (h : b.readMembers steps depth' (skipSpace cs) = .ok (ms, rest)) :
    b.readValue (steps + 1) depth ('\x7b' :: cs) = .ok (b.object ms, rest) := by
  obtain ⟨cs', hcs'⟩ := hstart
  rw [hcs'] at h
  unfold readValue
  rw [skipSpace_cons (by decide)]
  simp only [hdepth, hcs']
  show (b.readMembers steps depth' ('"' :: cs')).map
    (fun p : List (κ × α) × List Char => (b.object p.1, p.2)) = _
  rw [h]
  rfl

/-! ## Reading all parts -/

/-- With so many steps the texts of values, items and members are read, if there are two steps for
each character. Items and members are read behind the blanks before the first of them. -/
structure Accepts (steps : Nat) : Prop where
  value : ∀ {depth a cs rest}, b.Spells depth a cs → 2 * cs.length ≤ steps → EndsNumber rest →
    b.readValue steps depth (cs ++ rest) = .ok (a, rest)
  items : ∀ {depth as cs}, b.SpellsItems depth as cs → 2 * cs.length + 1 ≤ steps → ∀ rest,
    b.readItems steps depth (skipSpace (cs ++ ']' :: rest)) = .ok (as, rest)
  members : ∀ {depth ms cs}, b.SpellsMembers depth ms cs → 2 * cs.length + 1 ≤ steps → ∀ rest,
    b.readMembers steps depth (skipSpace (cs ++ '\x7d' :: rest)) = .ok (ms, rest)

variable {b}

namespace Accepts

/-- A value with blanks around it, before something that is no blank. -/
theorem part (ih : b.Accepts steps) (h : b.SpellsPart depth a cs) (hsteps : 2 * cs.length ≤ steps)
    (hrest : Stops rest) :
    ∃ more, b.readValue steps depth (cs ++ rest) = .ok (a, more) ∧ skipSpace more = rest := by
  cases h with
  | @mk _ _ bs cs bs' hbefore h hafter =>
      simp only [List.length_append] at hsteps
      obtain ⟨c, cs', hcs, hc⟩ := h.exists_cons
      have hskip : skipSpace (cs ++ (bs' ++ rest)) = cs ++ (bs' ++ rest) := by
        rw [hcs]
        exact skipSpace_cons hc.not_end.1 _
      refine ⟨bs' ++ rest, ?_, by rw [skipSpace_append hafter, hrest.skip]⟩
      rw [List.append_assoc, List.append_assoc, ← b.readValue_skipSpace, skipSpace_append hbefore,
        hskip]
      exact ih.value h (by omega) (hafter.endsNumber hrest.ends)

theorem value_succ (ih : b.Accepts steps) (h : b.Spells depth a cs)
    (hsteps : 2 * cs.length ≤ steps + 1) (hrest : EndsNumber rest) :
    b.readValue (steps + 1) depth (cs ++ rest) = .ok (a, rest) := by
  cases h with
  | null | yes | no =>
      rw [List.cons_append]
      unfold readValue
      rw [skipSpace_cons (by decide)]
      rfl
  | number h ha => exact b.readValue_number h ha hrest
  | text h ha =>
      rw [List.cons_append, List.append_assoc]
      exact b.readValue_text h ha rest
  | emptyArray hdepth h =>
      rw [List.cons_append, List.append_assoc]
      exact b.readValue_emptyArray hdepth h rest
  | array hdepth h =>
      simp only [List.length_cons, List.length_append] at hsteps
      rw [List.cons_append, List.append_assoc]
      exact b.readValue_array hdepth (h.exists_cons _) (ih.items h (by omega) rest)
  | emptyObject hdepth h =>
      rw [List.cons_append, List.append_assoc]
      exact b.readValue_emptyObject hdepth h rest
  | object hdepth h =>
      simp only [List.length_cons, List.length_append] at hsteps
      rw [List.cons_append, List.append_assoc]
      exact b.readValue_object hdepth (h.exists_cons _) (ih.members h (by omega) rest)

theorem items_succ (ih : b.Accepts steps) (h : b.SpellsItems depth as cs)
    (hsteps : 2 * cs.length + 1 ≤ steps + 1) (rest : List Char) :
    b.readItems (steps + 1) depth (skipSpace (cs ++ ']' :: rest)) = .ok (as, rest) := by
  cases h with
  | last h =>
      obtain ⟨more, hread, hmore⟩ := ih.part h (by omega)
        (stops_of_mem (c := ']') (by decide) rest)
      rw [← b.readValue_skipSpace] at hread
      exact b.readItems_last hread hmore
  | @next _ _ _ cs others h hs =>
      simp only [List.length_append, List.length_cons] at hsteps
      obtain ⟨more, hread, hmore⟩ := ih.part h (by omega)
        (stops_of_mem (c := ',') (by decide) (others ++ ']' :: rest))
      rw [← b.readValue_skipSpace] at hread
      rw [List.append_assoc]
      exact b.readItems_next hread hmore (hs.exists_cons _) (ih.items hs (by omega) rest)

theorem members_succ (ih : b.Accepts steps) (h : b.SpellsMembers depth ms cs)
    (hsteps : 2 * cs.length + 1 ≤ steps + 1) (rest : List Char) :
    b.readMembers (steps + 1) depth (skipSpace (cs ++ '\x7d' :: rest)) = .ok (ms, rest) := by
  cases h with
  | last h =>
      cases h with
      | @mk _ _ _ _ bs ks bs' vs hbefore hk hkey hafter h =>
          simp only [List.length_append, List.length_cons] at hsteps
          obtain ⟨more, hread, hmore⟩ := ih.part h (by omega)
            (stops_of_mem (c := '\x7d') (by decide) rest)
          rw [List.append_assoc, skipSpace_append hbefore, List.cons_append,
            skipSpace_cons (by decide)]
          simp only [List.append_assoc, List.cons_append]
          exact b.readMembers_last (readKey_append b hk hkey hafter _) hread hmore
  | @next _ _ _ _ others h hs =>
      cases h with
      | @mk _ _ _ _ bs ks bs' vs hbefore hk hkey hafter h =>
          simp only [List.length_append, List.length_cons] at hsteps
          obtain ⟨more, hread, hmore⟩ := ih.part h (by omega)
            (stops_of_mem (c := ',') (by decide) (others ++ '\x7d' :: rest))
          rw [List.append_assoc, List.append_assoc, skipSpace_append hbefore, List.cons_append,
            skipSpace_cons (by decide)]
          simp only [List.append_assoc, List.cons_append]
          exact b.readMembers_next (readKey_append b hk hkey hafter _) hread hmore
            (hs.exists_cons _) (ih.members hs (by omega) rest)

end Accepts

/-- **The texts of the grammar are read**, with however many steps that are enough. -/
theorem accepts (steps : Nat) : b.Accepts steps := by
  induction steps with
  | zero =>
      refine ⟨fun h hsteps _ => ?_, fun _ hsteps => ?_, fun _ hsteps => ?_⟩
      · obtain ⟨c, cs', rfl, -⟩ := h.exists_cons
        simp at hsteps
      · omega
      · omega
  | succ steps ih => exact ⟨ih.value_succ, ih.items_succ, ih.members_succ⟩

/-- A whole text of the grammar is read. -/
theorem ofText_of_spells {text : String} (h : b.SpellsPart b.depth a text.toList) :
    b.ofText text = .ok a := by
  have hstops : Stops [] := ⟨nofun, rfl⟩
  obtain ⟨more, hread, hmore⟩ := (accepts (2 * text.toList.length + 2)).part h (by omega) hstops
  rw [List.append_nil] at hread
  unfold ofText readAll
  simp only [hread, hmore, bind, Except.bind]
  rfl

end Builder

end SampleData.Json
