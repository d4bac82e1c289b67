import SampleData.Proofs.JsonGrammar
import Mathlib.Data.List.Forall2

/-!
# JSON text read back

A value that is written is read as what the builder makes of it, whichever the builder is: values
and the form of a text are two cases of one theorem. Doubles are left out; their text is one of
many with the same worth.

* `Builder.make?`: what a builder makes of a value.
* `Builder.spells_chars`: what is written is a text of that, by recursion over the value.
* `Builder.ofText_render`: a whole text.
* `ofText_render_object`: an object of values that are read as they are.
* `lineFeed_not_mem_chars`: a value is written on one line.
-/

namespace SampleData.Json

open Text

/-! ## What is made of a value -/

namespace Builder

variable {κ α : Type} (b : Builder κ α)

mutual

/-- What the builder makes of a value inside which at most `depth` arrays and objects stand. -/
def make? (depth : Option Nat) : Json → Option α
  | .null => some b.null
  | .bool v => some (b.bool v)
  | .integer n => b.number (.ofInt n)
  | .double _ => none
  | .text s => (b.text (.ok s.toList)).toOption
  | .array items =>
    match inside depth with
    | none => none
    | some depth => (makeItems? depth items).map b.array
  | .object members =>
    match inside depth with
    | none => none
    | some depth => (makeMembers? depth members).map b.object

/-- What the builder makes of the items of an array. -/
def makeItems? (depth : Option Nat) : List Json → Option (List α)
  | [] => some []
  | x :: xs =>
    match make? depth x with
    | none => none
    | some a => (makeItems? depth xs).map (a :: ·)

/-- What the builder makes of the members of an object. -/
def makeMembers? (depth : Option Nat) : List (String × Json) → Option (List (κ × α))
  | [] => some []
  | (k, x) :: ms =>
    match (b.key (.ok k.toList)).toOption, make? depth x with
    | some key, some a => (makeMembers? depth ms).map ((key, a) :: ·)
    | _, _ => none

end

end Builder

/-! ## The characters of a value -/

/-- The characters of a value. -/
def chars (x : Json) : List Char := charsOf (pieces x)

/-- The characters of items, a comma between each two. -/
def charsOfItems (xs : List Json) : List Char := charsOf (separated (piecesOfItems xs))

/-- The characters of a member. -/
def charsOfMember (m : String × Json) : List Char :=
  charsOf (stringPieces m.1) ++ ':' :: chars m.2

theorem charsOfMember_eq (m : String × Json) :
    charsOfMember m = '"' :: (m.1.toList.flatMap writtenChar ++ '"' :: ':' :: chars m.2) := by
  rw [charsOfMember, charsOf_stringPieces, List.cons_append, List.append_assoc]
  rfl

/-- The characters of members, a comma between each two. -/
def charsOfMembers (ms : List (String × Json)) : List Char :=
  charsOf (separated ((piecesOfMembers ms).map fun m => stringPieces m.1 ++ ":" :: m.2))

@[simp] theorem chars_array (xs : List Json) :
    chars (.array xs) = '[' :: (charsOfItems xs ++ [']']) := by
  simp [chars, pieces, arrayPieces, charsOfItems]

@[simp] theorem chars_object (ms : List (String × Json)) :
    chars (.object ms) = '\x7b' :: (charsOfMembers ms ++ ['\x7d']) := by
  simp [chars, pieces, objectPieces, charsOfMembers]

@[simp] theorem charsOfItems_singleton (x : Json) : charsOfItems [x] = chars x := by
  simp [charsOfItems, piecesOfItems, separated, chars]

@[simp] theorem charsOfItems_cons_cons (x y : Json) (xs : List Json) :
    charsOfItems (x :: y :: xs) = chars x ++ ',' :: charsOfItems (y :: xs) := by
  simp [charsOfItems, piecesOfItems, separated, chars]

@[simp] theorem charsOfMembers_singleton (m : String × Json) :
    charsOfMembers [m] = charsOfMember m := by
  simp [charsOfMembers, piecesOfMembers, separated, charsOfMember, chars]

@[simp] theorem charsOfMembers_cons_cons (m n : String × Json) (ms : List (String × Json)) :
    charsOfMembers (m :: n :: ms) = charsOfMember m ++ ',' :: charsOfMembers (n :: ms) := by
  simp [charsOfMembers, piecesOfMembers, separated, charsOfMember, chars]

/-! ## Made one by one -/

namespace Builder

variable {κ α : Type} (b : Builder κ α)

/-- What is made of items and of the first of them. -/
theorem makeItems?_cons {depth : Option Nat} {x : Json} {xs : List Json} {as : List α}
    (h : b.makeItems? depth (x :: xs) = some as) :
    ∃ a as', b.make? depth x = some a ∧ b.makeItems? depth xs = some as' ∧ as = a :: as' := by
  rw [makeItems?] at h
  split at h
  · cases h
  · next a ha =>
    obtain ⟨as', has, rfl⟩ := Option.map_eq_some_iff.mp h
    exact ⟨a, as', ha, has, rfl⟩

/-- What is made of members and of the first of them. -/
theorem makeMembers?_cons {depth : Option Nat} {m : String × Json} {ms : List (String × Json)}
    {as : List (κ × α)} (h : b.makeMembers? depth (m :: ms) = some as) :
    ∃ key a as', b.key (.ok m.1.toList) = .ok key ∧ b.make? depth m.2 = some a ∧
      b.makeMembers? depth ms = some as' ∧ as = (key, a) :: as' := by
  obtain ⟨k, x⟩ := m
  rw [makeMembers?] at h
  split at h
  · next key a hk ha =>
    obtain ⟨as', has, rfl⟩ := Option.map_eq_some_iff.mp h
    refine ⟨key, a, as', ?_, ha, has, rfl⟩
    cases hkey : b.key (.ok k.toList) with
    | error e => rw [hkey] at hk; cases hk
    | ok key' => rw [hkey] at hk; exact congrArg Except.ok (Option.some.inj hk)
  · cases h

/-- Items are made one by one. -/
theorem makeItems?_of_forall₂ {depth : Option Nat} {xs : List Json} {as : List α}
    (h : List.Forall₂ (fun x a => b.make? depth x = some a) xs as) :
    b.makeItems? depth xs = some as := by
  induction h with
  | nil => rfl
  | cons hx _ ih =>
      rw [makeItems?, hx, ih]
      rfl

/-- Members are made one by one, of what is made of the key and of the value. -/
theorem makeMembers?_of_forall₂ {depth : Option Nat} {ms : List (String × Json)}
    {es : List (κ × α)}
    (h : List.Forall₂ (fun m e => b.key (.ok m.1.toList) = .ok e.1 ∧
      b.make? depth m.2 = some e.2) ms es) : b.makeMembers? depth ms = some es := by
  induction h with
  | nil => rfl
  | cons hm _ ih =>
      obtain ⟨hkey, hvalue⟩ := hm
      rw [makeMembers?, hkey, hvalue, ih]
      rfl

/-! ## Reading what is written -/

mutual

/-- **What is written for a value is a text of what the builder makes of it.** The recursion is over
the value. -/
theorem spells_chars : ∀ (x : Json) {depth : Option Nat} {a : α},
    b.make? depth x = some a → b.Spells depth a (chars x)
  | .null, _, _, h => by
      obtain rfl := Option.some.inj h
      exact .null
  | .bool true, _, _, h => by
      obtain rfl := Option.some.inj h
      exact .yes
  | .bool false, _, _, h => by
      obtain rfl := Option.some.inj h
      exact .no
  | .integer n, _, _, h => by
      have hchars : chars (.integer n) = intDigits n := by simp [chars, pieces, showInt]
      rw [hchars]
      exact .number (NumberLiteral.spells_ofInt n) h
  | .double t, _, _, h => by simp [make?] at h
  | .text s, _, _, h => by
      have hchars : chars (.text s) = _ := charsOf_stringPieces s
      rw [hchars]
      refine .text (spellsChars_written _) ?_
      rw [make?] at h
      cases ht : b.text (.ok s.toList) with
      | error e => rw [ht] at h; cases h
      | ok a' => rw [ht] at h; exact congrArg Except.ok (Option.some.inj h)
  | .array xs, depth, _, h => by
      rw [make?] at h
      rw [chars_array]
      cases hd : inside depth with
      | none => rw [hd] at h; cases h
      | some depth' =>
          rw [hd] at h
          obtain ⟨as, has, rfl⟩ := Option.map_eq_some_iff.mp h
          cases xs with
          | nil =>
              obtain rfl := Option.some.inj has
              exact .emptyArray hd isSpaces_nil
          | cons x xs => exact .array hd (spellsItems_chars (x :: xs) (List.cons_ne_nil x xs) has)
  | .object ms, depth, _, h => by
      rw [make?] at h
      rw [chars_object]
      cases hd : inside depth with
      | none => rw [hd] at h; cases h
      | some depth' =>
          rw [hd] at h
          obtain ⟨as, has, rfl⟩ := Option.map_eq_some_iff.mp h
          cases ms with
          | nil =>
              obtain rfl := Option.some.inj has
              exact .emptyObject hd isSpaces_nil
          | cons m ms => exact .object hd (spellsMembers_chars (m :: ms) (List.cons_ne_nil m ms) has)

/-- So it is with items. -/
theorem spellsItems_chars : ∀ (xs : List Json) {depth : Option Nat} {as : List α}, xs ≠ [] →
    b.makeItems? depth xs = some as → b.SpellsItems depth as (charsOfItems xs)
  | [], _, _, hne, _ => absurd rfl hne
  | [x], _, _, _, h => by
      obtain ⟨a, as', ha, has, rfl⟩ := b.makeItems?_cons h
      obtain rfl := Option.some.inj has
      rw [charsOfItems_singleton]
      exact .last (spells_chars x ha).part
  | x :: y :: ys, _, _, _, h => by
      obtain ⟨a, as', ha, has, rfl⟩ := b.makeItems?_cons h
      rw [charsOfItems_cons_cons]
      exact .next (spells_chars x ha).part (spellsItems_chars (y :: ys) (List.cons_ne_nil y ys) has)

/-- So it is with members. -/
theorem spellsMembers_chars : ∀ (ms : List (String × Json)) {depth : Option Nat}
    {as : List (κ × α)}, ms ≠ [] → b.makeMembers? depth ms = some as →
      b.SpellsMembers depth as (charsOfMembers ms)
  | [], _, _, hne, _ => absurd rfl hne
  | [(k, x)], _, _, _, h => by
      obtain ⟨key, a, as', hkey, ha, has, rfl⟩ := b.makeMembers?_cons h
      obtain rfl := Option.some.inj has
      rw [charsOfMembers_singleton, charsOfMember_eq]
      exact .last ((spells_chars x ha).member (spellsChars_written _) hkey)
  | (k, x) :: n :: ns, _, _, _, h => by
      obtain ⟨key, a, as', hkey, ha, has, rfl⟩ := b.makeMembers?_cons h
      rw [charsOfMembers_cons_cons, charsOfMember_eq]
      exact .next ((spells_chars x ha).member (spellsChars_written _) hkey)
        (spellsMembers_chars (n :: ns) (List.cons_ne_nil n ns) has)

end

/-- The text of a value is read as what the builder makes of the value. -/
theorem ofText_render {x : Json} {a : α} (h : b.make? b.depth x = some a) :
    b.ofText x.render = .ok a := by
  have hchars : x.render.toList = chars x := String.toList_join
  exact b.ofText_of_spells (hchars ▸ (b.spells_chars x h).part)

end Builder

/-! ## Values as they are -/

/-- A string is made as it is. -/
@[simp] theorem make?_text (depth : Option Nat) (s : String) :
    values.make? depth (.text s) = some (.text s) := by
  show some (Json.text (String.ofList s.toList)) = some (Json.text s)
  rw [String.ofList_toList]

/-- Members of values that are made as they are. -/
theorem makeMembers?_self {depth : Option Nat} {ms : List (String × Json)}
    (h : ∀ m ∈ ms, values.make? depth m.2 = some m.2) : values.makeMembers? depth ms = some ms := by
  refine values.makeMembers?_of_forall₂ (List.forall₂_same.mpr fun m hm => ⟨?_, h m hm⟩)
  show Except.ok (String.ofList m.1.toList) = Except.ok m.1
  rw [String.ofList_toList]

/-- The text of an object is read as the object with each key once, if the values are made as they
are one level down. -/
theorem ofText_render_object {ms : List (String × Json)}
    (h : ∀ m ∈ ms, values.make? (some (maxDepth - 1)) m.2 = some m.2) :
    ofText (render (.object ms)) = .ok (.object (Members.settle ms)) := by
  apply values.ofText_render
  show (values.makeMembers? (some (maxDepth - 1)) ms).map
    (fun ms => Json.object (Members.settle ms)) = _
  rw [makeMembers?_self h]
  rfl

/-! ## Lines -/

/-- A numeral has no line feed. -/
theorem lineFeed_not_mem_natDigits (n : Nat) : '\n' ∉ natDigits n := by
  intro h
  exact absurd (digitValue?_of_mem_natDigits h) (by decide)

/-- A double is written without a line feed, in either notation. -/
theorem lineFeed_not_mem_doubleText (x : Binary64) : '\n' ∉ (doubleText x).toList := by
  have hpoint : ∀ (n k : Nat), '\n' ∉ withPoint (natDigits n) k := by
    intro n k h
    rcases List.mem_append.mp h with h | h
    · exact lineFeed_not_mem_natDigits n (List.mem_of_mem_take h)
    · rcases List.mem_cons.mp h with h | h
      · exact absurd h (by decide)
      · exact lineFeed_not_mem_natDigits n (List.mem_of_mem_drop h)
  have hdecimal : ∀ v, '\n' ∉ decimalText doubleFormat v := by
    intro v h
    unfold decimalText at h
    have hdigits := lineFeed_not_mem_natDigits v.digits
    have hexponent := lineFeed_not_mem_natDigits v.exponent.natAbs
    have h0 := hpoint v.digits 1
    have h1 := hpoint v.digits (v.exponent.toNat + 1)
    split at h
    · split at h
      · simp_all
      · split at h <;> simp_all
    · split at h <;> split at h <;> simp_all
  unfold doubleText
  split
  · decide
  · intro h
    rw [String.toList_ofList] at h
    split at h
    · rcases List.mem_cons.mp h with h | h
      · exact absurd h (by decide)
      · exact hdecimal _ h
    · exact hdecimal _ h

/-- A whole number is written without a line feed. -/
theorem lineFeed_not_mem_intDigits (n : Int) : '\n' ∉ intDigits n := by
  unfold intDigits
  split
  · intro h
    rcases List.mem_cons.mp h with h | h
    · exact absurd h (by decide)
    · exact lineFeed_not_mem_natDigits _ h
  · exact lineFeed_not_mem_natDigits _

mutual

/-- A value is written on one line. -/
theorem lineFeed_not_mem_chars : ∀ x : Json, '\n' ∉ chars x
  | .null => by decide
  | .bool true => by decide
  | .bool false => by decide
  | .integer n => by
      have hchars : chars (.integer n) = intDigits n := by simp [chars, pieces, showInt]
      rw [hchars]
      exact lineFeed_not_mem_intDigits n
  | .double x => by
      have hchars : chars (.double x) = (doubleText x).toList := by simp [chars, pieces]
      rw [hchars]
      exact lineFeed_not_mem_doubleText x
  | .text s => lineFeed_not_mem_stringPieces s
  | .array xs => by
      rw [chars_array]
      simpa using lineFeed_not_mem_charsOfItems xs
  | .object ms => by
      rw [chars_object]
      simpa using lineFeed_not_mem_charsOfMembers ms

/-- Items are written on one line. -/
theorem lineFeed_not_mem_charsOfItems : ∀ xs : List Json, '\n' ∉ charsOfItems xs
  | [] => by decide
  | [x] => by
      rw [charsOfItems_singleton]
      exact lineFeed_not_mem_chars x
  | x :: y :: xs => by
      have hx := lineFeed_not_mem_chars x
      have hxs := lineFeed_not_mem_charsOfItems (y :: xs)
      rw [charsOfItems_cons_cons]
      simp [hx, hxs]

/-- Members are written on one line. -/
theorem lineFeed_not_mem_charsOfMembers : ∀ ms : List (String × Json), '\n' ∉ charsOfMembers ms
  | [] => by decide
  | [m] => by
      have hk := lineFeed_not_mem_stringPieces m.1
      have hx := lineFeed_not_mem_chars m.2
      rw [charsOfMembers_singleton, charsOfMember]
      simp [hk, hx]
  | m :: n :: ms => by
      have hk := lineFeed_not_mem_stringPieces m.1
      have hx := lineFeed_not_mem_chars m.2
      have hms := lineFeed_not_mem_charsOfMembers (n :: ms)
      rw [charsOfMembers_cons_cons, charsOfMember]
      simp [hk, hx, hms]

end

end SampleData.Json
