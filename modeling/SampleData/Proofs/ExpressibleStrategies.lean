import SampleData.Proofs.InstructionLanguage
import SampleData.Proofs.ListElements
import Mathlib.Data.List.Forall2

/-!
# What instructions can express

Not every descriptor has an instruction. Of the constants of texts those are missing that would be
taken for something else or would lose blanks at their ends, and of the lists those with an element
that holds both quotes and could not stand without quotes. Whatever is left can be written, and
`Descriptor.write` writes it.

* `Strategy.Expressible`: the strategies that instructions give, by the kind of the field.
* `Descriptor.expressible_of_compile`: instructions give no others.
* `Descriptor.compile_write`: each of them is given, by the instruction that is written for it.
-/

namespace SampleData

open Text Instruction

/-! ## Strategies with an instruction -/

/-- A text that can be an element of a list: some quote does not occur in it, or it can stand
without quotes. -/
def Instruction.IsElementText (x : String) : Prop :=
  '"' ∉ x.toList ∨ '\x27' ∉ x.toList ∨
    (trim x = x ∧ ',' ∉ x.toList ∧ ∀ c ∈ x.toList.head?, isQuote c = false)

/-- The strategies that instructions give, by the kind of the field. -/
inductive Strategy.Expressible : Kind → Strategy → Prop
  | random {kind : Kind} : Expressible kind .random
  | empty {kind : Kind} (hk : kind ≠ .timestamp) : Expressible kind .empty
  | range {low high : Int64} (h : low ≤ high) : Expressible .integer (.range low high)
  | fixedInteger (n : Int64) : Expressible .integer (.fixed (.integer n))
  | integers {ns : List Int64} (hne : ns ≠ []) : Expressible .integer (.list (ns.map .integer))
  | fixedText {s : String} (htrim : trim s = s) (h : IsConstant s) :
      Expressible .text (.fixed (.text s))
  | texts {xs : List String} (hne : xs ≠ []) (h : ∀ x ∈ xs, IsElementText x) :
      Expressible .text (.list (xs.map .text))

/-! ## Instructions give no others -/

namespace Instruction

/-- What an element without quotes comes to can stand without quotes. -/
theorem isElementText_of_mem_bareElement {cs : List Char} {x : String} (hcomma : ',' ∉ cs)
    (hfirst : ∀ c ∈ (dropBlanks cs).head?, isQuote c = false) (hx : x ∈ bareElement cs) :
    IsElementText x := by
  unfold bareElement at hx
  dsimp only at hx
  split at hx
  · cases hx
  · obtain rfl := List.mem_singleton.mp hx
    refine .inr (.inr ⟨trim_of_isTrimmed ?_, ?_, ?_⟩) <;> rw [String.toList_ofList]
    · exact isTrimmed_trimChars cs
    · intro hmem
      obtain ⟨l, -, hcs⟩ := exists_dropBlanks cs
      exact hcomma (hcs ▸ List.mem_append_right l ((trimChars_prefix_dropBlanks cs).mem hmem))
    · intro c hc
      exact hfirst c (head?_trimChars hc)

/-- The items of an element are texts that elements can be. -/
theorem Element.isElementText {cs : List Char} {xs : List String} (h : Element cs xs) :
    ∀ x ∈ xs, IsElementText x := by
  cases h with
  | @quoted _ body _ q hq _ hbody _ =>
      intro x hx
      obtain rfl := List.mem_singleton.mp hx
      rw [isQuote, Bool.or_eq_true, decide_eq_true_eq, decide_eq_true_eq] at hq
      rcases hq with rfl | rfl
      · exact .inl (by rwa [String.toList_ofList])
      · exact .inr (.inl (by rwa [String.toList_ofList]))
  | bare hcomma hfirst => exact fun x hx => isElementText_of_mem_bareElement hcomma hfirst hx

/-- So are the items of elements with commas between them. -/
theorem Elements.isElementText {cs : List Char} {xs : List String} (h : Elements cs xs) :
    ∀ x ∈ xs, IsElementText x := by
  induction h with
  | last h => exact h.isElementText
  | next h _ ih => exact List.forall_mem_append.mpr ⟨h.isElementText, ih⟩

end Instruction

/-- A strategy that a text prescribes is one of the list. -/
theorem Strategy.Prescribed.expressible {name instruction s : String} {kind : Kind}
    {strategy : Strategy} (hk : kind ≠ .timestamp) (htrim : trim s = s)
    (h : Strategy.Prescribed name instruction kind s (.ok strategy)) :
    strategy.Expressible kind := by
  cases h with
  | empty => exact .empty hk
  | random => exact .random
  | range h =>
      cases h with
      | bounds _ _ _ h => exact .range h
  | texts _ h =>
      obtain ⟨_, -, helements, hne⟩ := readList_eq_ok_iff.mp h
      exact .texts hne helements.isElementText
  | integers _ h hns =>
      refine .integers ?_
      rintro rfl
      exact ne_nil_of_readList h (List.forall₂_nil_right_iff.mp hns)
  | fixedText h => exact .fixedText htrim h
  | fixedInteger _ _ => exact .fixedInteger _

/-- **Instructions give descriptors with these strategies only.** -/
theorem Descriptor.expressible_of_compile {name instruction : String} {d : Descriptor}
    {w : Option Warning} (h : Descriptor.compile name instruction = .ok (d, w)) :
    d.strategy.Expressible d.kind := by
  have hprescribed := Descriptor.prescribed_compile name instruction
  rw [h] at hprescribed
  cases hprescribed with
  | timestamp _ => exact .random
  | given hk hdivides hs =>
      obtain ⟨_, b, -, -, -, rfl⟩ := hdivides
      exact hs.expressible hk (trim_of_isTrimmed (isTrimmed_trim b))

/-! ## Writing instructions -/

/-- An element in quotes, if one of the two does not occur in it. -/
def Instruction.writeElement (x : String) : List Char :=
  if '"' ∉ x.toList then '"' :: (x.toList ++ ['"'])
  else if '\x27' ∉ x.toList then '\x27' :: (x.toList ++ ['\x27'])
  else x.toList

/-- Elements with commas between them. -/
def Instruction.writeElements : List String → List Char
  | [] => []
  | [x] => writeElement x
  | x :: y :: rest => writeElement x ++ ',' :: writeElements (y :: rest)

/-- The text of a strategy. -/
def Strategy.write : Strategy → String
  | .random => "rand"
  | .list values =>
      String.ofList ('[' :: (writeElements (values.map Scalar.display) ++ [']']))
  | .range low high => "rand(" ++ (showInt64 low ++ "," ++ showInt64 high ++ ")")
  | .fixed value => value.display
  | .empty => ""

/-- The instruction of a descriptor. -/
def Descriptor.write (d : Descriptor) : String :=
  d.kind.keyword ++ ":" ++ d.strategy.write

namespace Instruction

/-- A written element has its text as the only item. -/
theorem element_writeElement {x : String} (h : IsElementText x) : Element (writeElement x) [x] := by
  have hquoted : ∀ q : Char, isQuote q = true → q ∉ x.toList →
      Element (q :: (x.toList ++ [q])) [x] := by
    intro q hq hfree
    have helement := Element.quoted hq (List.forall_mem_nil _) hfree (List.forall_mem_nil _)
    rwa [String.ofList_toList] at helement
  unfold writeElement
  split
  · next hdouble => exact hquoted _ (by decide) hdouble
  · next hdouble =>
    split
    · next hsingle => exact hquoted _ (by decide) hsingle
    · next hsingle =>
      obtain ⟨htrim, hcomma, hfirst⟩ := (h.resolve_left hdouble).resolve_left hsingle
      have htrimmed := isTrimmed_trim x
      rw [htrim] at htrimmed
      have hitem : bareElement x.toList = [x] := by
        have hne : x.toList ≠ [] := by
          intro hnil
          rw [hnil] at hsingle
          exact hsingle List.not_mem_nil
        simp only [bareElement, trimChars_of_isTrimmed htrimmed, List.isEmpty_iff, if_neg hne,
          String.ofList_toList]
      have helement := element_of_bare hcomma fun c hc => ⟨htrimmed.front c hc, hfirst c hc⟩
      rwa [hitem] at helement

/-- Written elements have their texts as items. -/
theorem elements_writeElements {xs : List String} (hne : xs ≠ [])
    (h : ∀ x ∈ xs, IsElementText x) : Elements (writeElements xs) xs := by
  induction xs with
  | nil => exact absurd rfl hne
  | cons x rest ih =>
      obtain ⟨hx, hrest⟩ := List.forall_mem_cons.mp h
      cases rest with
      | nil => exact .last (element_writeElement hx)
      | cons y rest =>
          have hnext := Elements.next (element_writeElement hx) (ih (List.cons_ne_nil y rest) hrest)
          exact hnext

/-- A written list is read back. -/
theorem readList_writeElements {xs : List String} (hne : xs ≠ []) (h : ∀ x ∈ xs, IsElementText x) :
    readList (String.ofList ('[' :: (writeElements xs ++ [']']))) = .ok xs :=
  readList_eq_ok_iff.mpr
    ⟨_, String.toList_ofList, elements_writeElements hne h, hne⟩

/-! ### Written numbers -/

/-- The characters of a written number. -/
theorem mem_showInt64 {n : Int64} {c : Char} (h : c ∈ (showInt64 n).toList) :
    c = '-' ∨ (digitValue? c).isSome := by
  rw [showInt64, showInt, String.toList_ofList] at h
  exact mem_intDigits h

/-- A character that is neither a digit nor the sign does not occur in a written number. -/
theorem not_mem_showInt64 {c : Char} (hsign : c ≠ '-') (hdigit : digitValue? c = none)
    (n : Int64) : c ∉ (showInt64 n).toList := by
  intro h
  rcases mem_showInt64 h with rfl | hsome
  · exact hsign rfl
  · rw [hdigit] at hsome
    cases hsome

/-- No blank is a digit or the sign. -/
@[simp] theorem trim_showInt64 (n : Int64) : trim (showInt64 n) = showInt64 n := by
  refine trim_of_isTrimmed (isTrimmed_of_forall fun c hc => ?_)
  rcases mem_showInt64 hc with rfl | hdigit
  · decide
  · obtain ⟨d, hd⟩ := Option.isSome_iff_exists.mp hdigit
    obtain ⟨hten, rfl⟩ := eq_digitChar_of_digitValue? hd
    have hall : ∀ k < 10, isBlank (digitChar k) = false := by decide
    exact hall d hten

/-- A written number is its numeral. -/
theorem spells_showInt64 (n : Int64) : Spells (showInt64 n) n := by
  rw [Spells, trim_showInt64, showInt64, showInt, String.toList_ofList]
  exact isNumeral_intDigits n.toInt

/-- A written number is a constant. -/
theorem isConstant_showInt64 (n : Int64) : IsConstant (showInt64 n) where
  ne_empty h := by
    have hspells := spells_showInt64 n
    rw [Spells, trim_showInt64, h] at hspells
    exact hspells.ne_nil rfl
  ne_rand h := not_mem_showInt64 (c := 'r') (by decide) (by decide) n (by rw [h]; decide)
  no_range arguments h := not_mem_showInt64 (c := 'r') (by decide) (by decide) n (by rw [h]; simp)
  no_list h :=
    not_mem_showInt64 (c := '[') (by decide) (by decide) n (List.mem_of_mem_head? h)

end Instruction

/-! ## Each is given -/

/-- The text of a strategy prescribes the strategy. -/
theorem Strategy.Expressible.prescribed (name instruction : String) {kind : Kind}
    {strategy : Strategy} (hk : kind ≠ .timestamp) (h : strategy.Expressible kind) :
    Strategy.Prescribed name instruction kind (trim strategy.write) (.ok strategy) := by
  have hlist : ∀ xs : List String, trim (String.ofList ('[' :: (writeElements xs ++ [']']))) =
      String.ofList ('[' :: (writeElements xs ++ [']'])) := by
    intro xs
    apply trim_of_isTrimmed
    rw [String.toList_ofList]
    exact isTrimmed_between (by decide) (by decide) _
  cases h with
  | random => exact .random
  | empty _ => exact .empty
  | @range low high h =>
      have htrim : trim (Strategy.range low high).write = (Strategy.range low high).write := by
        have hchars : (Strategy.range low high).write.toList =
            'r' :: ("and(".toList ++ (showInt64 low ++ "," ++ showInt64 high).toList ++ [')']) := by
          simp [Strategy.write]
        apply trim_of_isTrimmed
        rw [hchars]
        exact isTrimmed_between (by decide) (by decide) _
      rw [htrim]
      exact .range (.bounds (not_mem_showInt64 (by decide) (by decide) low)
        (spells_showInt64 low) (spells_showInt64 high) h)
  | fixedInteger n =>
      rw [Strategy.write, Scalar.display, trim_showInt64]
      exact .fixedInteger (isConstant_showInt64 n) (spells_showInt64 n)
  | @integers ns hne =>
      have hdisplay : (ns.map Scalar.integer).map Scalar.display = ns.map showInt64 := by
        rw [List.map_map]
        rfl
      rw [Strategy.write, hdisplay, hlist]
      refine .integers (by rw [String.toList_ofList]; rfl)
        (readList_writeElements (by simpa using hne) ?_) ?_
      · intro x hx
        obtain ⟨n, -, rfl⟩ := List.mem_map.mp hx
        exact .inl (not_mem_showInt64 (by decide) (by decide) n)
      · rw [List.forall₂_map_left_iff]
        exact List.forall₂_same.mpr fun n _ => spells_showInt64 n
  | fixedText htrim h =>
      rw [Strategy.write, Scalar.display, htrim]
      exact .fixedText h
  | @texts xs hne h =>
      have hdisplay : (xs.map Scalar.text).map Scalar.display = xs := by
        rw [List.map_map]
        exact List.map_id xs
      rw [Strategy.write, hdisplay, hlist]
      exact .texts (by rw [String.toList_ofList]; rfl) (readList_writeElements hne h)

/-- The instruction that is written is divided where it was put together. -/
theorem Descriptor.divides_write (d : Descriptor) :
    Divides d.write d.kind.keyword (trim d.strategy.write) := by
  refine ⟨d.kind.keyword, d.strategy.write, rfl, ?_, ?_, rfl⟩ <;>
    cases d.kind <;> decide

/-- **What can be expressed is given by the instruction that is written for it.** -/
theorem Descriptor.compile_write {d : Descriptor} (h : d.strategy.Expressible d.kind) :
    ∃ w, Descriptor.compile d.name d.write = .ok (d, w) := by
  obtain ⟨name, kind, strategy⟩ := d
  have hdivides := Descriptor.divides_write ⟨name, kind, strategy⟩
  by_cases hk : kind = .timestamp
  · subst hk
    cases h with
    | random => exact ⟨_, (Descriptor.Prescribed.timestamp hdivides).compile_eq⟩
    | empty hne => exact absurd rfl hne
  · exact ⟨none, (Descriptor.Prescribed.given hk hdivides (h.prescribed name _ hk)).compile_eq⟩

/-- **The descriptors that instructions give** are exactly those with a strategy that can be
expressed for their kind. -/
theorem Descriptor.exists_compile_iff_expressible {d : Descriptor} :
    (∃ instruction w, Descriptor.compile d.name instruction = .ok (d, w)) ↔
      d.strategy.Expressible d.kind := by
  constructor
  · rintro ⟨instruction, w, h⟩
    exact Descriptor.expressible_of_compile h
  · intro h
    obtain ⟨w, hw⟩ := Descriptor.compile_write h
    exact ⟨d.write, w, hw⟩

end SampleData
