import SampleData.Plan.Compile
import SampleData.Proofs.SignedNumerals
import SampleData.Proofs.Trimming

/-!
# The language of instructions

What an instruction prescribes is said here without a reader: by the form of its text, and, where
the text has no form that is allowed, by what is wrong with it. Every instruction has one outcome,
and compiling gives that one. Of the texts that start with a bracket only whether they are lists is
left to `readList`.

* `RangeText`: the texts behind `rand(`, with their bounds or their fault.
* `Strategy.Prescribed`: the strategies, for fields that do not hold the current time.
* `Descriptor.Prescribed`: whole definitions.
* `Descriptor.compile_eq_iff_prescribed`: compiling gives what is prescribed, and nothing else.
-/

namespace SampleData

open Text

namespace Instruction

/-! ## The two parts -/

/-- The instruction is divided at its first colon, and without the blanks around them the parts are
`k` and `s`. -/
def Divides (instruction k s : String) : Prop :=
  ∃ a b : String, instruction = a ++ ":" ++ b ∧ ':' ∉ a.toList ∧ k = trim a ∧ s = trim b

/-- Only a text without a colon is not divided. -/
theorem split_eq_none_iff {instruction : String} :
    split instruction = none ↔ ':' ∉ instruction.toList := by
  rw [split, Option.map_eq_none_iff, cutAtFirst_eq_none_iff]

/-- Where a text is divided. -/
theorem split_eq_some_iff {instruction k strategy : String} :
    split instruction = some (k, strategy) ↔
      ∃ a : String, instruction = a ++ ":" ++ strategy ∧ ':' ∉ a.toList ∧ k = trim a := by
  rw [split, Option.map_eq_some_iff]
  constructor
  · rintro ⟨⟨a, b⟩, hcut, hparts⟩
    obtain ⟨rfl, rfl⟩ := Prod.mk.inj hparts
    refine ⟨String.ofList a, ?_, ?_, ?_⟩
    · apply String.toList_inj.mp
      rw [eq_append_of_cutAtFirst hcut]
      simp
    · rw [String.toList_ofList]
      exact not_mem_of_cutAtFirst hcut
    · rw [trim, String.toList_ofList]
  · rintro ⟨a, rfl, ha, rfl⟩
    refine ⟨(a.toList, strategy.toList), ?_, ?_⟩
    · have hchars : (a ++ ":" ++ strategy).toList = a.toList ++ ':' :: strategy.toList := by simp
      rw [hchars, cutAtFirst_append ha]
    · rw [String.ofList_toList, trim]

/-! ## Ranges -/

/-- Without the blanks around it the text is a numeral of the word. -/
def Spells (t : String) (n : Int64) : Prop := IsNumeral (trim t).toList n.toInt

/-- What stands behind `rand(`: two numerals in order with a comma between them and the closing
bracket behind them, or the first thing that is wrong. -/
inductive RangeText : String → Except RangeFault (Int64 × Int64) → Prop
  | unclosed {t : String} (h : ∀ inner : String, t ≠ inner ++ ")") : RangeText t (.error .unclosed)
  | oneBound {inner : String} (h : ',' ∉ inner.toList) :
      RangeText (inner ++ ")") (.error (.notTwoBounds inner))
  | lowNoInteger {a b : String} (ha : ',' ∉ a.toList) (hlow : ¬ ∃ n, Spells a n) :
      RangeText (a ++ "," ++ b ++ ")") (.error (.notInteger (trim a)))
  | highNoInteger {a b : String} {low : Int64} (ha : ',' ∉ a.toList) (hlow : Spells a low)
      (hhigh : ¬ ∃ n, Spells b n) :
      RangeText (a ++ "," ++ b ++ ")") (.error (.notInteger (trim b)))
  | reversed {a b : String} {low high : Int64} (ha : ',' ∉ a.toList) (hlow : Spells a low)
      (hhigh : Spells b high) (h : high < low) :
      RangeText (a ++ "," ++ b ++ ")") (.error (.reversed low high))
  | bounds {a b : String} {low high : Int64} (ha : ',' ∉ a.toList) (hlow : Spells a low)
      (hhigh : Spells b high) (h : low ≤ high) : RangeText (a ++ "," ++ b ++ ")") (.ok (low, high))

/-- A bound that is a numeral. -/
theorem readBound_of_spells {a : String} {n : Int64} (h : Spells a n) :
    readBound a.toList = .ok n := by
  rw [readBound]
  rw [Spells, trim, String.toList_ofList] at h
  rw [readInt64?_eq_some_iff.mpr h]

/-- A bound that is none. -/
theorem readBound_of_not_spells {a : String} (h : ¬ ∃ n, Spells a n) :
    readBound a.toList = .error (.notInteger (trim a)) := by
  rw [readBound]
  simp only [Spells, trim, String.toList_ofList] at h
  rw [readInt64?_eq_none_iff.mpr h, trim]

/-- Every text behind `rand(` is of one of the forms. -/
theorem exists_rangeText (t : String) : ∃ r, RangeText t r := by
  by_cases hclosed : ∃ inner : String, t = inner ++ ")"
  · obtain ⟨inner, rfl⟩ := hclosed
    by_cases hcomma : ',' ∈ inner.toList
    · obtain ⟨⟨a, b⟩, hcut⟩ := Option.ne_none_iff_exists'.mp
        (fun h => cutAtFirst_eq_none_iff.mp h hcomma)
      have hinner : inner = String.ofList a ++ "," ++ String.ofList b := by
        apply String.toList_inj.mp
        rw [eq_append_of_cutAtFirst hcut]
        simp
      have ha : ',' ∉ (String.ofList a).toList := by
        rw [String.toList_ofList]
        exact not_mem_of_cutAtFirst hcut
      rw [hinner]
      by_cases hlow : ∃ n, Spells (String.ofList a) n
      · obtain ⟨low, hlow⟩ := hlow
        by_cases hhigh : ∃ n, Spells (String.ofList b) n
        · obtain ⟨high, hhigh⟩ := hhigh
          by_cases h : high < low
          · exact ⟨_, .reversed ha hlow hhigh h⟩
          · exact ⟨_, .bounds ha hlow hhigh (Int64.not_lt.mp h)⟩
        · exact ⟨_, .highNoInteger ha hlow hhigh⟩
      · exact ⟨_, .lowNoInteger ha hlow⟩
    · exact ⟨_, .oneBound hcomma⟩
  · exact ⟨_, .unclosed (not_exists.mp hclosed)⟩

/-- The closing bracket at the end of a text. -/
@[simp] theorem stripLast_append (inner : String) :
    stripLast ')' (inner ++ ")").toList = some inner.toList := by
  apply stripLast_eq_some_iff.mpr
  simp

/-- Two bounds with a comma between them. -/
theorem cutAtFirst_bounds {a b : String} (ha : ',' ∉ a.toList) :
    cutAtFirst ',' (a ++ "," ++ b).toList = some (a.toList, b.toList) := by
  have hchars : (a ++ "," ++ b).toList = a.toList ++ ',' :: b.toList := by simp
  rw [hchars, cutAtFirst_append ha]

/-- What stands behind `rand(` is read as its form says. -/
theorem RangeText.readRange_eq {t : String} {r : Except RangeFault (Int64 × Int64)}
    (h : RangeText t r) : readRange t = r := by
  cases h with
  | unclosed h =>
      have hnone : stripLast ')' t.toList = none := by
        rw [Option.eq_none_iff_forall_ne_some]
        intro inner hinner
        apply h (String.ofList inner)
        apply String.toList_inj.mp
        rw [stripLast_eq_some_iff.mp hinner]
        simp
      rw [readRange, hnone]
  | @oneBound inner h =>
      rw [readRange, stripLast_append]
      simp only [cutAtFirst_eq_none_iff.mpr h, String.ofList_toList]
  | lowNoInteger ha hlow =>
      rw [readRange, stripLast_append]
      simp only [cutAtFirst_bounds ha, readBound_of_not_spells hlow]
  | highNoInteger ha hlow hhigh =>
      rw [readRange, stripLast_append]
      simp only [cutAtFirst_bounds ha, readBound_of_spells hlow, readBound_of_not_spells hhigh]
  | reversed ha hlow hhigh h =>
      rw [readRange, stripLast_append]
      simp only [cutAtFirst_bounds ha, readBound_of_spells hlow, readBound_of_spells hhigh,
        if_pos h]
  | bounds ha hlow hhigh h =>
      rw [readRange, stripLast_append]
      simp only [cutAtFirst_bounds ha, readBound_of_spells hlow, readBound_of_spells hhigh,
        if_neg (Int64.not_lt.mpr h)]

/-! ## Strategies by their look -/

/-- The text has none of the looks that mean something else. -/
structure IsConstant (s : String) : Prop where
  ne_empty : s ≠ ""
  ne_rand : s ≠ "rand"
  no_range : ∀ arguments : String, s ≠ "rand(" ++ arguments
  no_list : s.toList.head? ≠ some '['

/-- The look of a strategy. -/
theorem look_cases (s : String) : s = "" ∨ s = "rand" ∨ (∃ arguments, s = "rand(" ++ arguments) ∨
    s.toList.head? = some '[' ∨ IsConstant s := by
  by_cases hempty : s = ""
  · exact .inl hempty
  by_cases hrand : s = "rand"
  · exact .inr (.inl hrand)
  by_cases hrange : ∃ arguments, s = "rand(" ++ arguments
  · exact .inr (.inr (.inl hrange))
  by_cases hlist : s.toList.head? = some '['
  · exact .inr (.inr (.inr (.inl hlist)))
  · exact .inr (.inr (.inr (.inr ⟨hempty, hrand, not_exists.mp hrange, hlist⟩)))

section looks

variable {strategy arguments : String}

theorem classify_empty (h : trim strategy = "") : classify strategy = .ok .empty := by
  simp [classify, h]

theorem classify_random (h : trim strategy = "rand") : classify strategy = .ok .random := by
  simp [classify, h]

theorem classify_range (h : trim strategy = "rand(" ++ arguments) :
    classify strategy = .ok (.range arguments) := by
  have hstart : stripStart "rand(".toList (trim strategy).toList = some arguments.toList := by
    rw [stripStart_eq_some_iff, h, String.toList_append]
  have hlong : (trim strategy).toList.length = 5 + arguments.toList.length := by
    rw [h, String.toList_append, List.length_append]
    rfl
  have hempty : ¬ (trim strategy).isEmpty = true := by
    intro hempty
    rw [String.isEmpty_iff.mp hempty] at hlong
    simp at hlong
    omega
  have hrand : trim strategy ≠ "rand" := by
    intro hrand
    rw [hrand] at hlong
    simp at hlong
    omega
  unfold classify
  simp only [if_neg hempty, if_neg hrand, hstart, String.ofList_toList]

/-- A text that does not start with `rand(`. -/
theorem stripStart_eq_none {s : String} (h : ∀ arguments : String, s ≠ "rand(" ++ arguments) :
    stripStart "rand(".toList s.toList = none := by
  rw [Option.eq_none_iff_forall_ne_some]
  intro arguments hstart
  apply h (String.ofList arguments)
  apply String.toList_inj.mp
  rw [stripStart_eq_some_iff.mp hstart]
  simp

theorem classify_list (h : (trim strategy).toList.head? = some '[') :
    classify strategy = (readList (trim strategy)).map .list := by
  obtain ⟨rest, hrest⟩ := List.head?_eq_some_iff.mp h
  have hother : ∀ s : String, s.toList.head? ≠ some '[' → trim strategy ≠ s := by
    rintro s hs rfl
    exact hs h
  have hrange : ∀ arguments : String, trim strategy ≠ "rand(" ++ arguments := by
    intro arguments
    apply hother
    simp
  have hempty : ¬ (trim strategy).isEmpty = true := by
    rw [String.isEmpty_iff]
    exact hother "" (by simp)
  unfold classify
  simp only [if_neg hempty, if_neg (hother "rand" (by simp)), stripStart_eq_none hrange, if_pos h]

theorem classify_literal (h : IsConstant (trim strategy)) :
    classify strategy = .ok (.literal (trim strategy)) := by
  have hempty : ¬ (trim strategy).isEmpty = true := by
    rw [String.isEmpty_iff]
    exact h.ne_empty
  unfold classify
  simp only [if_neg hempty, if_neg h.ne_rand, stripStart_eq_none h.no_range, if_neg h.no_list]

end looks

end Instruction

open Instruction

/-! ## Constants -/

/-- A number that is read as a constant. -/
theorem Scalar.read?_integer {x : String} {n : Int64} (h : Spells x n) :
    Scalar.read? .integer x = some (.integer n) := by
  rw [Spells, trim, String.toList_ofList] at h
  rw [Scalar.read?, readInt64?_eq_some_iff.mpr h]
  rfl

/-- A text that is no number. -/
theorem Scalar.read?_integer_eq_none {x : String} (h : ¬ ∃ n, Spells x n) :
    Scalar.read? .integer x = none := by
  simp only [Spells, trim, String.toList_ofList] at h
  rw [Scalar.read?, readInt64?_eq_none_iff.mpr h]
  rfl

/-- Every element of a list of texts is a constant. -/
@[simp] theorem Scalar.readAll_text (items : List String) :
    Scalar.readAll .text items = .ok (items.map .text) := by
  induction items with
  | nil => rfl
  | cons x xs ih =>
      simp only [Scalar.readAll, Scalar.read?, ih]
      rfl

/-- Elements that are all numerals. -/
theorem Scalar.readAll_integer {items : List String} {ns : List Int64}
    (h : List.Forall₂ Spells items ns) :
    Scalar.readAll .integer items = .ok (ns.map .integer) := by
  induction h with
  | nil => rfl
  | cons hx _ ih =>
      simp only [Scalar.readAll, Scalar.read?_integer hx, ih]
      rfl

/-- The first element that is no numeral. -/
theorem Scalar.readAll_integer_error {before after : List String} {x : String}
    (hbefore : ∀ y ∈ before, ∃ n, Spells y n) (hx : ¬ ∃ n, Spells x n) :
    Scalar.readAll .integer (before ++ x :: after) = .error x := by
  induction before with
  | nil => simp only [List.nil_append, Scalar.readAll, Scalar.read?_integer_eq_none hx]
  | cons y before ih =>
      obtain ⟨⟨n, hn⟩, hrest⟩ := List.forall_mem_cons.mp hbefore
      simp only [List.cons_append, Scalar.readAll, Scalar.read?_integer hn, ih hrest]
      rfl

/-- Either all elements are numerals or there is a first one that is none. -/
theorem spells_all_or_first (items : List String) : (∃ ns, List.Forall₂ Spells items ns) ∨
    ∃ before x after, items = before ++ x :: after ∧ (∀ y ∈ before, ∃ n, Spells y n) ∧
      ¬ ∃ n, Spells x n := by
  induction items with
  | nil => exact .inl ⟨[], .nil⟩
  | cons x xs ih =>
      by_cases hx : ∃ n, Spells x n
      · obtain ⟨n, hn⟩ := hx
        rcases ih with ⟨ns, hns⟩ | ⟨before, y, after, rfl, hbefore, hy⟩
        · exact .inl ⟨n :: ns, .cons hn hns⟩
        · exact .inr ⟨x :: before, y, after, rfl, List.forall_mem_cons.mpr ⟨⟨n, hn⟩, hbefore⟩, hy⟩
      · exact .inr ⟨[], x, xs, rfl, nofun, hx⟩

/-! ## Strategies -/

/-- What the text of a strategy, without the blanks around it, prescribes for a field of texts or of
numbers. -/
inductive Strategy.Prescribed (name instruction : String) :
    Kind → String → Except CompileError Strategy → Prop
  | empty {kind : Kind} : Prescribed name instruction kind "" (.ok .empty)
  | random {kind : Kind} : Prescribed name instruction kind "rand" (.ok .random)
  | rangeOfTexts {arguments : String} : Prescribed name instruction .text ("rand(" ++ arguments)
      (.error (.rangeOnNonInteger name .text instruction))
  | range {arguments : String} {low high : Int64} (h : RangeText arguments (.ok (low, high))) :
      Prescribed name instruction .integer ("rand(" ++ arguments) (.ok (.range low high))
  | noRange {arguments : String} {fault : RangeFault} (h : RangeText arguments (.error fault)) :
      Prescribed name instruction .integer ("rand(" ++ arguments)
        (.error (.invalidRange name instruction fault))
  | noList {kind : Kind} {s : String} {fault : ListFault} (hs : s.toList.head? = some '[')
      (h : readList s = .error fault) :
      Prescribed name instruction kind s (.error (.malformedList name instruction fault))
  | texts {s : String} {items : List String} (hs : s.toList.head? = some '[')
      (h : readList s = .ok items) :
      Prescribed name instruction .text s (.ok (.list (items.map .text)))
  | integers {s : String} {items : List String} {ns : List Int64} (hs : s.toList.head? = some '[')
      (h : readList s = .ok items) (hns : List.Forall₂ Spells items ns) :
      Prescribed name instruction .integer s (.ok (.list (ns.map .integer)))
  | noIntegers {s x : String} {before after : List String} (hs : s.toList.head? = some '[')
      (h : readList s = .ok (before ++ x :: after)) (hbefore : ∀ y ∈ before, ∃ n, Spells y n)
      (hx : ¬ ∃ n, Spells x n) :
      Prescribed name instruction .integer s
        (.error (.typeMismatchInList name x .integer instruction))
  | fixedText {s : String} (hs : IsConstant s) :
      Prescribed name instruction .text s (.ok (.fixed (.text s)))
  | fixedInteger {s : String} {n : Int64} (hs : IsConstant s) (h : Spells s n) :
      Prescribed name instruction .integer s (.ok (.fixed (.integer n)))
  | noFixedInteger {s : String} (hs : IsConstant s) (h : ¬ ∃ n, Spells s n) :
      Prescribed name instruction .integer s
        (.error (.invalidStaticValue name s .integer instruction))

/-- Every text of a strategy prescribes something. -/
theorem Strategy.exists_prescribed (name instruction : String) {kind : Kind}
    (hk : kind ≠ .timestamp) (s : String) :
    ∃ r, Strategy.Prescribed name instruction kind s r := by
  rcases look_cases s with rfl | rfl | ⟨arguments, rfl⟩ | hlist | hconstant
  · exact ⟨_, .empty⟩
  · exact ⟨_, .random⟩
  · cases kind with
    | timestamp => exact absurd rfl hk
    | text => exact ⟨_, .rangeOfTexts⟩
    | integer =>
        obtain ⟨⟨fault⟩ | ⟨low, high⟩, h⟩ := exists_rangeText arguments
        · exact ⟨_, .noRange h⟩
        · exact ⟨_, .range h⟩
  · rcases hread : readList s with fault | items
    · exact ⟨_, .noList hlist hread⟩
    · cases kind with
      | timestamp => exact absurd rfl hk
      | text => exact ⟨_, .texts hlist hread⟩
      | integer =>
          rcases spells_all_or_first items with ⟨ns, hns⟩ | ⟨before, x, after, rfl, hbefore, hx⟩
          · exact ⟨_, .integers hlist hread hns⟩
          · exact ⟨_, .noIntegers hlist hread hbefore hx⟩
  · cases kind with
    | timestamp => exact absurd rfl hk
    | text => exact ⟨_, .fixedText hconstant⟩
    | integer =>
        by_cases h : ∃ n, Spells s n
        · obtain ⟨n, hn⟩ := h
          exact ⟨_, .fixedInteger hconstant hn⟩
        · exact ⟨_, .noFixedInteger hconstant h⟩

/-- Compiling a strategy gives what its text prescribes. -/
theorem Strategy.Prescribed.compile_eq {name instruction strategy : String} {kind : Kind}
    {r : Except CompileError Strategy}
    (h : Strategy.Prescribed name instruction kind (trim strategy) r) :
    Strategy.compile name instruction kind strategy = r := by
  generalize hs : trim strategy = s at h
  unfold Strategy.compile
  cases h with
  | empty => rw [classify_empty hs]
  | random => rw [classify_random hs]
  | rangeOfTexts =>
      rw [classify_range hs]
      rfl
  | range h =>
      rw [classify_range hs]
      simp only [h.readRange_eq]
      rfl
  | noRange h =>
      rw [classify_range hs]
      simp only [h.readRange_eq]
      rfl
  | noList hlist h =>
      subst hs
      rw [classify_list hlist, h]
      rfl
  | texts hlist h =>
      subst hs
      rw [classify_list hlist, h]
      simp only [Except.map, Scalar.readAll_text]
  | integers hlist h hns =>
      subst hs
      rw [classify_list hlist, h]
      simp only [Except.map, Scalar.readAll_integer hns]
  | noIntegers hlist h hbefore hx =>
      subst hs
      rw [classify_list hlist, h]
      simp only [Except.map, Scalar.readAll_integer_error hbefore hx]
  | fixedText hconstant =>
      subst hs
      rw [classify_literal hconstant]
      rfl
  | fixedInteger hconstant h =>
      subst hs
      rw [classify_literal hconstant]
      simp only [Scalar.read?_integer h]
  | noFixedInteger hconstant h =>
      subst hs
      rw [classify_literal hconstant]
      simp only [Scalar.read?_integer_eq_none h]

/-! ## Definitions -/

/-- What a definition prescribes: a descriptor with the warning that it is worth, or an error. -/
inductive Descriptor.Prescribed (name instruction : String) :
    Except CompileError (Descriptor × Option Warning) → Prop
  | noColon (h : ':' ∉ instruction.toList) :
      Prescribed name instruction (.error (.malformedInstruction name instruction))
  | noKind {k s : String} (h : Divides instruction k s) (hk : k ∉ ["timestamp", "str", "int"]) :
      Prescribed name instruction (.error (.unknownKind name k instruction))
  | timestamp {s : String} (h : Divides instruction "timestamp" s) :
      Prescribed name instruction
        (.ok (⟨name, .timestamp, .random⟩, if s = "" then none else some ⟨name, s⟩))
  | refused {kind : Kind} {s : String} {e : CompileError} (hk : kind ≠ .timestamp)
      (h : Divides instruction kind.keyword s)
      (hs : Strategy.Prescribed name instruction kind s (.error e)) :
      Prescribed name instruction (.error e)
  | given {kind : Kind} {s : String} {strategy : Strategy} (hk : kind ≠ .timestamp)
      (h : Divides instruction kind.keyword s)
      (hs : Strategy.Prescribed name instruction kind s (.ok strategy)) :
      Prescribed name instruction (.ok (⟨name, kind, strategy⟩, none))

/-- A word that is no keyword. -/
theorem Kind.ofKeyword?_eq_none {k : String} (h : k ∉ ["timestamp", "str", "int"]) :
    Kind.ofKeyword? k = none := by
  rw [Option.eq_none_iff_forall_ne_some]
  intro kind hkind
  apply h
  rw [Kind.eq_keyword_of_ofKeyword? hkind]
  cases kind <;> decide

/-- Every definition prescribes something. -/
theorem Descriptor.exists_prescribed (name instruction : String) :
    ∃ r, Descriptor.Prescribed name instruction r := by
  cases hsplit : split instruction with
  | none => exact ⟨_, .noColon (split_eq_none_iff.mp hsplit)⟩
  | some parts =>
      obtain ⟨k, strategy⟩ := parts
      obtain ⟨a, hi, ha, hk⟩ := split_eq_some_iff.mp hsplit
      have hdivides : Divides instruction k (trim strategy) := ⟨a, strategy, hi, ha, hk, rfl⟩
      have hgiven : ∀ kind : Kind, kind ≠ .timestamp → k = kind.keyword →
          ∃ r, Descriptor.Prescribed name instruction r := by
        rintro kind hkind rfl
        obtain ⟨⟨e⟩ | ⟨s⟩, hs⟩ := Strategy.exists_prescribed name instruction hkind (trim strategy)
        · exact ⟨_, .refused hkind hdivides hs⟩
        · exact ⟨_, .given hkind hdivides hs⟩
      by_cases hword : k ∈ ["timestamp", "str", "int"]
      · simp only [List.mem_cons, List.not_mem_nil, or_false] at hword
        rcases hword with rfl | rfl | rfl
        · exact ⟨_, .timestamp hdivides⟩
        · exact hgiven .text nofun rfl
        · exact hgiven .integer nofun rfl
      · exact ⟨_, .noKind hdivides hword⟩

/-- Compiling a definition gives what it prescribes. -/
theorem Descriptor.Prescribed.compile_eq {name instruction : String}
    {r : Except CompileError (Descriptor × Option Warning)}
    (h : Descriptor.Prescribed name instruction r) : Descriptor.compile name instruction = r := by
  unfold Descriptor.compile
  cases h with
  | noColon h => rw [split_eq_none_iff.mpr h]
  | noKind h hk =>
      obtain ⟨a, b, hi, ha, rfl, rfl⟩ := h
      rw [split_eq_some_iff.mpr ⟨a, hi, ha, rfl⟩]
      simp only [Kind.ofKeyword?_eq_none hk]
  | timestamp h =>
      obtain ⟨a, b, hi, ha, hk, rfl⟩ := h
      rw [split_eq_some_iff.mpr ⟨a, hi, ha, rfl⟩]
      simp only [← hk, show Kind.ofKeyword? "timestamp" = some .timestamp from rfl,
        String.isEmpty_iff]
  | @refused kind _ _ hkind h hs =>
      obtain ⟨a, b, hi, ha, hk, rfl⟩ := h
      rw [split_eq_some_iff.mpr ⟨a, hi, ha, rfl⟩]
      simp only [← hk, Kind.ofKeyword?_keyword]
      cases kind with
      | timestamp => exact absurd rfl hkind
      | text => simp only [hs.compile_eq]
      | integer => simp only [hs.compile_eq]
  | @given kind _ _ hkind h hs =>
      obtain ⟨a, b, hi, ha, hk, rfl⟩ := h
      rw [split_eq_some_iff.mpr ⟨a, hi, ha, rfl⟩]
      simp only [← hk, Kind.ofKeyword?_keyword]
      cases kind with
      | timestamp => exact absurd rfl hkind
      | text => simp only [hs.compile_eq]
      | integer => simp only [hs.compile_eq]

/-- What compiling a definition gives is prescribed. -/
theorem Descriptor.prescribed_compile (name instruction : String) :
    Descriptor.Prescribed name instruction (Descriptor.compile name instruction) := by
  obtain ⟨r, hr⟩ := Descriptor.exists_prescribed name instruction
  rw [hr.compile_eq]
  exact hr

/-- **Compiling a definition gives what the language prescribes for it**, be it a descriptor or an
error, and nothing else. -/
theorem Descriptor.compile_eq_iff_prescribed {name instruction : String}
    {r : Except CompileError (Descriptor × Option Warning)} :
    Descriptor.compile name instruction = r ↔ Descriptor.Prescribed name instruction r :=
  ⟨fun h => h ▸ Descriptor.prescribed_compile name instruction, fun h => h.compile_eq⟩

end SampleData
