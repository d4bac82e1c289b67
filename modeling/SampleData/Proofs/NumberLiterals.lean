import SampleData.Json.Reader
import SampleData.Proofs.SignedNumerals

/-!
# Number literals in JSON text

A number is a sign, if it is negative, and digits, of which a zero before the point stands alone;
then a point with digits behind it, or none, and an exponent with or without a sign, or none. The
reader takes as much as belongs to a number, so that a literal is read where nothing with which it
could go on stands behind.

* `NumberLiteral.Spells`: the texts of a literal.
* `spells_of_readNumber`, `NumberLiteral.Spells.readNumber_append`: the literals that are read.
* `NumberLiteral.spells_ofInt`: the numeral of a whole number is a literal.
* `NumberLiteral.value?_ofInt`, `NumberLiteral.value?_toInt`: that literal is worth the number if it
  fits 64 bits.
-/

namespace SampleData.Json

open Text

/-! ## The texts of a number -/

/-- Digits, one at least. -/
structure IsDigits (ds : List Nat) : Prop where
  ne_nil : ds ≠ []
  lt_ten : ∀ d ∈ ds, d < 10

/-- The texts of what stands behind the point, if there is one. -/
inductive SpellsFraction : Option (List Nat) → List Char → Prop
  | absent : SpellsFraction none []
  | present {ds : List Nat} (h : IsDigits ds) :
      SpellsFraction (some ds) ('.' :: ds.map digitChar)

/-- The texts of the sign of an exponent. -/
inductive SpellsSign : Bool → List Char → Prop
  | absent : SpellsSign false []
  | plus : SpellsSign false ['+']
  | minus : SpellsSign true ['-']

/-- The texts of an exponent, if there is one. -/
inductive SpellsExponent : Option Int → List Char → Prop
  | absent : SpellsExponent none []
  | present {mark : Char} {negative : Bool} {sign : List Char} {ds : List Nat}
      (hmark : isExponentMark mark = true) (hsign : SpellsSign negative sign) (h : IsDigits ds) :
      SpellsExponent (some (if negative then -(digitsValue ds : Int) else digitsValue ds))
        (mark :: (sign ++ ds.map digitChar))

/-- The texts of a literal. -/
inductive NumberLiteral.Spells : NumberLiteral → List Char → Prop
  | mk {negative : Bool} {whole : List Nat} {fraction : Option (List Nat)} {exponent : Option Int}
      {fs es : List Char} (hwhole : IsDigits whole) (hzero : ∀ d ds, whole ≠ 0 :: d :: ds)
      (hfraction : SpellsFraction fraction fs) (hexponent : SpellsExponent exponent es) :
      Spells { negative, whole, fraction, exponent }
        ((if negative then ['-'] else []) ++ (whole.map digitChar ++ (fs ++ es)))

/-- Nothing with which a number could go on stands here. -/
def EndsNumber (rest : List Char) : Prop :=
  ∀ c ∈ rest.head?, digitValue? c = none ∧ c ≠ '.' ∧ isExponentMark c = false

/-- What comes first succeeds where all of it does. -/
theorem exists_of_bind {ε α β : Type} {x : Except ε α} {f : α → Except ε β} {b : β}
    (h : (x >>= f) = .ok b) : ∃ a, x = .ok a ∧ f a = .ok b := by
  cases x with
  | error e => cases h
  | ok a => exact ⟨a, rfl, h⟩

/-- What is put through a function succeeds where that does. -/
theorem exists_of_map {ε α β : Type} {x : Except ε α} {f : α → β} {b : β} (h : x.map f = .ok b) :
    ∃ a, x = .ok a ∧ f a = b := by
  cases x with
  | error e => cases h
  | ok a => exact ⟨a, rfl, Except.ok.inj h⟩

/-! ## Digits -/

variable {ds : List Nat} {cs rest : List Char}

/-- All digits are taken, and nothing that is no digit. -/
theorem spanDigits_map (h : ∀ d ∈ ds, d < 10) (hrest : ∀ c ∈ rest.head?, digitValue? c = none) :
    spanDigits (ds.map digitChar ++ rest) = (ds, rest) := by
  induction ds with
  | nil =>
      cases rest with
      | nil => rfl
      | cons c cs => simp [spanDigits, hrest c rfl]
  | cons d ds ih =>
      have hd := digitValue?_digitChar (h d List.mem_cons_self)
      have hds := ih fun x hx => h x (List.mem_cons_of_mem d hx)
      simp only [List.map_cons, List.cons_append, spanDigits, hd, hds]

/-- What is taken are digits, and they stood there. -/
theorem map_of_spanDigits (h : spanDigits cs = (ds, rest)) :
    (∀ d ∈ ds, d < 10) ∧ cs = ds.map digitChar ++ rest := by
  induction cs generalizing ds with
  | nil =>
      cases h
      exact ⟨nofun, rfl⟩
  | cons c cs ih =>
      rw [spanDigits] at h
      split at h
      · next d hd =>
        obtain ⟨hten, rfl⟩ := eq_digitChar_of_digitValue? hd
        obtain ⟨rfl, rfl⟩ := Prod.mk.inj h
        obtain ⟨hds, hcs⟩ := ih rfl
        exact ⟨List.forall_mem_cons.mpr ⟨hten, hds⟩, congrArg (digitChar d :: ·) hcs⟩
      · cases h
        exact ⟨nofun, rfl⟩

/-- Digits begin with a digit. -/
theorem IsDigits.exists_cons (h : IsDigits ds) :
    ∃ d ds', ds = d :: ds' ∧ digitValue? (digitChar d) = some d := by
  obtain ⟨d, ds', rfl⟩ := List.exists_cons_of_ne_nil h.ne_nil
  exact ⟨d, ds', rfl, digitValue?_digitChar (h.lt_ten d List.mem_cons_self)⟩

/-! ## Parts of a number -/

/-- A point is no digit. -/
theorem SpellsFraction.head {fraction : Option (List Nat)} {fs : List Char}
    (h : SpellsFraction fraction fs) (hrest : ∀ c ∈ rest.head?, digitValue? c = none) :
    ∀ c ∈ (fs ++ rest).head?, digitValue? c = none := by
  cases h with
  | absent => exact hrest
  | present h =>
      rintro c hc
      obtain rfl := Option.some.inj hc
      rfl

/-- An exponent goes on with neither digits nor a point. -/
theorem SpellsExponent.head {exponent : Option Int} {es : List Char}
    (h : SpellsExponent exponent es) (hrest : EndsNumber rest) :
    ∀ c ∈ (es ++ rest).head?, digitValue? c = none ∧ c ≠ '.' := by
  cases h with
  | absent => exact fun c hc => ⟨(hrest c hc).1, (hrest c hc).2.1⟩
  | present hmark _ _ =>
      rintro c hc
      obtain rfl := Option.some.inj hc
      simp only [isExponentMark, Bool.or_eq_true, decide_eq_true_eq] at hmark
      rcases hmark with rfl | rfl <;> exact ⟨rfl, by decide⟩

theorem readWhole_append (h : IsDigits ds) (hzero : ∀ d ds', ds ≠ 0 :: d :: ds')
    (hrest : ∀ c ∈ rest.head?, digitValue? c = none) :
    readWhole (ds.map digitChar ++ rest) = .ok (ds, rest) := by
  unfold readWhole
  rw [spanDigits_map h.lt_ten hrest]
  split
  · next heq => exact absurd (Prod.mk.inj heq).1 h.ne_nil
  · next heq => exact absurd (Prod.mk.inj heq).1 (hzero _ _)
  · next heq => rw [← heq]

theorem spells_of_readWhole (h : readWhole cs = .ok (ds, rest)) :
    IsDigits ds ∧ (∀ d ds', ds ≠ 0 :: d :: ds') ∧ cs = ds.map digitChar ++ rest := by
  unfold readWhole at h
  split at h
  · cases h
  · cases h
  · next hnil hzero heq =>
    cases h
    obtain ⟨hten, hcs⟩ := map_of_spanDigits heq
    exact ⟨⟨hnil, hten⟩, hzero, hcs⟩

theorem SpellsFraction.readFraction_append {fraction : Option (List Nat)} {fs : List Char}
    (h : SpellsFraction fraction fs)
    (hrest : ∀ c ∈ rest.head?, digitValue? c = none ∧ c ≠ '.') :
    readFraction (fs ++ rest) = .ok (fraction, rest) := by
  cases h with
  | absent =>
      unfold readFraction
      split
      · next heq =>
        rw [List.nil_append] at heq
        exact absurd rfl (hrest '.' (heq ▸ rfl)).2
      · rfl
  | present h =>
      rw [List.cons_append, readFraction, spanDigits_map h.lt_ten fun c hc => (hrest c hc).1]
      split
      · next heq => exact absurd (Prod.mk.inj heq).1 h.ne_nil
      · next heq =>
        obtain ⟨rfl, rfl⟩ := Prod.mk.inj heq
        rfl

theorem spells_of_readFraction {fraction : Option (List Nat)}
    (h : readFraction cs = .ok (fraction, rest)) :
    ∃ fs, SpellsFraction fraction fs ∧ cs = fs ++ rest := by
  unfold readFraction at h
  split at h
  · split at h
    · cases h
    · next hnil heq =>
      cases h
      obtain ⟨hten, rfl⟩ := map_of_spanDigits heq
      exact ⟨_, .present ⟨hnil, hten⟩, rfl⟩
  · cases h
    exact ⟨[], .absent, rfl⟩

/-- A sign before digits. -/
theorem SpellsSign.readSign_append {negative : Bool} {sign : List Char}
    (h : SpellsSign negative sign) (hds : IsDigits ds) (rest : List Char) :
    readSign (sign ++ (ds.map digitChar ++ rest)) = (negative, ds.map digitChar ++ rest) := by
  cases h with
  | plus => rfl
  | minus => rfl
  | absent =>
      obtain ⟨d, ds', rfl, -⟩ := hds.exists_cons
      have hsign := digitChar_ne_sign (hds.lt_ten d List.mem_cons_self)
      rw [List.nil_append, List.map_cons, List.cons_append]
      unfold readSign
      split
      · next heq => exact absurd (List.cons.inj heq).1 hsign.1
      · next heq => exact absurd (List.cons.inj heq).1 hsign.2
      · rfl

theorem spellsSign_readSign (cs : List Char) :
    ∃ sign, SpellsSign (readSign cs).1 sign ∧ cs = sign ++ (readSign cs).2 := by
  unfold readSign
  split
  · exact ⟨['-'], .minus, rfl⟩
  · exact ⟨['+'], .plus, rfl⟩
  · exact ⟨[], .absent, rfl⟩

theorem SpellsExponent.readExponent_append {exponent : Option Int} {es : List Char}
    (h : SpellsExponent exponent es) (hrest : EndsNumber rest) :
    readExponent (es ++ rest) = .ok (exponent, rest) := by
  cases h with
  | absent =>
      cases rest with
      | nil => rfl
      | cons c cs =>
        have hmark := (hrest c rfl).2.2
        rw [List.nil_append, readExponent, hmark]
        rfl
  | present hmark hsign h =>
      rw [List.cons_append, List.append_assoc, readExponent, if_pos hmark,
        hsign.readSign_append h, spanDigits_map h.lt_ten fun c hc => (hrest c hc).1]
      split
      · next heq => exact absurd (Prod.mk.inj heq).1 h.ne_nil
      · next heq =>
        obtain ⟨rfl, rfl⟩ := Prod.mk.inj heq
        rw [foldl_eq_digitsValue]

theorem spells_of_readExponent {exponent : Option Int}
    (h : readExponent cs = .ok (exponent, rest)) :
    ∃ es, SpellsExponent exponent es ∧ cs = es ++ rest := by
  unfold readExponent at h
  split at h
  · cases h
    exact ⟨[], .absent, rfl⟩
  · next mark more =>
    split at h
    · next hmark =>
      split at h
      · cases h
      · next hnil heq =>
        cases h
        obtain ⟨hten, hdigits⟩ := map_of_spanDigits heq
        obtain ⟨sign, hsign, hmore⟩ := spellsSign_readSign more
        rw [foldl_eq_digitsValue]
        refine ⟨_, .present hmark hsign ⟨hnil, hten⟩, ?_⟩
        rw [List.cons_append, List.append_assoc, ← hdigits, ← hmore]
    · cases h
      exact ⟨[], .absent, rfl⟩

/-! ## Literals -/

/-- **A literal is read from its texts**, where nothing stands behind with which it could go on. -/
theorem NumberLiteral.Spells.readNumber_append {l : NumberLiteral} (h : l.Spells cs)
    (hrest : EndsNumber rest) : readNumber (cs ++ rest) = .ok (l, rest) := by
  cases h with
  | @mk negative whole fraction exponent fs es hwhole hzero hfraction hexponent =>
      have hread : readUnsigned negative (whole.map digitChar ++ (fs ++ (es ++ rest))) =
          .ok (⟨negative, whole, fraction, exponent⟩, rest) := by
        have hhead := hexponent.head hrest
        simp only [readUnsigned, bind, Except.bind, pure, Except.pure,
          readWhole_append hwhole hzero (hfraction.head fun c hc => (hhead c hc).1),
          hfraction.readFraction_append hhead, hexponent.readExponent_append hrest]
      rw [List.append_assoc, List.append_assoc, List.append_assoc]
      cases negative with
      | true => exact hread
      | false =>
          obtain ⟨d, ds', rfl, hd⟩ := hwhole.exists_cons
          have hsign := digitChar_ne_sign (hwhole.lt_ten d List.mem_cons_self)
          show readNumber (digitChar d :: (ds'.map digitChar ++ (fs ++ (es ++ rest)))) = _
          unfold readNumber
          split
          · next heq => exact absurd (List.cons.inj heq).1 hsign.1
          · exact hread

/-- **What is read as a literal is one of its texts.** -/
theorem spells_of_readNumber {l : NumberLiteral} (h : readNumber cs = .ok (l, rest)) :
    ∃ ts, l.Spells ts ∧ cs = ts ++ rest := by
  have hunsigned : ∀ {negative cs}, readUnsigned negative cs = .ok (l, rest) →
      ∃ ts, l.Spells ((if negative then ['-'] else []) ++ ts) ∧ cs = ts ++ rest := by
    intro negative cs h
    obtain ⟨⟨whole, behind⟩, hread, h⟩ := exists_of_bind h
    obtain ⟨⟨fraction, last⟩, hread', h⟩ := exists_of_bind h
    obtain ⟨⟨exponent, rest⟩, hread'', h⟩ := exists_of_bind h
    cases h
    obtain ⟨hwhole, hzero, rfl⟩ := spells_of_readWhole hread
    obtain ⟨fs, hfraction, rfl⟩ := spells_of_readFraction hread'
    obtain ⟨es, hexponent, rfl⟩ := spells_of_readExponent hread''
    refine ⟨_, .mk hwhole hzero hfraction hexponent, ?_⟩
    rw [List.append_assoc, List.append_assoc]
  unfold readNumber at h
  split at h
  · obtain ⟨ts, hts, rfl⟩ := hunsigned h
    exact ⟨'-' :: ts, hts, rfl⟩
  · obtain ⟨ts, hts, rfl⟩ := hunsigned h
    exact ⟨ts, hts, rfl⟩

/-! ## Whole numbers -/

/-- The literal of a whole number. -/
def NumberLiteral.ofInt (n : Int) : NumberLiteral :=
  { negative := n < 0, whole := digitList n.natAbs, fraction := none, exponent := none }

/-- **The numeral of a whole number** is a text of its literal: no zero stands before other digits. -/
theorem NumberLiteral.spells_ofInt (n : Int) : (NumberLiteral.ofInt n).Spells (intDigits n) := by
  have hwhole : IsDigits (digitList n.natAbs) :=
    ⟨digitList_ne_nil _, fun _ => lt_of_mem_digitList⟩
  have hzero : ∀ d ds, digitList n.natAbs ≠ 0 :: d :: ds := by
    intro d ds h
    rcases Nat.eq_zero_or_pos n.natAbs with hn | hn
    · rw [hn, digitList] at h
      cases h
    · obtain ⟨d', ds', hd, hpos⟩ := head_digitList_pos hn
      rw [hd] at h
      exact absurd (List.cons.inj h).1 hpos.ne'
  have hspells : ∀ negative, Spells ⟨negative, digitList n.natAbs, none, none⟩
      ((if negative then ['-'] else []) ++ natDigits n.natAbs) := by
    intro negative
    have hdigits : natDigits n.natAbs = (digitList n.natAbs).map digitChar ++ ([] ++ []) := by
      rw [natDigits_eq_map, List.append_nil, List.append_nil]
    rw [hdigits]
    exact .mk hwhole hzero .absent .absent
  unfold intDigits ofInt
  by_cases hn : n < 0
  · rw [if_pos hn, decide_eq_true hn]
    exact hspells true
  · rw [if_neg hn, decide_eq_false hn]
    exact hspells false

/-- The literal of a whole number that fits 64 bits is worth that number. -/
theorem NumberLiteral.value?_ofInt {n : Int} (hlow : leastInt64 ≤ n)
    (hhigh : n ≤ NumberLiteral.maxWord) : (NumberLiteral.ofInt n).value? = some (.integer n) := by
  unfold leastInt64 at hlow
  unfold NumberLiteral.maxWord at hhigh
  unfold NumberLiteral.value? NumberLiteral.ofInt
  simp only [foldl_digitList, Option.isNone_none, and_self, if_true, decide_eq_true_eq,
    NumberLiteral.maxWord]
  by_cases hn : n < 0
  · rw [if_pos hn, if_pos (by omega)]
    have : -(n.natAbs : Int) = n := by omega
    rw [this]
  · rw [if_neg hn, if_pos (by omega)]
    have : (n.natAbs : Int) = n := by omega
    rw [this]

/-- The literal of a signed 64-bit number is worth it. -/
@[simp] theorem NumberLiteral.value?_toInt (n : Int64) :
    (NumberLiteral.ofInt n.toInt).value? = some (.integer n.toInt) := by
  have hlow : leastInt64 ≤ n.toInt := n.le_toInt
  have hhigh : n.toInt ≤ NumberLiteral.maxWord := by
    have := n.toInt_lt
    unfold NumberLiteral.maxWord
    omega
  exact NumberLiteral.value?_ofInt hlow hhigh

end SampleData.Json
