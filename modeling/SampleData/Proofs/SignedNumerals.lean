import SampleData.Proofs.Numerals
import Mathlib.Data.Nat.Digits.Defs
import Mathlib.Data.List.Induction

/-!
# Numerals with a sign

What is read as a whole number is a sign, or none, and one digit or more, leading zeros included;
its value is that of the digits in base ten. As a signed word it is read exactly if the value fits.

* `IsNumeral`: the numerals of whole numbers.
* `readInt64?_eq_some_iff`: the words that are read.
* `isNumeral_intDigits`: the numeral that is written for a number is one of its numerals.
-/

namespace SampleData.Text

/-! ## Digits -/

/-- The value of digits, the highest first. -/
def digitsValue (ds : List Nat) : Nat := Nat.ofDigits 10 ds.reverse

/-- A further digit behind. -/
@[simp] theorem digitsValue_append_singleton (ds : List Nat) (d : Nat) :
    digitsValue (ds ++ [d]) = 10 * digitsValue ds + d := by
  rw [digitsValue, List.reverse_append, List.reverse_singleton, List.singleton_append,
    Nat.ofDigits_cons, digitsValue]
  exact Nat.add_comm _ _

/-- The value is made up from the highest digit on. -/
@[simp] theorem foldl_eq_digitsValue (ds : List Nat) :
    ds.foldl (fun acc d => 10 * acc + d) 0 = digitsValue ds := by
  induction ds using List.reverseRecOn with
  | nil => rfl
  | append_singleton ds d ih =>
      rw [List.foldl_append, ih, digitsValue_append_singleton]
      rfl

/-- A character that has a value is the digit of that value. -/
theorem eq_digitChar_of_digitValue? {c : Char} {d : Nat} (h : digitValue? c = some d) :
    d < 10 ∧ c = digitChar d := by
  unfold digitValue? at h
  split at h
  · next hc =>
    obtain rfl := Option.some.inj h
    have hlow : 48 ≤ c.toNat := Char.le_def.mp hc.1
    have hhigh : c.toNat ≤ 57 := Char.le_def.mp hc.2
    have hall : ∀ k < 10, Char.ofNat (48 + k) = digitChar k := by decide
    have hd : c.toNat - '0'.toNat < 10 := by
      show c.toNat - 48 < 10
      omega
    refine ⟨hd, ?_⟩
    rw [← hall _ hd]
    have hnat : 48 + (c.toNat - '0'.toNat) = c.toNat := Nat.add_sub_cancel' hlow
    rw [hnat, Char.ofNat_toNat]
  · cases h

/-- Reading digits goes on from what is read so far; it succeeds on digits only. -/
theorem readDigits_eq_some_iff {acc n : Nat} {cs : List Char} :
    readDigits acc cs = some n ↔ ∃ ds : List Nat, (∀ d ∈ ds, d < 10) ∧ cs = ds.map digitChar ∧
      n = ds.foldl (fun acc d => 10 * acc + d) acc := by
  induction cs generalizing acc with
  | nil =>
      constructor
      · intro h
        exact ⟨[], nofun, rfl, (Option.some.inj h).symm⟩
      · rintro ⟨ds, -, hnil, rfl⟩
        rw [List.map_eq_nil_iff.mp hnil.symm]
        rfl
  | cons c cs ih =>
      rw [readDigits]
      constructor
      · intro h
        split at h
        · next d hd =>
          obtain ⟨hten, rfl⟩ := eq_digitChar_of_digitValue? hd
          obtain ⟨ds, hds, rfl, rfl⟩ := ih.mp h
          exact ⟨d :: ds, List.forall_mem_cons.mpr ⟨hten, hds⟩, rfl, rfl⟩
        · cases h
      · rintro ⟨ds, hds, hcons, rfl⟩
        cases ds with
        | nil => cases hcons
        | cons d ds =>
            obtain ⟨hten, hds⟩ := List.forall_mem_cons.mp hds
            obtain ⟨rfl, rfl⟩ := List.cons.inj hcons
            rw [digitValue?_digitChar hten]
            exact ih.mpr ⟨ds, hds, rfl, rfl⟩

/-- A natural number is read of one digit or more. -/
theorem readNat?_eq_some_iff {n : Nat} {cs : List Char} :
    readNat? cs = some n ↔ ∃ ds : List Nat, ds ≠ [] ∧ (∀ d ∈ ds, d < 10) ∧
      cs = ds.map digitChar ∧ n = digitsValue ds := by
  cases cs with
  | nil =>
      constructor
      · intro h
        cases h
      · rintro ⟨ds, hne, -, hnil, -⟩
        exact absurd (List.map_eq_nil_iff.mp hnil.symm) hne
  | cons c cs =>
      rw [readNat?, readDigits_eq_some_iff]
      · constructor
        · rintro ⟨ds, hds, hcons, rfl⟩
          refine ⟨ds, ?_, hds, hcons, foldl_eq_digitsValue ds⟩
          rintro rfl
          cases hcons
        · rintro ⟨ds, -, hds, hcons, rfl⟩
          exact ⟨ds, hds, hcons, (foldl_eq_digitsValue ds).symm⟩
      · exact List.cons_ne_nil c cs

/-- A number that is read and then changed. -/
theorem map_readNat?_eq_some_iff {cs : List Char} {f : Int → Int} {i : Int} :
    (readNat? cs >>= fun n => pure (n : Int)).map f = some i ↔
      ∃ ds : List Nat, ds ≠ [] ∧ (∀ d ∈ ds, d < 10) ∧ cs = ds.map digitChar ∧
        i = f (digitsValue ds) := by
  cases hread : readNat? cs with
  | none =>
      constructor
      · intro h
        cases h
      · rintro ⟨ds, hne, hten, hcs, -⟩
        rw [readNat?_eq_some_iff.mpr ⟨ds, hne, hten, hcs, rfl⟩] at hread
        cases hread
  | some n =>
      obtain ⟨ds, hne, hten, hcs, rfl⟩ := readNat?_eq_some_iff.mp hread
      constructor
      · intro h
        exact ⟨ds, hne, hten, hcs, (Option.some.inj h).symm⟩
      · rintro ⟨ds', hne', hten', hcs', rfl⟩
        rw [readNat?_eq_some_iff.mpr ⟨ds', hne', hten', hcs', rfl⟩] at hread
        rw [← Option.some.inj hread]
        rfl

/-! ## Signs -/

/-- A numeral of a whole number: one digit or more, behind a sign or none. -/
inductive IsNumeral : List Char → Int → Prop
  | plain {ds : List Nat} (hne : ds ≠ []) (hten : ∀ d ∈ ds, d < 10) :
      IsNumeral (ds.map digitChar) (digitsValue ds)
  | plus {ds : List Nat} (hne : ds ≠ []) (hten : ∀ d ∈ ds, d < 10) :
      IsNumeral ('+' :: ds.map digitChar) (digitsValue ds)
  | minus {ds : List Nat} (hne : ds ≠ []) (hten : ∀ d ∈ ds, d < 10) :
      IsNumeral ('-' :: ds.map digitChar) (-digitsValue ds)

/-- A numeral has a digit. -/
theorem IsNumeral.ne_nil {cs : List Char} {i : Int} (h : IsNumeral cs i) : cs ≠ [] := by
  cases h with
  | plain hne _ => exact fun hnil => hne (List.map_eq_nil_iff.mp hnil)
  | plus _ _ => exact List.cons_ne_nil _ _
  | minus _ _ => exact List.cons_ne_nil _ _

/-- What stands in front of the digits is no digit. -/
theorem digitChar_ne_sign {d : Nat} (h : d < 10) : digitChar d ≠ '-' ∧ digitChar d ≠ '+' := by
  have hall : ∀ k < 10, digitChar k ≠ '-' ∧ digitChar k ≠ '+' := by decide
  exact hall d h

/-- **What is read as a whole number** are its numerals. -/
theorem readInt?_eq_some_iff {cs : List Char} {i : Int} :
    readInt? cs = some i ↔ IsNumeral cs i := by
  constructor
  · intro h
    unfold readInt? at h
    split at h
    · obtain ⟨ds, hne, hten, rfl, rfl⟩ := map_readNat?_eq_some_iff.mp h
      exact .minus hne hten
    · obtain ⟨ds, hne, hten, rfl, rfl⟩ := map_readNat?_eq_some_iff.mp h
      exact .plus hne hten
    · obtain ⟨ds, hne, hten, rfl, rfl⟩ := map_readNat?_eq_some_iff.mp h
      exact .plain hne hten
  · intro h
    cases h with
    | minus hne hten => exact map_readNat?_eq_some_iff.mpr ⟨_, hne, hten, rfl, rfl⟩
    | plus hne hten => exact map_readNat?_eq_some_iff.mpr ⟨_, hne, hten, rfl, rfl⟩
    | @plain ds hne hten =>
        have hread := (map_readNat?_eq_some_iff (f := id)).mpr ⟨ds, hne, hten, rfl, rfl⟩
        unfold readInt?
        cases ds with
        | nil => exact absurd rfl hne
        | cons d ds =>
            obtain ⟨hminus, hplus⟩ := digitChar_ne_sign (hten d List.mem_cons_self)
            split
            · next heq => exact absurd (List.cons.inj heq).1 hminus
            · next heq => exact absurd (List.cons.inj heq).1 hplus
            · exact hread

/-- A whole number is a word exactly if it is the value of one. -/
theorem toInt64?_eq_some_iff {i : Int} {n : Int64} : toInt64? i = some n ↔ i = n.toInt := by
  have hlow := n.le_toInt
  have hhigh := n.toInt_lt
  unfold toInt64? leastInt64 greatestInt64
  constructor
  · intro h
    split at h
    · next hi =>
      obtain rfl := Option.some.inj h
      exact (Int64.toInt_ofInt_of_le (by omega) (by omega)).symm
    · cases h
  · rintro rfl
    rw [if_pos (by omega), Int64.ofInt_toInt]

/-- **The signed words that are read** are those whose numerals stand there. -/
theorem readInt64?_eq_some_iff {cs : List Char} {n : Int64} :
    readInt64? cs = some n ↔ IsNumeral cs n.toInt := by
  unfold readInt64?
  rw [Option.bind_eq_some_iff]
  constructor
  · rintro ⟨i, hi, hn⟩
    rw [← toInt64?_eq_some_iff.mp hn]
    exact readInt?_eq_some_iff.mp hi
  · intro h
    exact ⟨n.toInt, readInt?_eq_some_iff.mpr h, toInt64?_eq_some_iff.mpr rfl⟩

/-- Nothing is read exactly if no numeral of a word stands there. -/
theorem readInt64?_eq_none_iff {cs : List Char} :
    readInt64? cs = none ↔ ¬ ∃ n : Int64, IsNumeral cs n.toInt := by
  rw [Option.eq_none_iff_forall_ne_some, not_exists]
  exact forall_congr' fun n => not_congr readInt64?_eq_some_iff

/-! ## Written numerals -/

/-- What is written for a number is one of its numerals. -/
theorem isNumeral_intDigits (i : Int) : IsNumeral (intDigits i) i := by
  have hvalue : digitsValue (digitList i.natAbs) = i.natAbs := by
    rw [← foldl_eq_digitsValue, foldl_digitList]
  have hten : ∀ d ∈ digitList i.natAbs, d < 10 := fun d hd => lt_of_mem_digitList hd
  unfold intDigits
  rw [natDigits_eq_map]
  split
  · next hneg =>
    have hi : i = -(digitsValue (digitList i.natAbs) : Int) := by
      rw [hvalue]
      omega
    generalize hds : digitList i.natAbs = ds at hi hten
    rw [hi]
    exact .minus (hds ▸ digitList_ne_nil i.natAbs) hten
  · next hpos =>
    have hi : i = (digitsValue (digitList i.natAbs) : Int) := by
      rw [hvalue]
      omega
    generalize hds : digitList i.natAbs = ds at hi hten
    rw [hi]
    exact .plain (hds ▸ digitList_ne_nil i.natAbs) hten

/-- The characters of a written number are a sign and digits. -/
theorem mem_intDigits {i : Int} {c : Char} (h : c ∈ intDigits i) :
    c = '-' ∨ (digitValue? c).isSome := by
  unfold intDigits at h
  split at h
  · exact (List.mem_cons.mp h).imp_right digitValue?_of_mem_natDigits
  · exact .inr (digitValue?_of_mem_natDigits h)

end SampleData.Text
