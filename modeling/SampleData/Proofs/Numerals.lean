import SampleData.Text.Numeral
import Mathlib.Data.List.Basic

/-!
# Numerals

The numeral of a number is the list of its digits, highest first, and no other number has it.

* `natDigits_eq_map`: a numeral, digit by digit.
* `foldl_digitList`: the digits make up the number.
* `natDigits_injective`: numerals of different numbers differ.
-/

namespace SampleData.Text

/-! ## Digits -/

/-- The values of the digits of a number, the highest first. -/
def digitList (n : Nat) : List Nat :=
  if n < 10 then [n] else digitList (n / 10) ++ [n % 10]
termination_by n
decreasing_by omega

/-- A digit has the value it is the digit of. -/
theorem digitValue?_digitChar {d : Nat} (h : d < 10) : digitValue? (digitChar d) = some d := by
  have hall : ∀ d < 10, digitValue? (digitChar d) = some d := by decide
  exact hall d h

/-- A numeral is written digit by digit. -/
theorem natDigits_eq_map (n : Nat) : natDigits n = (digitList n).map digitChar := by
  induction n using Nat.strongRecOn with
  | _ n ih =>
    rw [natDigits, digitList]
    by_cases hn : n < 10
    · rw [if_pos hn, if_pos hn]
      rfl
    · rw [if_neg hn, if_neg hn, ih (n / 10) (by omega), List.map_append]
      rfl

/-- The digits of a number are below ten. -/
theorem lt_of_mem_digitList {n d : Nat} (h : d ∈ digitList n) : d < 10 := by
  induction n using Nat.strongRecOn with
  | _ n ih =>
    rw [digitList] at h
    by_cases hn : n < 10
    · rw [if_pos hn, List.mem_singleton] at h
      omega
    · rw [if_neg hn, List.mem_append, List.mem_singleton] at h
      rcases h with h | h
      · exact ih (n / 10) (by omega) h
      · omega

/-- Every number has a digit. -/
theorem digitList_ne_nil (n : Nat) : digitList n ≠ [] := by
  rw [digitList]
  split <;> simp

/-- The digits of a number make it up. -/
@[simp] theorem foldl_digitList (n : Nat) :
    (digitList n).foldl (fun acc d => 10 * acc + d) 0 = n := by
  induction n using Nat.strongRecOn with
  | _ n ih =>
    rw [digitList]
    by_cases hn : n < 10
    · rw [if_pos hn]
      simp
    · rw [if_neg hn, List.foldl_append, ih (n / 10) (by omega)]
      simp only [List.foldl_cons, List.foldl_nil]
      omega

/-- Only zero has a leading zero, and no more than that. -/
theorem head_digitList_pos {n : Nat} (h : 0 < n) : ∃ d ds, digitList n = d :: ds ∧ 0 < d := by
  induction n using Nat.strongRecOn with
  | _ n ih =>
    rw [digitList]
    by_cases hn : n < 10
    · exact ⟨n, [], if_pos hn, h⟩
    · obtain ⟨d, ds, hd, hpos⟩ := ih (n / 10) (by omega) (by omega)
      exact ⟨d, ds ++ [n % 10], by rw [if_neg hn, hd]; rfl, hpos⟩

/-- Numerals of different numbers differ: their digits are the same only if the numbers are. -/
theorem natDigits_injective : Function.Injective natDigits := by
  intro m n h
  rw [natDigits_eq_map, natDigits_eq_map] at h
  have hdigits : ∀ k, ((digitList k).map digitChar).map digitValue? = (digitList k).map some := by
    intro k
    rw [List.map_map]
    exact List.map_congr_left fun d hd => digitValue?_digitChar (lt_of_mem_digitList hd)
  have hlists : digitList m = digitList n := by
    apply List.map_injective_iff.mpr fun _ _ => Option.some.inj
    rw [← hdigits m, ← hdigits n, h]
  rw [← foldl_digitList m, ← foldl_digitList n, hlists]

/-- Every character of a numeral is a digit. -/
theorem digitValue?_of_mem_natDigits {n : Nat} {c : Char} (h : c ∈ natDigits n) :
    (digitValue? c).isSome := by
  rw [natDigits_eq_map] at h
  obtain ⟨d, hd, rfl⟩ := List.mem_map.mp h
  rw [digitValue?_digitChar (lt_of_mem_digitList hd)]
  rfl

end SampleData.Text
