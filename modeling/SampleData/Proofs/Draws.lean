import SampleData.Draw.Identifier
import Mathlib.Data.List.Basic
import Mathlib.Tactic.NormNum

/-!
# What draws give

A draw is judged whatever the source answers: `Draw.Yields d P` says that `d` ends with a value
that has `P` from every state of the source, or goes on for ever. It never ends in a range without
numbers. Each draw of the library has one statement of this form, and composed draws have theirs
by `Yields.bind`.

* `drawBelow64_yields`, `drawBelow32_yields`: a number below the bound.
* `drawInteger_yields`: a number between the bounds, for all bounds that are in order, the full
  range of 64-bit numbers included.
* `drawChoice_yields`: an entry of a list that is not empty, and never nothing.
* `drawUuid_yields`: the text of a random UUID.
-/

namespace SampleData

/-! ## Draws that end well -/

/-- From every state of the source the draw ends with a value that has `P`, or goes on for ever. -/
def Draw.Yields {σ α : Type} (d : Draw σ α) (P : α → Prop) : Prop :=
  ∀ s, match d s with
    | .ok a _ => P a
    | .error e _ => e = .endless

namespace Draw.Yields

variable {σ α β : Type} {d : Draw σ α} {P Q : α → Prop} {R : β → Prop}

/-- A value that is at hand. -/
theorem pure {a : α} (h : P a) : Draw.Yields (Pure.pure a : Draw σ α) P := fun _ => h

/-- One draw after another. -/
theorem bind {f : α → Draw σ β} (hd : d.Yields P) (hf : ∀ a, P a → (f a).Yields R) :
    Draw.Yields (d >>= f) R := by
  intro s
  have hs := hd s
  change match EStateM.bind d f s with
    | .ok b _ => R b
    | .error e _ => e = .endless
  unfold EStateM.bind
  cases hr : d s with
  | ok a s' =>
      rw [hr] at hs
      exact hf a hs s'
  | error e s' =>
      rw [hr] at hs
      exact hs

/-- A draw never ends in a range without numbers. -/
theorem outcome_ne_emptyRange (hd : d.Yields P) (s : σ) (low high : Int64) :
    (d.outcome s).1 ≠ .error (.emptyRange low high) := by
  have hs := hd s
  unfold Draw.outcome EStateM.run
  cases hr : d s with
  | ok a s' => simp
  | error e s' =>
      rw [hr] at hs
      simp [hs]

/-- A value that was drawn has `P`. -/
theorem of_outcome_ok (hd : d.Yields P) {s : σ} {a : α} (h : (d.outcome s).1 = .ok a) : P a := by
  have hs := hd s
  unfold Draw.outcome EStateM.run at h
  cases hr : d s with
  | ok b s' =>
      rw [hr] at hs h
      cases h
      exact hs
  | error e s' =>
      rw [hr] at h
      cases h

end Draw.Yields

variable {σ : Type} [WordSource σ]

/-! ## Numbers below a bound -/

/-- A word that counts gives a number below the bound. -/
theorem pickBelow_lt {b n word x : Nat} (hw : word < Nat.pow 2 b)
    (h : pickBelow b n word = some x) : x < n := by
  simp only [pickBelow] at h
  split at h
  · cases h
    rcases Nat.eq_zero_or_pos n with rfl | hn
    · next hlt => simp [countingWords] at hlt
    · exact Nat.div_lt_of_lt_mul (Nat.mul_lt_mul_of_pos_right hw hn)
  · cases h

omit [WordSource σ] in
/-- Trying words ends with what one of them gives. The induction is on the tries that are left:
a word that does not count leaves the same claim about the rest of the source. -/
theorem tryWords_yields {next : σ → Nat × σ} {pick : Nat → Option Nat} {P : Nat → Prop}
    (h : ∀ s x, pick (next s).1 = some x → P x) (tries : Nat) :
    (tryWords next pick tries).Yields P := by
  induction tries with
  | zero =>
      intro s
      rfl
  | succ tries ih =>
      intro s
      unfold tryWords
      cases hp : pick (next s).1 with
      | some x => exact h s x hp
      | none => exact ih (next s).2

/-- A number below a bound of 64 bits. -/
theorem drawBelow64_yields (n : Nat) : (drawBelow64 n : Draw σ Nat).Yields (· < n) :=
  tryWords_yields (fun s _ hx => pickBelow_lt (WordSource.word64 s).1.toNat_lt hx) _

/-- A number below a bound of 32 bits. -/
theorem drawBelow32_yields (n : Nat) : (drawBelow32 n : Draw σ Nat).Yields (· < n) :=
  tryWords_yields (fun s _ hx => pickBelow_lt (WordSource.word32 s).1.toNat_lt hx) _

/-- A place in a list. -/
theorem drawIndex_yields (n : Nat) : (drawIndex n : Draw σ Nat).Yields (· < n) := by
  unfold drawIndex
  split
  · exact drawBelow32_yields n
  · exact drawBelow64_yields n

/-! ## Numbers between bounds -/

/-- Folding a whole number into a signed word moves it by a multiple of `2 ^ 64`. -/
theorem exists_bmod_eq (x : Int) : ∃ k : Int, x.bmod (2 ^ 64) = x + 2 ^ 64 * k := by
  obtain ⟨k, hk⟩ := Int.dvd_bmod_sub_self (x := x) (m := 2 ^ 64)
  have hcast : ((2 ^ 64 : Nat) : Int) = 2 ^ 64 := by norm_num
  rw [hcast] at hk
  exact ⟨k, by omega⟩

/-- A signed word and the unsigned word of the same bits differ by a multiple of `2 ^ 64`. -/
theorem toNat_toUInt64 (x : Int64) : (x.toUInt64.toNat : Int) = x.toInt % 2 ^ 64 := by
  have h : x.toInt = (x.toUInt64.toNat : Int).bmod (2 ^ 64) := by
    rw [← Int64.toInt_toBitVec, BitVec.toInt_eq_toNat_bmod]
    rfl
  obtain ⟨k, hk⟩ := exists_bmod_eq x.toUInt64.toNat
  rw [← h] at hk
  have := x.toUInt64.toNat_lt
  omega

/-- The size of a range is the number of its members, modulo `2 ^ 64`. -/
theorem toNat_rangeSize (low high : Int64) :
    ((rangeSize low high).toNat : Int) = (high.toInt - low.toInt + 1) % 2 ^ 64 := by
  have h := toNat_toUInt64 (high - low)
  obtain ⟨k, hk⟩ := exists_bmod_eq (high.toInt - low.toInt)
  rw [Int64.toInt_sub, hk] at h
  unfold rangeSize
  rw [UInt64.toNat_add, UInt64.toNat_one]
  omega

/-- The size of a range that holds not all numbers is the number of its members. -/
theorem toNat_rangeSize_of_ne_zero {low high : Int64} (h : low ≤ high)
    (hsize : rangeSize low high ≠ 0) :
    ((rangeSize low high).toNat : Int) = high.toInt - low.toInt + 1 := by
  have hle : low.toInt ≤ high.toInt := Int64.le_iff_toInt_le.mp h
  have hlow := low.le_toInt
  have hhigh := high.toInt_lt
  have hmod := toNat_rangeSize low high
  have hpos : (rangeSize low high).toNat ≠ 0 := fun h0 => hsize (UInt64.toNat_inj.mp h0)
  omega

/-- A range whose size wraps to zero holds all numbers. -/
theorem mem_of_rangeSize_eq_zero {low high : Int64} (h : low ≤ high)
    (hsize : rangeSize low high = 0) (x : Int64) : low ≤ x ∧ x ≤ high := by
  have hle : low.toInt ≤ high.toInt := Int64.le_iff_toInt_le.mp h
  have hlow := low.le_toInt
  have hhigh := high.toInt_lt
  have hleast := x.le_toInt
  have hgreatest := x.toInt_lt
  have hmod := toNat_rangeSize low high
  rw [hsize, UInt64.toNat_zero] at hmod
  exact ⟨Int64.le_iff_toInt_le.mpr (by omega), Int64.le_iff_toInt_le.mpr (by omega)⟩

/-- A step up from the lower bound that stays within the range does not wrap. -/
theorem toInt_add_step {low high : Int64} {k : Nat} (hk : low.toInt + k ≤ high.toInt) :
    (low + (UInt64.ofNat k).toInt64).toInt = low.toInt + k := by
  have hlow := low.le_toInt
  have hhigh := high.toInt_lt
  have hstep : (UInt64.ofNat k).toInt64.toInt = (k : Int).bmod (2 ^ 64) := by
    rw [← Int64.toInt_toBitVec, BitVec.toInt_eq_toNat_bmod, UInt64.toBitVec_toInt64,
      UInt64.toNat_toBitVec, UInt64.toNat_ofNat_of_lt' (by unfold UInt64.size; omega)]
  rw [Int64.toInt_add, hstep, Int.add_bmod_bmod]
  exact Int.bmod_eq_of_le (by omega) (by omega)

/-- A number between bounds that are in order. Where the size of the range wraps to zero the range
holds every number, so the word itself is between the bounds. -/
theorem drawInteger_yields {low high : Int64} (h : low ≤ high) :
    (drawInteger low high : Draw σ Int64).Yields fun v => low ≤ v ∧ v ≤ high := by
  unfold drawInteger
  rw [if_neg (Int64.not_lt.mpr h)]
  split
  · next hzero => exact fun s => mem_of_rangeSize_eq_zero h hzero _
  · next hne =>
    refine (drawBelow64_yields _).bind fun k hk => .pure ?_
    have hmembers := toNat_rangeSize_of_ne_zero h hne
    have hv := toInt_add_step (show low.toInt + k ≤ high.toInt by omega)
    exact ⟨Int64.le_iff_toInt_le.mpr (by omega), Int64.le_iff_toInt_le.mpr (by omega)⟩

/-- An entry of a list that is not empty. -/
theorem drawChoice_yields {α : Type} {xs : List α} (h : xs ≠ []) :
    (drawChoice xs : Draw σ (Option α)).Yields fun o => ∃ x ∈ xs, o = some x := by
  unfold drawChoice
  rw [if_neg (by simpa using h)]
  refine (drawIndex_yields xs.length).bind fun i hi => .pure ?_
  exact ⟨xs[i], List.getElem_mem hi, List.getElem?_eq_getElem hi⟩

end SampleData
