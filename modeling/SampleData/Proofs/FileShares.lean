import SampleData.Partition
import Mathlib

/-!
# Shares of the files

What workers get adds up to all files, and their runs of numbers follow each other without a gap.
So every file number belongs to exactly one of them.

* `map_toNat_shares`, `sum_shares`: the shares, and that they add up.
* `Assignment.Spans`: assignments that follow each other.
* `partition_spans`: those of a run do, from the first file to the last.
* `Assignment.Spans.exists_of_mem`, `Assignment.Spans.position_eq`: each number has exactly one.
* `seed_of_mem_assignmentsFrom`: the seed of each worker.
-/

namespace SampleData

/-! ## How much each worker gets -/

/-- What a worker gets, as a number: nothing overflows. -/
theorem toNat_share (total workers i : UInt64) :
    (share total workers i).toNat =
      total.toNat / workers.toNat + (if i.toNat < total.toNat % workers.toNat then 1 else 0) := by
  have hextra : (if i < total % workers then (1 : UInt64) else 0).toNat =
      if i.toNat < total.toNat % workers.toNat then 1 else 0 := by
    simp only [UInt64.lt_iff_toNat_lt, UInt64.toNat_mod]
    split <;> rfl
  have hroom : total.toNat / workers.toNat +
      (if i.toNat < total.toNat % workers.toNat then 1 else 0) < 2 ^ 64 := by
    have hsize := total.toNat_lt
    split
    · next hlt =>
      -- a rest means that the quotient is below the total
      have hdiv := Nat.div_add_mod total.toNat workers.toNat
      by_cases hw : workers.toNat = 0
      · rw [hw, Nat.div_zero]
        decide
      · have hle := Nat.le_mul_of_pos_left (total.toNat / workers.toNat) (Nat.pos_of_ne_zero hw)
        omega
    · exact lt_of_le_of_lt (Nat.div_le_self _ _) hsize
  rw [share, UInt64.toNat_add, UInt64.toNat_div, hextra, Nat.mod_eq_of_lt hroom]

/-- The number of workers is at least one. -/
@[simp] theorem toNat_effectiveWorkers (workers : UInt64) :
    (effectiveWorkers workers).toNat = max workers.toNat 1 := by
  unfold effectiveWorkers
  split
  · next h => rw [h]; rfl
  · next h =>
    have hne : workers.toNat ≠ 0 := fun h0 => h (UInt64.toNat_inj.mp h0)
    omega

/-- What the worker after `i` others gets of `total` files, if there are `workers` of them: an equal
share, and one file more if it is among the first. -/
def evenShare (total workers i : Nat) : Nat :=
  total / workers + (if i < total % workers then 1 else 0)

/-- **The shares as numbers.** -/
@[simp] theorem map_toNat_shares (total workers : UInt64) :
    (shares total workers).map UInt64.toNat =
      (List.range (max workers.toNat 1)).map (evenShare total.toNat (max workers.toNat 1)) := by
  have hsize := (effectiveWorkers workers).toNat_lt
  rw [← toNat_effectiveWorkers, shares, List.map_map]
  apply List.map_congr_left
  intro i hi
  rw [Function.comp_apply, toNat_share,
    UInt64.toNat_ofNat_of_lt' ((List.mem_range.mp hi).trans hsize), evenShare]

/-- Equal shares, and one more for the first workers. -/
theorem sum_range_share (n q r : Nat) :
    ((List.range n).map fun i => q + (if i < r then 1 else 0)).sum = n * q + min n r := by
  induction n with
  | zero => rw [Nat.zero_mul, Nat.zero_min]; rfl
  | succ n ih =>
      rw [List.range_succ, List.map_append, List.sum_append, ih, List.map_singleton,
        List.sum_singleton, Nat.succ_mul]
      split <;> omega

/-- Even shares add up to all files. -/
@[simp] theorem sum_evenShare (total : Nat) {workers : Nat} (h : 0 < workers) :
    ((List.range workers).map (evenShare total workers)).sum = total := by
  have hrest := Nat.mod_lt total h
  unfold evenShare
  rw [sum_range_share, Nat.min_eq_right hrest.le, Nat.div_add_mod]

/-- **The shares add up to all files.** -/
theorem sum_shares (total workers : UInt64) :
    ((shares total workers).map UInt64.toNat).sum = total.toNat := by
  rw [map_toNat_shares]
  exact sum_evenShare total.toNat (by omega)

/-! ## Runs of numbers -/

namespace Assignment

/-- Assignments with files that follow each other without a gap, from number `i` up to the one
before `stop`. -/
inductive Spans : Nat → List Assignment → Nat → Prop
  | nil (i : Nat) : Spans i [] i
  | cons {i stop : Nat} {a : Assignment} {as : List Assignment} (hstart : a.start.toNat = i)
      (hcount : 0 < a.count.toNat) (h : Spans (i + a.count.toNat) as stop) : Spans i (a :: as) stop

/-- A number belongs to an assignment. -/
def Has (a : Assignment) (i : Nat) : Prop :=
  a.start.toNat ≤ i ∧ i < a.start.toNat + a.count.toNat

namespace Spans

variable {i stop : Nat} {as : List Assignment}

/-- Assignments lie between the ends. -/
theorem bounds (h : Spans i as stop) :
    i ≤ stop ∧ ∀ a ∈ as, i ≤ a.start.toNat ∧ a.start.toNat + a.count.toNat ≤ stop := by
  induction h with
  | nil i => exact ⟨le_rfl, nofun⟩
  | @cons i stop b as hstart hcount h ih =>
      obtain ⟨hstop, hrest⟩ := ih
      refine ⟨by omega, fun a ha => ?_⟩
      rcases List.mem_cons.mp ha with rfl | ha
      · exact ⟨hstart.ge, by omega⟩
      · have := hrest a ha
        exact ⟨by omega, this.2⟩

/-- The numbers between the ends are those of the assignments, one after the other. -/
theorem numbers_eq (h : Spans i as stop) :
    (as.flatMap fun a => List.range' a.start.toNat a.count.toNat) = List.range' i (stop - i) := by
  induction h with
  | nil i => rw [Nat.sub_self]; rfl
  | @cons i stop a as hstart hcount h ih =>
      have hstop := h.bounds.1
      rw [List.flatMap_cons, ih, hstart, List.range'_append_1]
      congr 1
      omega

/-- Each number between the ends belongs to an assignment. -/
theorem exists_of_mem (h : Spans i as stop) {n : Nat} (hlow : i ≤ n) (hhigh : n < stop) :
    ∃ a ∈ as, a.Has n := by
  have hmem : n ∈ List.range' i (stop - i) := List.mem_range'_1.mpr ⟨hlow, by omega⟩
  rw [← h.numbers_eq, List.mem_flatMap] at hmem
  obtain ⟨a, ha, hn⟩ := hmem
  exact ⟨a, ha, List.mem_range'_1.mp hn⟩

/-- No number belongs to two assignments. -/
theorem position_eq (h : Spans i as stop) {k k' n : Nat} {a a' : Assignment}
    (hk : as[k]? = some a) (hk' : as[k']? = some a') (hn : a.Has n) (hn' : a'.Has n) :
    k = k' := by
  induction h generalizing k k' with
  | nil i => cases hk
  | @cons i stop b as hstart hcount h ih =>
      cases k with
      | zero =>
          cases k' with
          | zero => rfl
          | succ k' =>
              -- the first assignment ends where the others begin
              obtain rfl := Option.some.inj hk
              have := (h.bounds.2 a' (List.mem_of_getElem? hk')).1
              unfold Has at hn hn'
              omega
      | succ k =>
          cases k' with
          | zero =>
              obtain rfl := Option.some.inj hk'
              have := (h.bounds.2 a (List.mem_of_getElem? hk)).1
              unfold Has at hn hn'
              omega
          | succ k' => rw [ih hk hk']

end Spans

end Assignment

/-! ## The assignments of a run -/

/-- Without files there are no assignments. -/
theorem assignmentsFrom_eq_nil (seed : Option UInt64) {i start : UInt64} {counts : List UInt64}
    (h : (counts.map UInt64.toNat).sum = 0) : assignmentsFrom seed i start counts = [] := by
  induction counts generalizing i with
  | nil => rfl
  | cons count counts ih =>
      rw [List.map_cons, List.sum_cons, Nat.add_eq_zero_iff] at h
      rw [assignmentsFrom, if_pos (UInt64.toNat_inj.mp h.1)]
      exact ih h.2

/-- Assignments follow each other as their shares do; empty shares leave no gap. -/
theorem spans_assignmentsFrom (seed : Option UInt64) {i start : UInt64} {counts : List UInt64}
    (h : start.toNat + (counts.map UInt64.toNat).sum ≤ 2 ^ 64) :
    Assignment.Spans start.toNat (assignmentsFrom seed i start counts)
      (start.toNat + (counts.map UInt64.toNat).sum) := by
  induction counts generalizing i start with
  | nil => exact .nil _
  | cons count counts ih =>
      rw [List.map_cons, List.sum_cons] at h ⊢
      rw [assignmentsFrom]
      split
      · next hzero =>
        rw [hzero, UInt64.toNat_zero, Nat.zero_add] at h ⊢
        exact ih h
      · next hzero =>
        have hcount : 0 < count.toNat :=
          Nat.pos_of_ne_zero fun h0 => hzero (UInt64.toNat_inj.mp h0)
        rw [← Nat.add_assoc] at h ⊢
        refine .cons rfl hcount ?_
        dsimp only
        by_cases hrest : (counts.map UInt64.toNat).sum = 0
        · -- behind the last file the next number may be too large for a word
          rw [assignmentsFrom_eq_nil seed hrest, hrest]
          exact .nil _
        · have hnext : (start + count).toNat = start.toNat + count.toNat := by
            rw [UInt64.toNat_add, Nat.mod_eq_of_lt (by omega)]
          rw [← hnext] at h ⊢
          exact ih h

/-- **The assignments of a run** follow each other from the first file to the last. -/
theorem partition_spans (total workers : UInt64) (seed : Option UInt64) :
    Assignment.Spans 1 (partition total workers seed) (1 + total.toNat) := by
  have hsum := sum_shares total workers
  have hsize := total.toNat_lt
  have hroom : (1 : UInt64).toNat + ((shares total workers).map UInt64.toNat).sum ≤ 2 ^ 64 := by
    rw [hsum, UInt64.toNat_one]
    omega
  have hspans := spans_assignmentsFrom seed (i := 0) hroom
  rw [hsum] at hspans
  exact hspans

/-- The seed of a worker is the seed of the run plus the number of workers before it. -/
theorem seed_of_mem_assignmentsFrom {seed : Option UInt64} {i start : UInt64}
    {counts : List UInt64} {a : Assignment} (ha : a ∈ assignmentsFrom seed i start counts) :
    a.seed = seed.map (· + (a.worker - 1)) := by
  induction counts generalizing i start with
  | nil => exact absurd ha List.not_mem_nil
  | cons count counts ih =>
      rw [assignmentsFrom] at ha
      split at ha
      · exact ih ha
      · rcases List.mem_cons.mp ha with rfl | ha
        · dsimp only
          rw [UInt64.add_sub_cancel]
        · exact ih ha

end SampleData
