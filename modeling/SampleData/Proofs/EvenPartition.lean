import SampleData.Proofs.FileShares
import Mathlib

/-!
# Even partitions

Files are shared out evenly, and nothing is lost or counted twice at the edges of the 64-bit range:
the shares differ by one file at most, longer ones first, so the workers that get a file are the
first ones, without a gap, and the sums by which their numbers are had stay below `2 ^ 64`.

* `SharedEvenly`: what it is to share out evenly; `sharedEvenly_evenShare`: that is done.
* `map_worker_assignmentsFrom`: workers with files are numbered without a gap.
* `Assignment.Tiles`, `Assignment.Spans.tiles`: assignments that follow each other have every number
  once.
* `partition_tiles`: all of it, for the assignments of a run.
-/

namespace SampleData

/-! ## Shares -/

/-- The counts share out `total` things among `workers` workers: nothing is left over, nobody gets
less than somebody after them, and nobody gets more than one thing more than anybody else. -/
structure SharedEvenly (total workers : Nat) (counts : List Nat) : Prop where
  length_eq : counts.length = workers
  sum_eq : counts.sum = total
  descending : counts.Pairwise (· ≥ ·)
  close : ∀ x ∈ counts, ∀ y ∈ counts, x ≤ y + 1

/-- A worker does not get less than one after it. -/
theorem evenShare_anti {total workers i j : Nat} (h : i ≤ j) :
    evenShare total workers j ≤ evenShare total workers i := by
  unfold evenShare
  split <;> split <;> omega

/-- Even shares are shared out evenly. -/
theorem sharedEvenly_evenShare (total : Nat) {workers : Nat} (h : 0 < workers) :
    SharedEvenly total workers ((List.range workers).map (evenShare total workers)) where
  length_eq := by rw [List.length_map, List.length_range]
  sum_eq := sum_evenShare total h
  descending := by
    rw [List.pairwise_map]
    exact List.pairwise_lt_range.imp fun hij => evenShare_anti hij.le
  close := by
    intro x hx y hy
    obtain ⟨i, -, rfl⟩ := List.mem_map.mp hx
    obtain ⟨j, -, rfl⟩ := List.mem_map.mp hy
    unfold evenShare
    split <;> split <;> omega

/-- The places below a bound in a range. -/
theorem countP_lt_range (n t : Nat) : (List.range n).countP (· < t) = min t n := by
  induction n with
  | zero => rw [Nat.min_zero]; rfl
  | succ n ih =>
      rw [List.range_succ, List.countP_append, ih, List.countP_singleton]
      split
      · next h => rw [decide_eq_true_eq] at h; omega
      · next h => rw [decide_eq_true_eq] at h; omega

/-- The first workers get something, as many of them as there are things. -/
theorem evenShare_ne_zero_iff {total workers i : Nat} (h : i < workers) :
    evenShare total workers i ≠ 0 ↔ i < total := by
  unfold evenShare
  rcases Nat.lt_or_ge total workers with hlt | hge
  · rw [Nat.div_eq_of_lt hlt, Nat.mod_eq_of_lt hlt]
    split <;> omega
  · have hpos := Nat.div_pos hge (Nat.zero_lt_of_lt h)
    omega

/-- As many workers get something as there are things, or all of them do. -/
theorem countP_evenShare (total workers : Nat) :
    ((List.range workers).map (evenShare total workers)).countP (· ≠ 0) = min total workers := by
  rw [List.countP_map, ← countP_lt_range workers total]
  refine List.countP_congr fun i hi => ?_
  rw [Function.comp_apply, decide_eq_true_eq, decide_eq_true_eq]
  exact evenShare_ne_zero_iff (List.mem_range.mp hi)

/-! ## Numbers of workers -/

/-- Workers without files get no assignment. -/
theorem assignmentsFrom_of_zeros (seed : Option UInt64) {i start : UInt64} {counts : List UInt64}
    (h : ∀ c ∈ counts, c = 0) : assignmentsFrom seed i start counts = [] := by
  induction counts generalizing i with
  | nil => rfl
  | cons c counts ih =>
      obtain ⟨hc, hcounts⟩ := List.forall_mem_cons.mp h
      rw [assignmentsFrom, if_pos hc, ih hcounts]

/-- **Workers with files are numbered without a gap**, if the shares descend: behind the first
empty share all are empty. -/
theorem map_worker_assignmentsFrom (seed : Option UInt64) {i start : UInt64} {counts : List UInt64}
    (hdesc : (counts.map UInt64.toNat).Pairwise (· ≥ ·))
    (hroom : i.toNat + counts.length < 2 ^ 64) :
    (assignmentsFrom seed i start counts).map (·.worker.toNat) =
      List.range' (i.toNat + 1) ((counts.map UInt64.toNat).countP (· ≠ 0)) := by
  induction counts generalizing i start with
  | nil => rfl
  | cons c counts ih =>
      rw [List.map_cons, List.pairwise_cons] at hdesc
      rw [List.length_cons] at hroom
      have hnext : (i + 1).toNat = i.toNat + 1 := by
        rw [UInt64.toNat_add, UInt64.toNat_one, Nat.mod_eq_of_lt (by omega)]
      rw [List.map_cons, List.countP_cons]
      by_cases hc : c = 0
      · subst hc
        have hzeros : ∀ c ∈ counts, c = 0 := fun c hc =>
          UInt64.toNat_inj.mp (Nat.le_zero.mp (hdesc.1 _ (List.mem_map_of_mem hc)))
        have hnone : (counts.map UInt64.toNat).countP (· ≠ 0) = 0 := by
          rw [List.countP_eq_zero]
          intro n hn
          obtain ⟨c, hc, rfl⟩ := List.mem_map.mp hn
          simp [hzeros c hc]
        rw [assignmentsFrom, if_pos rfl, assignmentsFrom_of_zeros seed hzeros, hnone]
        rfl
      · have hpos : c.toNat ≠ 0 := fun h0 => hc (UInt64.toNat_inj.mp h0)
        rw [assignmentsFrom, if_neg hc, List.map_cons, ih hdesc.2 (by omega), hnext,
          if_pos (by simpa using hpos), List.range'_succ]

/-! ## Numbers of files -/

namespace Assignment

/-- The assignments have the numbers from 1 to `total`, each of them once and in order. -/
structure Tiles (total : Nat) (as : List Assignment) : Prop where
  /-- No assignment is without files. -/
  positive : ∀ a ∈ as, 1 ≤ a.count.toNat
  /-- The first of them starts at 1. -/
  first : ∀ a ∈ as.head?, a.start.toNat = 1
  /-- The next one starts behind the last number of the one before it. -/
  next : as.IsChain fun (a b : Assignment) => b.start.toNat = a.last.toNat + 1
  /-- The last of them ends at `total`. -/
  last : ∀ a ∈ as.getLast?, a.last.toNat = total
  /-- There is none only if there is nothing to do. -/
  nil_iff : as = [] ↔ total = 0
  /-- Each number lies in exactly one of them, and no other number lies in any. -/
  once : ∀ n, 1 ≤ n ∧ n ≤ total ↔
    ∃! k : Nat, ∃ a : Assignment, as[k]? = some a ∧ a.start.toNat ≤ n ∧ n ≤ a.last.toNat

/-- No sum of an assignment's numbers comes to `2 ^ 64`. -/
structure Exact (a : Assignment) : Prop where
  /-- The number behind the last one, at which the next assignment starts. -/
  behind : (a.start + a.count).toNat = a.start.toNat + a.count.toNat
  /-- The last number. -/
  last : a.last.toNat = a.start.toNat + (a.count.toNat - 1)
  /-- The number of each file. -/
  number : ∀ k < a.count, (a.start + k).toNat = a.start.toNat + k.toNat

/-- Nothing wraps if the number behind the last one is below `2 ^ 64`. -/
theorem exact_of_lt {a : Assignment} (h : a.start.toNat + a.count.toNat < 2 ^ 64) : a.Exact where
  behind := by rw [UInt64.toNat_add, Nat.mod_eq_of_lt h]
  last := by
    unfold Assignment.last
    split
    · next h0 =>
      rw [h0, UInt64.add_zero, UInt64.toNat_zero]
      omega
    · next h0 =>
      have hpos : a.count.toNat ≠ 0 := fun hn => h0 (UInt64.toNat_inj.mp hn)
      have hone : (1 : UInt64) ≤ a.count := by
        rw [UInt64.le_iff_toNat_le, UInt64.toNat_one]
        omega
      rw [UInt64.toNat_add, UInt64.toNat_sub_of_le _ _ hone, UInt64.toNat_one,
        Nat.mod_eq_of_lt (by omega)]
  number := by
    intro k hk
    rw [UInt64.lt_iff_toNat_lt] at hk
    rw [UInt64.toNat_add, Nat.mod_eq_of_lt (by omega)]

namespace Spans

variable {i stop : Nat} {as : List Assignment}

/-- Assignments that follow each other are not empty. -/
theorem count_pos (h : Spans i as stop) : ∀ a ∈ as, 0 < a.count.toNat := by
  induction h with
  | nil i => exact nofun
  | cons _ hcount _ ih => exact List.forall_mem_cons.mpr ⟨hcount, ih⟩

/-- The first one starts where they do. -/
theorem start_of_head? (h : Spans i as stop) : ∀ a ∈ as.head?, a.start.toNat = i := by
  cases h with
  | nil => exact nofun
  | cons hstart _ _ =>
      rintro _ ⟨⟩
      exact hstart

/-- Each one starts behind the one before it. -/
theorem isChain (h : Spans i as stop) :
    as.IsChain fun (a b : Assignment) => b.start.toNat = a.start.toNat + a.count.toNat := by
  induction h with
  | nil i => exact .nil
  | @cons i stop a as hstart _ h ih =>
      cases as with
      | nil => exact .singleton a
      | cons b as =>
          refine .cons_cons ?_ ih
          rw [h.start_of_head? b rfl, hstart]

/-- The last one ends where they do. -/
theorem behind_getLast? (h : Spans i as stop) :
    ∀ a ∈ as.getLast?, a.start.toNat + a.count.toNat = stop := by
  induction h with
  | nil i => exact nofun
  | @cons i stop a as hstart _ h ih =>
      cases as with
      | nil =>
          cases h
          intro b hb
          obtain rfl : a = b := Option.some.inj hb
          rw [hstart]
      | cons b as =>
          rw [List.getLast?_cons_cons]
          exact ih

/-- Without a number between the ends there is no assignment. -/
theorem nil_iff (h : Spans i as stop) : as = [] ↔ i = stop := by
  cases h with
  | nil => simp
  | cons _ hcount h =>
      have := h.bounds.1
      exact ⟨nofun, fun heq => by omega⟩

/-- **Assignments that follow each other** from number 1 on, below the limit of the numbers. -/
theorem tiles {total : Nat} (h : Spans 1 as (1 + total)) (hexact : ∀ a ∈ as, a.Exact) :
    Tiles total as := by
  have hlast : ∀ a ∈ as, a.last.toNat + 1 = a.start.toNat + a.count.toNat := by
    intro a ha
    have hpos := h.count_pos a ha
    have := (hexact a ha).last
    omega
  have hhas : ∀ a ∈ as, ∀ n, a.Has n ↔ a.start.toNat ≤ n ∧ n ≤ a.last.toNat := by
    intro a ha n
    have := hlast a ha
    unfold Has
    omega
  refine ⟨h.count_pos, h.start_of_head?, ?_, ?_, ?_, fun n => ⟨?_, ?_⟩⟩
  · refine List.IsChain.imp_of_mem_imp ?_ h.isChain
    intro a b ha _ hab
    rw [hab, hlast a ha]
  · intro a ha
    have := h.behind_getLast? a ha
    have := hlast a (List.mem_of_getLast? ha)
    omega
  · rw [h.nil_iff]
    omega
  · rintro ⟨hlow, hhigh⟩
    obtain ⟨a, ha, hn⟩ := h.exists_of_mem hlow (Nat.lt_one_add_iff.mpr hhigh)
    obtain ⟨k, hk⟩ := List.mem_iff_getElem?.mp ha
    refine ⟨k, ⟨a, hk, (hhas a ha n).mp hn⟩, ?_⟩
    rintro k' ⟨a', hk', hn'⟩
    exact h.position_eq hk' hk ((hhas a' (List.mem_of_getElem? hk') n).mpr hn') hn
  · rintro ⟨k, ⟨a, hk, hn⟩, -⟩
    have ha := List.mem_of_getElem? hk
    have := h.bounds.2 a ha
    have := hlast a ha
    omega

end Spans

end Assignment

/-! ## The assignments of a run -/

/-- The workers are numbered from 1 on, `count` of them, and their seeds are those from the seed of
the run on. -/
structure Numbered (count : Nat) (seed : Option UInt64) (as : List Assignment) : Prop where
  workers : as.map (·.worker.toNat) = List.range' 1 count
  /-- The seed goes on at zero behind the greatest one; without a seed of the run there is none. -/
  seeds : ∀ a ∈ as, a.seed.map UInt64.toNat =
    seed.map fun s => (s.toNat + a.worker.toNat - 1) % 2 ^ 64
  /-- No two workers have the same seed. -/
  distinct : seed.isSome = true → (as.map (·.seed)).Nodup

/-- As many workers as there are files, or all of them, get an assignment, the first ones. -/
theorem map_worker_partition (total workers : UInt64) (seed : Option UInt64) :
    (partition total workers seed).map (·.worker.toNat) =
      List.range' 1 (min total.toNat (max workers.toNat 1)) := by
  have heven := sharedEvenly_evenShare total.toNat (show 0 < max workers.toNat 1 by omega)
  rw [← map_toNat_shares] at heven
  have hlen := heven.length_eq
  rw [List.length_map] at hlen
  have hlt := workers.toNat_lt
  have hroom : (0 : UInt64).toNat + (shares total workers).length < 2 ^ 64 := by
    rw [UInt64.toNat_zero]
    omega
  rw [partition, map_worker_assignmentsFrom seed heven.descending hroom, map_toNat_shares,
    countP_evenShare, UInt64.toNat_zero]

/-- There is no worker 0. -/
theorem one_le_worker {total workers : UInt64} {seed : Option UInt64} {a : Assignment}
    (ha : a ∈ partition total workers seed) : 1 ≤ a.worker := by
  have hmem : a.worker.toNat ∈ List.range' 1 (min total.toNat (max workers.toNat 1)) := by
    rw [← map_worker_partition total workers seed]
    exact List.mem_map_of_mem ha
  rw [UInt64.le_iff_toNat_le, UInt64.toNat_one]
  exact (List.mem_range'_1.mp hmem).1

/-- The seed of a worker as a number. -/
theorem toNat_seed (s : UInt64) {w : UInt64} (h : 1 ≤ w) :
    (s + (w - 1)).toNat = (s.toNat + w.toNat - 1) % 2 ^ 64 := by
  have hsub := UInt64.toNat_sub_of_le _ _ h
  rw [UInt64.le_iff_toNat_le, UInt64.toNat_one] at h
  rw [UInt64.toNat_one] at hsub
  rw [UInt64.toNat_add, hsub, Nat.add_sub_assoc h]

/-- **The assignments are numbered.** -/
theorem numbered_partition (total workers : UInt64) (seed : Option UInt64) :
    Numbered (min total.toNat (max workers.toNat 1)) seed (partition total workers seed) := by
  have hworkers := map_worker_partition total workers seed
  have hseeds : ∀ a ∈ partition total workers seed, a.seed = seed.map (· + (a.worker - 1)) :=
    fun a ha => seed_of_mem_assignmentsFrom ha
  refine ⟨hworkers, fun a ha => ?_, fun hseed => ?_⟩
  · rw [hseeds a ha, Option.map_map]
    congr 1
    funext s
    exact toNat_seed s (one_le_worker ha)
  · obtain ⟨s, rfl⟩ := Option.isSome_iff_exists.mp hseed
    have hnodup : ((partition total workers (some s)).map (·.worker)).Nodup := by
      refine List.Nodup.of_map UInt64.toNat ?_
      rw [List.map_map]
      exact hworkers ▸ List.nodup_range'
    have hmap : (partition total workers (some s)).map (·.seed) =
        ((partition total workers (some s)).map (·.worker)).map fun w => some (s + (w - 1)) := by
      rw [List.map_map]
      exact List.map_congr_left fun a ha => hseeds a ha
    rw [hmap]
    refine hnodup.map fun w w' hww => ?_
    have hsum : s + (w - 1) = s + (w' - 1) := Option.some.inj hww
    rw [UInt64.add_right_inj] at hsum
    exact (UInt64.sub_left_inj 1).mp hsum

/-- **Sharing out covers every file once**, up to the greatest number of files there may be. The
shares are even, one for each worker; the assignments are those of the workers that get a file, and
have each number from 1 to `total` once and in order; the workers and their seeds are numbered; and
no sum of file numbers wraps around. -/
theorem partition_tiles {total : UInt64} (workers : UInt64) (seed : Option UInt64)
    (h : total.toNat < 2 ^ 64 - 1) :
    SharedEvenly total.toNat (max workers.toNat 1) ((shares total workers).map UInt64.toNat) ∧
      Assignment.Tiles total.toNat (partition total workers seed) ∧
      (partition total workers seed).length = min total.toNat (max workers.toNat 1) ∧
      Numbered (min total.toNat (max workers.toNat 1)) seed (partition total workers seed) ∧
      ∀ a ∈ partition total workers seed, a.Exact := by
  have heven := sharedEvenly_evenShare total.toNat (show 0 < max workers.toNat 1 by omega)
  have hspans : Assignment.Spans 1 (partition total workers seed) (1 + total.toNat) :=
    partition_spans total workers seed
  have hexact : ∀ a ∈ partition total workers seed, a.Exact := by
    intro a ha
    have := (hspans.bounds.2 a ha).2
    exact Assignment.exact_of_lt (by omega)
  have hnumbered := numbered_partition total workers seed
  have hlength := congrArg List.length hnumbered.workers
  rw [List.length_map, List.length_range'] at hlength
  rw [map_toNat_shares]
  exact ⟨heven, hspans.tiles hexact, hlength, hnumbered, hexact⟩

/-- The greatest number of files that a run can have. -/
def mostFiles : UInt64 := 18446744073709551614

/-- A seed behind which seeds start again at zero. -/
def lastSeed : Option UInt64 := some 18446744073709551615

/-- The greatest number of files among three workers. -/
theorem partition_tiles_mostFiles :
    mostFiles.toNat < 2 ^ 64 - 1 ∧
      partition mostFiles 3 lastSeed =
        [⟨1, 1, 6148914691236517205, some 18446744073709551615⟩,
          ⟨2, 6148914691236517206, 6148914691236517205, some 0⟩,
          ⟨3, 12297829382473034411, 6148914691236517204, some 1⟩] ∧
      SharedEvenly mostFiles.toNat 3 ((shares mostFiles 3).map UInt64.toNat) ∧
      Assignment.Tiles mostFiles.toNat (partition mostFiles 3 lastSeed) ∧
      (partition mostFiles 3 lastSeed).length = 3 ∧
      Numbered 3 lastSeed (partition mostFiles 3 lastSeed) ∧
      ∀ a ∈ partition mostFiles 3 lastSeed, a.Exact := by
  have hlt : mostFiles.toNat < 2 ^ 64 - 1 := by decide
  exact ⟨hlt, by decide, partition_tiles 3 lastSeed hlt⟩

end SampleData
