import SampleData.Output.Workers
import SampleData.Proofs.FileShares
import SampleData.Proofs.NumberedFiles

/-!
# Outputs of all workers

When every worker has come to the outputs of its numbers, the outputs of all are those of all
numbers, one each and in order.

* `collectOutputs_of_ok`, `exists_of_mergeResults`: the outputs, one worker after the other.
* `sortOutputs_of_label`: outputs of consecutive numbers are in order.
* `mergeResults_of_spans`: the outputs of assignments that follow each other.
* `mergeResults_of_error`: the error of the first worker that failed.
-/

namespace SampleData

variable {f : Folder} {base : String}

/-- When nobody failed the outputs are those of the workers, one after the other. -/
theorem collectOutputs_of_ok {results : WorkerResults} {outputs : List (List FileOutput)}
    (h : results.map Prod.snd = outputs.map .ok) :
    collectOutputs results = .ok outputs.flatten := by
  induction results generalizing outputs with
  | nil =>
      obtain rfl := List.map_eq_nil_iff.mp h.symm
      rfl
  | cons r results ih =>
      obtain ⟨worker, result⟩ := r
      cases outputs with
      | nil => cases h
      | cons os outputs =>
          obtain ⟨rfl, hrest⟩ := List.cons.inj h
          rw [collectOutputs, ih hrest]
          rfl

/-- Nobody failed if there are outputs, which are those of the workers. -/
theorem exists_of_collectOutputs {results : WorkerResults} {all : List FileOutput}
    (h : collectOutputs results = .ok all) :
    ∃ outputs : List (List FileOutput),
      results.map Prod.snd = outputs.map .ok ∧ outputs.flatten = all := by
  induction results generalizing all with
  | nil => exact ⟨[], rfl, Except.ok.inj h⟩
  | cons r results ih =>
      obtain ⟨worker, x⟩ := r
      cases x with
      | error e => cases h
      | ok os =>
          rw [collectOutputs] at h
          cases hrest : collectOutputs results with
          | error e => rw [hrest] at h; cases h
          | ok rest =>
              rw [hrest] at h
              obtain ⟨outputs, hsnd, rfl⟩ := ih hrest
              exact ⟨os :: outputs, congrArg (Except.ok os :: ·) hsnd, Except.ok.inj h⟩

/-- **Outputs of all are there only if nobody failed**: they are those of the workers, in the order
of their numbers. -/
theorem exists_of_mergeResults {results : WorkerResults} {all : List FileOutput}
    (h : mergeResults results = .ok all) :
    ∃ outputs : List (List FileOutput),
      results.map Prod.snd = outputs.map .ok ∧ sortOutputs outputs.flatten = all := by
  unfold mergeResults at h
  cases hc : collectOutputs results with
  | error e => rw [hc] at h; cases h
  | ok collected =>
      rw [hc] at h
      obtain ⟨outputs, hsnd, rfl⟩ := exists_of_collectOutputs hc
      exact ⟨outputs, hsnd, Except.ok.inj h⟩

/-- Outputs of consecutive numbers are in order. -/
theorem sortOutputs_of_label {outputs : List FileOutput} {i n : Nat}
    (h : outputs.map FileOutput.label = (List.range' i n).map (f.label base))
    (hn : i + n ≤ 2 ^ 64) : sortOutputs outputs = outputs := by
  have hnumbers : outputs.map FileOutput.index = (List.range' i n).map UInt64.ofNat := by
    have := congrArg (List.map Prod.fst) h
    rwa [List.map_map, List.map_map] at this
  have hsorted : ((List.range' i n).map UInt64.ofNat).Pairwise (· ≤ ·) := by
    refine List.pairwise_map.mpr (List.Pairwise.imp_of_mem ?_ List.pairwise_le_range')
    intro a b ha hb hab
    rw [List.mem_range'_1] at ha hb
    rw [UInt64.le_iff_toNat_le, UInt64.toNat_ofNat_of_lt' (ha.2.trans_le hn),
      UInt64.toNat_ofNat_of_lt' (hb.2.trans_le hn)]
    exact hab
  rw [← hnumbers, List.pairwise_map] at hsorted
  exact List.mergeSort_of_pairwise (hsorted.imp decide_eq_true)

/-- A worker has come to the outputs of its numbers. -/
def Folder.Yields (f : Folder) (base : String) (x : Except PopulateError (List FileOutput))
    (a : Assignment) : Prop :=
  ∃ outputs, x = .ok outputs ∧ outputs.map FileOutput.label =
    (List.range' a.start.toNat a.count.toNat).map (f.label base)

/-- When all have come to the outputs of their numbers, the outputs are those of all numbers. -/
theorem outputs_of_yields {as : List Assignment}
    {results : List (Except PopulateError (List FileOutput))}
    (h : List.Forall₂ (f.Yields base) results as) :
    ∃ outputs : List (List FileOutput),
      (numberResults as results).map Prod.snd = outputs.map .ok ∧
      outputs.flatten.map FileOutput.label =
        (as.flatMap fun a => List.range' a.start.toNat a.count.toNat).map (f.label base) := by
  induction h with
  | nil => exact ⟨[], rfl, rfl⟩
  | @cons x a results as hx _ ih =>
      obtain ⟨os, rfl, hos⟩ := hx
      obtain ⟨outputs, hsnd, hlabels⟩ := ih
      refine ⟨os :: outputs, congrArg (Except.ok os :: ·) hsnd, ?_⟩
      rw [List.flatten_cons, List.map_append, List.flatMap_cons, List.map_append, hos, hlabels]

/-- **The outputs of all**: where each worker has come to the outputs of its numbers, and the
numbers of the workers follow each other, there is one output for each number, in order. -/
theorem mergeResults_of_spans {as : List Assignment} {i stop : Nat}
    (hspans : Assignment.Spans i as stop) (hstop : stop ≤ 2 ^ 64)
    {results : List (Except PopulateError (List FileOutput))}
    (h : List.Forall₂ (f.Yields base) results as) :
    ∃ all, mergeResults (numberResults as results) = .ok all ∧
      all.map FileOutput.label = (List.range' i (stop - i)).map (f.label base) := by
  obtain ⟨outputs, hsnd, hlabels⟩ := outputs_of_yields h
  rw [hspans.numbers_eq] at hlabels
  have hroom : i + (stop - i) ≤ 2 ^ 64 := by
    have := hspans.bounds.1
    omega
  refine ⟨outputs.flatten, ?_, hlabels⟩
  rw [mergeResults, collectOutputs_of_ok hsnd]
  exact congrArg Except.ok (sortOutputs_of_label hlabels hroom)

/-! ## Workers that failed -/

/-- Either nobody failed or somebody was the first in the order of the assignments. -/
theorem all_ok_or_first_error {ε α : Type} (results : List (Except ε α)) :
    (∀ x ∈ results, x.isOk) ∨
      ∃ (k : Nat) (e : ε), results[k]? = some (.error e) ∧
        ∀ j < k, ∀ x, results[j]? = some x → x.isOk := by
  induction results with
  | nil => exact .inl nofun
  | cons x results ih =>
      cases x with
      | error e => exact .inr ⟨0, e, rfl, nofun⟩
      | ok a =>
          refine ih.imp (fun h => List.forall_mem_cons.mpr ⟨rfl, h⟩) ?_
          rintro ⟨k, e, hk, hfirst⟩
          refine ⟨k + 1, e, hk, fun j hj y hy => ?_⟩
          cases j with
          | zero =>
              obtain rfl := Option.some.inj hy
              rfl
          | succ j => exact hfirst j (Nat.lt_of_succ_lt_succ hj) y hy

/-- The first worker that failed is the one whose error is reported. -/
theorem collectOutputs_of_error {as : List Assignment}
    {results : List (Except PopulateError (List FileOutput))} {k : Nat} {a : Assignment}
    {e : PopulateError} (hk : as[k]? = some a) (he : results[k]? = some (.error e))
    (hfirst : ∀ j < k, ∀ x, results[j]? = some x → x.isOk) :
    collectOutputs (numberResults as results) = .error (.ofPopulate a.worker e) := by
  induction k generalizing as results with
  | zero =>
      obtain ⟨as, rfl⟩ := List.head?_eq_some_iff.mp (List.head?_eq_getElem? ▸ hk)
      obtain ⟨results, rfl⟩ := List.head?_eq_some_iff.mp (List.head?_eq_getElem? ▸ he)
      rfl
  | succ k ih =>
      cases as with
      | nil => cases hk
      | cons a' as =>
          cases results with
          | nil => cases he
          | cons x results =>
              have hrest := ih hk he fun j hj y hy =>
                hfirst (j + 1) (Nat.succ_lt_succ hj) y hy
              cases x with
              | error e => cases hfirst 0 (Nat.succ_pos k) _ rfl
              | ok outputs =>
                  show (collectOutputs (numberResults as results)).map _ = _
                  rw [hrest]
                  rfl

/-- **The error of all** is that of the first worker that failed, in the order of the
assignments. -/
theorem mergeResults_of_error {as : List Assignment}
    {results : List (Except PopulateError (List FileOutput))} {k : Nat} {a : Assignment}
    {e : PopulateError} (hk : as[k]? = some a) (he : results[k]? = some (.error e))
    (hfirst : ∀ j < k, ∀ x, results[j]? = some x → x.isOk) :
    mergeResults (numberResults as results) = .error (.ofPopulate a.worker e) := by
  rw [mergeResults, collectOutputs_of_error hk he hfirst]
  rfl

end SampleData
