import SampleData.Json
import Mathlib.Data.List.Basic
import Mathlib.Data.List.Induction

/-!
# Repeated keys

Members that are settled are told by their keys and by what is found under each: the keys are those
of the members, each at its first place, and under a key stands the value of the last member that
has it, wherever the members with that key stand among the others. Members are settled from the
left, each one into what those before it have become, so the inductions take them from the right.

* `keys_settle`: the keys.
* `lookup_settle`: the values.
* `settle_eq_survivors`: both in one, the members key by key.
* `settle_eq_self_iff`: nothing is changed exactly where no key stands twice.
* `settle_map`: values may be changed before members are settled or after.
-/

namespace SampleData.Members

variable {α β : Type}

/-! ## One member -/

/-- The first member is looked at before the others. -/
theorem lookup_cons (m : String × α) (ms : List (String × α)) (k : String) :
    (m :: ms).lookup k = if k = m.1 then some m.2 else ms.lookup k := by
  rw [List.lookup_cons]
  by_cases hk : k = m.1
  · simp [hk]
  · rw [if_neg hk, beq_false_of_ne hk]

/-- The value that is given to a key is found there, and what other keys have stays. -/
@[simp] theorem lookup_put (key : String) (value : α) (ms : List (String × α)) (k : String) :
    (put key value ms).lookup k = if k = key then some value else ms.lookup k := by
  induction ms with
  | nil => rw [put, lookup_cons]
  | cons m ms ih =>
      obtain ⟨k', v⟩ := m
      by_cases hput : k' = key
      · -- The key is here: the value that stood here is looked up no more.
        subst hput
        rw [put, if_pos rfl, lookup_cons, lookup_cons]
        split <;> rfl
      · rw [put, if_neg hput, lookup_cons, lookup_cons, ih]
        by_cases hk : k = k'
        · rw [if_pos hk, if_pos hk, if_neg (hk ▸ hput)]
        · rw [if_neg hk, if_neg hk]

/-- A value may be changed before it is given or after. -/
theorem put_map (f : α → β) (key : String) (value : α) (ms : List (String × α)) :
    put key (f value) (ms.map fun m => (m.1, f m.2)) =
      (put key value ms).map fun m => (m.1, f m.2) := by
  induction ms with
  | nil => rfl
  | cons m ms ih =>
      obtain ⟨k, v⟩ := m
      by_cases hk : k = key <;> simp [put, hk, ih]

/-! ## All members -/

/-- The last member is given its value after the others. -/
@[simp] theorem settle_concat (ms : List (String × α)) (m : String × α) :
    settle (ms ++ [m]) = put m.1 m.2 (settle ms) := by
  simp [settle]

/-- **Each key is kept once, at its first place.** -/
@[simp] theorem keys_settle (ms : List (String × α)) :
    (settle ms).map (·.1) = (ms.map (·.1)).eraseDups := by
  induction ms using List.reverseRecOn with
  | nil => rfl
  | append_singleton ms m ih =>
      rw [settle_concat, keys_put, ih, List.map_append, List.eraseDups_append, List.map_singleton]
      by_cases hm : m.1 ∈ ms.map (·.1)
      · have hnone : [m.1].removeAll (ms.map (·.1)) = [] := by simp [List.removeAll, hm]
        rw [if_pos (List.mem_eraseDups.mpr hm), hnone, List.eraseDups_nil, List.append_nil]
      · have hone : [m.1].removeAll (ms.map (·.1)) = [m.1] := by simp [List.removeAll, hm]
        rw [if_neg (mt List.mem_eraseDups.mp hm), hone]
        rfl

/-- **Each key has the value of the last member that has it.** -/
@[simp] theorem lookup_settle (ms : List (String × α)) (k : String) :
    (settle ms).lookup k = ms.reverse.lookup k := by
  induction ms using List.reverseRecOn with
  | nil => rfl
  | append_singleton ms m ih =>
      rw [settle_concat, lookup_put, ih, List.reverse_concat, lookup_cons]

/-- Each key at its first place, and under it the value that stands last. -/
def survivors (ms : List (String × α)) : List (String × α) :=
  (ms.map (·.1)).eraseDups.filterMap fun k => (ms.reverse.lookup k).map fun v => (k, v)

/-- Members of different keys are had from their keys and what is found under each. -/
theorem filterMap_lookup_of_nodup {ms : List (String × α)} (h : (ms.map (·.1)).Nodup) :
    ((ms.map (·.1)).filterMap fun k => (ms.lookup k).map fun v => (k, v)) = ms := by
  induction ms with
  | nil => rfl
  | cons m ms ih =>
      rw [List.map_cons, List.nodup_cons] at h
      have hrest : ∀ k ∈ ms.map (·.1), ((m :: ms).lookup k).map (fun v => (k, v)) =
          (ms.lookup k).map fun v => (k, v) := by
        intro k hk
        rw [lookup_cons, if_neg (ne_of_mem_of_not_mem hk h.1)]
      rw [List.map_cons, List.filterMap_cons, List.filterMap_congr hrest, ih h.2, lookup_cons,
        if_pos rfl]
      rfl

/-- **Settled members are the survivors.** -/
theorem settle_eq_survivors (ms : List (String × α)) : settle ms = survivors ms := by
  rw [survivors, ← keys_settle]
  simp only [← lookup_settle]
  exact (filterMap_lookup_of_nodup (nodup_keys_settle ms)).symm

/-- The first key keeps its place and has the value that comes last. -/
example : settle [("a", 1), ("b", 2), ("a", 3)] = [("a", 3), ("b", 2)] := by decide

/-- Members stay as they are exactly if no key stands twice. -/
theorem settle_eq_self_iff {ms : List (String × α)} :
    settle ms = ms ↔ (ms.map (·.1)).Nodup := by
  refine ⟨fun h => ?_, settle_of_nodup⟩
  rw [← h]
  exact nodup_keys_settle ms

/-- Values may be changed before members are settled or after. -/
theorem settle_map (f : α → β) (ms : List (String × α)) :
    settle (ms.map fun m => (m.1, f m.2)) = (settle ms).map fun m => (m.1, f m.2) := by
  induction ms using List.reverseRecOn with
  | nil => rfl
  | append_singleton ms m ih =>
      rw [List.map_append, List.map_singleton, settle_concat, ih, settle_concat]
      exact put_map f m.1 m.2 (settle ms)

end SampleData.Members
