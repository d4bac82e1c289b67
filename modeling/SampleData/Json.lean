import SampleData.Decimal.Binary64

/-!
# JSON values

A JSON value keeps the members of its objects in the order in which they stand, repeated keys
included. `Members` holds what becomes of repeated keys where each key may stand once only: the
first place and the last value.
-/

namespace SampleData

/-- A JSON value. -/
inductive Json where
  | null
  | bool (b : Bool)
  | integer (n : Int)
  | double (x : Binary64)
  | text (s : String)
  | array (items : List Json)
  | object (members : List (String × Json))
deriving Inhabited, Repr

/-- The name of a value's kind in messages. -/
def Json.kindName : Json → String
  | .null => "null"
  | .bool _ => "boolean"
  | .integer _ | .double _ => "number"
  | .text _ => "string"
  | .array _ => "array"
  | .object _ => "object"

/-! ## Repeated keys -/

namespace Members

variable {α : Type}

/-- Gives a key its value: in its place if it is there, else at the end. -/
def put (key : String) (value : α) : List (String × α) → List (String × α)
  | [] => [(key, value)]
  | (k, v) :: rest => if k = key then (k, value) :: rest else (k, v) :: put key value rest

/-- Each key once, at its first place and with its last value. -/
def settle (members : List (String × α)) : List (String × α) :=
  members.foldl (fun acc m => put m.1 m.2 acc) []

/-- Giving a value puts a new key at the end and moves no other. -/
theorem keys_put (key : String) (value : α) (ms : List (String × α)) :
    (put key value ms).map (·.1) =
      if key ∈ ms.map (·.1) then ms.map (·.1) else ms.map (·.1) ++ [key] := by
  induction ms with
  | nil => simp [put]
  | cons m ms ih =>
    obtain ⟨k, v⟩ := m
    by_cases hk : k = key
    · simp [put, hk]
    · simp only [put, hk, if_false, List.map_cons, ih, List.mem_cons, Ne.symm hk, false_or]
      split <;> simp

/-- No key stands twice after giving a value if none did before. -/
theorem nodup_keys_put {key : String} {value : α} {ms : List (String × α)}
    (h : (ms.map (·.1)).Nodup) : ((put key value ms).map (·.1)).Nodup := by
  rw [keys_put]
  split
  · exact h
  · next hk =>
    rw [List.nodup_append]
    refine ⟨h, by simp, fun a ha b hb hab => hk ?_⟩
    rw [List.mem_singleton] at hb
    rw [← hb, ← hab]
    exact ha

/-- No key stands twice in what is settled. -/
theorem nodup_keys_settle (ms : List (String × α)) : ((settle ms).map (·.1)).Nodup := by
  have go : ∀ (l acc : List (String × α)), (acc.map (·.1)).Nodup →
      ((l.foldl (fun acc m => put m.1 m.2 acc) acc).map (·.1)).Nodup := by
    intro l
    induction l with
    | nil => intro acc h; exact h
    | cons m l ih => intro acc h; exact ih _ (nodup_keys_put h)
  exact go ms [] (by simp)

/-- A new key goes to the end. -/
theorem put_of_not_mem {key : String} {value : α} {ms : List (String × α)}
    (h : key ∉ ms.map (·.1)) : put key value ms = ms ++ [(key, value)] := by
  induction ms with
  | nil => rfl
  | cons m ms ih =>
    obtain ⟨k, v⟩ := m
    rw [List.map_cons, List.mem_cons, not_or] at h
    rw [put, if_neg (Ne.symm h.1), ih h.2]
    rfl

/-- Members of different keys are settled as they stand. -/
theorem settle_of_nodup {ms : List (String × α)} (h : (ms.map (·.1)).Nodup) : settle ms = ms := by
  have go : ∀ (l acc : List (String × α)), ((acc ++ l).map (·.1)).Nodup →
      l.foldl (fun acc m => put m.1 m.2 acc) acc = acc ++ l := by
    intro l
    induction l with
    | nil => intro acc _; exact (List.append_nil acc).symm
    | cons m l ih =>
      intro acc hacc
      have hnew : m.1 ∉ acc.map (·.1) := by
        rw [List.map_append, List.nodup_append] at hacc
        exact fun hm => hacc.2.2 _ hm _ List.mem_cons_self rfl
      rw [List.foldl_cons, put_of_not_mem hnew, ih]
      · simp
      · simpa using hacc
  exact go ms [] h

end Members

end SampleData
