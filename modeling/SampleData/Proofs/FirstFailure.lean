import SampleData.Proofs.Compilation

/-!
# The first wrong definition

A definition is wrong behind those that stand before it for one of three reasons, which are looked
at in this order: its name is blank, its name stands before, or its instruction means nothing. Of
the definitions before it only the names matter, and what stands behind it does not matter at all.
So a schema fails with what is wrong with the first wrong definition, and else gives what its
definitions give one by one. Nothing is kept of the definitions before a wrong one.

* `Descriptor.of_compile_error`: an error of an instruction is about its field.
* `Plan.compileFrom_cons_of_fault`, `Plan.compileFrom_cons_of_sound`: one step of compiling.
* `Plan.compileFrom_eq_ok_iff`, `Plan.compileFrom_eq_error_iff`: all steps.
* `Schema.compile_inOrder`: what a schema gives, alone and with a second one behind it.
-/

namespace SampleData

open Text Instruction

/-! ## One definition -/

/-- An error of a strategy is about the field, and not about its name. -/
theorem Strategy.of_compile_error {name instruction strategy : String} {kind : Kind}
    {e : CompileError} (h : Strategy.compile name instruction kind strategy = .error e) :
    e.field? = some name ∧ ∀ f i, e ≠ .duplicateField f i := by
  unfold Strategy.compile at h
  split at h
  · cases h
    exact ⟨rfl, nofun⟩
  · cases h
  · cases h
  · split at h
    · cases h
      exact ⟨rfl, nofun⟩
    · split at h <;> cases h
      exact ⟨rfl, nofun⟩
  · split at h <;> cases h
    exact ⟨rfl, nofun⟩
  · split at h <;> cases h
    exact ⟨rfl, nofun⟩

/-- An error of an instruction is about its field, and not about the field's name. -/
theorem Descriptor.of_compile_error {name instruction : String} {e : CompileError}
    (h : Descriptor.compile name instruction = .error e) :
    e.field? = some name ∧ ∀ f i, e ≠ .duplicateField f i := by
  unfold Descriptor.compile at h
  split at h
  · cases h
    exact ⟨rfl, nofun⟩
  · split at h
    · cases h
      exact ⟨rfl, nofun⟩
    · cases h
    · split at h
      · next he =>
        cases h
        exact Strategy.of_compile_error he
      · cases h

/-- The warning of a definition that gives a field: a field of the current time is given a
strategy that is not blank. -/
def Warning.of? (definition : String × String) : Option Warning :=
  match split definition.2 with
  | none => none
  | some (keyword, strategy) =>
    if Kind.ofKeyword? keyword = some .timestamp ∧ trim strategy ≠ "" then
      some { field := definition.1, strategy := trim strategy }
    else none

/-- A definition that gives a field is worth its warning and no other. -/
theorem Descriptor.warning_of_compile {name instruction : String} {d : Descriptor}
    {w : Option Warning} (h : Descriptor.compile name instruction = .ok (d, w)) :
    w = Warning.of? (name, instruction) := by
  obtain ⟨keyword, strategy, hs, ⟨hk, -, rfl⟩ | ⟨kind, s, hne, hk, -, -, rfl⟩⟩ :=
    Descriptor.compile_cases h
  · simp only [Warning.of?, hs, hk, true_and]
    by_cases hblank : trim strategy = "" <;> simp [hblank]
  · simp [Warning.of?, hs, hk, hne]

/-- The field of one definition, looked at alone. -/
def Descriptor.ofDefinition (definition : String × String) : Except CompileError Descriptor :=
  (Descriptor.compile definition.1 definition.2).map (·.1)

/-- A definition alone fails where its instruction does. -/
theorem Descriptor.ofDefinition_eq_error_iff {name instruction : String} {e : CompileError} :
    Descriptor.ofDefinition (name, instruction) = .error e ↔
      Descriptor.compile name instruction = .error e := by
  unfold Descriptor.ofDefinition
  cases Descriptor.compile name instruction <;> simp [Except.map]

/-! ## A definition behind others -/

/-- What is wrong with a definition behind names that stand before it. -/
inductive Schema.Fault (earlier : List String) : String × String → CompileError → Prop
  | blank {name instruction : String} (hname : trim name = "") :
      Fault earlier (name, instruction) (.emptyFieldName name instruction)
  | repeated {name instruction : String} (hname : trim name ≠ "") (hmem : name ∈ earlier) :
      Fault earlier (name, instruction) (.duplicateField name instruction)
  | invalid {name instruction : String} {e : CompileError} (hname : trim name ≠ "")
      (hnew : name ∉ earlier) (halone : Descriptor.ofDefinition (name, instruction) = .error e) :
      Fault earlier (name, instruction) e

namespace Schema.Fault

variable {earlier later : List String} {definition : String × String} {e e' : CompileError}

/-- One thing at most is wrong with a definition. -/
theorem unique (h : Fault earlier definition e) (h' : Fault earlier definition e') : e = e' := by
  cases h with
  | blank hname =>
      cases h' with
      | blank _ => rfl
      | repeated hne _ | invalid hne _ _ => exact absurd hname hne
  | repeated hne hmem =>
      cases h' with
      | blank hname => exact absurd hname hne
      | repeated _ _ => rfl
      | invalid _ hnew _ => exact absurd hmem hnew
  | invalid hne hnew halone =>
      cases h' with
      | blank hname => exact absurd hname hne
      | repeated _ hmem => exact absurd hmem hnew
      | invalid _ _ halone' => exact Except.error.inj (halone.symm.trans halone')

/-- Of what stands before a definition it matters only whether its name does. -/
theorem congr (hname : definition.1 ∈ earlier ↔ definition.1 ∈ later)
    (h : Fault earlier definition e) : Fault later definition e := by
  cases h with
  | blank hblank => exact .blank hblank
  | repeated hblank hmem => exact .repeated hblank (hname.mp hmem)
  | invalid hblank hnew halone => exact .invalid hblank (mt hname.mpr hnew) halone

/-- An error of a definition is about its field. -/
theorem field (h : Fault earlier definition e) : e.field? = some definition.1 := by
  cases h with
  | blank _ => rfl
  | repeated _ _ => rfl
  | invalid _ _ halone =>
      exact (Descriptor.of_compile_error (Descriptor.ofDefinition_eq_error_iff.mp halone)).1

/-- Only a name that stands before is found to be a second one. -/
theorem mem_of_duplicateField {f i : String} (h : Fault earlier definition (.duplicateField f i)) :
    definition.1 ∈ earlier := by
  cases h with
  | repeated _ hmem => exact hmem
  | invalid _ _ halone =>
      have hinstruction := Descriptor.ofDefinition_eq_error_iff.mp halone
      exact absurd rfl ((Descriptor.of_compile_error hinstruction).2 f i)

end Schema.Fault

/-! ## All definitions -/

namespace Plan

/-- What is wrong with the definition at a place, behind names that stand before all of them. -/
def FaultAt (seen : List String) (definitions : List (String × String)) (i : Nat)
    (e : CompileError) : Prop :=
  ∃ definition, definitions[i]? = some definition ∧
    Schema.Fault ((definitions.take i).map (·.1) ++ seen) definition e

variable {seen : List String} {definition : String × String} {rest : List (String × String)}
  {e : CompileError}

@[simp]
theorem not_faultAt_nil {i : Nat} : ¬ FaultAt seen [] i e := by
  simp [FaultAt]

@[simp]
theorem faultAt_cons_zero :
    FaultAt seen (definition :: rest) 0 e ↔ Schema.Fault seen definition e := by
  simp [FaultAt]

/-- The name of the first definition is one of those that stand before the others. -/
@[simp]
theorem faultAt_cons_succ {i : Nat} :
    FaultAt seen (definition :: rest) (i + 1) e ↔ FaultAt (definition.1 :: seen) rest i e := by
  have hnames : ∀ n, n ∈ ((definition :: rest).take (i + 1)).map (·.1) ++ seen ↔
      n ∈ (rest.take i).map (·.1) ++ definition.1 :: seen := by
    intro n
    rw [List.take_succ_cons, List.map_cons, List.cons_append]
    exact List.perm_middle.symm.mem_iff
  simp only [FaultAt, List.getElem?_cons_succ]
  exact exists_congr fun x => and_congr_right' ⟨.congr (hnames x.1), .congr (hnames x.1).symm⟩

/-- A definition that is wrong ends the matter. -/
theorem compileFrom_cons_of_fault (h : Schema.Fault seen definition e) :
    compileFrom seen (definition :: rest) = .error e := by
  obtain ⟨name, instruction⟩ := definition
  cases h with
  | blank hname => rw [compileFrom, if_pos (isAllBlank_iff_trim_eq_empty.mpr hname)]
  | repeated hname hmem =>
      rw [compileFrom, if_neg (mt isAllBlank_iff_trim_eq_empty.mp hname), if_pos hmem]
  | invalid hname hnew halone =>
      rw [compileFrom, if_neg (mt isAllBlank_iff_trim_eq_empty.mp hname), if_neg hnew]
      rw [Descriptor.ofDefinition_eq_error_iff.mp halone]

/-- A definition with which nothing is wrong gives its field, and the others are looked at behind
its name. -/
theorem compileFrom_cons_of_sound (h : ∀ e, ¬ Schema.Fault seen definition e) :
    ∃ d, Descriptor.ofDefinition definition = .ok d ∧ ∀ rest,
      compileFrom seen (definition :: rest) =
        (compileFrom (definition.1 :: seen) rest).map fun p =>
          (d :: p.1, (Warning.of? definition).toList ++ p.2) := by
  obtain ⟨name, instruction⟩ := definition
  have hname : trim name ≠ "" := fun hblank => h _ (.blank hblank)
  have hnew : name ∉ seen := fun hmem => h _ (.repeated hname hmem)
  cases hc : Descriptor.compile name instruction with
  | error e =>
      exact absurd (.invalid hname hnew (Descriptor.ofDefinition_eq_error_iff.mpr hc)) (h e)
  | ok p =>
      obtain ⟨d, w⟩ := p
      refine ⟨d, by rw [Descriptor.ofDefinition, hc]; rfl, fun rest => ?_⟩
      rw [compileFrom, if_neg (mt isAllBlank_iff_trim_eq_empty.mp hname), if_neg hnew, hc,
        ← Descriptor.warning_of_compile hc]

/-- **Definitions give fields exactly if none of them is wrong**, and then each gives the field it
gives alone. -/
theorem compileFrom_eq_ok_iff {definitions : List (String × String)} {ds : List Descriptor}
    {ws : List Warning} :
    compileFrom seen definitions = .ok (ds, ws) ↔
      (∀ i e, ¬ FaultAt seen definitions i e) ∧
        definitions.map Descriptor.ofDefinition = ds.map .ok ∧
        ws = definitions.filterMap Warning.of? := by
  induction definitions generalizing seen ds ws with
  | nil => simp [compileFrom, eq_comm]
  | cons definition rest ih =>
      by_cases hf : ∃ e, Schema.Fault seen definition e
      · obtain ⟨e, he⟩ := hf
        rw [compileFrom_cons_of_fault he]
        exact iff_of_false nofun fun h => h.1 0 e (faultAt_cons_zero.mpr he)
      · rw [not_exists] at hf
        obtain ⟨d, hd, hstep⟩ := compileFrom_cons_of_sound hf
        have hplaces : (∀ i e, ¬ FaultAt seen (definition :: rest) i e) ↔
            ∀ i e, ¬ FaultAt (definition.1 :: seen) rest i e := by
          rw [← Nat.and_forall_add_one]
          simp [hf]
        have hwarnings : (definition :: rest).filterMap Warning.of? =
            (Warning.of? definition).toList ++ rest.filterMap Warning.of? := by
          rw [List.filterMap_cons]
          cases Warning.of? definition <;> rfl
        rw [hstep, hplaces, hwarnings, List.map_cons, hd]
        constructor
        · intro h
          cases hr : compileFrom (definition.1 :: seen) rest with
          | error e => simp [hr, Except.map] at h
          | ok p =>
              simp only [hr, Except.map, Except.ok.injEq, Prod.mk.injEq] at h
              obtain ⟨rfl, rfl⟩ := h
              obtain ⟨hsound, hfields, hws⟩ := ih.mp hr
              exact ⟨hsound, by rw [hfields, List.map_cons], by rw [hws]⟩
        · rintro ⟨hsound, hfields, rfl⟩
          obtain ⟨d', ds', rfl, hd', hrest⟩ := List.map_eq_cons_iff.mp hfields.symm
          rw [ih.mpr ⟨hsound, hrest.symm, rfl⟩, Except.ok.inj hd']
          rfl

/-- **Definitions fail with what is wrong with the first wrong one.** -/
theorem compileFrom_eq_error_iff {definitions : List (String × String)} :
    compileFrom seen definitions = .error e ↔
      ∃ i, FaultAt seen definitions i e ∧ ∀ j < i, ∀ e', ¬ FaultAt seen definitions j e' := by
  induction definitions generalizing seen with
  | nil => simp [compileFrom]
  | cons definition rest ih =>
      by_cases hf : ∃ e, Schema.Fault seen definition e
      · obtain ⟨e₀, he₀⟩ := hf
        rw [compileFrom_cons_of_fault he₀]
        constructor
        · rintro ⟨⟩
          exact ⟨0, faultAt_cons_zero.mpr he₀, nofun⟩
        · rintro ⟨i, hi, hbefore⟩
          cases i with
          | zero => rw [he₀.unique (faultAt_cons_zero.mp hi)]
          | succ i => exact absurd (faultAt_cons_zero.mpr he₀) (hbefore 0 i.succ_pos e₀)
      · rw [not_exists] at hf
        obtain ⟨d, -, hstep⟩ := compileFrom_cons_of_sound hf
        rw [hstep, ← Nat.or_exists_add_one]
        simp only [faultAt_cons_zero, hf, false_and, false_or, faultAt_cons_succ,
          Nat.forall_lt_succ_left, not_false_eq_true, implies_true, true_and]
        rw [← ih]
        cases compileFrom (definition.1 :: seen) rest <;> simp [Except.map]

/-- Of the names that stand before all definitions it matters only which of these have one. -/
theorem compileFrom_congr {seen' : List String} {definitions : List (String × String)}
    (h : ∀ x ∈ definitions, x.1 ∈ seen ↔ x.1 ∈ seen') :
    compileFrom seen definitions = compileFrom seen' definitions := by
  induction definitions generalizing seen seen' with
  | nil => rfl
  | cons definition rest ih =>
      have hname := h definition List.mem_cons_self
      by_cases hf : ∃ e, Schema.Fault seen definition e
      · obtain ⟨e, he⟩ := hf
        rw [compileFrom_cons_of_fault he, compileFrom_cons_of_fault (he.congr hname)]
      · rw [not_exists] at hf
        have hf' : ∀ e, ¬ Schema.Fault seen' definition e := fun e he => hf e (he.congr hname.symm)
        obtain ⟨d, hd, hstep⟩ := compileFrom_cons_of_sound hf
        obtain ⟨d', hd', hstep'⟩ := compileFrom_cons_of_sound hf'
        obtain rfl : d = d' := Except.ok.inj (hd.symm.trans hd')
        have hrest : ∀ x ∈ rest, x.1 ∈ definition.1 :: seen ↔ x.1 ∈ definition.1 :: seen' := by
          intro x hx
          rw [List.mem_cons, List.mem_cons, h x (List.mem_cons_of_mem _ hx)]
        rw [hstep, hstep', ih hrest]

/-- Definitions in front of others are looked at first, and their names stand before the others. -/
theorem compileFrom_append (seen : List String) (xs ys : List (String × String)) :
    compileFrom seen (xs ++ ys) = (do
      let p ← compileFrom seen xs
      let q ← compileFrom ((xs.map (·.1)).reverse ++ seen) ys
      pure (p.1 ++ q.1, p.2 ++ q.2)) := by
  induction xs generalizing seen with
  | nil =>
      show _ = compileFrom seen ys >>= pure
      rw [bind_pure]
      rfl
  | cons definition rest ih =>
      have hnames : ((definition :: rest).map (·.1)).reverse ++ seen =
          (rest.map (·.1)).reverse ++ definition.1 :: seen := by simp
      by_cases hf : ∃ e, Schema.Fault seen definition e
      · obtain ⟨e, he⟩ := hf
        rw [List.cons_append, compileFrom_cons_of_fault he, compileFrom_cons_of_fault he]
        rfl
      · rw [not_exists] at hf
        obtain ⟨d, hd, hstep⟩ := compileFrom_cons_of_sound hf
        rw [List.cons_append, hstep, hstep, hnames, ih]
        cases compileFrom (definition.1 :: seen) rest with
        | error e => rfl
        | ok p =>
            cases compileFrom ((rest.map (·.1)).reverse ++ definition.1 :: seen) ys with
            | error e => rfl
            | ok q => exact congrArg Except.ok (Prod.ext rfl (List.append_assoc _ _ _).symm)

end Plan

/-! ## Schemas -/

namespace Schema

/-- What is wrong with the definition at a place of a schema. -/
def FaultAt (s : Schema) (i : Nat) (e : CompileError) : Prop :=
  ∃ definition, s.entries[i]? = some definition ∧
    Fault ((s.entries.take i).map (·.1)) definition e

variable {s t : Schema} {e : CompileError} {p : Plan} {ws : List Warning}

/-- Nothing stands before the definitions of a schema. -/
theorem faultAt_entries {i : Nat} : Plan.FaultAt [] s.entries i e ↔ s.FaultAt i e := by
  simp [Plan.FaultAt, FaultAt]

/-- A schema with definitions is compiled by going through them. -/
theorem compile_of_entries (hne : s.entries ≠ []) :
    s.compile = (Plan.compileFrom [] s.entries).map fun q => ({ fields := q.1 }, q.2) := by
  rw [compile, Plan.compile, if_neg (by simpa using hne)]

theorem compile_eq_error_iff (hne : s.entries ≠ []) :
    s.compile = .error e ↔ ∃ i, s.FaultAt i e ∧ ∀ j < i, ∀ e', ¬ s.FaultAt j e' := by
  simp only [compile_of_entries hne, ← faultAt_entries, ← Plan.compileFrom_eq_error_iff]
  cases Plan.compileFrom [] s.entries <;> simp [Except.map]

theorem compile_eq_ok_iff (hne : s.entries ≠ []) :
    s.compile = .ok (p, ws) ↔
      (∀ i e, ¬ s.FaultAt i e) ∧ s.entries.map Descriptor.ofDefinition = p.fields.map .ok ∧
        ws = s.entries.filterMap Warning.of? := by
  simp only [compile_of_entries hne, ← faultAt_entries, ← Plan.compileFrom_eq_ok_iff]
  cases Plan.compileFrom [] s.entries with
  | error e => simp [Except.map]
  | ok q =>
    obtain ⟨fields⟩ := p
    simp [Except.map, Prod.ext_iff]

/-- No definition fails as a schema without definitions does. -/
theorem compile_eq_emptySchema_iff : s.compile = .error .emptySchema ↔ s.entries = [] := by
  constructor
  · intro h
    by_contra hne
    obtain ⟨i, ⟨definition, -, hfault⟩, -⟩ := (compile_eq_error_iff hne).mp h
    exact nomatch hfault.field
  · intro h
    rw [compile, h]
    rfl

/-- Where no name stands twice, none is found to. -/
theorem compile_ne_duplicateField (h : (s.entries.map (·.1)).Nodup) (f i : String) :
    s.compile ≠ .error (.duplicateField f i) := by
  intro hc
  by_cases hne : s.entries = []
  · rw [compile_eq_emptySchema_iff.mpr hne] at hc
    exact nomatch hc
  · obtain ⟨j, ⟨definition, hj, hfault⟩, -⟩ := (compile_eq_error_iff hne).mp hc
    have hbefore : definition.1 ∈ (s.entries.map (·.1)).take j := by
      rw [← List.map_take]
      exact hfault.mem_of_duplicateField
    have hhere : definition.1 ∈ (s.entries.map (·.1)).drop j := by
      rw [← List.map_drop]
      exact List.mem_map_of_mem (List.mem_of_getElem? (by rw [List.getElem?_drop, Nat.add_zero, hj]))
    exact List.disjoint_take_drop h (Nat.le_refl j) hbefore hhere

/-- Two schemas with no name in common, one behind the other, give what both give. -/
theorem compile_append (hs : s.entries ≠ []) (ht : t.entries ≠ [])
    (hdisjoint : (s.entries.map (·.1)).Disjoint (t.entries.map (·.1))) :
    Schema.compile { entries := s.entries ++ t.entries } = (do
      let p ← s.compile
      let q ← t.compile
      pure ({ fields := p.1.fields ++ q.1.fields }, p.2 ++ q.2)) := by
  have hnames : ∀ x ∈ t.entries,
      x.1 ∈ (s.entries.map (·.1)).reverse ++ [] ↔ x.1 ∈ ([] : List String) := by
    intro x hx
    rw [List.append_nil, List.mem_reverse]
    exact iff_of_false (fun h => hdisjoint h (List.mem_map_of_mem hx)) List.not_mem_nil
  rw [compile_of_entries (s := { entries := s.entries ++ t.entries }) (by simp [hs]),
    compile_of_entries hs, compile_of_entries ht, Plan.compileFrom_append,
    Plan.compileFrom_congr hnames]
  cases Plan.compileFrom [] s.entries with
  | error e => rfl
  | ok p => cases Plan.compileFrom [] t.entries <;> rfl

/-- What a schema gives, told by its definitions one by one. -/
structure CompiledInOrder (s : Schema) : Prop where
  /-- Having no definitions is an error of its own. -/
  empty_iff : s.compile = .error .emptySchema ↔ s.entries = []
  /-- Else the error is what is wrong with the first wrong definition, whatever follows it. -/
  error_iff : s.entries ≠ [] → ∀ e, s.compile = .error e ↔
    ∃ i, s.FaultAt i e ∧ ∀ j < i, ∀ e', ¬ s.FaultAt j e'
  /-- A plan stands exactly if no definition is wrong: each field is what its definition gives
  alone, and the warnings are those of the definitions in their order. -/
  ok_iff : s.entries ≠ [] → ∀ p ws, s.compile = .ok (p, ws) ↔
    (∀ i e, ¬ s.FaultAt i e) ∧ s.entries.map Descriptor.ofDefinition = p.fields.map .ok ∧
      ws = s.entries.filterMap Warning.of?
  /-- Definitions in front of others whose names they do not have: both parts have to stand, and
  what they give is put together. -/
  append_iff : ∀ t : Schema, s.entries ≠ [] → t.entries ≠ [] →
    (s.entries.map (·.1)).Disjoint (t.entries.map (·.1)) → ∀ p ws,
      Schema.compile { entries := s.entries ++ t.entries } = .ok (p, ws) ↔
        ∃ p₁ ws₁ p₂ ws₂, s.compile = .ok (p₁, ws₁) ∧ t.compile = .ok (p₂, ws₂) ∧
          p.fields = p₁.fields ++ p₂.fields ∧ ws = ws₁ ++ ws₂

/-- **A schema fails with the first wrong definition, or gives what its definitions give one by
one.** -/
theorem compile_inOrder (s : Schema) : s.CompiledInOrder where
  empty_iff := compile_eq_emptySchema_iff
  error_iff hne _ := compile_eq_error_iff hne
  ok_iff hne _ _ := compile_eq_ok_iff hne
  append_iff t hs ht hdisjoint p ws := by
    rw [compile_append hs ht hdisjoint]
    constructor
    · intro h
      cases h₁ : s.compile with
      | error e =>
          rw [h₁] at h
          exact nomatch h
      | ok q₁ =>
          cases h₂ : t.compile with
          | error e =>
              rw [h₁, h₂] at h
              exact nomatch h
          | ok q₂ =>
              rw [h₁, h₂] at h
              obtain ⟨rfl, rfl⟩ := Prod.mk.inj (Except.ok.inj h)
              exact ⟨q₁.1, q₁.2, q₂.1, q₂.2, rfl, rfl, rfl, rfl⟩
    · rintro ⟨p₁, ws₁, p₂, ws₂, h₁, h₂, hfields, rfl⟩
      rw [h₁, h₂]
      obtain ⟨fields⟩ := p
      obtain rfl : fields = _ := hfields
      rfl

/-- A name that stands before is looked at before its instruction, and nothing behind it is. -/
example : Schema.compile ⟨[("a", "str:rand"), ("a", "int"), (" ", "float:rand")]⟩ =
    .error (.duplicateField "a" "int") := by
  decide +kernel

end Schema

end SampleData
