import SampleData.Schema
import Mathlib.Data.List.Forall2

/-!
# What compiling guarantees

A schema is looked at definition by definition, and a plan stands only if all of them pass. What
each stage lets through is said once and handed up: a constant that was read fits its kind, a list
that was read holds something, the bounds of a range are in order, so a strategy that was compiled
fits the kind of its field.

* `Strategy.compile_fits`: the strategies that instructions give.
* `Descriptor.compile_cases`: all that compiling one definition can give.
* `Plan.compileFrom_cons_cases`: one step of compiling definitions in order.
* `Plan.compileFrom_sound`: what holds after all steps, names that stand before them included.
* `Schema.compile_wellFormed`: a plan that a schema gives is well-formed and has the schema's names.
-/

namespace SampleData

open Text Instruction

/-! ## Constants -/

/-- A constant that was read for a kind fits it. -/
theorem Scalar.kind_of_read? {k : Kind} {t : String} {v : Scalar} (h : Scalar.read? k t = some v) :
    v.kind = k := by
  cases k with
  | timestamp => cases h
  | text =>
      cases h
      rfl
  | integer =>
      obtain ⟨n, -, rfl⟩ := Option.map_eq_some_iff.mp h
      rfl

/-- Elements that were all read are read one by one. -/
theorem Scalar.readAll_forall₂ {k : Kind} {xs : List String} {vs : List Scalar}
    (h : Scalar.readAll k xs = .ok vs) :
    List.Forall₂ (fun x v => Scalar.read? k x = some v) xs vs := by
  induction xs generalizing vs with
  | nil =>
      cases h
      exact .nil
  | cons x xs ih =>
      unfold Scalar.readAll at h
      split at h
      · cases h
      · next v hv =>
        cases hr : Scalar.readAll k xs with
        | error e => simp [hr, Except.map] at h
        | ok rest =>
            simp only [hr, Except.map, Except.ok.injEq] at h
            subst h
            exact .cons hv (ih hr)

/-- As many constants are read as there are elements, and all of them fit the kind. -/
theorem Scalar.readAll_fits {k : Kind} {xs : List String} {vs : List Scalar}
    (h : Scalar.readAll k xs = .ok vs) : vs.length = xs.length ∧ ∀ v ∈ vs, v.kind = k := by
  have hall := Scalar.readAll_forall₂ h
  clear h
  induction hall with
  | nil => simp
  | cons hv _ ih =>
      refine ⟨by simp [ih.1], ?_⟩
      simpa [Scalar.kind_of_read? hv] using ih.2

/-! ## One definition -/

/-- A strategy that was compiled for a field fits the kind of the field. -/
theorem Strategy.compile_fits {name instruction strategy : String} {kind : Kind} {s : Strategy}
    (hk : kind ≠ .timestamp) (h : Strategy.compile name instruction kind strategy = .ok s) :
    s.Fits kind := by
  unfold Strategy.compile at h
  split at h
  · cases h
  · cases h
    exact hk
  · cases h
    trivial
  · -- a range: refused unless the field holds numbers
    next arguments _ =>
    split at h
    · cases h
    · next hint =>
      split at h
      · cases h
      · next low high hr =>
        cases h
        exact ⟨Decidable.not_not.mp hint, le_of_readRange hr⟩
  · next items hitems =>
    split at h
    · cases h
    · next values hvalues =>
      cases h
      obtain ⟨hlen, hkinds⟩ := Scalar.readAll_fits hvalues
      refine ⟨hk, ?_, hkinds⟩
      rintro rfl
      exact ne_nil_of_classify_list hitems (List.eq_nil_of_length_eq_zero hlen.symm)
  · split at h
    · cases h
    · next v hv =>
      cases h
      exact ⟨hk, Scalar.kind_of_read? hv⟩

/-- All that compiling one definition can give: a field of the current time with its warning, or a
field of another kind with the strategy that was compiled for it. -/
theorem Descriptor.compile_cases {name instruction : String} {d : Descriptor} {w : Option Warning}
    (h : Descriptor.compile name instruction = .ok (d, w)) :
    ∃ keyword strategy, split instruction = some (keyword, strategy) ∧
      ((Kind.ofKeyword? keyword = some .timestamp ∧ d = ⟨name, .timestamp, .random⟩ ∧
          w = if trim strategy = "" then none else some ⟨name, trim strategy⟩) ∨
        ∃ kind s, kind ≠ .timestamp ∧ Kind.ofKeyword? keyword = some kind ∧
          Strategy.compile name instruction kind strategy = .ok s ∧ d = ⟨name, kind, s⟩ ∧
          w = none) := by
  unfold Descriptor.compile at h
  split at h
  · cases h
  · next keyword strategy hs =>
    refine ⟨keyword, strategy, hs, ?_⟩
    split at h
    · cases h
    · next hk =>
      cases h
      exact .inl ⟨hk, rfl, by simp⟩
    · next kind hne hk =>
      split at h
      · cases h
      · next s hc =>
        cases h
        exact .inr ⟨kind, s, hne, hk, hc, rfl, rfl⟩

/-- A definition gives a field of its name with a strategy that fits. -/
theorem Descriptor.compile_sound {name instruction : String} {d : Descriptor} {w : Option Warning}
    (h : Descriptor.compile name instruction = .ok (d, w)) : d.name = name ∧ d.Sound := by
  obtain ⟨_, _, -, ⟨-, rfl, -⟩ | ⟨kind, s, hk, -, hs, rfl, -⟩⟩ := Descriptor.compile_cases h
  · exact ⟨rfl, trivial⟩
  · exact ⟨rfl, Strategy.compile_fits hk hs⟩

/-! ## All definitions -/

/-- One step of compiling: the name is new and not blank, its instruction gives a field, and the
rest is compiled with the name among those that stand before it. -/
theorem Plan.compileFrom_cons_cases {seen : List String} {name instruction : String}
    {rest : List (String × String)} {ds : List Descriptor} {ws : List Warning}
    (h : Plan.compileFrom seen ((name, instruction) :: rest) = .ok (ds, ws)) :
    trim name ≠ "" ∧ name ∉ seen ∧
      ∃ d w ds' ws', Descriptor.compile name instruction = .ok (d, w) ∧
        Plan.compileFrom (name :: seen) rest = .ok (ds', ws') ∧ ds = d :: ds' ∧
        ws = w.toList ++ ws' := by
  unfold Plan.compileFrom at h
  split at h
  · cases h
  · next hblank =>
    split at h
    · cases h
    · next hseen =>
      split at h
      · cases h
      · next d w hd =>
        cases hr : Plan.compileFrom (name :: seen) rest with
        | error e => simp [hr, Except.map] at h
        | ok p =>
            simp only [hr, Except.map, Except.ok.injEq, Prod.mk.injEq] at h
            exact ⟨fun ht => hblank (isAllBlank_iff_trim_eq_empty.mpr ht), hseen, d, w, p.1, p.2,
              hd, rfl, h.1.symm, h.2.symm⟩

/-- Compiling definitions behind names that stand before them: the fields have the names of the
definitions, none of them blank, none of them twice and none of them before. -/
theorem Plan.compileFrom_sound {seen : List String} {defs : List (String × String)}
    {ds : List Descriptor} {ws : List Warning} (h : Plan.compileFrom seen defs = .ok (ds, ws)) :
    ds.map (·.name) = defs.map (·.1) ∧ (defs.map (·.1)).Nodup ∧
      (∀ n ∈ defs.map (·.1), trim n ≠ "" ∧ n ∉ seen) ∧ ∀ d ∈ ds, d.Sound := by
  induction defs generalizing seen ds ws with
  | nil =>
      cases h
      simp
  | cons definition rest ih =>
      obtain ⟨name, instruction⟩ := definition
      obtain ⟨hname, hseen, d, w, ds', ws', hd, hrest, rfl, -⟩ := Plan.compileFrom_cons_cases h
      obtain ⟨hnames, hnodup, hfree, hsound⟩ := ih hrest
      obtain ⟨hdn, hds⟩ := Descriptor.compile_sound hd
      have hnew : name ∉ rest.map (·.1) := fun hm => (hfree name hm).2 List.mem_cons_self
      refine ⟨?_, ?_, ?_, ?_⟩
      · rw [List.map_cons, List.map_cons, hnames, hdn]
      · rw [List.map_cons, List.nodup_cons]
        exact ⟨hnew, hnodup⟩
      · intro n hn
        rcases List.mem_cons.mp hn with rfl | hn
        · exact ⟨hname, hseen⟩
        · exact ⟨(hfree n hn).1, fun hs => (hfree n hn).2 (List.mem_cons_of_mem name hs)⟩
      · intro x hx
        rcases List.mem_cons.mp hx with rfl | hx
        · exact hds
        · exact hsound x hx

/-- A schema that gives a plan has definitions, and its fields come of compiling them in order. -/
theorem Schema.compileFrom_of_compile {s : Schema} {p : Plan} {ws : List Warning}
    (h : s.compile = .ok (p, ws)) :
    s.entries ≠ [] ∧ Plan.compileFrom [] s.entries = .ok (p.fields, ws) := by
  unfold Schema.compile Plan.compile at h
  split at h
  · cases h
  · next hne =>
    refine ⟨fun hnil => hne (by simp [hnil]), ?_⟩
    cases hc : Plan.compileFrom [] s.entries with
    | error e => simp [hc, Except.map] at h
    | ok q =>
        simp only [hc, Except.map, Except.ok.injEq, Prod.mk.injEq] at h
        obtain ⟨rfl, rfl⟩ := h
        rfl

/-- **A plan that a schema gives is well-formed**, and its names are those of the schema in the
schema's order. -/
theorem Schema.compile_wellFormed {s : Schema} {p : Plan} {ws : List Warning}
    (h : s.compile = .ok (p, ws)) : p.WellFormed ∧ p.names = s.entries.map (·.1) := by
  obtain ⟨hne, hc⟩ := Schema.compileFrom_of_compile h
  obtain ⟨hnames, hnodup, hfree, hsound⟩ := Plan.compileFrom_sound hc
  have hn : p.names = s.entries.map (·.1) := hnames
  refine ⟨⟨?_, hn ▸ hnodup, fun n hm => (hfree n (hn ▸ hm)).1, hsound⟩, hn⟩
  intro hnil
  rw [hnil, List.map_nil] at hnames
  exact hne (List.map_eq_nil_iff.mp hnames.symm)

/-- A schema with a definition of each sort gives a plan: a strategy that is ignored, a range with
a negative bound, a list with a quoted comma, and nothing behind the colon. -/
theorem Schema.compile_wellFormed_mixed :
    ∃ p ws, Schema.compile ⟨[("at", "timestamp: noon"), ("n", "int:rand(-5, 7)"),
        ("s", "str:[a, \"b,c\"]"), ("e", "int:")]⟩ = .ok (p, ws) ∧
      p.fields = [⟨"at", .timestamp, .random⟩, ⟨"n", .integer, .range (-5) 7⟩,
        ⟨"s", .text, .list [.text "a", .text "b,c"]⟩, ⟨"e", .integer, .empty⟩] ∧
      ws = [⟨"at", "noon"⟩] ∧ p.WellFormed ∧ p.names = ["at", "n", "s", "e"] := by
  have hc : Schema.compile ⟨[("at", "timestamp: noon"), ("n", "int:rand(-5, 7)"),
        ("s", "str:[a, \"b,c\"]"), ("e", "int:")]⟩ =
      .ok (⟨[⟨"at", .timestamp, .random⟩, ⟨"n", .integer, .range (-5) 7⟩,
        ⟨"s", .text, .list [.text "a", .text "b,c"]⟩, ⟨"e", .integer, .empty⟩]⟩,
        [⟨"at", "noon"⟩]) := by
    decide +kernel
  exact ⟨_, _, hc, rfl, rfl, Schema.compile_wellFormed hc⟩

end SampleData
