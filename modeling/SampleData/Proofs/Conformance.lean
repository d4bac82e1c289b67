import SampleData.Proofs.Compilation
import SampleData.Proofs.ReversedRanges

/-!
# Records conform to their plan

What a field may hold is said by its kind and its strategy, without a look at how values are
drawn: `Strategy.Allows`. A field that instructions give is drawn so, whatever the source answers,
and so are whole records and any number of records after one another from one source. From a state
of a source where draws by rejection come to an end, the records are there.

* `Descriptor.draw_yields`, `drawFields_yields`, `Plan.draw_yields`, `Plan.drawMany_yields`: what is
  drawn if it is drawn, for a field, the fields, a record and a run of records.
* `Descriptor.draw_ends_allowed`, `drawFields_ends`, `Plan.draw_ends`, `Plan.drawMany_ends`: that it
  is drawn.
* `Schema.records_conform`: a run of records of a plan that a schema gives.
-/

namespace SampleData

/-- What a field of a kind may hold under a strategy. -/
inductive Strategy.Allows : Kind → Strategy → Value → Prop
  | moment (t : Binary64) : Allows .timestamp .random (.timestamp t)
  | identifier {s : String} (h : IsRandomUuid s) (hlen : s.length = 36) :
      Allows .text .random (.text s)
  | number {n : Int64} (hlow : 0 ≤ n) (hhigh : n ≤ 10000) : Allows .integer .random (.integer n)
  | between {low high n : Int64} (hlow : low ≤ n) (hhigh : n ≤ high) :
      Allows .integer (.range low high) (.integer n)
  | member {k : Kind} {values : List Scalar} {x : Scalar} (h : x ∈ values) (hk : x.kind = k) :
      Allows k (.list values) (.ofScalar x)
  | constant {k : Kind} {x : Scalar} (hk : x.kind = k) : Allows k (.fixed x) (.ofScalar x)
  | missing : Allows .integer .empty .null
  | blank : Allows .text .empty (.text "")

/-- A record has the names of its plan in order, and each field holds what it may hold. -/
structure Record.Conforms (p : Plan) (r : Record) : Prop where
  names : r.names = p.names
  values : List.Forall₂ (fun d f => Strategy.Allows d.kind d.strategy f.2) p.fields r.fields

variable {σ : Type} [WordSource σ]

/-! ## One record -/

/-- A field whose strategy fits its kind holds what it may hold. The cases are those of the
strategy; a field of the current time has no strategy of its own. -/
theorem Descriptor.draw_yields {d : Descriptor} (h : d.Sound) (now : Binary64) :
    (d.draw now : Draw σ Value).Yields (Strategy.Allows d.kind d.strategy) := by
  obtain ⟨name, kind, strategy⟩ := d
  unfold Descriptor.Sound at h
  cases strategy with
  | random =>
      cases kind with
      | timestamp => exact .pure (.moment now)
      | text => exact drawUuid_yields.bind fun s hs => .pure (.identifier hs hs.length_eq)
      | integer =>
          have hle : freeLow ≤ freeHigh := by decide
          exact (drawInteger_yields hle).bind fun n hn => .pure (.number hn.1 hn.2)
  | list values =>
      obtain ⟨hk, hne, hkinds⟩ := h
      rw [draw_list hk]
      apply (drawChoice_yields hne).bind
      rintro _ ⟨x, hx, rfl⟩
      exact .pure (.member hx (hkinds x hx))
  | range low high =>
      obtain ⟨hk, hle⟩ := h
      dsimp only at hk
      subst hk
      exact (drawInteger_yields hle).bind fun n hn => .pure (.between hn.1 hn.2)
  | fixed value =>
      obtain ⟨hk, hv⟩ := h
      rw [draw_fixed hk]
      exact .pure (.constant hv)
  | empty =>
      cases kind with
      | timestamp => exact absurd rfl h
      | text => exact .pure .blank
      | integer => exact .pure .missing

/-- Fields that are drawn in order have their names and hold what they may hold. -/
theorem drawFields_yields {ds : List Descriptor} (h : ∀ d ∈ ds, d.Sound) (clock : Clock) :
    (drawFields clock ds : Draw σ (List (String × Value))).Yields fun fs =>
      fs.map (·.1) = ds.map (·.name) ∧
        List.Forall₂ (fun d f => Strategy.Allows d.kind d.strategy f.2) ds fs := by
  induction ds generalizing clock with
  | nil => exact .pure ⟨rfl, .nil⟩
  | cons d ds ih =>
      apply (Descriptor.draw_yields (h d List.mem_cons_self) (clock 0)).bind
      intro v hv
      refine (ih (fun x hx => h x (List.mem_cons_of_mem d hx)) (clock.after 1)).bind ?_
      rintro fs ⟨hnames, hvalues⟩
      exact .pure ⟨congrArg (d.name :: ·) hnames, .cons hv hvalues⟩

/-- A record of a plan in which each strategy fits its field. -/
theorem Plan.draw_yields {p : Plan} (h : ∀ d ∈ p.fields, d.Sound) (clock : Clock) :
    (p.draw clock : Draw σ Record).Yields (Record.Conforms p) :=
  (drawFields_yields h clock).bind fun _ hfs => .pure ⟨hfs.1, hfs.2⟩

/-! ## Many records -/

/-- Any number of records, one after the other from one source. -/
theorem Plan.drawMany_yields {p : Plan} (h : ∀ d ∈ p.fields, d.Sound) (clock : Clock) (n : Nat) :
    (p.drawMany clock n : Draw σ (List Record)).Yields fun rs =>
      rs.length = n ∧ ∀ r ∈ rs, r.Conforms p := by
  induction n generalizing clock with
  | zero => exact .pure ⟨rfl, by simp⟩
  | succ n ih =>
      apply (Plan.draw_yields h clock).bind
      intro r hr
      apply (ih (clock.after p.size)).bind
      rintro rs ⟨hlen, hall⟩
      exact .pure ⟨congrArg (· + 1) hlen, List.forall_mem_cons.mpr ⟨hr, hall⟩⟩

/-! ## Records are drawn

The same steps where draws come to an end. What a field, a record or a run of records holds is known
from above, so only that there is one remains. -/

section drawn

variable {good : σ → Prop} (hreturns : WordSource.Returns good)

include hreturns

/-- A field whose strategy fits its kind has no range without numbers, so it has a value. -/
theorem Descriptor.draw_ends_allowed {d : Descriptor} (h : d.Sound) (now : Binary64) :
    (d.draw now : Draw σ Value).Ends good (Strategy.Allows d.kind d.strategy) := by
  have hrange : ¬ d.Reversed := by
    rintro ⟨low, high, -, hstrategy, hlt⟩
    unfold Descriptor.Sound at h
    rw [hstrategy] at h
    exact Int64.not_le.mpr hlt h.2
  refine .of_yields (fun s hs => ?_) (Descriptor.draw_yields h now)
  obtain ⟨v, t, hrun, -, ht⟩ := Descriptor.draw_ends hreturns hrange now s hs
  exact ⟨v, t, hrun, ht⟩

/-- Fields are drawn in order. -/
theorem drawFields_ends {ds : List Descriptor} (h : ∀ d ∈ ds, d.Sound) (clock : Clock) :
    (drawFields clock ds : Draw σ (List (String × Value))).Ends good fun _ => True := by
  induction ds generalizing clock with
  | nil => exact .pure trivial
  | cons d ds ih =>
      obtain ⟨hd, hds⟩ := List.forall_mem_cons.mp h
      refine (Descriptor.draw_ends_allowed hreturns hd (clock 0)).bind fun v _ => ?_
      exact (ih hds (clock.after 1)).bind fun fs _ => .pure trivial

/-- A record is drawn. -/
theorem Plan.draw_ends {p : Plan} (h : ∀ d ∈ p.fields, d.Sound) (clock : Clock) :
    (p.draw clock : Draw σ Record).Ends good fun _ => True :=
  (drawFields_ends hreturns h clock).bind fun _ _ => .pure trivial

/-- Records are drawn one after the other, each from the source as the one before left it. -/
theorem Plan.drawMany_ends {p : Plan} (h : ∀ d ∈ p.fields, d.Sound) (clock : Clock) (n : Nat) :
    (p.drawMany clock n : Draw σ (List Record)).Ends good fun rs =>
      rs.length = n ∧ ∀ r ∈ rs, r.Conforms p := by
  have hends : (p.drawMany clock n : Draw σ (List Record)).Ends good fun _ => True := by
    induction n generalizing clock with
    | zero => exact .pure trivial
    | succ n ih =>
        refine (Plan.draw_ends hreturns h clock).bind fun r _ => ?_
        exact (ih (clock.after p.size)).bind fun rs _ => .pure trivial
  refine .of_yields (fun s hs => ?_) (Plan.drawMany_yields h clock n)
  obtain ⟨rs, t, hrun, -, ht⟩ := hends s hs
  exact ⟨rs, t, hrun, ht⟩

end drawn

/-- **Records of a compiled schema conform to it**, whatever the clock shows. From every state of
every source, `n` records in a row never meet a range without numbers, and if they are drawn they
are `n` records that conform. From a state where draws come to an end they are drawn, and the source
is left in such a state. -/
theorem Schema.records_conform {schema : Schema} {p : Plan} {ws : List Warning}
    (h : schema.compile = .ok (p, ws)) (clock : Clock) (n : Nat) :
    (∀ (s : σ) low high, ((p.drawMany clock n).outcome s).1 ≠ .error (.emptyRange low high)) ∧
    (∀ (s : σ) rs, ((p.drawMany clock n).outcome s).1 = .ok rs →
      rs.length = n ∧ ∀ r ∈ rs, r.Conforms p) ∧
    ∀ {good : σ → Prop}, WordSource.Returns good → ∀ s, good s →
      ∃ rs t, (p.drawMany clock n).outcome s = (.ok rs, t) ∧ good t ∧
        rs.length = n ∧ ∀ r ∈ rs, r.Conforms p := by
  obtain ⟨-, -, -, hsound⟩ := Plan.compileFrom_sound (Schema.compileFrom_of_compile h).2
  have hyields := Plan.drawMany_yields (σ := σ) hsound clock n
  refine ⟨hyields.outcome_ne_emptyRange, fun s rs hok => hyields.of_outcome_ok hok, ?_⟩
  intro good hreturns s hs
  obtain ⟨rs, t, hrun, hrecords, ht⟩ := Plan.drawMany_ends hreturns hsound clock n s hs
  exact ⟨rs, t, Draw.outcome_of_run_ok hrun, ht, hrecords⟩

/-- Two records of a schema with a range over all numbers, a list, a constant and an empty text,
from words that count up one by one, which let every draw end. -/
theorem Schema.records_conform_progression :
    ∃ p ws, Schema.compile ⟨[("n", "int:rand(-9223372036854775808, 9223372036854775807)"),
        ("s", "str:[a, b]"), ("c", "int:7"), ("e", "str:")]⟩ = .ok (p, ws) ∧
      WordSource.Returns (fun s : Progression => s.step = 1) ∧
      ((p.drawMany .zero 2).outcome (⟨3, 1⟩ : Progression)).1 =
        .ok [⟨[("n", .integer 3), ("s", .text "a"), ("c", .integer 7), ("e", .text "")]⟩,
          ⟨[("n", .integer 5), ("s", .text "a"), ("c", .integer 7), ("e", .text "")]⟩] ∧
      (∀ (s : Progression) low high,
        ((p.drawMany .zero 2).outcome s).1 ≠ .error (.emptyRange low high)) ∧
      ∃ rs t, (p.drawMany .zero 2).outcome (⟨3, 1⟩ : Progression) = (.ok rs, t) ∧ t.step = 1 ∧
        rs.length = 2 ∧ ∀ r ∈ rs, r.Conforms p := by
  have hc : Schema.compile ⟨[("n", "int:rand(-9223372036854775808, 9223372036854775807)"),
        ("s", "str:[a, b]"), ("c", "int:7"), ("e", "str:")]⟩ =
      .ok (⟨[⟨"n", .integer, .range (-9223372036854775808) 9223372036854775807⟩,
        ⟨"s", .text, .list [.text "a", .text "b"]⟩, ⟨"c", .integer, .fixed (.integer 7)⟩,
        ⟨"e", .text, .empty⟩]⟩, []) := by
    decide +kernel
  obtain ⟨hrange, -, hdrawn⟩ := Schema.records_conform (σ := Progression) hc .zero 2
  exact ⟨_, _, hc, Progression.returns, by decide +kernel, hrange,
    hdrawn Progression.returns ⟨3, 1⟩ rfl⟩

end SampleData
