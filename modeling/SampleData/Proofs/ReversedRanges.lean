import SampleData.Plan.Stored
import SampleData.Proofs.EndedDraws
import SampleData.Proofs.SilentFields

/-!
# Plans that nobody checked

A plan that was not compiled may hold anything: a range on a text field, constants of the wrong
kind, an empty list, a reversed range. Only the last of these can end a record, and not on a moment,
which takes no notice of its strategy; all else is drawn as it stands. Where a record ends, the
source is as the fields before left it.

Draws by rejection are taken to come to an end here, so the statements are about states of a source
from which they do (`WordSource.Returns`).

* `Descriptor.Gives`: what a field holds, for each kind and each strategy.
* `DrawnInOrder`: values of fields, each drawn from the source as the one before left it.
* `Descriptor.draw_ends`, `Descriptor.draw_reversed`: one field.
* `drawFields_drawn`, `drawFields_reversed`: fields.
* `Plan.draw_emptyRange_iff`: a record.
-/

namespace SampleData

/-! ## Fields -/

namespace Descriptor

/-- The bounds of a range that holds no number, on a field that is no moment. -/
def ReversedBy (d : Descriptor) (low high : Int64) : Prop :=
  (d.kind = .text ∨ d.kind = .integer) ∧ d.strategy = .range low high ∧ high < low

/-- The field has a range that holds no number. -/
def Reversed (d : Descriptor) : Prop := ∃ low high, d.ReversedBy low high

instance (d : Descriptor) : Decidable d.Reversed :=
  match h : d.strategy with
  | .range low high =>
    decidable_of_iff ((d.kind = .text ∨ d.kind = .integer) ∧ high < low)
      ⟨fun hd => ⟨low, high, hd.1, h, hd.2⟩, fun ⟨_, _, hkind, hrange, hlt⟩ => by
        cases h.symm.trans hrange
        exact ⟨hkind, hlt⟩⟩
  | .random | .list _ | .fixed _ | .empty =>
    .isFalse fun ⟨_, _, _, hrange, _⟩ => by cases h.symm.trans hrange

/-- What a field may hold at a time, for each kind and each strategy. -/
inductive Gives (now : Binary64) : Descriptor → Value → Prop
  | moment {name : String} {strategy : Strategy} :
      Gives now ⟨name, .timestamp, strategy⟩ (.timestamp now)
  | identifier {name s : String} (h : IsRandomUuid s) : Gives now ⟨name, .text, .random⟩ (.text s)
  | number {name : String} {n : Int64} (hlow : 0 ≤ n) (hhigh : n ≤ 10000) :
      Gives now ⟨name, .integer, .random⟩ (.integer n)
  | between {name : String} {kind : Kind} {low high n : Int64} (hkind : kind ≠ .timestamp)
      (hlow : low ≤ n) (hhigh : n ≤ high) : Gives now ⟨name, kind, .range low high⟩ (.integer n)
  | nothing {name : String} {kind : Kind} (hkind : kind ≠ .timestamp) :
      Gives now ⟨name, kind, .list []⟩ .null
  | member {name : String} {kind : Kind} {values : List Scalar} {x : Scalar}
      (hkind : kind ≠ .timestamp) (h : x ∈ values) :
      Gives now ⟨name, kind, .list values⟩ (.ofScalar x)
  | constant {name : String} {kind : Kind} {x : Scalar} (hkind : kind ≠ .timestamp) :
      Gives now ⟨name, kind, .fixed x⟩ (.ofScalar x)
  | missing {name : String} : Gives now ⟨name, .integer, .empty⟩ .null
  | blank {name : String} : Gives now ⟨name, .text, .empty⟩ (.text "")

/-- The field takes nothing from the source: it is a moment, a constant, the empty value or an entry
of no list. -/
def Idle (d : Descriptor) : Prop := d.Silent ∨ d.strategy = .list []

variable {σ : Type} [WordSource σ]

/-- An idle field has its value without a draw. -/
theorem draw_of_idle {d : Descriptor} (h : d.Idle) (now : Binary64) :
    ∃ v, (d.draw now : Draw σ Value) = pure v := by
  rcases h with h | h
  · exact draw_of_silent h now
  · obtain ⟨name, kind, strategy⟩ := d
    dsimp only at h
    subst h
    cases kind <;> exact ⟨_, rfl⟩

/-- **A reversed range ends the record** before anything is drawn. -/
theorem draw_reversed {d : Descriptor} {low high : Int64} (h : d.ReversedBy low high)
    (now : Binary64) (s : σ) : d.draw now s = .error (.emptyRange low high) s := by
  obtain ⟨name, kind, strategy⟩ := d
  obtain ⟨hkind, hstrategy, hlt⟩ := h
  dsimp only at hkind hstrategy
  subst hstrategy
  have hmoment : kind ≠ .timestamp := by
    rcases hkind with rfl | rfl <;> decide
  rw [draw_range hmoment, drawInteger, if_pos hlt]
  rfl

/-- **Any other field has a value**, one that its kind and strategy allow. The cases are those of
the strategy, for a field that is no moment. -/
theorem draw_ends {good : σ → Prop} (hreturns : WordSource.Returns good) {d : Descriptor}
    (h : ¬ d.Reversed) (now : Binary64) : (d.draw now : Draw σ Value).Ends good (d.Gives now) := by
  obtain ⟨name, kind, strategy⟩ := d
  have hranges : kind ≠ .timestamp → ∀ low high, strategy = .range low high → low ≤ high := by
    intro hkind low high hstrategy
    refine Int64.not_lt.mp fun hlt => h ⟨low, high, ?_, hstrategy, hlt⟩
    cases kind with
    | timestamp => exact absurd rfl hkind
    | text => exact .inl rfl
    | integer => exact .inr rfl
  by_cases hkind : kind = .timestamp
  · subst hkind
    exact .pure .moment
  cases strategy with
  | random =>
      cases kind with
      | timestamp => exact absurd rfl hkind
      | text => exact (drawUuid_ends hreturns).bind fun s hs => .pure (.identifier hs)
      | integer =>
          have hle : freeLow ≤ freeHigh := by decide
          exact (drawInteger_ends hreturns hle).bind fun n hn => .pure (.number hn.1 hn.2)
  | list values =>
      rw [draw_list hkind]
      by_cases hvalues : values = []
      · subst hvalues
        exact .pure (.nothing hkind)
      · refine (drawChoice_ends hreturns hvalues).bind ?_
        rintro _ ⟨x, hx, rfl⟩
        exact .pure (.member hkind hx)
  | range low high =>
      rw [draw_range hkind]
      exact (drawInteger_ends hreturns (hranges hkind low high rfl)).bind fun n hn =>
        .pure (.between hkind hn.1 hn.2)
  | fixed value =>
      rw [draw_fixed hkind]
      exact .pure (.constant hkind)
  | empty =>
      cases kind with
      | timestamp => exact absurd rfl hkind
      | text => exact .pure .blank
      | integer => exact .pure .missing

end Descriptor

/-! ## Fields in order -/

section fields

variable {σ : Type} [WordSource σ]

/-- Values of fields in order, with the source before the first and behind the last: each field is
drawn from the source as the one before left it, has a value that its kind and strategy allow, and
leaves the source as it is if it is idle. -/
inductive DrawnInOrder : Clock → List Descriptor → σ → List (String × Value) → σ → Prop
  | nil (c : Clock) (s : σ) : DrawnInOrder c [] s [] s
  | cons {c : Clock} {d : Descriptor} {ds : List Descriptor} {v : Value}
      {fs : List (String × Value)} {s t u : σ} (hrun : d.draw (c 0) s = .ok v t)
      (hgives : d.Gives (c 0) v) (hidle : d.Idle → t = s)
      (hrest : DrawnInOrder (c.after 1) ds t fs u) :
      DrawnInOrder c (d :: ds) s ((d.name, v) :: fs) u

variable {c : Clock} {ds : List Descriptor} {fs : List (String × Value)} {s u : σ}

/-- The names are those of the fields. -/
theorem DrawnInOrder.names (h : DrawnInOrder c ds s fs u) : fs.map (·.1) = ds.map (·.name) := by
  induction h with
  | nil c s => rfl
  | cons _ _ _ _ ih => rw [List.map_cons, List.map_cons, ih]

/-- Fields that are drawn in order are those that are drawn. -/
theorem DrawnInOrder.run (h : DrawnInOrder c ds s fs u) : drawFields c ds s = .ok fs u := by
  induction h with
  | nil c s => rfl
  | cons hrun _ _ _ ih =>
      rw [drawFields, Draw.run_bind_ok hrun, Draw.run_bind_ok ih]
      rfl

/-- **Behind fields that are drawn a reversed range ends the record**, and the source stays as these
fields left it, whatever comes behind. -/
theorem drawFields_reversed (h : DrawnInOrder c ds s fs u) {d : Descriptor} {low high : Int64}
    (hd : d.ReversedBy low high) (rest : List Descriptor) :
    drawFields c (ds ++ d :: rest) s = .error (.emptyRange low high) u := by
  induction h with
  | nil c s => exact Draw.run_bind_error (Descriptor.draw_reversed hd (c 0) s)
  | cons hrun _ _ _ ih =>
      rw [List.cons_append, drawFields, Draw.run_bind_ok hrun]
      exact Draw.run_bind_error ih

variable {good : σ → Prop}

/-- **Fields without a reversed range are drawn.** -/
theorem drawFields_drawn (hreturns : WordSource.Returns good) (h : ∀ d ∈ ds, ¬ d.Reversed)
    (c : Clock) (hs : good s) : ∃ fs u, DrawnInOrder c ds s fs u := by
  induction ds generalizing c s with
  | nil => exact ⟨[], s, .nil c s⟩
  | cons d ds ih =>
      obtain ⟨hd, hds⟩ := List.forall_mem_cons.mp h
      obtain ⟨v, t, hrun, hgives, ht⟩ := Descriptor.draw_ends hreturns hd (c 0) s hs
      obtain ⟨fs, u, hrest⟩ := ih hds (c.after 1) ht
      refine ⟨_, u, .cons hrun hgives (fun hidle => ?_) hrest⟩
      obtain ⟨w, hw⟩ := Descriptor.draw_of_idle (σ := σ) hidle (c 0)
      rw [hw] at hrun
      exact (EStateM.Result.ok.inj hrun).2.symm

end fields

/-! ## Records -/

/-- No field has a reversed range, or there is a first one that has. -/
theorem Descriptor.none_or_first_reversed (ds : List Descriptor) :
    (∀ d ∈ ds, ¬ d.Reversed) ∨
      ∃ front d rest, ds = front ++ d :: rest ∧ (∀ x ∈ front, ¬ x.Reversed) ∧ d.Reversed := by
  induction ds with
  | nil => exact .inl nofun
  | cons d ds ih =>
      by_cases hd : d.Reversed
      · exact .inr ⟨[], d, ds, rfl, nofun, hd⟩
      · refine ih.imp (fun hds => List.forall_mem_cons.mpr ⟨hd, hds⟩) ?_
        rintro ⟨front, x, rest, rfl, hfront, hx⟩
        exact ⟨d :: front, x, rest, rfl, List.forall_mem_cons.mpr ⟨hd, hfront⟩, hx⟩

namespace Plan

variable {σ : Type} [WordSource σ] {good : σ → Prop} {c : Clock} {s u : σ}

/-- A record of fields that are drawn in order. -/
theorem outcome_of_drawn {p : Plan} {fs : List (String × Value)}
    (h : DrawnInOrder c p.fields s fs u) : (p.draw c).outcome s = (.ok ⟨fs⟩, u) := by
  apply Draw.outcome_of_run_ok
  rw [draw, Draw.run_bind_ok h.run]
  rfl

/-- A record that ends at a reversed range. -/
theorem outcome_of_reversed {p : Plan} {front rest : List Descriptor} {d : Descriptor}
    {low high : Int64} {fs : List (String × Value)} (hfields : p.fields = front ++ d :: rest)
    (h : DrawnInOrder c front s fs u) (hd : d.ReversedBy low high) :
    (p.draw c).outcome s = (.error (.emptyRange low high), u) := by
  apply Draw.outcome_of_run_error
  rw [draw, hfields]
  exact Draw.run_bind_error (drawFields_reversed h hd rest)

/-- **A record of any plan ends in a range without numbers exactly if a field that is no moment has
a reversed range**; else it is a record with a value for each field in order. It ends at the first
such field, and the source is left as the fields before it left it. -/
theorem draw_emptyRange_iff (hreturns : WordSource.Returns good) (p : Plan) (c : Clock)
    (hs : good s) :
    ((∃ low high, ((p.draw c).outcome s).1 = .error (.emptyRange low high)) ↔
        ∃ d ∈ p.fields, d.Reversed) ∧
    ((¬ ∃ d ∈ p.fields, d.Reversed) → ∃ r u, (p.draw c).outcome s = (.ok r, u) ∧
      r.names = p.names ∧ DrawnInOrder c p.fields s r.fields u) ∧
    ∀ front d rest, p.fields = front ++ d :: rest → (∀ x ∈ front, ¬ x.Reversed) → d.Reversed →
      ∃ low high fs u, d.ReversedBy low high ∧ DrawnInOrder c front s fs u ∧
        (p.draw c).outcome s = (.error (.emptyRange low high), u) := by
  have hdrawn : (∀ d ∈ p.fields, ¬ d.Reversed) → ∃ r u, (p.draw c).outcome s = (.ok r, u) ∧
      r.names = p.names ∧ DrawnInOrder c p.fields s r.fields u := by
    intro hnone
    obtain ⟨fs, u, hfields⟩ := drawFields_drawn hreturns hnone c hs
    exact ⟨⟨fs⟩, u, outcome_of_drawn hfields, hfields.names, hfields⟩
  have hreversed : ∀ front d rest, p.fields = front ++ d :: rest →
      (∀ x ∈ front, ¬ x.Reversed) → d.Reversed →
        ∃ low high fs u, d.ReversedBy low high ∧ DrawnInOrder c front s fs u ∧
          (p.draw c).outcome s = (.error (.emptyRange low high), u) := by
    rintro front d rest hfields hfront ⟨low, high, hd⟩
    obtain ⟨fs, u, hdrawn⟩ := drawFields_drawn hreturns hfront c hs
    exact ⟨low, high, fs, u, hd, hdrawn, outcome_of_reversed hfields hdrawn hd⟩
  refine ⟨⟨?_, ?_⟩, fun hnone => hdrawn fun d hd h => hnone ⟨d, hd, h⟩, hreversed⟩
  · rintro ⟨low, high, hends⟩
    by_contra hnone
    obtain ⟨r, u, hrecord, -⟩ := hdrawn fun d hd h => hnone ⟨d, hd, h⟩
    rw [hrecord] at hends
    cases hends
  · rintro ⟨d, hd, h⟩
    rcases Descriptor.none_or_first_reversed p.fields with
      hnone | ⟨front, x, rest, hfields, hfront, hx⟩
    · exact absurd h (hnone d hd)
    · obtain ⟨low, high, fs, u, -, -, hends⟩ := hreversed front x rest hfields hfront hx
      exact ⟨low, high, by rw [hends]⟩

end Plan

/-- A stored plan of a moment with a reversed range, a list without entries, a range on a text field
and, behind a reversed range, an identifier. -/
def uncheckedText : String :=
  "\x7b\"fields\":[[\"t\",\"timestamp\",[\"range\",9,1]],[\"e\",\"string\",[\"list\",[]]]," ++
    "[\"n\",\"string\",[\"range\",1,6]],[\"r\",\"integer\",[\"range\",2,1]]," ++
      "[\"u\",\"string\",[\"random\"]]]\x7d"

/-- The plan that is read from it. -/
def uncheckedPlan : Plan where
  fields := [⟨"t", .timestamp, .range 9 1⟩, ⟨"e", .text, .list []⟩, ⟨"n", .text, .range 1 6⟩,
    ⟨"r", .integer, .range 2 1⟩, ⟨"u", .text, .random⟩]

/-- Its record ends at the fourth field, with one word taken from the source for the third. Without
the fourth field there is a record. -/
theorem Plan.draw_emptyRange_iff_unchecked :
    Plan.ofText? uncheckedText = some uncheckedPlan ∧
    (WordSource.Returns fun s : Progression => s.step = 1) ∧
    (uncheckedPlan.draw .zero).outcome (⟨0x4000000000000000, 1⟩ : Progression) =
      (.error (.emptyRange 2 1), ⟨0x4000000000000001, 1⟩) ∧
    (∃ low high, ((uncheckedPlan.draw .zero).outcome
        (⟨0x4000000000000000, 1⟩ : Progression)).1 = .error (.emptyRange low high)) ∧
    ∃ r u, ((uncheckedPlan.select (· ≠ 3)).draw .zero).outcome
        (⟨0x4000000000000000, 1⟩ : Progression) = (.ok r, u) ∧ r.names = ["t", "e", "n", "u"] := by
  have hreversed : ∃ d ∈ uncheckedPlan.fields, d.Reversed := by decide
  have hnone : ¬ ∃ d ∈ (uncheckedPlan.select (· ≠ 3)).fields, d.Reversed := by decide
  refine ⟨by decide +kernel, Progression.returns, by decide +kernel,
    (Plan.draw_emptyRange_iff Progression.returns uncheckedPlan .zero rfl).1.mpr hreversed, ?_⟩
  obtain ⟨r, u, hrecord, hnames, -⟩ :=
    (Plan.draw_emptyRange_iff Progression.returns (uncheckedPlan.select (· ≠ 3)) .zero
      (s := ⟨0x4000000000000000, 1⟩) rfl).2.1 hnone
  exact ⟨r, u, hrecord, hnames⟩

end SampleData
