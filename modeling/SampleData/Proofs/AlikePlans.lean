import SampleData.Proofs.SilentFields
import SampleData.Proofs.Identifiers
import Mathlib.Data.List.Forall2

/-!
# Plans that draw alike

What a field takes from the source is decided by how wide its range is or how long its list, and by
nothing else: neither names nor bounds nor values matter, nor the kind as long as it is no moment.
So the runs of two plans whose fields match in this, one by one, go in step. A word that one of them
rejects is rejected by the other. What they draw differs as the plans do: numbers by the distance of
the lower bounds, and values of lists by what stands at the same place.

* `drawInteger_paired`: numbers of ranges that are equally wide, all numbers included.
* `drawChoice_paired`: entries of lists that are equally long.
* `Descriptor.Matches`, `Descriptor.Alike`: fields that match, and the values of two such fields.
* `Plan.drawMany_alike`: any number of records.
-/

namespace SampleData

/-! ## Draws that go together -/

/-- Two draws in step that do not end in a range without numbers. -/
structure Draw.Paired {σ α β : Type} (R : α → β → Prop) (d : Draw σ α) (d' : Draw σ β) : Prop where
  inStep : d.InStep R d'
  yields : d.Yields fun a => ∃ b, R a b

namespace Draw.Paired

variable {σ α β γ δ : Type} {R : α → β → Prop} {S : γ → δ → Prop} {d : Draw σ α} {d' : Draw σ β}

/-- Values that are at hand. -/
theorem pure {a : α} {b : β} (h : R a b) :
    Draw.Paired R (Pure.pure a : Draw σ α) (Pure.pure b) :=
  ⟨.pure h, .pure ⟨b, h⟩⟩

/-- One draw after another. -/
theorem bind {f : α → Draw σ γ} {f' : β → Draw σ δ} (hd : d.Paired R d')
    (hf : ∀ a b, R a b → (f a).Paired S (f' b)) : Draw.Paired S (d >>= f) (d' >>= f') where
  inStep := hd.inStep.bind fun a b hab => (hf a b hab).inStep
  yields := by
    apply hd.yields.bind
    rintro a ⟨b, hab⟩
    exact (hf a b hab).yields

/-- A draw goes with itself, and what is known of its values may be used. -/
theorem refl {P : α → Prop} {R : α → α → Prop} {d : Draw σ α} (hd : d.Yields P)
    (h : ∀ a, P a → R a a) : d.Paired R d where
  inStep := by
    intro s
    have hs := hd s
    cases hr : d s with
    | ok a t =>
        rw [hr] at hs
        exact ⟨h a hs, rfl⟩
    | error e t => exact ⟨rfl, rfl⟩
  yields := by
    intro s
    have hs := hd s
    cases hr : d s with
    | ok a t =>
        rw [hr] at hs
        exact ⟨a, h a hs⟩
    | error e t =>
        rw [hr] at hs
        exact hs

/-- The source is left the same, and either both draws have their values or both go on for ever. -/
theorem outcome (hd : d.Paired R d') (s : σ) :
    (d.outcome s).2 = (d'.outcome s).2 ∧
      ((∃ a b, (d.outcome s).1 = .ok a ∧ (d'.outcome s).1 = .ok b ∧ R a b) ∨
        ((d.outcome s).1 = .error .endless ∧ (d'.outcome s).1 = .error .endless)) := by
  have hyields := hd.yields s
  unfold Draw.outcome EStateM.run
  rcases hd.inStep.value_or_fault s with ⟨a, b, t, hr, hr', hab⟩ | ⟨e, t, hr, hr'⟩
  · rw [hr, hr']
    exact ⟨rfl, .inl ⟨a, b, rfl, rfl, hab⟩⟩
  · rw [hr] at hyields
    obtain rfl : e = .endless := hyields
    rw [hr, hr']
    exact ⟨rfl, .inr ⟨rfl, rfl⟩⟩

end Draw.Paired

variable {σ : Type} [WordSource σ]

/-! ## Numbers and choices -/

/-- Two ranges that are equally wide have sizes that are equal as words. -/
theorem rangeSize_eq {low high low' high' : Int64}
    (h : high.toInt - low.toInt = high'.toInt - low'.toInt) :
    rangeSize low high = rangeSize low' high' := by
  have hsize := toNat_rangeSize low high
  rw [h, ← toNat_rangeSize low' high'] at hsize
  exact UInt64.toNat_inj.mp (Int.ofNat_inj.mp hsize)

/-- **Numbers of two ranges that are equally wide** stand at the same distance from the lower
bounds. Ranges of all numbers have the same bounds and take the word as it stands. -/
theorem drawInteger_paired {low high low' high' : Int64} (h : low ≤ high) (h' : low' ≤ high')
    (hwidth : high.toInt - low.toInt = high'.toInt - low'.toInt) :
    (drawInteger low high : Draw σ Int64).Paired
      (fun x x' => x'.toInt - x.toInt = low'.toInt - low.toInt) (drawInteger low' high') := by
  have hsize := toNat_rangeSize low high
  have hle := Int64.le_iff_toInt_le.mp h
  have hlow := low.le_toInt
  have hhigh := high.toInt_lt
  have hlow' := low'.le_toInt
  have hhigh' := high'.toInt_lt
  unfold drawInteger
  rw [if_neg (Int64.not_lt.mpr h), if_neg (Int64.not_lt.mpr h'), ← rangeSize_eq hwidth]
  split
  · next hzero =>
    rw [hzero, UInt64.toNat_zero] at hsize
    have hword : (drawWord64 : Draw σ UInt64).Yields fun _ => True := fun _ => trivial
    refine (Draw.Paired.refl (R := fun w w' => w = w') hword fun _ _ => rfl).bind ?_
    rintro w _ rfl
    exact .pure (by omega)
  · next hne =>
    have hmembers := toNat_rangeSize_of_ne_zero h hne
    refine (Draw.Paired.refl (R := fun k k' => k = k' ∧ k < (rangeSize low high).toNat)
      (drawBelow64_yields _) fun _ hk => ⟨rfl, hk⟩).bind ?_
    rintro k _ ⟨rfl, hk⟩
    have hk₁ : low.toInt + k ≤ high.toInt := by omega
    have hk₂ : low'.toInt + k ≤ high'.toInt := by omega
    refine .pure ?_
    rw [toInt_add_step hk₁, toInt_add_step hk₂]
    omega

/-- **Entries of two lists that are equally long** stand at the same place. -/
theorem drawChoice_paired {α β : Type} {xs : List α} {ys : List β} (hne : xs ≠ [])
    (hlength : xs.length = ys.length) :
    (drawChoice xs : Draw σ (Option α)).Paired
      (fun o o' => ∃ (i : Nat) (x : α) (y : β),
        xs[i]? = some x ∧ ys[i]? = some y ∧ o = some x ∧ o' = some y)
      (drawChoice ys) := by
  have hne' : ys ≠ [] := fun h => hne (List.eq_nil_of_length_eq_zero (by rw [hlength, h]; rfl))
  unfold drawChoice
  rw [if_neg (by simpa using hne), if_neg (by simpa using hne'), ← hlength]
  refine (Draw.Paired.refl (R := fun i i' => i = i' ∧ i < xs.length) (drawIndex_yields _)
    fun _ hi => ⟨rfl, hi⟩).bind ?_
  rintro i _ ⟨rfl, hi⟩
  have hx := List.getElem?_eq_getElem hi
  have hy := List.getElem?_eq_getElem (hlength ▸ hi)
  exact .pure ⟨i, xs[i], ys[i], hx, hy, hx, hy⟩

/-! ## Fields -/

namespace Descriptor

/-- Fields that take the same from the source, whatever their names: two that take nothing, two
fresh values of one kind, two ranges that are equally wide, or two lists that are equally long. -/
inductive Matches : Descriptor → Descriptor → Prop
  | silent {d d' : Descriptor} (h : d.Silent) (h' : d'.Silent) : Matches d d'
  | random {name name' : String} {kind : Kind} (hkind : kind ≠ .timestamp) :
      Matches ⟨name, kind, .random⟩ ⟨name', kind, .random⟩
  | range {name name' : String} {kind kind' : Kind} {low high low' high' : Int64}
      (hkind : kind ≠ .timestamp) (hkind' : kind' ≠ .timestamp) (h : low ≤ high)
      (h' : low' ≤ high') (hwidth : high.toInt - low.toInt = high'.toInt - low'.toInt) :
      Matches ⟨name, kind, .range low high⟩ ⟨name', kind', .range low' high'⟩
  | list {name name' : String} {kind kind' : Kind} {values values' : List Scalar}
      (hkind : kind ≠ .timestamp) (hkind' : kind' ≠ .timestamp) (hne : values ≠ [])
      (hlength : values.length = values'.length) :
      Matches ⟨name, kind, .list values⟩ ⟨name', kind', .list values'⟩

/-- What the values of two fields that match have to do with each other: nothing if they are not
drawn; else fresh values are the same, numbers of ranges differ as the lower bounds do, and values
of lists stand at the same place. -/
inductive Alike : Descriptor → Descriptor → Value → Value → Prop
  | silent {d d' : Descriptor} (h : d.Silent) (h' : d'.Silent) (v v' : Value) : Alike d d' v v'
  | random {name name' : String} {kind : Kind} (v : Value) :
      Alike ⟨name, kind, .random⟩ ⟨name', kind, .random⟩ v v
  | range {name name' : String} {kind kind' : Kind} {low high low' high' x x' : Int64}
      (h : x'.toInt - x.toInt = low'.toInt - low.toInt) :
      Alike ⟨name, kind, .range low high⟩ ⟨name', kind', .range low' high'⟩
        (.integer x) (.integer x')
  | list {name name' : String} {kind kind' : Kind} {values values' : List Scalar} {i : Nat}
      {x x' : Scalar} (h : values[i]? = some x) (h' : values'[i]? = some x') :
      Alike ⟨name, kind, .list values⟩ ⟨name', kind', .list values'⟩ (.ofScalar x) (.ofScalar x')

/-- **Fields that match go together**, whatever two clocks show. -/
theorem Matches.draw {d d' : Descriptor} (h : d.Matches d') (now now' : Binary64) :
    (d.draw now : Draw σ Value).Paired (d.Alike d') (d'.draw now') := by
  cases h with
  | silent h h' =>
      obtain ⟨v, hv⟩ := draw_of_silent (σ := σ) h now
      obtain ⟨v', hv'⟩ := draw_of_silent (σ := σ) h' now'
      rw [hv, hv']
      exact .pure (.silent h h' v v')
  | @random name name' kind hkind =>
      cases kind with
      | timestamp => exact absurd rfl hkind
      | text =>
          refine (Draw.Paired.refl (R := fun s s' => s = s') drawUuid_yields fun _ _ => rfl).bind ?_
          rintro s _ rfl
          exact .pure (.random (.text s))
      | integer =>
          have hle : freeLow ≤ freeHigh := by decide
          refine (Draw.Paired.refl (R := fun n n' => n = n') (drawInteger_yields hle)
            fun _ _ => rfl).bind ?_
          rintro n _ rfl
          exact .pure (.random (.integer n))
  | range hkind hkind' h h' hwidth =>
      rw [draw_range hkind, draw_range hkind']
      exact (drawInteger_paired h h' hwidth).bind fun _ _ hx => .pure (.range hx)
  | list hkind hkind' hne hlength =>
      rw [draw_list hkind, draw_list hkind']
      apply (drawChoice_paired hne hlength).bind
      rintro _ _ ⟨i, x, x', hx, hx', rfl, rfl⟩
      exact .pure (.list hx hx')

end Descriptor

/-- Fields drawn under two lists of descriptors: place by place they have the descriptors' names and
values that are alike. -/
inductive AlikeFields :
    List Descriptor → List Descriptor → List (String × Value) → List (String × Value) → Prop
  | nil : AlikeFields [] [] [] []
  | cons {d d' : Descriptor} {ds ds' : List Descriptor} {v v' : Value}
      {fs fs' : List (String × Value)} (h : d.Alike d' v v') (hs : AlikeFields ds ds' fs fs') :
      AlikeFields (d :: ds) (d' :: ds') ((d.name, v) :: fs) ((d'.name, v') :: fs')

/-- Fields that match one by one go together. -/
theorem drawFields_paired {ds ds' : List Descriptor} (h : List.Forall₂ Descriptor.Matches ds ds')
    (c c' : Clock) :
    (drawFields c ds : Draw σ _).Paired (AlikeFields ds ds') (drawFields c' ds') := by
  induction h generalizing c c' with
  | nil => exact .pure .nil
  | cons hd _ ih =>
      apply (hd.draw (c 0) (c' 0)).bind
      intro v v' hv
      exact (ih (c.after 1) (c'.after 1)).bind fun fs fs' hfs => .pure (.cons hv hfs)

/-! ## Records -/

namespace Plan

/-- Records of two plans whose fields are alike place by place. -/
def AlikeRecords (p p' : Plan) (r r' : Record) : Prop :=
  AlikeFields p.fields p'.fields r.fields r'.fields

/-- A record of each of two plans that match field by field. -/
theorem draw_paired {p p' : Plan} (h : List.Forall₂ Descriptor.Matches p.fields p'.fields)
    (c c' : Clock) : (p.draw c : Draw σ Record).Paired (p.AlikeRecords p') (p'.draw c') :=
  (drawFields_paired h c c').bind fun _ _ hfs => .pure hfs

/-- Records one after the other go together: by induction on their number, each one of both plans
before the next. -/
theorem drawMany_paired {p p' : Plan} (h : List.Forall₂ Descriptor.Matches p.fields p'.fields)
    (c c' : Clock) (n : Nat) :
    (p.drawMany c n : Draw σ (List Record)).Paired
      (fun rs rs' => rs.length = n ∧ List.Forall₂ (p.AlikeRecords p') rs rs')
      (p'.drawMany c' n) := by
  induction n generalizing c c' with
  | zero => exact .pure ⟨rfl, .nil⟩
  | succ n ih =>
      apply (draw_paired h c c').bind
      intro r r' hr
      apply (ih (c.after p.size) (c'.after p'.size)).bind
      rintro rs rs' ⟨hlength, hrs⟩
      exact .pure ⟨congrArg (· + 1) hlength, .cons hr hrs⟩

/-- **Draws depend on a plan only by the widths of its ranges and the lengths of its lists**: runs
of `n` records under two plans that match field by field leave the source the same, and they give
`n` records each that are alike, or none of them ever ends. -/
theorem drawMany_alike {p p' : Plan} (h : List.Forall₂ Descriptor.Matches p.fields p'.fields)
    (c c' : Clock) (n : Nat) (s : σ) :
    ((p.drawMany c n).outcome s).2 = ((p'.drawMany c' n).outcome s).2 ∧
      ((∃ rs rs', ((p.drawMany c n).outcome s).1 = .ok rs ∧
          ((p'.drawMany c' n).outcome s).1 = .ok rs' ∧ rs.length = n ∧
          List.Forall₂ (p.AlikeRecords p') rs rs') ∨
        (((p.drawMany c n).outcome s).1 = .error .endless ∧
          ((p'.drawMany c' n).outcome s).1 = .error .endless)) :=
  (drawMany_paired h c c' n).outcome s

/-- A range of all numbers but the greatest, a list and a moment. -/
def widePlan : Plan where
  fields := [⟨"n", .integer, .range Int64.minValue 9223372036854775806⟩,
    ⟨"s", .text, .list [.text "a", .text "b"]⟩, ⟨"t", .timestamp, .random⟩]

/-- A range of all numbers but the least, another list and a constant. -/
def movedPlan : Plan where
  fields := [⟨"m", .text, .range (-9223372036854775807) Int64.maxValue⟩,
    ⟨"k", .integer, .list [.integer 7, .integer 8]⟩, ⟨"c", .text, .fixed (.text "x")⟩]

theorem widePlan_matches :
    List.Forall₂ Descriptor.Matches widePlan.fields movedPlan.fields :=
  .cons (.range (by decide) (by decide) (by decide) (by decide) (by decide))
    (.cons (.list (by decide) (by decide) (by simp) rfl)
      (.cons (.silent (by decide) (by decide)) .nil))

/-- Two records of each of two plans from the same words: the numbers differ by one, as the lower
bounds do, the entries are the second ones, and the next word is the same. -/
theorem drawMany_alike_wide :
    List.Forall₂ Descriptor.Matches widePlan.fields movedPlan.fields ∧
      ((widePlan.drawMany .zero 2).outcome mixedWords).1 =
        .ok [⟨[("n", .integer (-4611686018427387905)), ("s", .text "b"), ("t", .timestamp .zero)]⟩,
          ⟨[("n", .integer 4294967295), ("s", .text "b"), ("t", .timestamp .zero)]⟩] ∧
      ((movedPlan.drawMany .zero 2).outcome mixedWords).1 =
        .ok [⟨[("m", .integer (-4611686018427387904)), ("k", .integer 8), ("c", .text "x")]⟩,
          ⟨[("m", .integer 4294967296), ("k", .integer 8), ("c", .text "x")]⟩] ∧
      ((widePlan.drawMany .zero 2).outcome mixedWords).2 =
        ((movedPlan.drawMany .zero 2).outcome mixedWords).2 := by
  refine ⟨widePlan_matches, by decide +kernel, by decide +kernel, ?_⟩
  exact (drawMany_alike widePlan_matches .zero .zero 2 mixedWords).1

end Plan

end SampleData
