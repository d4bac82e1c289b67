import SampleData.Draw.Progression
import SampleData.Proofs.Identifiers
import SampleData.Proofs.UniformDraws

/-!
# Draws that come to an end

A draw by rejection goes on for as long as it rejects the words of its source. Whether it comes to
an end is a matter of the source, so what is drawn to the end is said of states of a source from
which such draws do come to an end, and that no draw leads out of: `WordSource.Returns`. A draw
ends, `Draw.Ends`, if from each of these states it has a value and leaves the source in one of them.

* `drawBelow64_ends`, `drawIndex_ends`, `drawInteger_ends`, `drawChoice_ends`, `drawUuid_ends`: the
  draws that values are made from.
* `Progression.returns`: words that count up one by one let every draw end.
-/

namespace SampleData

/-- Such states of a source that draws by rejection end from there, and that no draw leads out
of. -/
structure WordSource.Returns {σ : Type} [WordSource σ] (good : σ → Prop) : Prop where
  below32 : ∀ {s}, good s → ∀ {n}, 0 < n → n < 2 ^ 32 →
    ∃ x t, (drawBelow32 n : Draw σ Nat) s = .ok x t ∧ good t
  below64 : ∀ {s}, good s → ∀ {n}, 0 < n → n < 2 ^ 64 →
    ∃ x t, (drawBelow64 n : Draw σ Nat) s = .ok x t ∧ good t
  word64 : ∀ {s : σ}, good s → good (WordSource.word64 s).2
  bytes16 : ∀ {s : σ}, good s → good (WordSource.bytes16 s).2

/-- From every good state the draw ends with a value that has `P`, in a good state again. -/
def Draw.Ends {σ α : Type} (good : σ → Prop) (d : Draw σ α) (P : α → Prop) : Prop :=
  ∀ s, good s → ∃ a t, d s = .ok a t ∧ P a ∧ good t

/-- Behind a draw that has a value the next one goes on. -/
theorem Draw.run_bind_ok {σ α β : Type} {d : Draw σ α} {f : α → Draw σ β} {s t : σ} {a : α}
    (h : d s = .ok a t) : (d >>= f) s = f a t := by
  show EStateM.bind d f s = _
  rw [EStateM.bind, h]

/-- Behind one that has none there is no other. -/
theorem Draw.run_bind_error {σ α β : Type} {d : Draw σ α} {f : α → Draw σ β} {s t : σ}
    {e : DrawFault} (h : d s = .error e t) : (d >>= f) s = .error e t := by
  show EStateM.bind d f s = _
  rw [EStateM.bind, h]

/-- The outcome of a draw that has a value. -/
theorem Draw.outcome_of_run_ok {σ α : Type} {d : Draw σ α} {s t : σ} {a : α} (h : d s = .ok a t) :
    d.outcome s = (.ok a, t) := by
  unfold Draw.outcome EStateM.run
  rw [h]

/-- The outcome of one that has none. -/
theorem Draw.outcome_of_run_error {σ α : Type} {d : Draw σ α} {s t : σ} {e : DrawFault}
    (h : d s = .error e t) : d.outcome s = (.error e, t) := by
  unfold Draw.outcome EStateM.run
  rw [h]

namespace Draw.Ends

variable {σ α β : Type} {good : σ → Prop} {d : Draw σ α} {P : α → Prop} {R : β → Prop}

/-- A value that is at hand. -/
theorem pure {a : α} (h : P a) : Draw.Ends good (Pure.pure a : Draw σ α) P :=
  fun s hs => ⟨a, s, rfl, h, hs⟩

/-- One draw after another. -/
theorem bind {f : α → Draw σ β} (hd : d.Ends good P) (hf : ∀ a, P a → (f a).Ends good R) :
    Draw.Ends good (d >>= f) R := by
  intro s hs
  obtain ⟨a, t, hrun, ha, ht⟩ := hd s hs
  obtain ⟨b, u, hrun', hb, hu⟩ := hf a ha t ht
  exact ⟨b, u, (Draw.run_bind_ok hrun).trans hrun', hb, hu⟩

/-- A draw that ends, and that ends well if it does. -/
theorem of_yields (hd : ∀ s, good s → ∃ a t, d s = .ok a t ∧ good t) (hy : d.Yields P) :
    d.Ends good P := by
  intro s hs
  obtain ⟨a, t, hrun, ht⟩ := hd s hs
  have ha := hy s
  rw [hrun] at ha
  exact ⟨a, t, hrun, ha, ht⟩

end Draw.Ends

/-- A bound that needs more bits than a word has counts every word. -/
theorem pickBelow_of_le {b n : Nat} (h : 2 ^ b ≤ n) (word : Nat) :
    pickBelow b n word = some (word * n / 2 ^ b) := by
  have hmod := Nat.mod_lt (word * n) (Nat.two_pow_pos b)
  have hle : n ≤ countingWords b n := Nat.le_mul_of_pos_right n (Nat.two_pow_pos _)
  rw [pickBelow]
  simp only [Nat.pow_eq]
  rw [if_pos (by omega)]

section numbers

variable {σ : Type} [WordSource σ] {good : σ → Prop} (hreturns : WordSource.Returns good)

include hreturns

/-- A source that returns a number tries one word at least. -/
theorem WordSource.Returns.exists_tries {s : σ} (hs : good s) :
    ∃ tries, WordSource.patience σ = tries + 1 := by
  obtain ⟨x, t, hone, -⟩ := hreturns.below64 hs Nat.one_pos (by decide)
  refine Nat.exists_eq_succ_of_ne_zero fun h0 => ?_
  rw [drawBelow64, h0] at hone
  cases hone

/-- A number below a bound. A bound of more than 64 bits takes the first word, whatever it is. -/
theorem drawBelow64_ends {n : Nat} (hpos : 0 < n) :
    (drawBelow64 n : Draw σ Nat).Ends good (· < n) := by
  refine .of_yields (fun s hs => ?_) (drawBelow64_yields n)
  by_cases hn : n < 2 ^ 64
  · exact hreturns.below64 hs hpos hn
  · obtain ⟨tries, htries⟩ := hreturns.exists_tries hs
    have hrun : (drawBelow64 n : Draw σ Nat) s =
        .ok ((nextNat64 s).1 * n / 2 ^ 64) (WordSource.word64 s).2 := by
      have hpick := pickBelow_of_le (not_lt.mp hn) (nextNat64 s).1
      simp only [drawBelow64, htries, tryWords, hpick]
      rfl
    exact ⟨_, _, hrun, hreturns.word64 hs⟩

/-- A place in a list that is not empty. -/
theorem drawIndex_ends {n : Nat} (hpos : 0 < n) : (drawIndex n : Draw σ Nat).Ends good (· < n) := by
  unfold drawIndex
  split
  · next hn => exact .of_yields (fun s hs => hreturns.below32 hs hpos hn) (drawBelow32_yields n)
  · exact drawBelow64_ends hreturns hpos

/-- A number between bounds that are in order. -/
theorem drawInteger_ends {low high : Int64} (h : low ≤ high) :
    (drawInteger low high : Draw σ Int64).Ends good fun v => low ≤ v ∧ v ≤ high := by
  refine .of_yields (fun s hs => ?_) (drawInteger_yields h)
  have hends : (drawInteger low high : Draw σ Int64).Ends good fun _ => True := by
    unfold drawInteger
    rw [if_neg (Int64.not_lt.mpr h)]
    split
    · have hword : (drawWord64 : Draw σ UInt64).Ends good fun _ => True := fun s hs =>
        ⟨_, _, rfl, trivial, hreturns.word64 hs⟩
      exact hword.bind fun _ _ => .pure trivial
    · next hne =>
      have hpos : 0 < (rangeSize low high).toNat :=
        Nat.pos_of_ne_zero fun h0 => hne (UInt64.toNat_inj.mp h0)
      exact (drawBelow64_ends hreturns hpos).bind fun _ _ => .pure trivial
  obtain ⟨v, t, hrun, -, ht⟩ := hends s hs
  exact ⟨v, t, hrun, ht⟩

/-- An entry of a list that is not empty. -/
theorem drawChoice_ends {α : Type} {xs : List α} (h : xs ≠ []) :
    (drawChoice xs : Draw σ (Option α)).Ends good fun o => ∃ x ∈ xs, o = some x := by
  refine .of_yields (fun s hs => ?_) (drawChoice_yields h)
  have hends : (drawChoice xs : Draw σ (Option α)).Ends good fun _ => True := by
    unfold drawChoice
    rw [if_neg (by simpa using h)]
    exact (drawIndex_ends hreturns (List.length_pos_of_ne_nil h)).bind fun _ _ => .pure trivial
  obtain ⟨o, t, hrun, -, ht⟩ := hends s hs
  exact ⟨o, t, hrun, ht⟩

/-- A random UUID. -/
theorem drawUuid_ends : (drawUuid : Draw σ String).Ends good IsRandomUuid :=
  .of_yields (fun _ hs => ⟨_, _, rfl, hreturns.bytes16 hs⟩) drawUuid_yields

end numbers

/-! ## Words that count up -/

namespace Progression

/-- The word zero counts for every bound. -/
theorem pickBelow_zero {n : Nat} (hpos : 0 < n) (b : Nat) : pickBelow b n 0 = some 0 := by
  have hcounts : 0 < countingWords b n := Nat.mul_pos hpos (Nat.two_pow_pos _)
  simp [pickBelow, hcounts]

/-- After so many words the next one is so much greater. -/
theorem afterWords_word {s : Progression} (h : s.step = 1) (k : Nat) :
    afterWords word k s = ⟨s.next + UInt64.ofNat k, 1⟩ := by
  induction k with
  | zero =>
      obtain ⟨next, step⟩ := s
      obtain rfl : step = 1 := h
      simp [afterWords]
  | succ k ih =>
      have hstep : afterWords word (k + 1) s = (word (afterWords word k s)).2 :=
        Function.iterate_succ_apply' _ k s
      rw [hstep, ih, word, UInt64.ofNat_add, ← UInt64.add_assoc]
      rfl

/-- Sooner or later the word is zero. -/
theorem exists_word_eq_zero {s : Progression} (h : s.step = 1) :
    ∃ k, k < Nat.pow 2 64 ∧ wordAt word k s = 0 := by
  refine ⟨(0 - s.next).toNat, (0 - s.next).toNat_lt, ?_⟩
  rw [wordAt, afterWords_word h, UInt64.ofNat_toNat]
  show s.next + (0 - s.next) = 0
  rw [UInt64.add_comm, UInt64.sub_add_cancel]

/-- A draw that takes the first word that counts ends, if it counts zero. -/
theorem ends_of_takesFirst {ω : Type} {next : Progression → ω × Progression}
    {d : Draw Progression Nat} {pick : ω → Option Nat}
    (hd : d.TakesFirst next (Nat.pow 2 64) pick id) (hnext : ∀ s, (next s).2 = (word s).2)
    (hzero : ∀ k s, wordAt word k s = 0 → pick (wordAt next k s) = some 0) {s : Progression}
    (hs : s.step = 1) : ∃ x t, d s = .ok x t ∧ t.step = 1 := by
  rcases hd s with ⟨k, x, -, -, -, hrun⟩ | ⟨hnone, -⟩
  · refine ⟨x, _, hrun, ?_⟩
    have hleft : afterWords next (k + 1) s = afterWords word (k + 1) s :=
      congrArg (fun f => f^[k + 1] s) (funext hnext)
    rw [hleft, afterWords_word hs]
  · obtain ⟨k, hk, hword⟩ := exists_word_eq_zero hs
    cases (hnone k hk).symm.trans (hzero k s hword)

/-- **Draws by rejection end** where the words count up one by one, since zero comes up. -/
theorem returns : WordSource.Returns fun s : Progression => s.step = 1 where
  below32 := by
    intro s hs n hpos _
    have hfirst : (drawBelow32 n : Draw Progression Nat).TakesFirst halfWord (Nat.pow 2 64)
        (fun w => pickBelow 32 n w.toNat) id := tryWords_takesFirst halfWord UInt32.toNat _ _
    refine ends_of_takesFirst hfirst (fun _ => rfl) (fun k s hword => ?_) hs
    have hhalf : wordAt halfWord k s = 0 := congrArg UInt64.toUInt32 hword
    rw [hhalf]
    exact pickBelow_zero hpos 32
  below64 := by
    intro s hs n hpos _
    have hfirst : (drawBelow64 n : Draw Progression Nat).TakesFirst word (Nat.pow 2 64)
        (fun w => pickBelow 64 n w.toNat) id := tryWords_takesFirst word UInt64.toNat _ _
    refine ends_of_takesFirst hfirst (fun _ => rfl) (fun k s hword => ?_) hs
    rw [hword]
    exact pickBelow_zero hpos 64
  word64 h := h
  bytes16 h := h

end Progression

end SampleData
