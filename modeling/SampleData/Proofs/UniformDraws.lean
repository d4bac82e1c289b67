import SampleData.Draw.Progression
import SampleData.Proofs.Draws
import Mathlib.Algebra.Order.BigOperators.Group.Finset
import Mathlib.Data.Set.Card
import Mathlib.Order.Interval.Finset.Nat

/-!
# Draws are uniform

A number between bounds, or a place in a list, is what the first word that counts gives; words that
do not count are thrown away. So the draw is as fair as one word is, and of the words that there
are, each result has the same number: those whose product with the number of results falls into a
window of the result, and the windows of all results are of one width. What counts is at least half
of all words.

* `Draw.TakesFirst`: a draw ends with what the first word that counts gives.
* `Fair`: of all words each value is given by equally many, and at least half of them count.
* `pickBelow_eq_some_iff`: the words that give a number are a run of neighbours.
* `fair_pickBelow`: all numbers below a bound are given by equally many words.
* `drawInteger_takesFirst`, `drawChoice_takesFirst`: numbers and entries.
* `uniform_draws`: both are uniform.
-/

namespace SampleData

/-! ## The words of a number -/

section numbers

variable {b n : Nat}

/-- Shifted up as far as it fits, a number has its first bit in the first place. -/
theorem countingWords_bounds (hpos : 0 < n) (hlt : n < 2 ^ b) :
    2 ^ b ≤ 2 * countingWords b n ∧ countingWords b n < 2 ^ b := by
  have hlog : n.log2 < b := (Nat.log2_lt hpos.ne').mpr hlt
  have hleast : 2 ^ n.log2 ≤ n := Nat.log2_self_le hpos.ne'
  have hgreatest : n < 2 ^ (n.log2 + 1) := Nat.lt_log2_self
  have hshift : countingWords b n = n * 2 ^ (b - 1 - n.log2) := by
    rw [countingWords, leadingZeros, if_neg hpos.ne', Nat.pow_eq]
  rw [hshift]
  constructor
  · calc 2 ^ b = 2 * (2 ^ n.log2 * 2 ^ (b - 1 - n.log2)) := by
          rw [← Nat.pow_add, ← Nat.pow_succ']
          congr 1
          omega
      _ ≤ 2 * (n * 2 ^ (b - 1 - n.log2)) := by gcongr
  · calc n * 2 ^ (b - 1 - n.log2) < 2 ^ (n.log2 + 1) * 2 ^ (b - 1 - n.log2) := by gcongr
      _ = 2 ^ b := by
          rw [← Nat.pow_add]
          congr 1
          omega

/-- A product that is in the window of `x` has the high half `x` and a low half that counts. -/
theorem pickBelow_eq_some_iff_window (hpos : 0 < n) (hlt : n < 2 ^ b) {word x : Nat} :
    pickBelow b n word = some x ↔
      x * 2 ^ b ≤ word * n ∧ word * n < x * 2 ^ b + countingWords b n := by
  have hfits := (countingWords_bounds hpos hlt).2
  have hpicks : pickBelow b n word = some x ↔
      word * n % 2 ^ b < countingWords b n ∧ word * n / 2 ^ b = x := by
    simp [pickBelow, Nat.pow_eq]
  have hdiv := Nat.div_add_mod (word * n) (2 ^ b)
  rw [hpicks]
  constructor
  · rintro ⟨hlow, rfl⟩
    rw [Nat.mul_comm (word * n / 2 ^ b)]
    omega
  · rintro ⟨hge, hle⟩
    have hhigh : word * n / 2 ^ b = x :=
      Nat.div_eq_of_lt_le hge (by rw [Nat.add_mul, Nat.one_mul]; omega)
    rw [hhigh, Nat.mul_comm] at hdiv
    exact ⟨by omega, hhigh⟩

/-- The first word whose product with `n` is not below the window of `x`. -/
def firstWord (b n x : Nat) : Nat := (x * 2 ^ b + n - 1) / n

/-- **The words that give a number** are neighbours: so many, beginning with the first one whose
product is in the window. -/
theorem pickBelow_eq_some_iff (hpos : 0 < n) (hlt : n < 2 ^ b) {word x : Nat} :
    pickBelow b n word = some x ↔
      firstWord b n x ≤ word ∧ word < firstWord b n x + 2 ^ leadingZeros b n := by
  have hceil : ∀ a, (a + n - 1) / n ≤ word ↔ a ≤ word * n := fun a => by
    rw [Nat.div_le_iff_le_mul_add_pred hpos, Nat.mul_comm]
    omega
  have hend : firstWord b n x + 2 ^ leadingZeros b n =
      (x * 2 ^ b + countingWords b n + n - 1) / n := by
    rw [firstWord, countingWords, Nat.pow_eq, ← Nat.add_mul_div_left _ _ hpos]
    congr 1
    omega
  rw [pickBelow_eq_some_iff_window hpos hlt, hend, firstWord, hceil, ← Nat.not_le, ← Nat.not_le,
    hceil]

/-- They are words of `b` bits. -/
theorem word_lt_of_pickBelow (hpos : 0 < n) (hlt : n < 2 ^ b) {word x : Nat} (hx : x < n)
    (h : pickBelow b n word = some x) : word < 2 ^ b := by
  have hfits := (countingWords_bounds hpos hlt).2
  have hproduct := ((pickBelow_eq_some_iff_window hpos hlt).mp h).2
  have hend : word * n < 2 ^ b * n := calc
    word * n < x * 2 ^ b + 2 ^ b := by omega
    _ = (x + 1) * 2 ^ b := by rw [Nat.add_mul, Nat.one_mul]
    _ ≤ n * 2 ^ b := Nat.mul_le_mul_right _ hx
    _ = 2 ^ b * n := Nat.mul_comm _ _
  exact Nat.lt_of_mul_lt_mul_right hend

/-- Each number has its share of all words of `b` bits. -/
theorem card_words_eq_some (hpos : 0 < n) (hlt : n < 2 ^ b) {x : Nat} (hx : x < n) :
    ((Finset.range (2 ^ b)).filter fun word => pickBelow b n word = some x).card =
      2 ^ leadingZeros b n := by
  have hrun : ((Finset.range (2 ^ b)).filter fun word => pickBelow b n word = some x) =
      Finset.Ico (firstWord b n x) (firstWord b n x + 2 ^ leadingZeros b n) := by
    ext word
    rw [Finset.mem_filter, Finset.mem_range, Finset.mem_Ico, ← pickBelow_eq_some_iff hpos hlt]
    exact ⟨fun h => h.2, fun h => ⟨word_lt_of_pickBelow hpos hlt hx h, h⟩⟩
  rw [hrun, Nat.card_Ico, Nat.add_sub_cancel_left]

/-- The words that count are those of all numbers. -/
theorem card_words_isSome (hpos : 0 < n) (hlt : n < 2 ^ b) :
    ((Finset.range (2 ^ b)).filter fun word => (pickBelow b n word).isSome).card =
      countingWords b n := by
  have hunion : ((Finset.range (2 ^ b)).filter fun word => (pickBelow b n word).isSome) =
      (Finset.range n).biUnion fun x =>
        (Finset.range (2 ^ b)).filter fun word => pickBelow b n word = some x := by
    ext word
    simp only [Finset.mem_filter, Finset.mem_range, Finset.mem_biUnion, Option.isSome_iff_exists]
    constructor
    · rintro ⟨hword, x, hx⟩
      exact ⟨x, pickBelow_lt hword hx, hword, hx⟩
    · rintro ⟨x, -, hword, hx⟩
      exact ⟨hword, x, hx⟩
  have hdisjoint : ∀ x ∈ Finset.range n, ∀ y ∈ Finset.range n, x ≠ y →
      Disjoint ((Finset.range (2 ^ b)).filter fun word => pickBelow b n word = some x)
        ((Finset.range (2 ^ b)).filter fun word => pickBelow b n word = some y) := by
    intro x _ y _ hne
    refine Finset.disjoint_filter.mpr fun word _ hx hy => hne ?_
    exact Option.some.inj (hx.symm.trans hy)
  rw [hunion, Finset.card_biUnion hdisjoint,
    Finset.sum_const_nat fun x hx => card_words_eq_some hpos hlt (Finset.mem_range.mp hx),
    Finset.card_range]
  rfl

end numbers

/-! ## Fair words -/

/-- Of the words of `b` bits, each of the values is given by so many, and by one at least; nothing
else is given, and at least half of all words count. -/
structure Fair {ω ι : Type} (b : Nat) (pick : ω → Option ι) (values : Set ι) (share : Nat) :
    Prop where
  words : Nat.card ω = 2 ^ b
  share_pos : 0 < share
  share_eq : ∀ i ∈ values, {w | pick w = some i}.ncard = share
  mem_values : ∀ w i, pick w = some i → i ∈ values
  half : Nat.card ω ≤ 2 * {w | (pick w).isSome}.ncard

section fair

variable {ω ι κ : Type} {b share : Nat} {pick : ω → Option ι} {values : Set ι}

/-- Each of the values is given by some word. -/
theorem Fair.reached (h : Fair b pick values share) {i : ι} (hi : i ∈ values) :
    ∃ w, pick w = some i := by
  have hshare := h.share_pos
  rw [← h.share_eq i hi] at hshare
  exact Set.nonempty_of_ncard_ne_zero hshare.ne'

/-- Words that stand for the numbers of `b` bits can be counted as numbers. -/
theorem ncard_words {toNat : ω → Nat} (hwords : Set.BijOn toNat Set.univ (Set.Iio (2 ^ b)))
    (P : Nat → Prop) [DecidablePred P] :
    {w | P (toNat w)}.ncard = ((Finset.range (2 ^ b)).filter P).card := by
  have himage : toNat '' {w | P (toNat w)} = ((Finset.range (2 ^ b)).filter P : Finset Nat) := by
    ext k
    simp only [Set.mem_image, Set.mem_ofPred_eq, Finset.coe_filter, Finset.mem_range]
    constructor
    · rintro ⟨w, hw, rfl⟩
      exact ⟨hwords.mapsTo trivial, hw⟩
    · rintro ⟨hk, hP⟩
      obtain ⟨w, -, rfl⟩ := hwords.surjOn hk
      exact ⟨w, hP, rfl⟩
  rw [← Set.ncard_image_of_injective _ (Set.injOn_univ.mp hwords.injOn), himage,
    Set.ncard_coe_finset]

/-- There are as many of them. -/
theorem card_words {toNat : ω → Nat} (hwords : Set.BijOn toNat Set.univ (Set.Iio (2 ^ b))) :
    Nat.card ω = 2 ^ b := by
  have hall := ncard_words hwords fun _ => True
  rwa [Finset.filter_true, Finset.card_range, Set.ofPred_true, Set.ncard_univ] at hall

/-- If each word counts and gives a value of its own, the share is one word. -/
theorem fair_of_bijective {toNat : ω → Nat} (hwords : Set.BijOn toNat Set.univ (Set.Iio (2 ^ b)))
    {f : ω → ι} (hf : Function.Bijective f) : Fair b (fun w => some (f w)) Set.univ 1 where
  words := card_words hwords
  share_pos := Nat.one_pos
  share_eq i _ := by
    obtain ⟨w, rfl⟩ := hf.surjective i
    refine Set.ncard_eq_one.mpr ⟨w, Set.ext fun w' => ?_⟩
    rw [Set.mem_ofPred_eq, Option.some_inj, hf.injective.eq_iff, Set.mem_singleton_iff]
  mem_values _ _ _ := trivial
  half := by
    rw [← Set.ncard_univ]
    simp only [Option.isSome_some, Set.ofPred_true]
    omega

/-- Values under other names are given as fairly. -/
theorem Fair.map (h : Fair b pick values share) {f : ι → κ} (hf : values.InjOn f) :
    Fair b (fun w => (pick w).map f) (f '' values) share where
  words := h.words
  share_pos := h.share_pos
  share_eq := by
    rintro _ ⟨i, hi, rfl⟩
    rw [← h.share_eq i hi]
    congr 1
    ext w
    simp only [Set.mem_ofPred_eq, Option.map_eq_some_iff]
    constructor
    · rintro ⟨j, hj, hsame⟩
      rw [hj, hf (h.mem_values w j hj) hi hsame]
    · exact fun hi' => ⟨i, hi', rfl⟩
  mem_values w y hy := by
    obtain ⟨i, hi, rfl⟩ := Option.map_eq_some_iff.mp hy
    exact ⟨i, h.mem_values w i hi, rfl⟩
  half := by
    simp only [Option.isSome_map]
    exact h.half

/-- **All numbers below a bound** have the same share of the words. -/
theorem fair_pickBelow {n : Nat} (hpos : 0 < n) (hlt : n < 2 ^ b) {toNat : ω → Nat}
    (hwords : Set.BijOn toNat Set.univ (Set.Iio (2 ^ b))) :
    Fair b (fun w => pickBelow b n (toNat w)) {x | x < n} (2 ^ leadingZeros b n) where
  words := card_words hwords
  share_pos := Nat.two_pow_pos _
  share_eq x hx := by
    rw [ncard_words hwords fun word => pickBelow b n word = some x, card_words_eq_some hpos hlt hx]
  mem_values w x hx := pickBelow_lt (hwords.mapsTo trivial) hx
  half := by
    rw [card_words hwords, ncard_words hwords fun word => (pickBelow b n word).isSome,
      card_words_isSome hpos hlt]
    exact (countingWords_bounds hpos hlt).1

end fair

/-! ## The first word that counts -/

section first

variable {σ ω ι κ α β : Type}

/-- What is left of a source after so many words. -/
def afterWords (next : σ → ω × σ) (k : Nat) (s : σ) : σ := (fun s => (next s).2)^[k] s

/-- The word of a source that comes behind so many others. -/
def wordAt (next : σ → ω × σ) (k : Nat) (s : σ) : ω := (next (afterWords next k s)).1

/-- The draw ends with what the first word that counts gives, all words up to it taken from the
source and no more; if none of `tries` words counts, it gives up behind them. -/
def Draw.TakesFirst (d : Draw σ α) (next : σ → ω × σ) (tries : Nat) (pick : ω → Option ι)
    (value : ι → α) : Prop :=
  ∀ s, (∃ k i, k < tries ∧ (∀ j < k, pick (wordAt next j s) = none) ∧
      pick (wordAt next k s) = some i ∧ d s = .ok (value i) (afterWords next (k + 1) s)) ∨
    ((∀ j < tries, pick (wordAt next j s) = none) ∧
      d s = .error .endless (afterWords next tries s))

/-- So does trying words one after the other. -/
theorem tryWords_takesFirst (next : σ → ω × σ) (toNat : ω → Nat) (pick : Nat → Option Nat)
    (tries : Nat) :
    (tryWords (fun s => (toNat (next s).1, (next s).2)) pick tries).TakesFirst next tries
      (fun w => pick (toNat w)) id := by
  induction tries with
  | zero => exact fun s => .inr ⟨nofun, rfl⟩
  | succ tries ih =>
      intro s
      cases hfirst : pick (toNat (next s).1) with
      | some x =>
          refine .inl ⟨0, x, tries.succ_pos, nofun, hfirst, ?_⟩
          simp only [tryWords, hfirst]
          rfl
      | none =>
          have htry : tryWords (fun s => (toNat (next s).1, (next s).2)) pick (tries + 1) s =
              tryWords (fun s => (toNat (next s).1, (next s).2)) pick tries (next s).2 := by
            simp only [tryWords, hfirst]
          -- the words behind the first one are those of what is left
          have hbehind : ∀ k, (∀ j < k, pick (toNat (wordAt next j (next s).2)) = none) →
              ∀ j < k + 1, pick (toNat (wordAt next j s)) = none := by
            rintro k hk (_ | j) hj
            · exact hfirst
            · exact hk j (Nat.lt_of_succ_lt_succ hj)
          rw [htry]
          rcases ih (next s).2 with ⟨k, i, hk, hbefore, hcounts, hresult⟩ | ⟨hbefore, hresult⟩
          · exact .inl ⟨k + 1, i, Nat.succ_lt_succ hk, hbehind k hbefore, hcounts, hresult⟩
          · exact .inr ⟨hbehind tries hbefore, hresult⟩

namespace Draw.TakesFirst

variable {d : Draw σ α} {next : σ → ω × σ} {tries : Nat} {pick : ω → Option ι}

/-- A value that is made of the drawn one. -/
theorem map {value : ι → α} (h : d.TakesFirst next tries pick value) (f : α → β) :
    Draw.TakesFirst (do return f (← d)) next tries pick (f ∘ value) := by
  intro s
  change (∃ k i, k < tries ∧ (∀ j < k, pick (wordAt next j s) = none) ∧
      pick (wordAt next k s) = some i ∧
        EStateM.bind d (fun a => pure (f a)) s = .ok (f (value i)) (afterWords next (k + 1) s)) ∨
    ((∀ j < tries, pick (wordAt next j s) = none) ∧
      EStateM.bind d (fun a => pure (f a)) s = .error .endless (afterWords next tries s))
  unfold EStateM.bind
  rcases h s with ⟨k, i, hk, hbefore, hcounts, hresult⟩ | ⟨hbefore, hresult⟩
  · rw [hresult]
    exact .inl ⟨k, i, hk, hbefore, hcounts, rfl⟩
  · rw [hresult]
    exact .inr ⟨hbefore, rfl⟩

/-- What a word gives may be named by what comes of it. -/
theorem map_pick {value : κ → α} (f : ι → κ) (h : d.TakesFirst next tries pick (value ∘ f)) :
    d.TakesFirst next tries (fun w => (pick w).map f) value := by
  intro s
  simp only [Option.map_eq_none_iff]
  refine (h s).imp ?_ id
  rintro ⟨k, i, hk, hbefore, hcounts, hresult⟩
  exact ⟨k, f i, hk, hbefore, congrArg (Option.map f) hcounts, hresult⟩

end Draw.TakesFirst

end first

variable {σ : Type} [WordSource σ]

/-! ## Numbers between bounds -/

/-- The number between the bounds that a word gives, if the word counts. -/
def integerOf (low high : Int64) (w : UInt64) : Option Int64 :=
  if rangeSize low high = 0 then some w.toInt64
  else (pickBelow 64 (rangeSize low high).toNat w.toNat).map fun k =>
    low + (UInt64.ofNat k).toInt64

theorem drawInteger_takesFirst (hpatience : 0 < WordSource.patience σ) {low high : Int64}
    (h : low ≤ high) :
    (drawInteger low high : Draw σ Int64).TakesFirst WordSource.word64 (WordSource.patience σ)
      (integerOf low high) id := by
  unfold drawInteger integerOf
  rw [if_neg (Int64.not_lt.mpr h)]
  split
  · exact fun s => .inl ⟨0, _, hpatience, nofun, rfl, rfl⟩
  · have hbelow : (drawBelow64 (rangeSize low high).toNat : Draw σ Nat).TakesFirst
        WordSource.word64 (WordSource.patience σ)
        (fun w => pickBelow 64 (rangeSize low high).toNat w.toNat) id :=
      tryWords_takesFirst WordSource.word64 UInt64.toNat _ _
    exact .map_pick _ (hbelow.map fun k => low + (UInt64.ofNat k).toInt64)

/-- The words of 64 bits stand for the numbers of 64 bits. -/
theorem bijOn_toNat_uint64 : Set.BijOn UInt64.toNat Set.univ (Set.Iio (2 ^ 64)) where
  left w _ := w.toNat_lt
  right := ⟨fun _ _ _ _ h => UInt64.toNat_inj.mp h, fun k hk =>
    ⟨UInt64.ofNat k, trivial, UInt64.toNat_ofNat_of_lt' hk⟩⟩

/-- The words of 32 bits stand for the numbers of 32 bits. -/
theorem bijOn_toNat_uint32 : Set.BijOn UInt32.toNat Set.univ (Set.Iio (2 ^ 32)) where
  left w _ := w.toNat_lt
  right := ⟨fun _ _ _ _ h => UInt32.toNat_inj.mp h, fun k hk =>
    ⟨UInt32.ofNat k, trivial, UInt32.toNat_ofNat_of_lt' hk⟩⟩

/-- The steps up from the lower bound come to all numbers between the bounds. -/
theorem image_add_step {low high : Int64} (h : low ≤ high) (hsize : rangeSize low high ≠ 0) :
    (fun k => low + (UInt64.ofNat k).toInt64) '' {k | k < (rangeSize low high).toNat} =
      {x | low ≤ x ∧ x ≤ high} := by
  have hmembers := toNat_rangeSize_of_ne_zero h hsize
  ext x
  simp only [Set.mem_image, Set.mem_ofPred_eq, Int64.le_iff_toInt_le]
  constructor
  · rintro ⟨k, hk, rfl⟩
    rw [toInt_add_step (show low.toInt + k ≤ high.toInt by omega)]
    omega
  · rintro ⟨hle, hge⟩
    have hstep : low.toInt + (x.toInt - low.toInt).toNat = x.toInt := by omega
    refine ⟨(x.toInt - low.toInt).toNat, by omega, Int64.toInt_inj.mp ?_⟩
    rw [toInt_add_step (show low.toInt + _ ≤ high.toInt by omega), hstep]

/-- **Numbers between bounds** are given by equally many words. -/
theorem fair_integerOf {low high : Int64} (h : low ≤ high) :
    Fair 64 (integerOf low high) {x | low ≤ x ∧ x ≤ high}
      (if rangeSize low high = 0 then 1 else 2 ^ leadingZeros 64 (rangeSize low high).toNat) := by
  unfold integerOf
  split
  · next hsize =>
    have hall : {x | low ≤ x ∧ x ≤ high} = Set.univ :=
      Set.eq_univ_of_forall (mem_of_rangeSize_eq_zero h hsize)
    rw [hall]
    exact fair_of_bijective bijOn_toNat_uint64 <|
      Function.bijective_iff_has_inverse.mpr ⟨Int64.toUInt64, fun _ => rfl, fun _ => rfl⟩
  · next hsize =>
    have hmembers := toNat_rangeSize_of_ne_zero h hsize
    have hle : low.toInt ≤ high.toInt := Int64.le_iff_toInt_le.mp h
    rw [← image_add_step h hsize]
    refine (fair_pickBelow (by omega) (UInt64.toNat_lt _) bijOn_toNat_uint64).map ?_
    intro k hk j hj hsame
    have hints := congrArg Int64.toInt hsame
    rw [Set.mem_ofPred_eq] at hk hj
    dsimp only at hints
    rw [toInt_add_step (show low.toInt + k ≤ high.toInt by omega),
      toInt_add_step (show low.toInt + j ≤ high.toInt by omega)] at hints
    omega

/-! ## Entries of lists -/

/-- The place in a list of `n` entries that a word gives, if the word counts. -/
def indexOf (n : Nat) (w : UInt32) : Option Nat := pickBelow 32 n w.toNat

theorem drawChoice_takesFirst {α : Type} {xs : List α} (hne : xs ≠ [])
    (hlen : xs.length < UInt32.size) :
    (drawChoice xs : Draw σ (Option α)).TakesFirst WordSource.word32 (WordSource.patience σ)
      (indexOf xs.length) (fun i => xs[i]?) := by
  have hbelow : (drawIndex xs.length : Draw σ Nat).TakesFirst WordSource.word32
      (WordSource.patience σ) (indexOf xs.length) id := by
    unfold drawIndex
    rw [if_pos hlen]
    exact tryWords_takesFirst WordSource.word32 UInt32.toNat _ _
  unfold drawChoice
  rw [if_neg (by simpa using hne)]
  exact hbelow.map fun i => xs[i]?

/-- **Places in a list** are given by equally many words. -/
theorem fair_indexOf {n : Nat} (hpos : 0 < n) (hlt : n < UInt32.size) :
    Fair 32 (indexOf n) {i | i < n} (2 ^ leadingZeros 32 n) :=
  fair_pickBelow hpos hlt bijOn_toNat_uint32

/-! ## Both -/

/-- **Draws of numbers and of entries are uniform.** Whatever the source, a number between bounds is
what the first word of 64 bits that counts gives, and each number has the same share of all these
words: one of them if the range holds every number, and else as many as its size may be shifted up
by. An entry of a list is what the first word of 32 bits that counts gives, with the same share for
each place. At least half of all words count, and no number and no place is without a word. That a
word is tried at all is what is asked of the source. -/
theorem uniform_draws (hpatience : 0 < WordSource.patience σ) :
    (∀ low high : Int64, low ≤ high →
      (drawInteger low high : Draw σ Int64).TakesFirst WordSource.word64 (WordSource.patience σ)
          (integerOf low high) id ∧
        Fair 64 (integerOf low high) {x | low ≤ x ∧ x ≤ high}
          (if rangeSize low high = 0 then 1
            else 2 ^ leadingZeros 64 (rangeSize low high).toNat) ∧
        ∀ x, low ≤ x → x ≤ high → ∃ w, integerOf low high w = some x) ∧
      ∀ (α : Type) (xs : List α), xs ≠ [] → xs.length < 2 ^ 32 →
        (drawChoice xs : Draw σ (Option α)).TakesFirst WordSource.word32 (WordSource.patience σ)
            (indexOf xs.length) (fun i => xs[i]?) ∧
          Fair 32 (indexOf xs.length) {i | i < xs.length} (2 ^ leadingZeros 32 xs.length) ∧
          ∀ i < xs.length, ∃ w, indexOf xs.length w = some i := by
  constructor
  · intro low high h
    have hfair := fair_integerOf h
    exact ⟨drawInteger_takesFirst hpatience h, hfair, fun x hlow hhigh =>
      hfair.reached ⟨hlow, hhigh⟩⟩
  · intro α xs hne hlen
    have hfair := fair_indexOf (List.length_pos_iff.mpr hne) hlen
    exact ⟨drawChoice_takesFirst hne hlen, hfair, fun i hi => hfair.reached hi⟩

/-- A die and a list of three, with words that count up. -/
theorem uniform_draws_die :
    ((drawInteger 1 6 : Draw Progression Int64).TakesFirst WordSource.word64 (Nat.pow 2 64)
        (integerOf 1 6) id ∧
      Fair 64 (integerOf 1 6) {x | 1 ≤ x ∧ x ≤ 6} (2 ^ 61) ∧
      ∀ x, 1 ≤ x → x ≤ 6 → ∃ w, integerOf 1 6 w = some x) ∧
    (drawChoice ["a", "b", "c"] : Draw Progression (Option String)).TakesFirst WordSource.word32
        (Nat.pow 2 64) (indexOf 3) (fun i => ["a", "b", "c"][i]?) ∧
      Fair 32 (indexOf 3) {i | i < 3} (2 ^ 30) ∧
      ∀ i < 3, ∃ w, indexOf 3 w = some i := by
  have hpatience : 0 < WordSource.patience Progression := by decide
  obtain ⟨hintegers, hlists⟩ := uniform_draws hpatience
  exact ⟨hintegers 1 6 (by decide), hlists String ["a", "b", "c"] (by decide) (by decide)⟩

end SampleData
