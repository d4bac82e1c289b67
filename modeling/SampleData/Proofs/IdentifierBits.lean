import SampleData.Proofs.Identifiers
import Mathlib

/-!
# What random UUIDs keep of their bytes

Of the 128 bits of a fill, six are set to the version and the variant and the others stand in the
text: it can be read back, and two fills have the same text exactly if they differ in those six
bits at most. So a text says 122 bits, and the fills of one text differ in six.

Fills are told by their bits here, byte by byte, and counted as functions from places to bits; a
function on all places is one on the free places and one on the set ones.

* `uuidBytes?`: the bytes of a text.
* `uuidBytes?_uuidOfBytes`: a text is read back as the fill with six bits set.
* `bitAt_setVersion`: which six, and to what.
* `uuid_keeps_bits`: the texts of fills, told apart and counted.
-/

namespace SampleData

open Text

/-! ## Reading a text back -/

/-- The bytes of pairs of hexadecimal digits. -/
def readHexBytes : List Char → Option (List UInt8)
  | [] => some []
  | [_] => none
  | high :: low :: rest =>
    match hexValue? high, hexValue? low with
    | some h, some l => (readHexBytes rest).map (UInt8.ofNat (16 * h + l) :: ·)
    | _, _ => none

/-- The bytes of a text in which hyphens may stand anywhere between digits. -/
def uuidBytes? (s : String) : Option (List UInt8) :=
  readHexBytes (s.toList.filter (· ≠ '-'))

/-- A digit has the value that it was written for. -/
theorem hexValue?_hexDigit : ∀ {n : Nat}, n < 16 → hexValue? (hexDigit n) = some n := by
  decide

/-- The two digits of a byte are read as the byte. -/
@[simp] theorem readHexBytes_hexByte (b : UInt8) (cs : List Char) :
    readHexBytes (hexByte b ++ cs) = (readHexBytes cs).map (b :: ·) := by
  have hb := b.toNat_lt
  have hhigh : hexValue? (hexDigit (b.toNat / 16)) = some (b.toNat / 16) :=
    hexValue?_hexDigit (by omega)
  have hlow : hexValue? (hexDigit (b.toNat % 16)) = some (b.toNat % 16) :=
    hexValue?_hexDigit (by omega)
  rw [hexByte, List.cons_append, List.cons_append, List.nil_append, readHexBytes, hhigh, hlow]
  dsimp only
  rw [Nat.div_add_mod, UInt8.ofNat_toNat]

/-- Digits of bytes are read as the bytes. -/
@[simp] theorem readHexBytes_hexBytes (bs : List UInt8) : readHexBytes (hexBytes bs) = some bs := by
  induction bs with
  | nil => rfl
  | cons b bs ih =>
      unfold hexBytes at ih ⊢
      rw [List.flatMap_cons, readHexBytes_hexByte, ih]
      rfl

/-- No digit is a hyphen. -/
@[simp] theorem filter_hexBytes (bs : List UInt8) :
    (hexBytes bs).filter (· ≠ '-') = hexBytes bs := by
  refine List.filter_eq_self.mpr fun c hc => decide_eq_true ?_
  rintro rfl
  exact absurd (isHexDigit_of_mem_hexBytes hc) (by decide)

/-- The groups of the digits are those of all bytes. -/
theorem hexBytes_groups (bs : List UInt8) :
    hexBytes (bs.take 4) ++ (hexBytes ((bs.drop 4).take 2) ++ (hexBytes ((bs.drop 6).take 2) ++
      (hexBytes ((bs.drop 8).take 2) ++ hexBytes (bs.drop 10)))) = hexBytes bs := by
  have hcut : ∀ n m, hexBytes ((bs.drop n).take m) ++ hexBytes (bs.drop (n + m)) =
      hexBytes (bs.drop n) := fun n m => by
    rw [hexBytes, hexBytes, hexBytes, ← List.flatMap_append, ← List.drop_drop,
      List.take_append_drop]
  have hfirst := hcut 0 4
  rw [List.drop_zero] at hfirst
  rw [hcut 8 2, hcut 6 2, hcut 4 2, hfirst]

/-- **A text is read back**: its digits are those of the bytes, in order. -/
@[simp] theorem uuidBytes?_uuidText (b : Vector UInt8 16) :
    uuidBytes? (uuidText b) = some b.toList := by
  rw [uuidBytes?, uuidText, String.toList_ofList]
  simp only [List.filter_append, List.filter_cons, filter_hexBytes, ne_eq, not_true_eq_false,
    decide_false, Bool.false_eq_true, if_false, List.append_assoc]
  rw [hexBytes_groups, readHexBytes_hexBytes]

/-- The text of a fill is read back as the fill with its version set. -/
@[simp] theorem uuidBytes?_uuidOfBytes (b : Vector UInt8 16) :
    uuidBytes? (uuidOfBytes b) = some (setVersion b).toList :=
  uuidBytes?_uuidText (setVersion b)

/-! ## Bits -/

/-- The bit of a fill at a place of a byte, the lowest place being 0. -/
def bitAt (b : Vector UInt8 16) (i : Fin 16) (j : Fin 8) : Bool := (b.get i).toNat.testBit j

/-- What a bit is set to, if it is set: the version 4 stands in the upper four of byte 6, the
variant in the upper two of byte 8. -/
def setBit? (i : Fin 16) (j : Fin 8) : Option Bool :=
  if i.val = 6 ∧ 4 ≤ j.val then some (j.val = 6)
  else if i.val = 8 ∧ 6 ≤ j.val then some (j.val = 7)
  else none

/-- Fills with the same bits are the same. -/
theorem ext_bitAt {a b : Vector UInt8 16} (h : ∀ i j, bitAt a i j = bitAt b i j) : a = b := by
  refine Vector.ext fun i hi => UInt8.toNat_inj.mp (Nat.eq_of_testBit_eq fun j => ?_)
  by_cases hj : j < 8
  · exact h ⟨i, hi⟩ ⟨j, hj⟩
  · have hpow : 2 ^ 8 ≤ 2 ^ j := Nat.pow_le_pow_right (by decide) (by omega)
    rw [Nat.testBit_lt_two_pow (a[i].toNat_lt.trans_le hpow),
      Nat.testBit_lt_two_pow (b[i].toNat_lt.trans_le hpow)]

/-- There is a fill with any bits. -/
theorem exists_bitAt_eq (f : Fin 16 → Fin 8 → Bool) : ∃ b, bitAt b = f := by
  refine ⟨Vector.ofFn fun i => UInt8.ofNat (Nat.ofBits (f i)), funext fun i => funext fun j => ?_⟩
  have hbyte : (Vector.ofFn fun i => UInt8.ofNat (Nat.ofBits (f i))).get i =
      UInt8.ofNat (Nat.ofBits (f i)) := Vector.getElem_ofFn i.isLt
  rw [bitAt, hbyte, UInt8.toNat_ofNat_of_lt' (Nat.ofBits_lt_two_pow (f i)),
    Nat.testBit_ofBits_lt (f i) j j.isLt]

/-- Where a mask keeps a bit it is the old one, where it takes one away it is what is put there. -/
theorem testBit_masked {x mask put : UInt8} {j : Nat} {forced : Option Bool}
    (hmask : mask.toNat.testBit j = forced.isNone)
    (hput : put.toNat.testBit j = forced.getD false) :
    (x &&& mask ||| put).toNat.testBit j = forced.getD (x.toNat.testBit j) := by
  rw [UInt8.toNat_or, UInt8.toNat_and, Nat.testBit_or, Nat.testBit_and, hmask, hput]
  cases forced <;> simp

/-- The masks of the version keep the bits that are free. -/
theorem versionMask : ∀ j : Fin 8, (UInt8.toNat 0x0F).testBit j = (setBit? 6 j).isNone ∧
    (UInt8.toNat 0x40).testBit j = (setBit? 6 j).getD false := by
  decide

/-- So do those of the variant. -/
theorem variantMask : ∀ j : Fin 8, (UInt8.toNat 0x3F).testBit j = (setBit? 8 j).isNone ∧
    (UInt8.toNat 0x80).testBit j = (setBit? 8 j).getD false := by
  decide

/-- **The bits that are set** are the six of the version and the variant; the others are those of
the fill. -/
theorem bitAt_setVersion (b : Vector UInt8 16) (i : Fin 16) (j : Fin 8) :
    bitAt (setVersion b) i j = (setBit? i j).getD (bitAt b i j) := by
  by_cases hversion : i = 6
  · subst hversion
    have hbyte : (setVersion b).get 6 = b.get 6 &&& 0x0F ||| 0x40 :=
      get_six_setVersion b
    rw [bitAt, hbyte]
    exact testBit_masked (versionMask j).1 (versionMask j).2
  · by_cases hvariant : i = 8
    · subst hvariant
      have hbyte : (setVersion b).get 8 = b.get 8 &&& 0x3F ||| 0x80 :=
        get_eight_setVersion b
      rw [bitAt, hbyte]
      exact testBit_masked (variantMask j).1 (variantMask j).2
    · have hsix : (6 : Nat) ≠ i := fun h => hversion (Fin.ext h.symm)
      have height : (8 : Nat) ≠ i := fun h => hvariant (Fin.ext h.symm)
      have hbyte : (setVersion b).get i = b.get i := by
        show (setVersion b)[(i : Nat)] = b[(i : Nat)]
        rw [setVersion, Vector.getElem_set_ne _ _ height, Vector.getElem_set_ne _ _ hsix]
      rw [bitAt, hbyte, setBit?, if_neg fun h => hsix h.1.symm, if_neg fun h => height h.1.symm]
      rfl

/-! ## Telling texts apart -/

/-- **Two fills have the same text** exactly if they agree on the bits that are not set. -/
theorem uuidOfBytes_eq_iff {a b : Vector UInt8 16} :
    uuidOfBytes a = uuidOfBytes b ↔
      ∀ i j, setBit? i j = none → bitAt a i j = bitAt b i j := by
  have hread : uuidOfBytes a = uuidOfBytes b ↔ setVersion a = setVersion b := by
    refine ⟨fun h => ?_, fun h => congrArg uuidText h⟩
    have hbytes := congrArg uuidBytes? h
    rw [uuidBytes?_uuidOfBytes, uuidBytes?_uuidOfBytes] at hbytes
    exact Vector.toList_inj.mp (Option.some.inj hbytes)
  rw [hread]
  constructor
  · intro h i j hfree
    have hbit := congrArg (bitAt · i j) h
    simpa only [bitAt_setVersion, hfree, Option.getD_none] using hbit
  · intro h
    refine ext_bitAt fun i j => ?_
    rw [bitAt_setVersion, bitAt_setVersion]
    cases hforced : setBit? i j with
    | none => exact h i j hforced
    | some x => rfl

/-! ## Counting -/

/-- A place is set. -/
abbrev IsSet (p : Fin 16 × Fin 8) : Prop := setBit? p.1 p.2 ≠ none

/-- Six places are set. -/
theorem card_set : Nat.card {p // IsSet p} = 6 := by
  rw [Nat.card_eq_fintype_card]
  decide

/-- The others are free. -/
theorem card_free : Nat.card {p // ¬ IsSet p} = 122 := by
  have hset := card_set
  rw [Nat.card_eq_fintype_card] at hset ⊢
  rw [Fintype.card_subtype_compl, hset, Fintype.card_prod, Fintype.card_fin, Fintype.card_fin]

/-- Fills as what stands in the places that are set and what stands in the free ones. -/
noncomputable def fillParts :
    Vector UInt8 16 ≃ ({p // IsSet p} → Bool) × ({p // ¬ IsSet p} → Bool) :=
  (Equiv.ofBijective (fun b (p : Fin 16 × Fin 8) => bitAt b p.1 p.2)
    ⟨fun a b h => ext_bitAt fun i j => congrFun h (i, j), fun f => by
      obtain ⟨b, hb⟩ := exists_bitAt_eq fun i j => f (i, j)
      exact ⟨b, funext fun p => congrFun (congrFun hb p.1) p.2⟩⟩).trans
    (Equiv.piEquivPiSubtypeProd IsSet fun _ => Bool)

/-- Fills have the same text exactly if the same stands in their free places. -/
theorem uuidOfBytes_eq_iff_fillParts {a b : Vector UInt8 16} :
    uuidOfBytes a = uuidOfBytes b ↔ (fillParts a).2 = (fillParts b).2 := by
  rw [uuidOfBytes_eq_iff]
  constructor
  · intro h
    exact funext fun p => h p.1.1 p.1.2 (not_not.mp p.2)
  · intro h i j hfree
    exact congrFun h ⟨(i, j), not_not.mpr hfree⟩

/-- **There are `2 ^ 122` texts.** -/
theorem ncard_range_uuidOfBytes : (Set.range uuidOfBytes).ncard = 2 ^ 122 := by
  -- what stands in the free places is enough to have the text, and the text tells it
  let text := fun free => uuidOfBytes (fillParts.symm (fun _ => false, free))
  have hinjective : Function.Injective text := by
    intro x y h
    simpa using uuidOfBytes_eq_iff_fillParts.mp h
  have hrange : Set.range uuidOfBytes = Set.range text := by
    refine Set.Subset.antisymm ?_ (Set.range_comp_subset_range _ uuidOfBytes)
    rintro _ ⟨b, rfl⟩
    refine ⟨(fillParts b).2, uuidOfBytes_eq_iff_fillParts.mpr ?_⟩
    rw [Equiv.apply_symm_apply]
  rw [hrange, Set.ncard_range_of_injective hinjective, Nat.card_fun, card_free,
    Nat.card_eq_fintype_card, Fintype.card_bool]

/-- **Each text has 64 fills.** -/
theorem ncard_fills (b : Vector UInt8 16) : {a | uuidOfBytes a = uuidOfBytes b}.ncard = 2 ^ 6 := by
  have hparts : {a | uuidOfBytes a = uuidOfBytes b} =
      Set.range fun set => fillParts.symm (set, (fillParts b).2) := by
    ext a
    rw [Set.mem_ofPred_eq, uuidOfBytes_eq_iff_fillParts, Set.mem_range]
    constructor
    · intro h
      exact ⟨(fillParts a).1, by rw [← h, Prod.mk.eta, Equiv.symm_apply_apply]⟩
    · rintro ⟨set, rfl⟩
      rw [Equiv.apply_symm_apply]
  have hinjective : Function.Injective fun set => fillParts.symm (set, (fillParts b).2) :=
    fun x y h => (Prod.mk.inj (fillParts.symm.injective h)).1
  rw [hparts, Set.ncard_range_of_injective hinjective, Nat.card_fun, card_set,
    Nat.card_eq_fintype_card, Fintype.card_bool]

/-! ## Fills of a source -/

/-- **A random UUID loses no bit but the six that are set.** The text is that of the fill that the
source gives; two fills have the same text exactly if they agree on the bits that are free; the text
is that of a random UUID, and its digits are read back as the fill with six bits set; and of the
`2 ^ 122` texts there are, each has 64 fills. -/
theorem uuid_keeps_bits {σ : Type} [WordSource σ] :
    (∀ s : σ, (drawUuid.outcome s).1 = .ok (uuidOfBytes (WordSource.bytes16 s).1)) ∧
    (∀ a b, uuidOfBytes a = uuidOfBytes b ↔
      ∀ i j, setBit? i j = none → bitAt a i j = bitAt b i j) ∧
    (∀ b, IsRandomUuid (uuidOfBytes b) ∧
      ∃ v : Vector UInt8 16, uuidBytes? (uuidOfBytes b) = some v.toList ∧
        ∀ i j, bitAt v i j = (setBit? i j).getD (bitAt b i j)) ∧
    (Set.range uuidOfBytes).ncard = 2 ^ 122 ∧
    ∀ b, {a | uuidOfBytes a = uuidOfBytes b}.ncard = 64 := by
  refine ⟨fun s => rfl, fun a b => uuidOfBytes_eq_iff, fun b => ?_, ncard_range_uuidOfBytes,
    ncard_fills⟩
  exact ⟨isRandomUuid_uuidOfBytes b, setVersion b, uuidBytes?_uuidOfBytes b, bitAt_setVersion b⟩

/-- All bits set: the version leaves `4f` of byte 6, the variant `bf` of byte 8. -/
example : uuidOfBytes (Vector.replicate 16 0xff) = "ffffffff-ffff-4fff-bfff-ffffffffffff" := by
  decide +kernel

end SampleData
