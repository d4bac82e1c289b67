import SampleData.Proofs.Draws

/-!
# The texts of random UUIDs

Sixteen bytes in which the version and the variant are set are written as 32 digits in five
groups. The third group starts with the high digit of the byte that carries the version, the
fourth with the high digit of the byte that carries the variant.

* `isRandomUuid_uuidOfBytes`: whatever the bytes, the text is that of a random UUID.
* `IsRandomUuid.length_eq`: such a text has 36 characters.
* `drawUuid_yields`: a random UUID that was drawn.
-/

namespace SampleData

open Text

/-! ## Digits of bytes -/

/-- The digits of values below sixteen. -/
theorem isHexDigit_hexDigit : ∀ {n : Nat}, n < 16 → isHexDigit (hexDigit n) = true := by
  decide

/-- Two digits a byte. -/
@[simp] theorem length_hexBytes (bs : List UInt8) : (hexBytes bs).length = 2 * bs.length := by
  induction bs with
  | nil => rfl
  | cons b bs ih =>
      unfold hexBytes at ih ⊢
      rw [List.flatMap_cons, List.length_append, ih, List.length_cons]
      change 2 + 2 * bs.length = 2 * (bs.length + 1)
      omega

/-- Bytes are written with digits only. -/
theorem isHexDigit_of_mem_hexBytes {bs : List UInt8} {c : Char} (h : c ∈ hexBytes bs) :
    isHexDigit c = true := by
  obtain ⟨b, -, hc⟩ := List.mem_flatMap.mp h
  have hb := b.toNat_lt
  simp only [hexByte, List.mem_cons, List.not_mem_nil, or_false] at hc
  rcases hc with rfl | rfl
  · exact isHexDigit_hexDigit (by omega)
  · exact isHexDigit_hexDigit (by omega)

/-- A group starts with the high digit of its first byte. -/
theorem head?_hexBytes_drop {bs : List UInt8} {i n : Nat} (h : i < bs.length) :
    (hexBytes ((bs.drop i).take (n + 1))).head? = some (hexDigit (bs[i].toNat / 16)) := by
  rw [List.drop_eq_getElem_cons h]
  rfl

/-! ## The bytes that are set -/

/-- The byte of the version. -/
@[simp] theorem get_six_setVersion (b : Vector UInt8 16) :
    (setVersion b).get 6 = b.get 6 &&& 0x0F ||| 0x40 := by
  show (setVersion b)[6] = b[6] &&& 0x0F ||| 0x40
  simp [setVersion]

/-- The byte of the variant. -/
@[simp] theorem get_eight_setVersion (b : Vector UInt8 16) :
    (setVersion b).get 8 = b.get 8 &&& 0x3F ||| 0x80 := by
  show (setVersion b)[8] = b[8] &&& 0x3F ||| 0x80
  simp [setVersion]

/-- A byte whose low bits are kept and whose high bits are set. -/
theorem toNat_stamped (x mask stamp : UInt8) {k m : Nat} (hmask : mask.toNat = 2 ^ k - 1)
    (hstamp : stamp.toNat = 2 ^ k * m) :
    (x &&& mask ||| stamp).toNat = 2 ^ k * m + x.toNat % 2 ^ k := by
  rw [UInt8.toNat_or, UInt8.toNat_and, hmask, hstamp, Nat.and_two_pow_sub_one_eq_mod, Nat.or_comm,
    ← Nat.two_pow_add_eq_or_of_lt (Nat.mod_lt _ (Nat.two_pow_pos k))]

/-- The high half of the byte of the version is the version. -/
theorem high_versionByte (x : UInt8) : (x &&& 0x0F ||| 0x40).toNat / 16 = 4 := by
  rw [toNat_stamped x 0x0F 0x40 (k := 4) (m := 4) rfl rfl]
  omega

/-- The high half of the byte of the variant starts with the two bits of the variant. -/
theorem high_variantByte (x : UInt8) :
    8 ≤ (x &&& 0x3F ||| 0x80).toNat / 16 ∧ (x &&& 0x3F ||| 0x80).toNat / 16 < 12 := by
  rw [toNat_stamped x 0x3F 0x80 (k := 6) (m := 2) rfl rfl]
  omega

/-- The digits of the variant. -/
theorem hexDigit_mem_variants :
    ∀ {n : Nat}, n < 12 → 8 ≤ n → hexDigit n ∈ ['8', '9', 'a', 'b'] := by
  decide

/-! ## The text -/

/-- Whatever the bytes, the text is that of a random UUID. -/
theorem isRandomUuid_uuidOfBytes (b : Vector UInt8 16) : IsRandomUuid (uuidOfBytes b) := by
  have hlen : (setVersion b).toList.length = 16 := Vector.length_toList
  refine ⟨_, _, _, _, _, String.toList_ofList, ?_, ?_, ?_, ?_, ?_, ?_, ?_, ?_⟩
  iterate 5 simp
  · intro x hx
    simp only [List.mem_append] at hx
    rcases hx with (((hx | hx) | hx) | hx) | hx <;> exact isHexDigit_of_mem_hexBytes hx
  · have hbyte : (setVersion b)[6] = b.get 6 &&& 0x0F ||| 0x40 := get_six_setVersion b
    rw [head?_hexBytes_drop (by omega), Vector.getElem_toList, hbyte, high_versionByte]
    rfl
  · have hbyte : (setVersion b)[8] = b.get 8 &&& 0x3F ||| 0x80 := get_eight_setVersion b
    rw [head?_hexBytes_drop (by omega), Vector.getElem_toList, hbyte]
    obtain ⟨hlow, hhigh⟩ := high_variantByte (b.get 8)
    exact ⟨_, hexDigit_mem_variants hhigh hlow, rfl⟩

/-- The text of a random UUID has 36 characters. -/
theorem IsRandomUuid.length_eq {s : String} (h : IsRandomUuid s) : s.length = 36 := by
  obtain ⟨a, b, c, d, e, hs, ha, hb, hc, hd, he, -⟩ := h
  rw [← String.length_toList, hs]
  simp [ha, hb, hc, hd, he]

/-- A random UUID that was drawn. -/
theorem drawUuid_yields {σ : Type} [WordSource σ] :
    (drawUuid : Draw σ String).Yields IsRandomUuid :=
  fun s => isRandomUuid_uuidOfBytes (WordSource.bytes16 s).1

end SampleData
