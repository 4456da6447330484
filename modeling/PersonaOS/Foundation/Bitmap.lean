import Mathlib.Data.Nat.Bitwise

/-! # Bitmaps

A bitmap keeps eight bits in each byte, the least significant first. -/

namespace PersonaOS.Bitmap

/-- Bit `index` of a bitmap. Bits beyond its end are clear. -/
def test (bytes : List UInt8) (index : Nat) : Bool :=
  (bytes.getD (index / 8) 0).toNat.testBit (index % 8)

/-- `byte & (1 << bit) == 0` -/
def isClear (byte : UInt8) (bit : Nat) : Bool := byte &&& (1 <<< UInt8.ofNat bit) == 0

/-- `byte | (1 << bit)` -/
def setBit (byte : UInt8) (bit : Nat) : UInt8 := byte ||| (1 <<< UInt8.ofNat bit)

/-- `byte & !(1 << bit)` -/
def clearBit (byte : UInt8) (bit : Nat) : UInt8 := byte &&& ~~~(1 <<< UInt8.ofNat bit)

/-! ## Single bytes -/

section Byte

variable {byte : UInt8} {bit other : Nat}

theorem mask_toNat (small : bit < 8) : (1 <<< UInt8.ofNat bit : UInt8).toNat = 2 ^ bit := by
  have masks : ∀ bit : Fin 8, (1 <<< UInt8.ofNat bit : UInt8).toNat = 2 ^ bit.val := by decide
  exact masks ⟨bit, small⟩

theorem isClear_eq (small : bit < 8) : isClear byte bit = !byte.toNat.testBit bit := by
  have masked : (byte &&& (1 <<< UInt8.ofNat bit)).toNat =
      (byte.toNat.testBit bit).toNat * 2 ^ bit := by
    rw [UInt8.toNat_and, mask_toNat small, Nat.and_two_pow]
  rw [isClear, Bool.eq_iff_iff, beq_iff_eq, ← UInt8.toNat_inj, masked]
  cases byte.toNat.testBit bit <;> simp

theorem shiftRight_and_one (small : bit < 8) :
    ((byte >>> UInt8.ofNat bit) &&& 1 == 1) = byte.toNat.testBit bit := by
  have amounts : ∀ bit : Fin 8, (UInt8.ofNat bit).toNat % 8 = bit.val := by decide
  have amount : (UInt8.ofNat bit).toNat % 8 = bit := amounts ⟨bit, small⟩
  have shifted : ((byte >>> UInt8.ofNat bit) &&& 1).toNat = byte.toNat / 2 ^ bit % 2 := by
    rw [UInt8.toNat_and, UInt8.toNat_shiftRight, amount, Nat.shiftRight_eq_div_pow]
    exact Nat.and_one_is_mod _
  rw [Nat.testBit_eq_decide_div_mod_eq, Bool.eq_iff_iff, beq_iff_eq, ← UInt8.toNat_inj, shifted]
  simp

theorem testBit_setBit (small : bit < 8) :
    (setBit byte bit).toNat.testBit other = (decide (other = bit) || byte.toNat.testBit other) := by
  rw [setBit, UInt8.toNat_or, Nat.testBit_or, mask_toNat small, Nat.testBit_two_pow, Bool.or_comm]
  simp only [eq_comm]

theorem testBit_clearBit (small : bit < 8) (otherSmall : other < 8) :
    (clearBit byte bit).toNat.testBit other =
      (!decide (other = bit) && byte.toNat.testBit other) := by
  have flipped : ∀ bit other : Fin 8, (~~~(1 <<< UInt8.ofNat bit) : UInt8).toNat.testBit other =
      !decide (other.val = bit.val) := by decide
  rw [clearBit, UInt8.toNat_and, Nat.testBit_and, flipped ⟨bit, small⟩ ⟨other, otherSmall⟩,
    Bool.and_comm]

end Byte

/-! ## Whole bitmaps -/

section Whole

variable {bytes : List UInt8} {index : Nat} {byte : UInt8}

theorem test_eq (isByte : bytes[index / 8]? = some byte) :
    test bytes index = byte.toNat.testBit (index % 8) := by
  rw [test, List.getD_eq_getElem?_getD, isByte, Option.getD_some]

theorem test_set_of_ne {position : Nat} (different : index / 8 ≠ position) :
    test (bytes.set position byte) index = test bytes index := by
  rw [test, test, List.getD_eq_getElem?_getD, List.getElem?_set_ne (Ne.symm different),
    ← List.getD_eq_getElem?_getD]

theorem test_set_setBit (isByte : bytes[index / 8]? = some byte) (other : Nat) :
    test (bytes.set (index / 8) (setBit byte (index % 8))) other =
      (decide (other = index) || test bytes other) := by
  by_cases same : other / 8 = index / 8
  · have inside : index / 8 < bytes.length := (List.getElem?_eq_some_iff.mp isByte).1
    have sameBit : other % 8 = index % 8 ↔ other = index := by omega
    have isNew : (bytes.set (index / 8) (setBit byte (index % 8)))[other / 8]? =
        some (setBit byte (index % 8)) := by
      rw [same, List.getElem?_set_self inside]
    rw [test_eq isNew, testBit_setBit (Nat.mod_lt _ (by decide)), test_eq (same ▸ isByte)]
    simp only [sameBit]
  · have different : other ≠ index := fun equal => same (equal ▸ rfl)
    rw [test_set_of_ne same, decide_eq_false different, Bool.false_or]

theorem test_set_clearBit (isByte : bytes[index / 8]? = some byte) (other : Nat) :
    test (bytes.set (index / 8) (clearBit byte (index % 8))) other =
      (!decide (other = index) && test bytes other) := by
  by_cases same : other / 8 = index / 8
  · have inside : index / 8 < bytes.length := (List.getElem?_eq_some_iff.mp isByte).1
    have sameBit : other % 8 = index % 8 ↔ other = index := by omega
    have isNew : (bytes.set (index / 8) (clearBit byte (index % 8)))[other / 8]? =
        some (clearBit byte (index % 8)) := by
      rw [same, List.getElem?_set_self inside]
    rw [test_eq isNew, testBit_clearBit (Nat.mod_lt _ (by decide)) (Nat.mod_lt _ (by decide)),
      test_eq (same ▸ isByte)]
    simp only [sameBit]
  · have different : other ≠ index := fun equal => same (equal ▸ rfl)
    rw [test_set_of_ne same, decide_eq_false different, Bool.not_false, Bool.true_and]

theorem test_replicate_zero (count index : Nat) : test (List.replicate count 0) index = false := by
  rw [test, List.getD_eq_getElem?_getD, List.getElem?_replicate]
  split <;> simp

theorem test_replicate_ones {count : Nat} (inside : index / 8 < count) :
    test (List.replicate count 0xFF) index = true := by
  have ones : ∀ bit : Fin 8, (0xFF : UInt8).toNat.testBit bit = true := by decide
  have isByte : (List.replicate count (0xFF : UInt8))[index / 8]? = some 0xFF := by
    rw [List.getElem?_replicate, if_pos inside]
  rw [test_eq isByte]
  exact ones ⟨index % 8, Nat.mod_lt _ (by decide)⟩

end Whole

end PersonaOS.Bitmap
