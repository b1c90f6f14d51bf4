import Mathlib.Algebra.Group.Nat.Defs

/-! Masks of ones in the low places of a 64-bit word. -/

namespace BitField

/-- Subtracting one from a power of two gives ones in every place below it. -/
theorem getLsbD_ones (num i : Nat) :
    ((1#64 <<< num) - 1#64).getLsbD i = (decide (i < 64) && decide (i < num)) := by
  by_cases below : i < 64
  · by_cases small : num < 64
    · -- The power is in range, so the subtraction is the one on natural numbers.
      have power : (1#64 <<< num).toNat = 2 ^ num := by
        rw [BitVec.toNat_shiftLeft, Nat.shiftLeft_eq]
        exact (by simpa using Nat.pow_lt_pow_right (by decide : 1 < 2) small)
      have difference : ((1#64 <<< num) - 1#64).toNat = 2 ^ num - 1 := by
        rw [BitVec.toNat_sub_of_le, power]
        · rfl
        · simpa [BitVec.le_def, power] using Nat.one_le_two_pow
      rw [← BitVec.testBit_toNat, difference, Nat.testBit_two_pow_sub_one]
      simp [below]
    · -- Past the width nothing is left of the power, and zero minus one is all ones.
      have vanished : (1#64 <<< num) = 0#64 := BitVec.shiftLeft_eq_zero (by omega)
      have ones : (0#64 - 1#64) = BitVec.allOnes 64 := by decide
      rw [vanished, ones, BitVec.getLsbD_allOnes]
      simp [below, show i < num by omega]
  · rw [BitVec.getLsbD_of_ge _ i (Nat.le_of_not_lt below)]
    simp [below]

/-- Ones below a place, as they stand in a mask written as a number. -/
theorem getLsbD_mask (num i : Nat) (mask : BitVec 64) (ones : mask = (1#64 <<< num) - 1#64) :
    mask.getLsbD i = (decide (i < 64) && decide (i < num)) := by
  rw [ones, getLsbD_ones]

/-- A shift to the right divides by a power of two. -/
theorem toNat_ushiftRight (word : BitVec 64) (num : Nat) :
    (word >>> num).toNat = word.toNat / 2 ^ num := by
  -- Both sides are the same shift of the number.
  rw [BitVec.toNat_ushiftRight, Nat.shiftRight_eq_div_pow]

end BitField
