import Xemu.Lib.Bytes

/-! Copies of stretches of a byte memory, made word by word from their ends. -/

namespace Bytes

variable {a w : Nat}

/-- The memory after the bytes of a stretch from some place on were copied to another address. -/
def copied (mem : BitVec a → BitVec 8) (source target : BitVec a) (first count : Nat) :
    BitVec a → BitVec 8 :=
  fun at_ =>
    if first ≤ (at_ - target).toNat ∧ (at_ - target).toNat < count then mem (source + (at_ - target))
    else mem at_

variable {mem : BitVec a → BitVec 8} {source target : BitVec a} {first count size : Nat}

/-- Nothing was copied yet. -/
@[simp] theorem copied_none : copied mem source target count count = mem := by
  funext at_
  rw [copied, if_neg (by omega)]

/-- What lies outside of the target keeps its value. -/
theorem copied_outside {at_ : BitVec a} (outside : count ≤ (at_ - target).toNat) :
    copied mem source target first count at_ = mem at_ := by
  rw [copied, if_neg (by omega)]

/-- A byte at the target is that of the source at the same distance. -/
theorem copied_inside {index : Nat} (inside : index < count) (fits : count ≤ 2 ^ a) :
    copied mem source target 0 count (target + BitVec.ofNat a index) =
      mem (source + BitVec.ofNat a index) := by
  have distance : target + BitVec.ofNat a index - target = BitVec.ofNat a index := by
    rw [BitVec.add_comm, BitVec.add_sub_cancel]
  have small : (BitVec.ofNat a index).toNat = index := by
    rw [BitVec.toNat_ofNat, Nat.mod_eq_of_lt (by omega)]
  rw [copied, distance, small, if_pos ⟨Nat.zero_le _, inside⟩]

/-- Copying the word in front of what was copied extends the copy. -/
theorem store_copied (inside : first + size ≤ count) (fits : count ≤ 2 ^ a)
    (narrow : 8 * size ≤ w) :
    LittleEndian.store (copied mem source target (first + size) count)
        (target + BitVec.ofNat a first) size
        (LittleEndian.load w mem (source + BitVec.ofNat a first) size) =
      copied mem source target first count := by
  funext at_
  have along : at_ - (target + BitVec.ofNat a first) = at_ - target - BitVec.ofNat a first := by
    rw [sub_add_eq_sub_sub]
  have bound : (at_ - target).toNat < 2 ^ a := (at_ - target).isLt
  have back : at_ - target = BitVec.ofNat a first + (at_ - target - BitVec.ofNat a first) := by
    rw [add_sub_cancel]
  simp only [LittleEndian.store, copied, along]
  by_cases some : size = 0
  · subst some
    simp
  have width : (BitVec.ofNat a first).toNat = first := by
    rw [BitVec.toNat_ofNat, Nat.mod_eq_of_lt (by omega)]
  by_cases early : (at_ - target).toNat < first
  · -- In front of the word the distance to it wraps around, past everything it covers.
    have far : ¬ (at_ - target - BitVec.ofNat a first).toNat < size := by
      rw [BitVec.toNat_sub, width, Nat.mod_eq_of_lt (by omega)]
      omega
    rw [if_neg far, if_neg (by omega), if_neg (by omega)]
  · have near : (at_ - target - BitVec.ofNat a first).toNat = (at_ - target).toNat - first := by
      rw [BitVec.toNat_sub_of_le (by rw [BitVec.le_def, width]; omega), width]
    by_cases word : (at_ - target).toNat - first < size
    · rw [near, if_pos word, if_pos (by omega), LittleEndian.load_byte word narrow]
      have place : BitVec.ofNat a ((at_ - target).toNat - first) =
          at_ - target - BitVec.ofNat a first := by
        rw [← near, BitVec.ofNat_toNat, BitVec.setWidth_eq]
      rw [place, BitVec.add_assoc, ← back]
    · rw [near, if_neg word]
      -- Behind the word both copies agree on what was copied before.
      exact if_congr (by omega) rfl rfl

end Bytes
