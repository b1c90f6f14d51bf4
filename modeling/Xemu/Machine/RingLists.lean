import Xemu.Lib.RingBuffer
import Xemu.Machine.RingFrame

/-! The two rings as the lists of heads they were filled with, and the slot each count selects. -/

namespace Xemu.Bus

/-- The number of elements of either ring. -/
def ringSize (bus : Bus) : Nat := bus.blk.vdev.vq.vring.num.toNat

/-- The available ring has been filled with these heads, of which those from a position on count. -/
structure AvailRing (bus : Bus) (heads : List (BitVec 16)) (oldest : Nat) : Prop where
  idx : bus.availIdx = BitVec.ofNat 16 heads.length
  slots : RingBuffer.Holds bus.ringSize bus.availSlot heads oldest

/-- The used ring has been filled with these heads, of which it still has one for each slot. -/
structure UsedRing (bus : Bus) (heads : List (BitVec 32)) : Prop where
  idx : bus.usedRingIdx = BitVec.ofNat 16 heads.length
  slots : RingBuffer.Holds bus.ringSize bus.usedSlot heads (heads.length - bus.ringSize)

variable {bus after : Bus} {heads : List (BitVec 16)} {oldest : Nat} {used : List (BitVec 32)}

/-- The size of the rings is a part of their layout. -/
theorem ringSize_congr (layout : after.blk.vdev.vq.vring = bus.blk.vdev.vq.vring) :
    after.ringSize = bus.ringSize := by
  rw [ringSize, ringSize, layout]

/-- What the available ring holds is seen from its words. -/
theorem AvailRing.congr (ring : bus.AvailRing heads oldest) (some : 0 < bus.ringSize)
    (layout : after.blk.vdev.vq.vring = bus.blk.vdev.vq.vring)
    (words : after.availIdx = bus.availIdx ∧
      ∀ slot < bus.ringSize, after.availSlot slot = bus.availSlot slot) :
    after.AvailRing heads oldest := by
  refine ⟨words.1.trans ring.idx, ?_⟩
  rw [ringSize_congr layout]
  exact ring.slots.congr some words.2

/-- So is what the used ring holds. -/
theorem UsedRing.congr (ring : bus.UsedRing used) (some : 0 < bus.ringSize)
    (layout : after.blk.vdev.vq.vring = bus.blk.vdev.vq.vring)
    (words : after.usedRingIdx = bus.usedRingIdx ∧
      ∀ slot < bus.ringSize, after.usedSlot slot = bus.usedSlot slot) :
    after.UsedRing used := by
  refine ⟨words.1.trans ring.idx, ?_⟩
  rw [ringSize_congr layout]
  exact ring.slots.congr some words.2

/-- The index of a count selects the slot of that count in a ring of a power of two. -/
theorem Rings.slot_index (rings : bus.Rings) (count : Nat) :
    bus.blk.vdev.vq.vring.slot (BitVec.ofNat 16 count) = count % bus.ringSize := by
  obtain ⟨log, small, size⟩ := rings.power
  rw [Vring.slot, ringSize, size]
  exact RingBuffer.slot_index (Nat.pow_dvd_pow 2 (by omega)) count

/-- Neither ring has more elements than half a turn of the index. -/
theorem Rings.size_le (rings : bus.Rings) : bus.ringSize ≤ 2 ^ 15 := by
  obtain ⟨log, small, size⟩ := rings.power
  rw [ringSize, size]
  exact Nat.pow_le_pow_right (by decide) small

/-- The head of the next chain is the first of those in the ring. -/
theorem AvailRing.head (ring : bus.AvailRing heads oldest) (rings : bus.Rings)
    (more : oldest < heads.length) :
    bus.availHead (BitVec.ofNat 16 oldest) = heads[oldest].setWidth 32 := by
  rw [availHead, rings.slot_index]
  exact congrArg _ (ring.slots oldest more (Nat.le_refl _))

/-- An element that is written behind the last one is appended to the list. -/
theorem UsedRing.append (ring : bus.UsedRing used) (rings : bus.Rings)
    (count : bus.blk.vdev.vq.usedIdx = BitVec.ofNat 16 used.length) {req : VqRequest}
    (fills : Fills bus req after) : after.UsedRing (used ++ [req.index]) := by
  have layout : after.blk.vdev.vq.vring = bus.blk.vdev.vq.vring := by rw [fills.settled.vdev]
  have some : 0 < bus.ringSize := rings.some
  have written := fills.written
  have others := fills.others
  rw [count, rings.slot_index] at written others
  refine ⟨?_, ?_⟩
  · rw [fills.usedRingIdx, count, List.length_append, List.length_singleton,
      RingBuffer.index_succ]
  · -- One slot was written, and the oldest element gives way to the new one.
    rw [ringSize_congr layout, List.length_append, List.length_singleton]
    refine (ring.slots.mono (by omega)).append (.single (by omega) written ?_)
    exact fun slot below => others slot below

end Xemu.Bus
