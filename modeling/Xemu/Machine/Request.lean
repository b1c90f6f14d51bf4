import Xemu.Machine.Blob

/-! How the block device ends a request: the status byte, the used ring, and the interrupt. -/

namespace Xemu

namespace Vring

/-- The bytes of the used ring up to its last element. -/
def usedSize (vring : Vring) : Nat := 4 + 8 * vring.num.toNat

/-- The slot of a ring that an index selects. -/
def slot (vring : Vring) (idx : BitVec 16) : Nat := idx.toNat % vring.num.toNat

/-- The address of an element of the used ring. -/
def usedAddr (vring : Vring) (slot : Nat) : BitVec 64 := vring.used + BitVec.ofNat 64 (4 + 8 * slot)

end Vring

namespace Bus

/-- What the driver and `main` have set up before the device can end a request. -/
structure Serves (bus : Bus) : Prop where
  /-- The RAM is as large as `ram_init` makes it. -/
  whole : bus.ram.size = ramSize
  /-- The queue has slots. -/
  some : 0 < bus.blk.vdev.vq.vring.num.toNat
  /-- The used ring lies in RAM. -/
  used : InMemory bus.blk.vdev.vq.vring.used bus.blk.vdev.vq.vring.usedSize
  /-- The interrupt has a pending bit. -/
  irq : 0 < bus.blk.vdev.irqNum.toNat ∧ bus.blk.vdev.irqNum.toNat < 160

/-- Guest memory after the next element of the used ring was written. -/
def usedElement (vq : Vqueue) (req : VqRequest) (mem : BitVec 64 → BitVec 8) :
    BitVec 64 → BitVec 8 :=
  let addr := vq.vring.usedAddr (vq.vring.slot vq.usedIdx)
  LittleEndian.store (LittleEndian.store mem addr 4 (req.index.setWidth 64)) (addr + 4) 4
    (req.inLen.setWidth 64)

/-- Guest memory after the index of the used ring was counted on. -/
def usedIndex (vq : Vqueue) (mem : BitVec 64 → BitVec 8) : BitVec 64 → BitVec 8 :=
  LittleEndian.store mem (vq.vring.used + 2) 2 ((vq.usedIdx + 1).setWidth 64)

variable {write : Writer} {bus : Bus}

/-- What was set up does not depend on the bytes in RAM. -/
theorem Serves.setMemory (serves : bus.Serves) (mem : BitVec 64 → BitVec 8) :
    (bus.setMemory mem).Serves :=
  ⟨serves.whole, serves.some, serves.used, serves.irq⟩

/-- The devices after `used_idx` was counted on. -/
def countUsed (bus : Bus) : Bus :=
  { bus with blk.vdev.vq.usedIdx := bus.blk.vdev.vq.usedIdx + 1 }

/-- The count of the used ring is no part of RAM. -/
@[simp] theorem countUsed_setMemory (mem : BitVec 64 → BitVec 8) :
    (bus.setMemory mem).countUsed = bus.countUsed.setMemory mem := by
  simp only [setMemory, countUsed]

/-- What was set up does not depend on how many requests were served. -/
theorem Serves.countUsed (serves : bus.Serves) : bus.countUsed.Serves :=
  ⟨serves.whole, serves.some, serves.used, serves.irq⟩

/-- The device's store of a used element, as three writes. -/
theorem vringUsedWrite_eq (some : 0 < bus.blk.vdev.vq.vring.num.toNat) (req : VqRequest) :
    vringUsedWrite write bus req =
      (let vring := bus.blk.vdev.vq.vring
      let addr := vring.used + (4 + 8 *
        (bus.blk.vdev.vq.usedIdx.setWidth 32 % vring.num).setWidth 64)
      write bus addr 4 (req.index.setWidth 64) >>= fun bus =>
        write bus (addr + 4) 4 (req.inLen.setWidth 64) >>= fun bus =>
          write bus.countUsed (bus.blk.vdev.vq.vring.used + 2) 2
            ((bus.blk.vdev.vq.usedIdx + 1).setWidth 64)) := by
  rw [vringUsedWrite, if_neg (ne_zero_of_toNat_pos some)]
  rfl

/-- The slot an index selects, as the code computes it. -/
theorem setWidth_slot (vring : Vring) (idx : BitVec 16) :
    (idx.setWidth 32 % vring.num).setWidth 64 = BitVec.ofNat 64 (vring.slot idx) := by
  have wide : idx.toNat % 2 ^ 32 = idx.toNat := Nat.mod_eq_of_lt (by have := idx.isLt; omega)
  apply BitVec.eq_of_toNat_eq
  rw [BitVec.toNat_setWidth, BitVec.toNat_umod, BitVec.toNat_setWidth, wide, BitVec.toNat_ofNat]
  rfl

/-- The address of an element, as the code computes it. -/
theorem usedAddr_eq (vring : Vring) (idx : BitVec 16) :
    vring.used + (4 + 8 * (idx.setWidth 32 % vring.num).setWidth 64) =
      vring.usedAddr (vring.slot idx) := by
  rw [setWidth_slot, Vring.usedAddr, BitVec.ofNat_add, BitVec.ofNat_mul]
  rfl

/-- An element of the used ring lies in the ring. -/
theorem used_element {vring : Vring} (some : 0 < vring.num.toNat)
    (used : InMemory vring.used vring.usedSize) (idx : BitVec 16) :
    InMemory (vring.usedAddr (vring.slot idx)) 8 := by
  have below : vring.slot idx < vring.num.toNat := Nat.mod_lt _ some
  exact used.part (by rw [Vring.usedSize]; omega)

/-- The device's store of a used element and then of the index behind it. -/
theorem vringUsedWrite_memory (plain : write.Plain) (serves : bus.Serves) (req : VqRequest) :
    vringUsedWrite write bus req = .ok (bus.countUsed.setMemory
      (usedIndex bus.blk.vdev.vq (usedElement bus.blk.vdev.vq req bus.memory))) := by
  have element : InMemory (bus.blk.vdev.vq.vring.usedAddr
      (bus.blk.vdev.vq.vring.slot bus.blk.vdev.vq.usedIdx)) (4 + 4) :=
    used_element serves.some serves.used _
  have second : InMemory (bus.blk.vdev.vq.vring.usedAddr
      (bus.blk.vdev.vq.vring.slot bus.blk.vdev.vq.usedIdx) + 4) 4 := element.back
  have index : InMemory (bus.blk.vdev.vq.vring.used + 2) 2 :=
    serves.used.part (by rw [Vring.usedSize]; omega : 2 + 2 ≤ _)
  -- The three writes follow each other, and each is one of RAM.
  rw [vringUsedWrite_eq serves.some]
  simp only [usedAddr_eq]
  rw [plain bus _ 4 _ serves.whole rfl element.front, ok_bind,
    plain _ _ 4 _ (serves.setMemory _).whole rfl second, ok_bind]
  simp only [memory_setMemory, setMemory_setMemory, countUsed_setMemory, blk_setMemory]
  rw [plain _ _ 2 _ (serves.countUsed.setMemory _).whole rfl index]
  simp only [memory_setMemory, setMemory_setMemory]
  rfl

/-- The devices after the block device asked for its interrupt. -/
def interrupted (bus : Bus) (plic : Plic) : Bus :=
  { bus with blk.vdev.isr := bus.blk.vdev.isr ||| 0x1, plic }

/-- Nor is the interrupt. -/
@[simp] theorem interrupted_setMemory (mem : BitVec 64 → BitVec 8) (plic : Plic) :
    (bus.setMemory mem).interrupted plic = (bus.interrupted plic).setMemory mem := by
  simp only [setMemory, interrupted]

/-- The end of a request, as a write of its status, the used ring, and the interrupt. -/
theorem complete_eq (req : VqRequest) :
    complete write bus req =
      (write bus ((req.iov.getLast?.map (·.base)).getD 0) 1 0 >>= fun bus =>
        vringUsedWrite write bus req >>= fun bus =>
          bus.plic.signal bus.blk.vdev.irqNum >>= fun plic => .ok (bus.interrupted plic)) := rfl

/-- The interrupt of the block device is one the controller has a bit for. -/
theorem Serves.signal (serves : bus.Serves) :
    ∃ plic, bus.plic.signal bus.blk.vdev.irqNum = .ok plic := by
  obtain ⟨positive, below⟩ := serves.irq
  have word : bus.blk.vdev.irqNum.toNat / 32 < 5 := by omega
  rw [Plic.signal, Plic.updatePending, if_neg (ne_zero_of_toNat_pos positive), dif_pos word]
  exact ⟨_, rfl⟩

/-- Guest memory after the end of a request. -/
def completed (bus : Bus) (req : VqRequest) (status : BitVec 64) : BitVec 64 → BitVec 8 :=
  usedIndex bus.blk.vdev.vq (usedElement bus.blk.vdev.vq req
    (LittleEndian.store bus.memory status 1 (0 : BitVec 64)))

/-- Ending a request writes the status and the used ring, and sends the interrupt. -/
theorem complete_memory (plain : write.Plain) (serves : bus.Serves) {req : VqRequest}
    {status : IoVec} (last : req.iov.getLast? = some status) (placed : InMemory status.base 1) :
    ∃ plic, complete write bus req =
      .ok ((bus.countUsed.interrupted plic).setMemory (bus.completed req status.base)) := by
  obtain ⟨plic, signalled⟩ := serves.countUsed.signal
  refine ⟨plic, ?_⟩
  -- The status is written first, so the used ring is written over that memory.
  rw [complete_eq, last]
  simp only [Option.map_some, Option.getD_some]
  rw [plain bus _ 1 _ serves.whole rfl placed, ok_bind,
    vringUsedWrite_memory plain (serves.setMemory _), ok_bind]
  simp only [countUsed_setMemory, setMemory_setMemory, memory_setMemory, blk_setMemory,
    plic_setMemory, signalled, ok_bind, interrupted_setMemory, completed]

/-- The device's store of a used element and of the index changes the used ring alone. -/
theorem usedRing_outside {vq : Vqueue} (some : 0 < vq.vring.num.toNat) (req : VqRequest)
    {mem : BitVec 64 → BitVec 8} {at_ : BitVec 64}
    (outside : vq.vring.usedSize ≤ (at_ - vq.vring.used).toNat) :
    usedIndex vq (usedElement vq req mem) at_ = mem at_ := by
  have below : vq.vring.slot vq.usedIdx < vq.vring.num.toNat := Nat.mod_lt _ some
  -- Each of the three stores is a part of the ring.
  have element : 8 ≤ (at_ - vq.vring.usedAddr (vq.vring.slot vq.usedIdx)).toNat :=
    Bytes.outside_part outside (by rw [Vring.usedSize]; omega)
  have second : 4 ≤ (at_ - (vq.vring.usedAddr (vq.vring.slot vq.usedIdx) + 4)).toNat :=
    Bytes.outside_part element (by omega : 4 + 4 ≤ 8)
  have index : 2 ≤ (at_ - (vq.vring.used + 2)).toNat :=
    Bytes.outside_part outside (by rw [Vring.usedSize]; omega : 2 + 2 ≤ _)
  rw [usedIndex, LittleEndian.store_outside index, usedElement,
    LittleEndian.store_outside second, LittleEndian.store_outside (by omega)]

/-- The end of a request leaves memory alone but for the status byte and the used ring. -/
theorem completed_outside (some : 0 < bus.blk.vdev.vq.vring.num.toNat) (req : VqRequest)
    {status at_ : BitVec 64} (elsewhere : at_ ≠ status)
    (outside : bus.blk.vdev.vq.vring.usedSize ≤ (at_ - bus.blk.vdev.vq.vring.used).toNat) :
    bus.completed req status at_ = bus.memory at_ := by
  have byte : 1 ≤ (at_ - status).toNat := by
    have apart : at_ - status ≠ 0 := sub_ne_zero.mpr elsewhere
    have nonzero : (at_ - status).toNat ≠ 0 := fun zero => apart (BitVec.eq_of_toNat_eq zero)
    omega
  rw [completed, usedRing_outside some req outside, LittleEndian.store_outside byte]

/-- The end of a request leaves a zero in a status byte outside the used ring. -/
theorem completed_status (some : 0 < bus.blk.vdev.vq.vring.num.toNat) (req : VqRequest)
    {status : BitVec 64}
    (outside : bus.blk.vdev.vq.vring.usedSize ≤ (status - bus.blk.vdev.vq.vring.used).toNat) :
    bus.completed req status status = 0 := by
  rw [completed, usedRing_outside some req outside, LittleEndian.store, BitVec.sub_self]
  rfl

end Bus

end Xemu
