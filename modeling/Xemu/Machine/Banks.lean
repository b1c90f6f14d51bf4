import Xemu.Lib.Bytes
import Xemu.Machine.Ram

/-! The bytes of the three memories on the bus, by their physical addresses. -/

namespace Xemu

open AddressSpace

namespace Bus

/-- The buffer behind a device that is a memory. -/
def bank (bus : Bus) : DeviceId → Option Buffer
  | .rom => some bus.rom
  | .flash => some bus.flash
  | .ram => some bus.ram
  | _ => none

/-- The byte of memory at a physical address, where a memory was loaded or allocated there. -/
def byteAt (bus : Bus) (addr : BitVec 64) : Option (BitVec 8) := do
  let (device, offset) := route rootChildren addr
  let buffer ← bus.bank device
  if offset.toNat < buffer.size then some (buffer.bytes offset) else none

/-- The two bytes of memory from a physical address on. -/
def halfword (bus : Bus) (addr : BitVec 64) : Option (BitVec 16) := do
  let low ← bus.byteAt addr
  let high ← bus.byteAt (addr + 1)
  return high ++ low

variable {host : Host} {bus : Bus} {addr offset : BitVec 64} {device : DeviceId} {buffer : Buffer}
  {size : Nat}

/-- Memories have regions of whole pages. -/
theorem bank_pages (memory : bus.bank device = some buffer) {region : AddressSpace}
    (member : region ∈ rootChildren) (named : region.device = device) :
    region.start.toNat % 4096 = 0 ∧ region.last.toNat % 4096 = 4095 ∧
      region.last.toNat < region.start.toNat + 0x80000000 ∧
      (device = .flash → region.last.toNat < region.start.toNat + flashSpaceSize) := by
  -- The three regions are constants, so their ends can be computed.
  have pages : ∀ region ∈ rootChildren,
      region.device = .rom ∨ region.device = .flash ∨ region.device = .ram →
      region.start.toNat % 4096 = 0 ∧ region.last.toNat % 4096 = 4095 ∧
        region.last.toNat < region.start.toNat + 0x80000000 ∧
        (region.device = .flash → region.last.toNat < region.start.toNat + flashSpaceSize) := by
    decide
  subst named
  refine pages region member ?_
  cases device : region.device with
  | rom => exact .inl rfl
  | flash => exact .inr (.inl rfl)
  | ram => exact .inr (.inr rfl)
  | _ =>
    rw [device] at memory
    cases memory

/-- Up to the end of its page the bus takes what follows an address of a memory there too. -/
theorem route_page (routed : route rootChildren addr = (device, offset))
    (memory : bus.bank device = some buffer) :
    offset.toNat % 4096 = addr.toNat % 4096 ∧
      (device = .flash → offset.toNat + (4096 - addr.toNat % 4096) ≤ flashSpaceSize) ∧
      ∀ index, addr.toNat % 4096 + index < 4096 →
        route rootChildren (addr + BitVec.ofNat 64 index) =
            (device, offset + BitVec.ofNat 64 index) ∧
          (offset + BitVec.ofNat 64 index).toNat = offset.toNat + index := by
  have some : (route rootChildren addr).1 ≠ .dummy := by
    rw [routed]
    rintro rfl
    cases memory
  obtain ⟨region, member, inside, found⟩ := exists_contains some
  obtain ⟨named, rfl⟩ := Prod.mk.inj (found.symm.trans routed)
  obtain ⟨first, last, short, flash⟩ := bank_pages memory member named
  simp only [contains, Bool.and_eq_true, decide_eq_true_eq, BitVec.le_def] at inside
  have place : (addr - region.start).toNat = addr.toNat - region.start.toNat :=
    BitVec.toNat_sub_of_le (by rw [BitVec.le_def]; exact inside.1)
  have range := region.last.isLt
  refine ⟨by omega, fun is => ?_, fun index page => ?_⟩
  · have limit := flash is
    omega
  · -- The region ends where a page does, and so not before this one.
    have along : (addr + BitVec.ofNat 64 index).toNat = addr.toNat + index := by
      rw [BitVec.toNat_add, BitVec.toNat_ofNat]
      omega
    have within : region.contains (addr + BitVec.ofNat 64 index) := by
      simp only [contains, Bool.and_eq_true, decide_eq_true_eq, BitVec.le_def]
      omega
    refine ⟨?_, ?_⟩
    · rw [route_contains member within, named, add_sub_right_comm]
    · rw [BitVec.toNat_add, BitVec.toNat_ofNat]
      omega

/-- The byte of a memory at the distance from an address in the same page. -/
theorem byteAt_page (routed : route rootChildren addr = (device, offset))
    (memory : bus.bank device = some buffer) (index : Nat)
    (page : addr.toNat % 4096 + index < 4096) :
    bus.byteAt (addr + BitVec.ofNat 64 index) =
      if offset.toNat + index < buffer.size
      then some (buffer.bytes (offset + BitVec.ofNat 64 index)) else none := by
  obtain ⟨along, place⟩ := (route_page routed memory).2.2 index page
  simp only [byteAt, along, memory, Option.bind_eq_bind, Option.bind_some, place]

/-- A read of a memory within a page returns the word there, and changes nothing. -/
theorem asReadNommu_bank (routed : route rootChildren addr = (device, offset))
    (memory : bus.bank device = some buffer) (valid : validSize size)
    (page : addr.toNat % 4096 + size ≤ 4096) (fits : offset.toNat + size ≤ buffer.size)
    (params : Params) :
    bus.asReadNommu host addr size params =
      .ok (LittleEndian.load 64 buffer.bytes offset size, bus) := by
  have bounds := validSize_bounds valid
  obtain ⟨same, limit, -⟩ := route_page routed memory
  have sizes : size = 8 ∨ size = 4 ∨ size = 2 ∨ size = 1 := by
    simp only [validSize, Bool.or_eq_true, beq_iff_eq] at valid
    omega
  have read : buffer.read offset size = .ok (LittleEndian.load 64 buffer.bytes offset size) :=
    if_pos fits
  rw [asReadNommu, readFrom_route, routed, valid]
  cases device with
  | ram =>
    cases memory
    simp only [deviceRead, ramRead, read]
    rfl
  | rom =>
    cases memory
    simp only [deviceRead, romRead, if_neg (Nat.not_lt.mpr fits), if_pos sizes, read]
    rfl
  | flash =>
    cases memory
    -- The pointer is in the space and in what was loaded, and the read stays in its page.
    have space := limit rfl
    have pointer : flashPtr bus.flash offset size = .ok true := by
      rw [flashPtr, if_neg (by omega), decide_eq_true fits]
    have inside : inSamePage offset size := by
      rw [inSamePage, beq_iff_eq]
      have range := offset.isLt
      apply BitVec.eq_of_toNat_eq
      have last : (offset + BitVec.ofNat 64 size - 1).toNat = offset.toNat + size - 1 := by
        rw [BitVec.toNat_sub_of_le, BitVec.toNat_add, BitVec.toNat_ofNat]
        · change _ - 1 = _
          unfold flashSpaceSize at space
          omega
        · rw [BitVec.le_def, BitVec.toNat_add, BitVec.toNat_ofNat]
          change 1 ≤ _
          unfold flashSpaceSize at space
          omega
      rw [BitVec.toNat_ushiftRight, BitVec.toNat_ushiftRight, last, Nat.shiftRight_eq_div_pow,
        Nat.shiftRight_eq_div_pow]
      omega
    simp only [deviceRead, flashRead, pointer, ok_bind, inside, if_pos sizes, read]
    rfl
  | dummy | rtc | pciHost | plic | clint | uart | virtio => cases memory

/-- Behind what was loaded the flash reads as zero, and the other memories stop the emulator. -/
theorem asReadNommu_past (routed : route rootChildren addr = (device, offset))
    (memory : bus.bank device = some buffer) (valid : validSize size)
    (page : addr.toNat % 4096 + size ≤ 4096) (past : buffer.size < offset.toNat + size)
    (params : Params) :
    if device = .flash then bus.asReadNommu host addr size params = .ok (0, bus)
    else ∃ stop, bus.asReadNommu host addr size params = .error stop := by
  obtain ⟨same, limit, -⟩ := route_page routed memory
  rw [asReadNommu, readFrom_route, routed, valid]
  -- RAM and ROM refuse the access, each in its own way; the flash gives zero.
  cases device with
  | ram =>
    cases memory
    refine ⟨.undefined "read outside an allocated buffer", ?_⟩
    simp only [deviceRead, ramRead, Buffer.read, if_neg (Nat.not_le.mpr past)]
    rfl
  | rom =>
    cases memory
    refine ⟨.panic "_rom_ptr: 0x%llx out of limit 0x%lx\n", ?_⟩
    simp only [deviceRead, romRead, if_pos past]
    rfl
  | flash =>
    cases memory
    have space := limit rfl
    have pointer : flashPtr bus.flash offset size = .ok false := by
      rw [flashPtr, if_neg (by omega), decide_eq_false (Nat.not_le.mpr past)]
    simp only [if_true, deviceRead, flashRead, pointer, ok_bind]
    rfl
  | dummy | rtc | pciHost | plic | clint | uart | virtio => cases memory

/-- Two bytes of memory come from one of the memories. -/
theorem halfword_bank {half : BitVec 16} (found : bus.halfword addr = some half) :
    ∃ device offset buffer, route rootChildren addr = (device, offset) ∧
      bus.bank device = some buffer := by
  cases memory : bus.bank (route rootChildren addr).1 with
  | none => simp [halfword, byteAt, memory] at found
  | some buffer => exact ⟨_, _, buffer, rfl, memory⟩

/-- Two bytes of one page are a word of two bytes, if they lie in what was loaded or allocated. -/
theorem halfword_page (routed : route rootChildren addr = (device, offset))
    (memory : bus.bank device = some buffer) (page : addr.toNat % 4096 + 2 ≤ 4096) :
    bus.halfword addr =
      if offset.toNat + 2 ≤ buffer.size then some (LittleEndian.load 16 buffer.bytes offset 2)
      else none := by
  have low := byteAt_page routed memory 0 (by omega)
  have high := byteAt_page routed memory 1 (by omega)
  simp only [BitVec.add_zero, Nat.add_zero] at low
  have joined : buffer.bytes (offset + 1) ++ buffer.bytes offset =
      LittleEndian.load 16 buffer.bytes offset 2 := by
    apply BitVec.eq_of_getLsbD_eq
    intro i below
    rw [BitVec.getLsbD_append, LittleEndian.getLsbD_load]
    -- The first eight bits are those of the first byte, and the others those of the next.
    by_cases lower : i < 8
    · have place : i / 8 = 0 := by omega
      have bit : i % 8 = i := by omega
      simp [lower, place, bit, below]
    · have place : i / 8 = 1 := by omega
      have bit : i % 8 = i - 8 := by omega
      simp [lower, place, bit, below]
  change bus.byteAt (addr + 1) = _ at high
  rw [halfword, low, high]
  by_cases fits : offset.toNat + 2 ≤ buffer.size
  · rw [if_pos fits, if_pos (by omega), if_pos (by omega), ← joined]
    rfl
  · -- Without room for both bytes there is at least none for the second.
    rw [if_neg fits, if_neg (show ¬ offset.toNat + 1 < buffer.size by omega)]
    split <;> rfl

/-- A read of two bytes of memory in one page returns them. -/
theorem asReadNommu_halfword {half : BitVec 16} (found : bus.halfword addr = some half)
    (page : addr.toNat % 4096 + 2 ≤ 4096) (params : Params) :
    bus.asReadNommu host addr 2 params = .ok (half.setWidth 64, bus) := by
  obtain ⟨device, offset, buffer, routed, memory⟩ := halfword_bank found
  rw [halfword_page routed memory page] at found
  split at found
  · rename_i fits
    cases found
    rw [asReadNommu_bank routed memory rfl page fits, LittleEndian.load_widen (v := 16) (by decide)]
  · cases found

/-- A read of four bytes of memory in one page returns the two halfwords there. -/
theorem asReadNommu_halfwords {low high : BitVec 16} (found : bus.halfword addr = some low)
    (next : bus.halfword (addr + 2) = some high) (page : addr.toNat % 4096 + 4 ≤ 4096)
    (params : Params) :
    bus.asReadNommu host addr 4 params = .ok ((high ++ low).setWidth 64, bus) := by
  obtain ⟨device, offset, buffer, routed, memory⟩ := halfword_bank found
  obtain ⟨-, -, along⟩ := route_page routed memory
  obtain ⟨later, place⟩ := along 2 (by omega)
  have range := addr.isLt
  -- Both halves lie in the page, hence in the region of the first.
  have further : (addr + BitVec.ofNat 64 2).toNat % 4096 + 2 ≤ 4096 := by
    rw [BitVec.toNat_add, BitVec.toNat_ofNat]
    omega
  change bus.halfword (addr + BitVec.ofNat 64 2) = _ at next
  rw [halfword_page later memory further] at next
  rw [halfword_page routed memory (by omega)] at found
  split at next
  · rename_i fits
    rw [if_pos (by omega)] at found
    cases next
    cases found
    rw [asReadNommu_bank routed memory rfl page (by omega)]
    exact congrArg (fun word => Except.ok (word, bus)) (LittleEndian.load_join 2 2)
  · cases next

/-- A read of four bytes of which memory has only the first two returns none of them. -/
theorem asReadNommu_halved {low : BitVec 16} (found : bus.halfword addr = some low)
    (next : bus.halfword (addr + 2) = none) (page : addr.toNat % 4096 + 4 ≤ 4096)
    (params : Params) :
    if (route rootChildren addr).1 = .flash then bus.asReadNommu host addr 4 params = .ok (0, bus)
    else ∃ stop, bus.asReadNommu host addr 4 params = .error stop := by
  obtain ⟨device, offset, buffer, routed, memory⟩ := halfword_bank found
  obtain ⟨-, -, along⟩ := route_page routed memory
  obtain ⟨later, place⟩ := along 2 (by omega)
  have range := addr.isLt
  have further : (addr + BitVec.ofNat 64 2).toNat % 4096 + 2 ≤ 4096 := by
    rw [BitVec.toNat_add, BitVec.toNat_ofNat]
    omega
  change bus.halfword (addr + BitVec.ofNat 64 2) = _ at next
  -- The buffer ends between the two halves.
  rw [halfword_page later memory further] at next
  split at next
  · cases next
  · rw [routed]
    exact asReadNommu_past routed memory rfl page (by omega) params

end Bus

end Xemu
