import Xemu.Isa.Machine
import Xemu.Machine.Banks

/-! The memories on the bus as the memory of a program: what each address holds, and can be used for. -/

namespace Xemu

open AddressSpace

namespace AddressSpace

/-- An offset into a region of the root is routed to the region's device. -/
theorem route_offset {region : AddressSpace} (member : region ∈ rootChildren) {offset : Nat}
    (inside : region.start.toNat + offset ≤ region.last.toNat) :
    route rootChildren (region.start + BitVec.ofNat 64 offset) =
      (region.device, BitVec.ofNat 64 offset) := by
  have last := region.last.isLt
  have place : (region.start + BitVec.ofNat 64 offset).toNat = region.start.toNat + offset := by
    rw [BitVec.toNat_add, BitVec.toNat_ofNat]
    omega
  have within : region.contains (region.start + BitVec.ofNat 64 offset) := by
    simp only [contains, Bool.and_eq_true, decide_eq_true_eq, BitVec.le_def, place]
    omega
  rw [route_contains member within, add_sub_cancel_left]

end AddressSpace

namespace Bus

/-- What a program finds at a physical address, which is zero where nothing was loaded. -/
def content (bus : Bus) (addr : BitVec 64) : BitVec 8 := (bus.byteAt addr).getD 0

/-- What a program can do at each physical address. -/
def layout (bus : Bus) : Isa.Layout where
  code addr := (bus.byteAt addr).isSome
  -- Behind what was loaded the flash still reads, as zero.
  readable addr := (bus.byteAt addr).isSome ∨ (route rootChildren addr).1 = .flash
  writable addr := inRam addr

variable {host : Host} {bus after : Bus} {addr offset : BitVec 64} {device : DeviceId}
  {buffer : Buffer} {size : Nat}

/-- The sizes of the buffers decide which addresses have a byte. -/
theorem byteAt_isSome (bus : Bus) (addr : BitVec 64) :
    (bus.byteAt addr).isSome ↔ ∃ buffer, bus.bank (route rootChildren addr).1 = some buffer ∧
      (route rootChildren addr).2.toNat < buffer.size := by
  dsimp only [byteAt]
  cases bus.bank (route rootChildren addr).1 with
  | none => simp
  | some buffer =>
    simp only [Option.bind_eq_bind, Option.bind_some, Option.some.injEq, exists_eq_left']
    split <;> simp_all

/-- What the bus finds at an offset into the region of a memory. -/
theorem byteAt_offset {region : AddressSpace} (member : region ∈ rootChildren) {buffer : Buffer}
    (memory : bus.bank region.device = some buffer) {offset : Nat}
    (inside : region.start.toNat + offset ≤ region.last.toNat) :
    bus.byteAt (region.start + BitVec.ofNat 64 offset) =
      if offset < buffer.size then some (buffer.bytes (BitVec.ofNat 64 offset)) else none := by
  have last := region.last.isLt
  have small : (BitVec.ofNat 64 offset).toNat = offset := by
    rw [BitVec.toNat_ofNat]
    omega
  simp only [byteAt, route_offset member inside, memory, Option.bind_eq_bind, Option.bind_some,
    small]

/-- Memories of the same sizes have the same layout. -/
theorem layout_congr (rom : after.rom.size = bus.rom.size) (flash : after.flash.size = bus.flash.size)
    (ram : after.ram.size = bus.ram.size) : after.layout = bus.layout := by
  have same : ∀ addr, (after.byteAt addr).isSome ↔ (bus.byteAt addr).isSome := by
    intro addr
    rw [byteAt_isSome, byteAt_isSome]
    cases (route rootChildren addr).1 with
    | rom => simp [bank, rom]
    | flash => simp [bank, flash]
    | ram => simp [bank, ram]
    | _ => simp [bank]
  ext addr
  · exact same addr
  · exact or_congr_left (same addr)
  · exact Iff.rfl

/-! ### Aligned accesses -/

/-- An aligned access of up to eight bytes does not reach past the end of a page. -/
theorem aligned_page (valid : validSize size) (aligned : addr.toNat % size = 0) :
    addr.toNat % 4096 + size ≤ 4096 := by
  simp only [validSize, Bool.or_eq_true, beq_iff_eq] at valid
  rcases valid with ((rfl | rfl) | rfl) | rfl <;> omega

/-- The bytes of an access within a page are those of one buffer. -/
theorem content_page (routed : route rootChildren addr = (device, offset))
    (memory : bus.bank device = some buffer) (page : addr.toNat % 4096 + size ≤ 4096)
    (fits : offset.toNat + size ≤ buffer.size) (w : Nat) :
    LittleEndian.load w buffer.bytes offset size = LittleEndian.load w bus.content addr size := by
  refine LittleEndian.load_congr fun index below => ?_
  rw [content, byteAt_page routed memory index (by omega), if_pos (by omega)]
  rfl

/-- An aligned access that does not fit in whole doublewords begins behind them. -/
theorem aligned_past (valid : validSize size) {total place : Nat} (whole : total % 8 = 0)
    (aligned : place % size = 0) (past : total < place + size) : total ≤ place := by
  simp only [validSize, Bool.or_eq_true, beq_iff_eq] at valid
  rcases valid with ((rfl | rfl) | rfl) | rfl <;> omega

/-- Behind what was loaded into the flash a program reads zeros. -/
theorem asReadNommu_erased (routed : route rootChildren addr = (.flash, offset))
    (valid : validSize size) (page : addr.toNat % 4096 + size ≤ 4096)
    (behind : bus.flash.size ≤ offset.toNat) (params : Params) :
    bus.asReadNommu host addr size params =
      .ok (LittleEndian.load 64 bus.content addr size, bus) := by
  have memory : bus.bank .flash = some bus.flash := rfl
  have bounds := validSize_bounds valid
  have past := @asReadNommu_past host bus addr offset .flash bus.flash size routed memory valid page
    (by omega) params
  rw [if_pos rfl] at past
  -- The bytes are behind the size, where a program finds zeros too.
  have zeros : LittleEndian.load 64 bus.content addr size =
      LittleEndian.load 64 (fun _ : BitVec 64 => 0#8) addr size := by
    refine LittleEndian.load_congr fun index below => ?_
    rw [content, byteAt_page routed memory index (by omega), if_neg (by omega)]
    rfl
  have zero : LittleEndian.load 64 (fun _ : BitVec 64 => 0#8) addr size = 0 := by
    apply BitVec.eq_of_getLsbD_eq
    intro i below
    simp [LittleEndian.getLsbD_load]
  rw [past, zeros, zero]

/-- A read of memory that a program can make gives what it finds there. -/
theorem asReadNommu_content (flash : bus.flash.size % 8 = 0) (valid : validSize size)
    (inside : Isa.Aligned bus.layout.readable addr size) (params : Params) :
    bus.asReadNommu host addr size params =
      .ok (LittleEndian.load 64 bus.content addr size, bus) := by
  obtain ⟨aligned, bytes⟩ := inside
  have page := aligned_page valid aligned
  have bounds := validSize_bounds valid
  rcases routed : route rootChildren addr with ⟨device, offset⟩
  have first : (bus.byteAt addr).isSome ∨ device = .flash := by
    have zero := bytes 0 bounds.1
    simpa only [layout, BitVec.ofNat_eq_ofNat, BitVec.add_zero, routed] using zero
  cases memory : bus.bank device with
  | none =>
    -- Every readable address is one of a memory.
    rcases first with present | rfl
    · obtain ⟨buffer, found, -⟩ := (byteAt_isSome bus addr).mp present
      rw [routed, memory] at found
      cases found
    · cases memory
  | some buffer =>
    by_cases fits : offset.toNat + size ≤ buffer.size
    · rw [asReadNommu_bank routed memory valid page fits, content_page routed memory page fits]
    · -- The last byte is not there, which only the flash allows.
      obtain ⟨place, -, along⟩ := route_page routed memory
      obtain ⟨later, distance⟩ := along (size - 1) (by omega)
      have absent : bus.byteAt (addr + BitVec.ofNat 64 (size - 1)) = none := by
        rw [byteAt_page routed memory _ (by omega), if_neg (by omega)]
      have named : device = .flash := by
        rcases bytes (size - 1) (by omega) with present | named
        · rw [absent] at present
          cases present
        · rw [later] at named
          exact named
      subst named
      cases memory
      have start : offset.toNat % size = 0 := by
        simp only [validSize, Bool.or_eq_true, beq_iff_eq] at valid
        rcases valid with ((rfl | rfl) | rfl) | rfl <;> omega
      exact asReadNommu_erased routed valid page (aligned_past valid flash start (by omega)) params

/-! ### Stores -/

/-- A program finds in RAM what is stored there. -/
theorem content_ram (whole : bus.ram.size = ramSize) (inside : inRam addr) :
    bus.content addr = bus.memory addr := by
  have offset : (addr - ramStart).toNat < ramSize := by
    have first := inside.1
    have last := inside.2
    rw [BitVec.le_def] at first last
    rw [BitVec.toNat_sub_of_le inside.1]
    change addr.toNat ≤ 0xFFFFFFFF at last
    change addr.toNat - 0x80000000 < 0x80000000
    omega
  simp only [content, byteAt, route_ram inside, bank, Option.bind_eq_bind, Option.bind_some, whole,
    if_pos offset]
  rfl

/-- What lies outside of RAM does not change with it. -/
theorem content_setMemory_outside (mem : BitVec 64 → BitVec 8) (outside : ¬ inRam addr) :
    (bus.setMemory mem).content addr = bus.content addr := by
  -- The region of RAM is the only one that leads there.
  have other : (route rootChildren addr).1 ≠ .ram := by
    intro taken
    obtain ⟨region, member, within, found⟩ := exists_contains (by rw [taken]; exact by decide)
    have bounds : ∀ region ∈ rootChildren, region.device = .ram →
        region.start = ramStart ∧ region.last = ramLast := by decide
    rw [found] at taken
    obtain ⟨start, last⟩ := bounds region member taken
    simp only [contains, start, last, Bool.and_eq_true, decide_eq_true_eq] at within
    exact outside within
  have banks : (bus.setMemory mem).bank (route rootChildren addr).1 =
      bus.bank (route rootChildren addr).1 := by
    cases device : (route rootChildren addr).1 with
    | ram => exact absurd device other
    | _ => rfl
  simp only [content, byteAt, banks]

/-- A store into RAM is the store that a program sees. -/
theorem content_store (whole : bus.ram.size = ramSize) (placed : InMemory addr size)
    (data : BitVec 64) :
    (bus.setMemory (LittleEndian.store bus.memory addr size data)).content =
      LittleEndian.store bus.content addr size data := by
  funext at_
  by_cases inside : inRam at_
  · rw [content_ram ((bus.size_setMemory _).trans whole) inside, memory_setMemory]
    simp only [LittleEndian.store, content_ram whole inside]
  · -- The bytes that are stored all lie in RAM.
    have far : size ≤ (at_ - addr).toNat := by
      by_contra near
      have before := placed.first
      have after := placed.last
      have place : at_.toNat = addr.toNat + (at_ - addr).toNat := by
        have back : at_ = addr + (at_ - addr) := by rw [add_sub_cancel]
        have sum := congrArg BitVec.toNat back
        rw [BitVec.toNat_add] at sum
        omega
      refine inside ⟨?_, ?_⟩
      · rw [BitVec.le_def]
        change 0x80000000 ≤ at_.toNat
        omega
      · rw [BitVec.le_def]
        change at_.toNat ≤ 0xFFFFFFFF
        omega
    rw [content_setMemory_outside _ inside, LittleEndian.store_outside far]

/-- A store that a program can make lies in RAM with all its bytes. -/
theorem inMemory_of_writable (valid : validSize size)
    (inside : Isa.Aligned bus.layout.writable addr size) : InMemory addr size := by
  have bounds := validSize_bounds valid
  have page := aligned_page valid inside.1
  have first : inRam (addr + BitVec.ofNat 64 0) := inside.2 0 bounds.1
  have last : inRam (addr + BitVec.ofNat 64 (size - 1)) := inside.2 (size - 1) (by omega)
  have start := first.1
  have stop := last.2
  rw [BitVec.le_def] at start stop
  rw [BitVec.toNat_add, BitVec.toNat_ofNat] at start stop
  have range := addr.isLt
  change 0x80000000 ≤ (addr.toNat + 0 % 2 ^ 64) % 2 ^ 64 at start
  change (addr.toNat + (size - 1) % 2 ^ 64) % 2 ^ 64 ≤ 0xFFFFFFFF at stop
  exact ⟨by omega, by omega⟩

/-! ### Instructions -/

/-- Two bytes that a program can execute are a halfword of memory. -/
theorem halfword_content (low : bus.layout.code addr) (high : bus.layout.code (addr + 1)) :
    bus.halfword addr = some (LittleEndian.load 16 bus.content addr 2) := by
  obtain ⟨lowByte, foundLow⟩ := Option.isSome_iff_exists.mp low
  obtain ⟨highByte, foundHigh⟩ := Option.isSome_iff_exists.mp high
  have joined : LittleEndian.load 16 bus.content addr 2 = highByte ++ lowByte := by
    change bus.byteAt (addr + 1#64) = _ at foundHigh
    rw [LittleEndian.load_join 1 1]
    simp [LittleEndian.load, content, foundLow, foundHigh]
  rw [halfword, foundLow, foundHigh, joined]
  rfl

end Bus

end Xemu
