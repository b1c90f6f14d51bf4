import Xemu.Lib.Bytes
import Xemu.Machine.Ram

/-! Guest memory by physical address, and the blobs the block device copies from it and to it. -/

namespace Xemu

/-- A stretch of addresses that lies in RAM. -/
structure InMemory (addr : BitVec 64) (count : Nat) : Prop where
  /-- It starts in RAM. -/
  first : 0x80000000 ≤ addr.toNat
  /-- It ends in RAM. -/
  last : addr.toNat + count ≤ 0x100000000

namespace InMemory

instance (addr : BitVec 64) (count : Nat) : Decidable (InMemory addr count) :=
  decidable_of_iff (0x80000000 ≤ addr.toNat ∧ addr.toNat + count ≤ 0x100000000)
    ⟨fun both => ⟨both.1, both.2⟩, fun placed => ⟨placed.first, placed.last⟩⟩

variable {addr : BitVec 64} {count more : Nat}

/-- The front of a stretch in RAM. -/
theorem front (placed : InMemory addr (count + more)) : InMemory addr count :=
  ⟨placed.first, by have := placed.last; omega⟩

/-- The address some way along a stretch in RAM, as a number. -/
theorem toNat_add (placed : InMemory addr (count + more)) :
    (addr + BitVec.ofNat 64 count).toNat = addr.toNat + count := by
  have last := placed.last
  rw [BitVec.toNat_add, BitVec.toNat_ofNat]
  omega

/-- The back of a stretch in RAM. -/
theorem back (placed : InMemory addr (count + more)) :
    InMemory (addr + BitVec.ofNat 64 count) more := by
  have first := placed.first
  have last := placed.last
  exact ⟨by rw [placed.toNat_add]; omega, by rw [placed.toNat_add]; omega⟩

/-- A part of a stretch in RAM. -/
theorem part {size from_ : Nat} (placed : InMemory addr size) (inside : from_ + count ≤ size) :
    InMemory (addr + BitVec.ofNat 64 from_) count := by
  -- Behind the part there may be more of the stretch.
  have split : size = from_ + (count + (size - from_ - count)) := by omega
  rw [split] at placed
  exact placed.back.front

/-- The bus takes the start of a stretch in RAM to RAM. -/
theorem inRam (placed : InMemory addr count) (some : 0 < count) : inRam addr := by
  have first := placed.first
  have last := placed.last
  constructor
  · rw [BitVec.le_def]
    exact first
  · rw [BitVec.le_def]
    change addr.toNat ≤ 0xFFFFFFFF
    omega

/-- The offset of a stretch in RAM, as a number. -/
theorem toNat_offset (placed : InMemory addr count) :
    (addr - ramStart).toNat = addr.toNat - 0x80000000 := by
  rw [BitVec.toNat_sub_of_le (by rw [BitVec.le_def]; exact placed.first)]
  rfl

end InMemory

namespace Bus

/-- The bytes of RAM by their physical addresses. -/
def memory (bus : Bus) : BitVec 64 → BitVec 8 := fun addr => bus.ram.bytes (addr - ramStart)

/-- The devices after other bytes were put into RAM. -/
def setMemory (bus : Bus) (mem : BitVec 64 → BitVec 8) : Bus :=
  { bus with ram.bytes := fun offset => mem (offset + ramStart) }

variable (bus : Bus) (mem other : BitVec 64 → BitVec 8)

/-- RAM holds what it was filled with. -/
@[simp] theorem memory_setMemory : (bus.setMemory mem).memory = mem := by
  funext addr
  simp [memory, setMemory]

/-- RAM filled with what it holds is as it was. -/
@[simp] theorem setMemory_memory : bus.setMemory bus.memory = bus := by
  simp [memory, setMemory]

/-- The last filling of RAM counts. -/
@[simp] theorem setMemory_setMemory :
    (bus.setMemory mem).setMemory other = bus.setMemory other := by
  simp only [setMemory]

/-- RAM keeps its size. -/
@[simp] theorem size_setMemory : (bus.setMemory mem).ram.size = bus.ram.size := by
  simp only [setMemory]

/-- The block device is no part of RAM. -/
@[simp] theorem blk_setMemory : (bus.setMemory mem).blk = bus.blk := by
  simp only [setMemory]

/-- Nor is ROM. -/
@[simp] theorem rom_setMemory : (bus.setMemory mem).rom = bus.rom := by
  simp only [setMemory]

/-- Nor is flash. -/
@[simp] theorem flash_setMemory : (bus.setMemory mem).flash = bus.flash := by
  simp only [setMemory]

/-- Nor is the interrupt controller. -/
@[simp] theorem plic_setMemory : (bus.setMemory mem).plic = bus.plic := by
  simp only [setMemory]

/-- A change of the block device leaves the memory as it was. -/
@[simp] theorem memory_blk (blk : VirtioBlk) : { bus with blk }.memory = bus.memory := rfl

/-- A change of the interrupt controller leaves the memory as it was. -/
@[simp] theorem memory_plic (plic : Plic) : { bus with plic }.memory = bus.memory := rfl

variable {bus mem}

/-- Devices with the same memories have the same bytes in RAM. -/
theorem SameMemory.memory {after : Bus} (same : bus.SameMemory after) :
    after.memory = bus.memory := by
  unfold Bus.memory
  rw [same.ram]

/-- A word loaded from RAM by its offset is the word at its address. -/
theorem load_memory (w : Nat) (addr : BitVec 64) (count : Nat) :
    LittleEndian.load w bus.ram.bytes (addr - ramStart) count =
      LittleEndian.load w bus.memory addr count := by
  induction count generalizing addr with
  | zero => rfl
  | succ count ih =>
    -- The next byte is one further on, by offset and by address.
    have along : addr - ramStart + 1 = addr + 1 - ramStart := by
      rw [add_sub_right_comm]
    simp only [LittleEndian.load, along, ih]
    rfl

/-- Memory after a word was stored in RAM by its offset. -/
theorem memory_of_stored {w : Nat} {after : Bus} {addr : BitVec 64} {count : Nat} {data : BitVec w}
    (stored : after.ram.bytes = LittleEndian.store bus.ram.bytes (addr - ramStart) count data) :
    after.memory = LittleEndian.store bus.memory addr count data := by
  funext at_
  have distance : at_ - ramStart - (addr - ramStart) = at_ - addr := sub_sub_sub_cancel_right ..
  simp only [memory, stored, LittleEndian.store, distance]

/-- A word stored in RAM by its offset is stored at its address. -/
theorem store_memory {w : Nat} (addr : BitVec 64) (count : Nat) (data : BitVec w) :
    { bus with ram.bytes := LittleEndian.store bus.ram.bytes (addr - ramStart) count data } =
      bus.setMemory (LittleEndian.store bus.memory addr count data) := by
  have same : LittleEndian.store bus.ram.bytes (addr - ramStart) count data =
      fun offset => LittleEndian.store bus.memory addr count data (offset + ramStart) := by
    funext offset
    have distance : offset + ramStart - addr = offset - (addr - ramStart) := by
      rw [sub_sub_eq_add_sub]
    simp [LittleEndian.store, distance, memory]
  rw [setMemory, same]

/-- A read of RAM returns the word there. -/
theorem asReadNommu_memory {host : Host} (whole : bus.ram.size = ramSize) {addr : BitVec 64}
    {size : Nat} (valid : validSize size) (placed : InMemory addr size) (params : Params) :
    bus.asReadNommu host addr size params =
      .ok (LittleEndian.load 64 bus.memory addr size, bus) := by
  -- The stretch is inside the array, so the bounds of the read hold.
  have last := placed.last
  have fits : (addr - ramStart).toNat + size ≤ bus.ram.size := by
    rw [placed.toNat_offset, whole]
    change addr.toNat - 0x80000000 + size ≤ 0x80000000
    have first := placed.first
    omega
  rw [asReadNommu_ram valid (placed.inRam (validSize_bounds valid).1), Buffer.read, if_pos fits,
    load_memory]
  rfl

/-- A write of RAM returns the word that was there, unless it is conditional, and updates it. -/
theorem asWriteNommuWith_update {host : Host} (whole : bus.ram.size = ramSize)
    {addr data : BitVec 64} {size : Nat} {params : Params} (valid : validSize size)
    (placed : InMemory addr size) (unconditional : params ≠ .lrSc) (write : Writer) (fuel : Nat) :
    bus.asWriteNommuWith host write fuel addr size data params =
      .ok (LittleEndian.load 64 bus.memory addr size,
        bus.setMemory (LittleEndian.store bus.memory addr size
          (ramWord (LittleEndian.load 64 bus.memory addr size) data size params))) := by
  -- The address selects RAM, and the whole word fits behind its offset there.
  have last := placed.last
  have first := placed.first
  have fits : (addr - ramStart).toNat + size ≤ bus.ram.size := by
    rw [placed.toNat_offset, whole]
    change addr.toNat - 0x80000000 + size ≤ 0x80000000
    omega
  have inside := placed.inRam (validSize_bounds valid).1
  have stored : ramWrite bus.ram (addr - ramStart) data size params =
      .ok (LittleEndian.load 64 bus.memory addr size, { bus.ram with
        bytes := LittleEndian.store bus.ram.bytes (addr - ramStart) size
          (ramWord (LittleEndian.load 64 bus.memory addr size) data size params) }) := by
    rw [ramWrite_eq, if_pos unconditional, Buffer.read, if_pos fits, ok_bind, Buffer.write,
      if_pos fits, ok_bind, load_memory]
    rfl
  rw [asWriteNommuWith, writeFrom_route, AddressSpace.route_ram inside, valid]
  simp only [deviceWrite, stored, ← store_memory]
  rfl

/-- A plain write of RAM returns the word that was there and puts the new one there. -/
theorem asWriteNommuWith_memory {host : Host} (whole : bus.ram.size = ramSize)
    {addr data : BitVec 64} {size : Nat} (valid : validSize size) (placed : InMemory addr size)
    (write : Writer) (fuel : Nat) :
    bus.asWriteNommuWith host write fuel addr size data .none =
      .ok (LittleEndian.load 64 bus.memory addr size,
        bus.setMemory (LittleEndian.store bus.memory addr size data)) := by
  rw [asWriteNommuWith_update whole valid placed (by decide), store_ramWord_plain (.inl rfl)]

/-! ### Writers -/

/-- What is asked of the writer of the block device where it reaches RAM. -/
def Writer.Plain (write : Writer) : Prop :=
  ∀ (bus : Bus) (addr : BitVec 64) (size : Nat) (data : BitVec 64), bus.ram.size = ramSize →
    validSize size → InMemory addr size →
      write bus addr size data = .ok (bus.setMemory (LittleEndian.store bus.memory addr size data))

/-- The bus itself is such a writer, if its stores may do any queue work. -/
theorem nestedWriter_plain (host : Host) {fuel : Nat} (some : 0 < fuel) :
    (nestedWriter host fuel).Plain := by
  obtain ⟨fuel, rfl⟩ := Nat.exists_eq_succ_of_ne_zero some.ne'
  intro bus addr size data whole valid placed
  change (asWriteNommuWith host (nestedWriter host fuel) fuel bus addr size data .none >>=
    fun result => .ok result.2) = _
  rw [asWriteNommuWith_memory whole valid placed, ok_bind]

/-! ### Blobs -/

section Blobs

variable {host : Host} (whole : bus.ram.size = ramSize)

include whole

/-- Equal chunks read from RAM are the bytes there. -/
theorem readChunks_memory {chunk : Nat} (valid : validSize chunk) (left : Nat) {addr : BitVec 64}
    (placed : InMemory addr (chunk * left)) :
    readChunks host chunk left bus addr = .ok (Bytes.get bus.memory addr (chunk * left), bus) := by
  -- One word at a time, each read from the memory as it was.
  induction left generalizing addr with
  | zero => rfl
  | succ left ih =>
    have parts : chunk * (left + 1) = chunk + chunk * left := by rw [Nat.mul_succ, Nat.add_comm]
    rw [parts] at placed ⊢
    have wide := (validSize_bounds valid).2
    have word : wordBytes (LittleEndian.load 64 bus.memory addr chunk) chunk =
        Bytes.get bus.memory addr chunk := Bytes.ofWord_load (by omega)
    rw [readChunks, asReadNommu_memory whole valid placed.front, ok_bind]
    simp only [ih placed.back, word, Bytes.get_add]
    rfl

/-- A blob read from RAM is the bytes there. -/
theorem asReadBlob_memory (host : Host) {addr : BitVec 64} {size : Nat} (aligned : addr.toNat % 8 = 0)
    (placed : InMemory addr size) :
    bus.asReadBlob host addr size = .ok (Bytes.get bus.memory addr size, bus) := by
  have parts : 8 * (size / 8) + 1 * (size % 8) = size := by omega
  rw [← parts] at placed
  rw [asReadBlob, if_neg (not_not.mpr aligned), readChunks_memory whole rfl _ placed.front, ok_bind]
  simp only [Nat.mul_comm (size / 8) 8, readChunks_memory whole (rfl : validSize 1) _ placed.back,
    ok_bind, pure_eq_ok, ← Bytes.get_add, parts]

end Blobs

/-- The bytes of a word taken off a list are the front of the list. -/
theorem ofWord_bytesWord {data : List (BitVec 8)} {chunk : Nat} (narrow : chunk ≤ 8)
    (enough : chunk ≤ data.length) :
    Bytes.ofWord (bytesWord data 0 chunk) chunk = data.take chunk := by
  rw [bytesWord, Bytes.ofWord_load (by omega)]
  -- Byte by byte, the offset is small enough not to wrap around.
  refine List.ext_getElem (by simp [enough]) fun index inside _ => ?_
  have reached : index < chunk := by simpa using inside
  have small : (0 + BitVec.ofNat 64 index).toNat = index := by
    rw [zero_add, BitVec.toNat_ofNat]
    exact Nat.mod_eq_of_lt (by omega)
  rw [List.getElem_take]
  simp only [Bytes.get, List.getElem_map, List.getElem_range, small]
  exact List.getD_eq_getElem _ _ (by omega)

/-- Equal chunks written to RAM put the front of the list there. -/
theorem writeChunks_memory {write : Writer} (plain : write.Plain) {chunk : Nat}
    (valid : validSize chunk) (left : Nat) (bus : Bus) (whole : bus.ram.size = ramSize)
    {addr : BitVec 64} (placed : InMemory addr (chunk * left)) (data : List (BitVec 8))
    (enough : chunk * left ≤ data.length) :
    writeChunks write chunk left bus addr data =
      .ok (bus.setMemory (Bytes.put bus.memory addr (data.take (chunk * left)))) := by
  induction left generalizing bus addr data with
  | zero => simp [writeChunks]
  | succ left ih =>
    have parts : chunk * (left + 1) = chunk + chunk * left := by rw [Nat.mul_succ, Nat.add_comm]
    rw [parts] at placed enough ⊢
    have wide := (validSize_bounds valid).2
    have last := placed.last
    have rest : chunk * left ≤ (data.drop chunk).length := by
      rw [List.length_drop]
      omega
    rw [writeChunks, plain bus addr chunk _ whole valid placed.front, ok_bind,
      ih _ ((size_setMemory _ _).trans whole) placed.back _ rest, Bytes.store_eq_put, ofWord_bytesWord wide (by omega)]
    -- The chunk and the bytes behind it are one stretch of the list.
    have front : (data.take chunk).length = chunk := by
      rw [List.length_take]
      omega
    have joined := Bytes.put_append bus.memory addr (data.take chunk)
      ((data.drop chunk).take (chunk * left)) (by simp only [front, List.length_take]; omega)
    rw [front] at joined
    simp only [memory_setMemory, setMemory_setMemory, joined, ← List.take_add]

/-- A blob written to RAM puts its bytes there. -/
theorem asWriteBlob_memory {write : Writer} (plain : write.Plain) {bus : Bus}
    (whole : bus.ram.size = ramSize) {addr : BitVec 64} (data : List (BitVec 8))
    (aligned : addr.toNat % 8 = 0) (placed : InMemory addr data.length) :
    asWriteBlob write bus addr data = .ok (bus.setMemory (Bytes.put bus.memory addr data)) := by
  have parts : 8 * (data.length / 8) + 1 * (data.length % 8) = data.length := by omega
  have last := placed.last
  rw [← parts] at placed
  have front : (data.take (8 * (data.length / 8))).length = 8 * (data.length / 8) := by
    rw [List.length_take]
    omega
  have back : (data.drop (8 * (data.length / 8))).length = 1 * (data.length % 8) := by
    rw [List.length_drop]
    omega
  -- The doublewords first, then the bytes that are left over.
  rw [asWriteBlob, if_neg (not_not.mpr aligned)]
  simp only [Nat.mul_comm (data.length / 8) 8]
  rw [writeChunks_memory plain rfl _ bus whole placed.front data (by omega), ok_bind,
    writeChunks_memory plain rfl _ _ ((size_setMemory _ _).trans whole) placed.back _ back.ge, ← back, List.take_length]
  have joined := Bytes.put_append bus.memory addr (data.take (8 * (data.length / 8)))
    (data.drop (8 * (data.length / 8))) (by omega)
  rw [front, List.take_append_drop] at joined
  simp only [memory_setMemory, setMemory_setMemory, joined]

end Bus

end Xemu
