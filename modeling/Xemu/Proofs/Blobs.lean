import Xemu.Machine.Blob
import Xemu.Machine.Mmu

/-! A blob put into RAM is what one byte store after another would leave, and reads back the same. -/

namespace Xemu

namespace Bus

/-- One single-byte store for each byte of a list, each at the next address. -/
def storeBytes (write : Writer) (bus : Bus) (addr : BitVec 64) :
    List (BitVec 8) → Except Stop Bus
  | [] => .ok bus
  | byte :: rest => do
    let bus ← write bus addr 1 (byte.setWidth 64)
    storeBytes write bus (addr + 1) rest

/-- The lowest byte of a widened byte is the byte. -/
theorem ofWord_byte (byte : BitVec 8) : Bytes.ofWord (byte.setWidth 64) 1 = [byte] := by
  simp [Bytes.ofWord]

/-- Single-byte stores to RAM put the bytes there, one behind the other. -/
theorem storeBytes_memory {write : Writer} (plain : write.Plain) {bus : Bus}
    (whole : bus.ram.size = ramSize) {addr : BitVec 64} (data : List (BitVec 8))
    (placed : InMemory addr data.length) :
    storeBytes write bus addr data = .ok (bus.setMemory (Bytes.put bus.memory addr data)) := by
  -- By induction on the bytes that are left, from any memory and any address.
  induction data generalizing bus addr with
  | nil => simp [storeBytes]
  | cons byte rest ih =>
    have parts : (byte :: rest).length = 1 + rest.length := Nat.add_comm ..
    rw [parts] at placed
    have last := placed.last
    have stored := plain bus addr 1 (byte.setWidth 64) whole rfl placed.front
    have later := ih ((size_setMemory bus (Bytes.put bus.memory addr [byte])).trans whole)
      placed.back
    -- The byte and the ones behind it are one list.
    have joined := Bytes.put_append bus.memory addr [byte] rest (by
      simp only [List.length_singleton]
      omega)
    rw [Bytes.store_eq_put, ofWord_byte] at stored
    simp only [List.length_singleton, List.singleton_append] at joined
    rw [storeBytes, stored, ok_bind]
    refine later.trans ?_
    simp only [memory_setMemory, setMemory_setMemory, joined]

/-- What a list of bytes left in memory is read back as that list. -/
theorem get_put {mem : BitVec 64 → BitVec 8} {addr : BitVec 64} {data : List (BitVec 8)}
    (fits : data.length ≤ 2 ^ 64) : Bytes.get (Bytes.put mem addr data) addr data.length = data := by
  -- The two lists are as long as each other, and agree at every position.
  refine List.ext_getElem (Bytes.length_get ..) fun index _ inside => ?_
  simp only [Bytes.get, List.getElem_map, List.getElem_range]
  exact Bytes.put_inside inside fits

end Bus

/--
A blob written to RAM leaves what as many single-byte stores leave, and is read back as it was.

The bytes of the range are those of the blob, and nothing else on the bus changes.
-/
theorem blob_written_bytewise (host : Host) (fuel : Nat) (bus : Bus)
    (whole : bus.ram.size = ramSize) (addr : BitVec 64) (data : List (BitVec 8))
    (aligned : addr.toNat % 8 = 0) (placed : InMemory addr data.length) :
    ∃ after, Bus.asWriteBlob (Bus.nestedWriter host (fuel + 1)) bus addr data = .ok after ∧
      Bus.storeBytes (Bus.nestedWriter host (fuel + 1)) bus addr data = .ok after ∧
      after = bus.setMemory after.memory ∧
      (∀ (index : Nat) (inside : index < data.length),
        after.memory (addr + BitVec.ofNat 64 index) = data[index]) ∧
      (∀ at_, data.length ≤ (at_ - addr).toNat → after.memory at_ = bus.memory at_) ∧
      after.asReadBlob host addr data.length = .ok (data, after) := by
  have plain := Bus.nestedWriter_plain host (Nat.succ_pos fuel)
  have last := placed.last
  have fits : data.length ≤ 2 ^ 64 := by omega
  refine ⟨bus.setMemory (Bytes.put bus.memory addr data),
    Bus.asWriteBlob_memory plain whole data aligned placed,
    Bus.storeBytes_memory plain whole data placed, ?_, ?_, ?_, ?_⟩
  · rw [Bus.memory_setMemory]
  · intro index inside
    rw [Bus.memory_setMemory]
    exact Bytes.put_inside inside fits
  · intro at_ outside
    rw [Bus.memory_setMemory]
    exact Bytes.put_outside outside
  · -- Reading takes the bytes that were put there, from a memory that stays as it is.
    rw [Bus.asReadBlob_memory ((Bus.size_setMemory _ _).trans whole) host aligned placed,
      Bus.memory_setMemory, Bus.get_put fits]

/-- Eleven bytes, one doubleword and three bytes of them, written up to the end of RAM. -/
theorem blob_written_bytewise_eleven :
    let bus := (Machine.reset (.zeroed 0) (.zeroed 0) (.zeroed 0)).bus
    let data : List (BitVec 8) := [1, 2, 3, 4, 5, 6, 7, 8, 9, 10, 11]
    ∃ after, Bus.asWriteBlob (Bus.nestedWriter {} 1) bus 0xFFFFFFF0 data = .ok after ∧
      Bus.storeBytes (Bus.nestedWriter {} 1) bus 0xFFFFFFF0 data = .ok after ∧
      after = bus.setMemory after.memory ∧
      (∀ (index : Nat) (inside : index < data.length),
        after.memory (0xFFFFFFF0 + BitVec.ofNat 64 index) = data[index]) ∧
      (∀ at_, data.length ≤ (at_ - 0xFFFFFFF0).toNat → after.memory at_ = bus.memory at_) ∧
      after.asReadBlob {} 0xFFFFFFF0 data.length = .ok (data, after) :=
  blob_written_bytewise {} 0 _ rfl _ _ rfl (by decide)

end Xemu
