import Xemu.Lib.LastWritten
import Xemu.Machine.Accesses
import Xemu.Machine.Blob
import Xemu.Machine.Program

/-! RAM holds bytes: loads find what stores of any width and alignment last put there. -/

namespace Xemu

/-! ### Histories of accesses -/

/-- A plain access of the bus. -/
inductive RamEvent where
  | store (addr data : BitVec 64) (size : Nat)
  | load (addr : BitVec 64) (size : Nat)

namespace RamEvent

/-- The effect of an access on the devices. -/
def next (host : Host) (event : RamEvent) (bus : Bus) : Except Stop Bus :=
  match event with
  | store addr data size => (bus.asWriteNommu host addr size data .none).map fun result => result.2
  | load addr size => (bus.asReadNommu host addr size .none).map fun result => result.2

/-- The access has a width the bus admits, and lies in RAM with all its bytes. -/
def Inside : RamEvent → Prop
  | store addr _ size => Bus.validSize size ∧ InMemory addr size
  | load addr size => Bus.validSize size ∧ InMemory addr size

/-- The byte an access puts at an address, if it puts one there. -/
def written : RamEvent → BitVec 64 → Option (BitVec 8)
  | store addr data size, at_ =>
    -- Byte by byte the word goes to the addresses from the first one on, its lowest byte first.
    if (at_ - addr).toNat < size then some ((data >>> (8 * (at_ - addr).toNat)).setWidth 8)
    else none
  | load _ _, _ => none

variable {host : Host} {bus : Bus} {event : RamEvent} {events : List RamEvent}

/-- An access inside RAM completes, and changes at most bytes of RAM. -/
theorem next_inside (whole : bus.ram.size = ramSize) (inside : event.Inside) :
    ∃ mem, next host event bus = .ok (bus.setMemory mem) ∧
      ∀ at_, mem at_ = (event.written at_).getD (bus.memory at_) := by
  -- A store replaces the bytes of its range, a load none.
  cases event with
  | store addr data size =>
    obtain ⟨valid, placed⟩ := inside
    refine ⟨LittleEndian.store bus.memory addr size data, ?_, fun at_ => ?_⟩
    · rw [next, Bus.asWriteNommu, Bus.asWriteNommuWith_memory whole valid placed]
      rfl
    · rw [written, LittleEndian.store]
      split <;> rfl
  | load addr size =>
    obtain ⟨valid, placed⟩ := inside
    refine ⟨bus.memory, ?_, fun at_ => rfl⟩
    rw [next, Bus.asReadNommu_memory whole valid placed, Bus.setMemory_memory]
    rfl

/-- A history of accesses inside RAM completes, and changes at most bytes of RAM. -/
theorem run_inside (whole : bus.ram.size = ramSize) (inside : ∀ event ∈ events, event.Inside) :
    ∃ mem, Runs.run (next host) bus events = .ok (bus.setMemory mem) := by
  induction events generalizing bus with
  | nil => exact ⟨bus.memory, by rw [Runs.run_nil, Bus.setMemory_memory]⟩
  | cons event rest ih =>
    obtain ⟨mem, stepped, -⟩ := @next_inside host bus event whole (inside event List.mem_cons_self)
    have size : (bus.setMemory mem).ram.size = ramSize := (Bus.size_setMemory _ _).trans whole
    obtain ⟨last, ran⟩ := ih size fun other member => inside other (List.mem_cons_of_mem _ member)
    exact ⟨last, by rw [Runs.run_cons_ok stepped, ran, Bus.setMemory_setMemory]⟩

/-- After such a history every byte of RAM is the one last stored there. -/
theorem run_memory {final : Bus} (whole : bus.ram.size = ramSize)
    (inside : ∀ event ∈ events, event.Inside)
    (ran : Runs.run (next host) bus events = .ok final) (at_ : BitVec 64) :
    final.memory at_ = (Runs.lastWritten written events at_).getD (bus.memory at_) := by
  have along : Runs.Along (next host) (fun event _ => event.Inside) bus events := by
    clear ran whole
    induction events generalizing bus with
    | nil => trivial
    | cons event rest ih =>
      exact ⟨inside event List.mem_cons_self, fun after _ =>
        ih fun other member => inside other (List.mem_cons_of_mem _ member)⟩
  refine (Runs.run_lastWritten (fun bus : Bus => bus.ram.size = ramSize) (fun _ => True)
    Bus.memory ?_ whole along ran).2 at_ trivial
  -- One access keeps the size of RAM and writes the bytes of its event.
  intro event bus after whole inside stepped
  obtain ⟨mem, reached, bytes⟩ := next_inside whole inside
  cases Except.ok.inj (reached.symm.trans stepped)
  exact ⟨(Bus.size_setMemory _ _).trans whole, fun at_ _ => by rw [Bus.memory_setMemory, bytes]⟩

end RamEvent

/-! ### Loads and stores of the guest -/

/-- The width of an integer load, and whether it extends the sign of what it reads. -/
def Op.loadKind : Op → Option (Nat × Bool)
  | .lb => some (1, true)
  | .lh => some (2, true)
  | .lw => some (4, true)
  | .ld => some (8, true)
  | .lbu => some (1, false)
  | .lhu => some (2, false)
  | .lwu => some (4, false)
  | _ => none

/-- The width of an integer store. -/
def Op.storeWidth : Op → Option Nat
  | .sb => some 1
  | .sh => some 2
  | .sw => some 4
  | .sd => some 8
  | _ => none

/-- A number extended to a doubleword by its sign or by zeros. -/
def extend {w : Nat} (sign : Bool) (word : BitVec w) : BitVec 64 :=
  if sign then word.signExtend 64 else word.setWidth 64

namespace Machine

variable {host : Host} {m : Machine} {pc nextPc paddr : BitVec 64} {d : Decoded} {walked : Bus}

/-- A read through a translation into RAM returns the bytes there. -/
theorem asRead_memory {va : BitVec 64} {size : Nat}
    (found : m.mmu host va = .ok (some paddr, walked)) (whole : walked.ram.size = ramSize)
    (valid : Bus.validSize size) (placed : InMemory paddr size) (params : Params) :
    m.asRead host va size params =
      .ok (some (LittleEndian.load 64 walked.memory paddr size), walked) := by
  rw [asRead, found, ok_bind]
  simp only [Bus.asReadNommu_memory whole valid placed, ok_bind, pure_eq_ok]

/-- A plain write through a translation into RAM puts the bytes there. -/
theorem asWrite_memory {va : BitVec 64} {size : Nat} (data : BitVec 64)
    (found : m.mmu host va = .ok (some paddr, walked)) (whole : walked.ram.size = ramSize)
    (valid : Bus.validSize size) (placed : InMemory paddr size) :
    ∃ old, m.asWrite host va size data .none = .ok (some old,
      walked.setMemory (LittleEndian.store walked.memory paddr size data)) := by
  refine ⟨LittleEndian.load 64 walked.memory paddr size, ?_⟩
  rw [asWrite, found, ok_bind]
  simp only [Bus.asWriteNommu, Bus.asWriteNommuWith_memory whole valid placed, ok_bind, pure_eq_ok]

/-- The case of a load in the switch of `execute`. -/
theorem executeOp_load {size : Nat} {sign : Bool} (op : d.op.loadKind = some (size, sign)) :
    Bus.validSize size ∧ executeOp host m pc nextPc d =
      ({ m, retPc := nextPc, rdVal := host.rdVal } : Locals).load host pc
        (m.hart.reg d.rs1 + d.imm) size fun data => extend sign (data.setWidth (8 * size)) := by
  obtain ⟨kind, rd, rs1, rs2, imm, csrAddr⟩ := d
  cases kind with
  | lb | lh | lw | lbu | lhu | lwu =>
    cases op
    exact ⟨rfl, rfl⟩
  | ld =>
    cases op
    -- A doubleword is its own sign extension.
    have whole : (fun data : BitVec 64 => extend true (data.setWidth (8 * 8))) = id := by
      funext data
      simp [extend]
    rw [whole]
    exact ⟨rfl, rfl⟩
  | _ => cases op

/-- A load extends the bytes it reads to the destination register. -/
theorem execute_load {size : Nat} {sign : Bool} (op : d.op.loadKind = some (size, sign))
    (found : m.mmu host (m.hart.reg d.rs1 + d.imm) = .ok (some paddr, walked))
    (whole : walked.ram.size = ramSize) (placed : InMemory paddr size) :
    execute host m pc nextPc d = .ok (nextPc,
      { hart := m.hart.assign d.rd
          (extend sign (LittleEndian.load (8 * size) walked.memory paddr size))
        bus := walked }) := by
  obtain ⟨valid, switch⟩ := @executeOp_load host m pc nextPc d size sign op
  have read := asRead_memory found whole valid placed .none
  have narrow := (Bus.validSize_bounds valid).2
  rw [execute, switch, Locals.load, Locals.readMem, read]
  simp only [ok_bind, pure_eq_ok, Locals.setRd,
    ← LittleEndian.load_widen (show 8 * size ≤ 64 by omega)]
  exact writeBack_rd rfl rfl

/-- The case of a store in the switch of `execute`. -/
theorem executeOp_store {size : Nat} (op : d.op.storeWidth = some size) :
    Bus.validSize size ∧ executeOp host m pc nextPc d =
      ({ m, retPc := nextPc, rdVal := host.rdVal } : Locals).store host pc
        (m.hart.reg d.rs1 + d.imm) size (m.hart.reg d.rs2) := by
  obtain ⟨kind, rd, rs1, rs2, imm, csrAddr⟩ := d
  cases kind with
  | sb | sh | sw | sd =>
    cases op
    exact ⟨rfl, rfl⟩
  | _ => cases op

/-- A store through a translation into RAM puts the low bytes of its operand there. -/
theorem execute_of_store {va data : BitVec 64} {size : Nat}
    (switch : executeOp host m pc nextPc d =
      ({ m, retPc := nextPc, rdVal := host.rdVal } : Locals).store host pc va size data)
    (found : m.mmu host va = .ok (some paddr, walked)) (whole : walked.ram.size = ramSize)
    (valid : Bus.validSize size) (placed : InMemory paddr size) :
    execute host m pc nextPc d = .ok (nextPc,
      { hart := m.hart.assign d.rd host.rdVal
        bus := walked.setMemory (LittleEndian.store walked.memory paddr size data) }) := by
  obtain ⟨old, written⟩ := asWrite_memory data found whole valid placed
  rw [execute, switch, Locals.store, Locals.writeMem, written]
  simp only [ok_bind, pure_eq_ok]
  -- The tail of the function writes the destination that the decoder gives a store.
  exact writeBack_rd rfl rfl

/-- A store puts the low bytes of its register into memory. -/
theorem execute_store {size : Nat} (op : d.op.storeWidth = some size)
    (found : m.mmu host (m.hart.reg d.rs1 + d.imm) = .ok (some paddr, walked))
    (whole : walked.ram.size = ramSize) (placed : InMemory paddr size) :
    ∃ after, execute host m pc nextPc d = .ok (nextPc, after) ∧
      after.bus = walked.setMemory
        (LittleEndian.store walked.memory paddr size (m.hart.reg d.rs2)) := by
  obtain ⟨valid, switch⟩ := @executeOp_store host m pc nextPc d size op
  exact ⟨_, execute_of_store switch found whole valid placed, rfl⟩

end Machine

/-! ### The memory as a whole -/

/--
RAM is a little-endian byte memory for every history of plain accesses that lie inside it.

A load returns the bytes last stored, which are zero where nothing was, and nothing above them; a
store changes the bytes it covers only; and the load and store instructions move the same bytes,
the loads extending them to the destination register by their sign or by zeros.
-/
theorem ram_byte_memory (host : Host) {bus : Bus} (fresh : bus.ram = .zeroed ramSize)
    {events : List RamEvent} (inside : ∀ event ∈ events, event.Inside) :
    ∃ final, Runs.run (RamEvent.next host) bus events = .ok final ∧
      (∀ addr size, Bus.validSize size → InMemory addr size →
        ∃ data, final.asReadNommu host addr size .none = .ok (data, final) ∧
          (∀ index < size, (data >>> (8 * index)).setWidth 8 =
            (Runs.lastWritten RamEvent.written events (addr + BitVec.ofNat 64 index)).getD 0) ∧
          ∀ i, 8 * size ≤ i → data.getLsbD i = false) ∧
      (∀ addr data size, Bus.validSize size → InMemory addr size →
        ∃ old after, final.asWriteNommu host addr size data .none = .ok (old, after) ∧
          ∀ at_ : BitVec 64, size ≤ (at_ - addr).toNat → after.memory at_ = final.memory at_) ∧
      ∀ (hart : Hart) (pc nextPc : BitVec 64) (d : Decoded) (paddr : BitVec 64) (walked : Bus),
        (Machine.mk hart final).mmu host (hart.reg d.rs1 + d.imm) = .ok (some paddr, walked) →
        (∀ size sign, d.op.loadKind = some (size, sign) → InMemory paddr size →
          execute host ⟨hart, final⟩ pc nextPc d = .ok (nextPc,
            ⟨hart.assign d.rd (extend sign (LittleEndian.load (8 * size) final.memory paddr size)),
              walked⟩)) ∧
        ∀ size, d.op.storeWidth = some size → InMemory paddr size →
          ∃ after, execute host ⟨hart, final⟩ pc nextPc d = .ok (nextPc, after) ∧
            after.bus.memory =
              LittleEndian.store final.memory paddr size (hart.reg d.rs2) := by
  have whole : bus.ram.size = ramSize := by rw [fresh]; rfl
  obtain ⟨mem, ran⟩ := @RamEvent.run_inside host bus events whole inside
  have size : (bus.setMemory mem).ram.size = ramSize := (Bus.size_setMemory _ _).trans whole
  refine ⟨_, ran, fun addr size valid placed => ?_, fun addr data size valid placed => ?_,
    fun hart pc nextPc d paddr walked found => ?_⟩
  · refine ⟨_, Bus.asReadNommu_memory ‹_› valid placed .none, fun index below => ?_,
      fun i beyond => ?_⟩
    · have wide := (Bus.validSize_bounds valid).2
      rw [LittleEndian.load_byte below (by omega), RamEvent.run_memory whole inside ran]
      -- Before the history every byte of RAM is zero.
      rw [Bus.memory, fresh]
      rfl
    · rw [LittleEndian.getLsbD_load]
      simp [show ¬ i < 8 * size by omega]
  · refine ⟨_, _, Bus.asWriteNommuWith_memory ‹_› valid placed _ _, fun at_ outside => ?_⟩
    rw [Bus.memory_setMemory, LittleEndian.store_outside outside]
  · -- The walk through the tables makes reads only, so the memory is the same after it.
    have ram : walked.ram = (bus.setMemory mem).ram := (Machine.mmu_accessed _ _ found).keeps.ram
    have memory : walked.memory = (bus.setMemory mem).memory := by
      unfold Bus.memory
      rw [ram]
    rw [← memory]
    refine ⟨fun count sign op placed => ?_, fun count op placed => ?_⟩
    · exact Machine.execute_load op found (ram ▸ size) placed
    · obtain ⟨after, ran, stored⟩ :=
        @Machine.execute_store host _ pc nextPc paddr d walked _ op found (ram ▸ size) placed
      exact ⟨after, ran, by rw [stored, Bus.memory_setMemory]⟩

/-- A halfword stored across a doubleword is found between what is left of it, and then zeros. -/
theorem ram_byte_memory_overlap :
    ∃ final data, Runs.run (RamEvent.next {}) (Machine.boot []).bus
        [.store 0x80000001 0x1122334455667788 8, .store 0x80000003 0xAABB 2] = .ok final ∧
      final.asReadNommu {} 0x80000002 4 .none = .ok (data, final) ∧
      (data >>> 0).setWidth 8 = (0x77 : BitVec 8) ∧ (data >>> 8).setWidth 8 = (0xBB : BitVec 8) ∧
      (data >>> 16).setWidth 8 = (0xAA : BitVec 8) ∧ (data >>> 24).setWidth 8 = (0x44 : BitVec 8) := by
  have inside : ∀ event ∈ [RamEvent.store 0x80000001 0x1122334455667788 8,
      .store 0x80000003 0xAABB 2], event.Inside := by
    intro event member
    rcases List.mem_pair.mp member with rfl | rfl
    · exact ⟨rfl, by decide, by decide⟩
    · exact ⟨rfl, by decide, by decide⟩
  obtain ⟨final, ran, loads, -⟩ := @ram_byte_memory {} (Machine.boot []).bus rfl _ inside
  obtain ⟨data, read, bytes, -⟩ := loads 0x80000002 4 rfl ⟨by decide, by decide⟩
  -- One byte is left of the first store in front, and one behind.
  exact ⟨final, data, ran, read, bytes 0 (by decide), bytes 1 (by decide), bytes 2 (by decide),
    bytes 3 (by decide)⟩

end Xemu
