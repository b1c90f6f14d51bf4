import Xemu.Lib.PageWalk
import Xemu.Machine.Program
import Xemu.Machine.Sizes
import Xemu.Proofs.PageBoundary

/-! Accesses that begin in RAM and the end of the array behind it. -/

namespace Xemu

/-- The bytes of an access that the bus takes to RAM lie in the array that was allocated. -/
def Bus.Inside (bus : Bus) (addr : BitVec 64) (size : Nat) : Prop :=
  (addr - ramStart).toNat + size ≤ bus.ram.size

section Access

variable {bus : Bus} {addr : BitVec 64} {size : Nat}

/-- The offset of an address in RAM. -/
theorem toNat_ramOffset (inside : inRam addr) :
    (addr - ramStart).toNat = addr.toNat - 0x80000000 ∧ 0x80000000 ≤ addr.toNat ∧
      addr.toNat < 0x100000000 := by
  have first : 0x80000000 ≤ addr.toNat := BitVec.le_def.mp inside.1
  have last : addr.toNat ≤ 0xFFFFFFFF := BitVec.le_def.mp inside.2
  refine ⟨?_, first, by omega⟩
  rw [BitVec.toNat_sub_of_le inside.1]
  rfl

/-- An access leaves the array when it reaches past the last address of RAM. -/
theorem inside_iff (whole : bus.ram.size = ramSize) (inside : inRam addr) :
    bus.Inside addr size ↔ addr.toNat + size ≤ 2 ^ 32 := by
  obtain ⟨offset, first, last⟩ := toNat_ramOffset inside
  rw [Bus.Inside, offset, whole, ramSize]
  omega

/-- An access that is aligned to its size does not reach past the end. -/
theorem inside_of_aligned (whole : bus.ram.size = ramSize) (valid : Bus.validSize size)
    (inside : inRam addr) (aligned : addr.toNat % size = 0) : bus.Inside addr size := by
  rw [inside_iff whole inside]
  obtain ⟨_, first, last⟩ := toNat_ramOffset inside
  simp only [Bus.validSize, Bool.or_eq_true, beq_iff_eq] at valid
  -- The end of RAM is a multiple of each of the four sizes.
  rcases valid with ((rfl | rfl) | rfl) | rfl
  all_goals omega

/-- A read that begins in RAM is undefined exactly if it leaves the array. -/
theorem read_undefined_iff (valid : Bus.validSize size) (inside : inRam addr) (host : Host)
    (params : Params) :
    (∃ what, bus.asReadNommu host addr size params = .error (.undefined what)) ↔
      ¬ bus.Inside addr size := by
  -- The one test that is left is that of the array.
  rw [Bus.asReadNommu_ram valid inside, Buffer.read, Bus.Inside]
  split
  · rename_i fits
    refine iff_of_false ?_ (not_not.mpr fits)
    rintro ⟨what, stopped⟩
    cases stopped
  · rename_i leaves
    exact iff_of_true ⟨_, rfl⟩ leaves

/-- A write that begins in RAM is undefined exactly if it leaves the array, atomic or not. -/
theorem write_undefined_iff (valid : Bus.validSize size) (inside : inRam addr) (host : Host)
    (data : BitVec 64) (params : Params) :
    (∃ what, bus.asWriteNommu host addr size data params = .error (.undefined what)) ↔
      ¬ bus.Inside addr size := by
  rw [Bus.asWriteNommu_ram valid inside, ramWrite, ramRead, Bus.Inside]
  -- Both the read of the old value and the write of the new one check the same bound.
  by_cases fits : (addr - ramStart).toNat + size ≤ bus.ram.size
  · refine iff_of_false ?_ (not_not.mpr fits)
    rintro ⟨what, stopped⟩
    simp only [Buffer.read, Buffer.write, if_pos fits] at stopped
    split at stopped <;> cases stopped
  · refine iff_of_true ?_ fits
    simp only [Buffer.read, Buffer.write, if_neg fits]
    split <;> exact ⟨_, rfl⟩

end Access

/-- Every entry that the page walk reads from a table in RAM lies in the array. -/
theorem page_entry_inside {bus : Bus} (whole : bus.ram.size = ramSize) (number va : BitVec 64)
    (level : Nat) (inside : inRam ((number <<< 12) + (PageWalk.vpn va level <<< 3))) :
    bus.Inside ((number <<< 12) + (PageWalk.vpn va level <<< 3)) 8 :=
  -- Tables begin at multiples of a page, and entries are eight bytes apart.
  inside_of_aligned whole rfl inside (PageWalk.entry_aligned (PageWalk.table_aligned number))

/-- Every doubleword and every byte of a transfer of the block device lies in the array. -/
theorem blob_inside {bus : Bus} (whole : bus.ram.size = ramSize) {base : BitVec 64}
    (aligned : base.toNat % 8 = 0) (index : Nat) :
    (inRam (base + BitVec.ofNat 64 (8 * index)) →
      bus.Inside (base + BitVec.ofNat 64 (8 * index)) 8) ∧
      ∀ addr, inRam addr → bus.Inside addr 1 := by
  constructor
  · intro inside
    refine inside_of_aligned whole rfl inside ?_
    rw [BitVec.toNat_add, BitVec.toNat_ofNat]
    omega
  · intro addr inside
    exact inside_of_aligned whole rfl inside (Nat.mod_one _)

/--
Which accesses of the bus to RAM stay in the array, after any run and whatever makes the access.

The bus takes an access to RAM by its first byte, and RAM makes no check of its own.
-/
theorem ram_access_inside_iff {m : Machine} (reached : m.Reached) {addr : BitVec 64} {size : Nat}
    (valid : Bus.validSize size) (inside : inRam addr) (host : Host) (data : BitVec 64)
    (params : Params) :
    AddressSpace.route AddressSpace.rootChildren addr = (.ram, addr - ramStart) ∧
      ((addr - ramStart).toNat + size ≤ m.bus.ram.size ↔ addr.toNat + size ≤ 2 ^ 32) ∧
      (addr.toNat % size = 0 → (addr - ramStart).toNat + size ≤ m.bus.ram.size) ∧
      ((∃ what, m.bus.asReadNommu host addr size params = .error (.undefined what)) ↔
        2 ^ 32 < addr.toNat + size) ∧
      ((∃ what, m.bus.asWriteNommu host addr size data params = .error (.undefined what)) ↔
        2 ^ 32 < addr.toNat + size) := by
  have whole := reached.sized.ram
  have within := @inside_iff m.bus addr size whole inside
  have outside : ¬ m.bus.Inside addr size ↔ 2 ^ 32 < addr.toNat + size := by
    rw [within, not_le]
  exact ⟨AddressSpace.route_ram inside, within, inside_of_aligned whole valid inside,
    (read_undefined_iff valid inside host params).trans outside,
    (write_undefined_iff valid inside host data params).trans outside⟩

/-- The last doubleword of RAM stays in the array. -/
theorem ram_access_inside_iff_last :
    let bus := (Machine.reset (.zeroed 0) (.zeroed 0) (.zeroed 0)).bus
    let addr : BitVec 64 := 0xFFFFFFF8
    AddressSpace.route AddressSpace.rootChildren addr = (.ram, addr - ramStart) ∧
      ((addr - ramStart).toNat + 8 ≤ bus.ram.size ↔ addr.toNat + 8 ≤ 2 ^ 32) ∧
      (addr.toNat % 8 = 0 → (addr - ramStart).toNat + 8 ≤ bus.ram.size) ∧
      ((∃ what, bus.asReadNommu {} addr 8 .none = .error (.undefined what)) ↔
        2 ^ 32 < addr.toNat + 8) ∧
      ((∃ what, bus.asWriteNommu {} addr 8 1 .none = .error (.undefined what)) ↔
        2 ^ 32 < addr.toNat + 8) :=
  ram_access_inside_iff ⟨_, [], ⟨_, _, _, rfl⟩, rfl⟩ rfl (by decide) {} 1 .none

/-- Loads a doubleword from one byte behind the last one of RAM that is aligned. -/
def overhangProgram : List (BitVec 32) :=
  [0xff900293, 0x02029293, 0x0202d293, 0x0002b303] -- li t0, -7; slli t0, t0, 32; srli t0, t0, 32; ld t1, (t0)

/-- A load of a doubleword one byte further on reads the host's memory behind the array. -/
theorem load_leaves_ram :
    ¬ ∀ (host : Host) (m ready : Machine) (nextPc pa : BitVec 64) (d : Decoded), m.Reached →
      m.Ready host ready nextPc d → d.op = .ld →
      ready.Maps host (ready.hart.reg d.rs1 + d.imm) pa → inRam pa →
      (pa - ramStart).toNat + 8 ≤ ready.bus.ram.size := by
  intro always
  obtain ⟨_, m, _, reached, stepped, tested⟩ := reached_step_of_test overhangProgram 2
    (fun _ m => (m.findReady {}).toOption.join.any fun found =>
      found.2.2.op = .ld && (found.1.mmu {} (found.1.hart.reg found.2.2.rs1 + found.2.2.imm)).map
        Prod.fst = .ok (some 0xFFFFFFF9) && found.1.bus.ram.size = ramSize)
    (by decide +kernel)
  obtain ⟨ready, nextPc, d, started, loads⟩ := Machine.ready_of_test tested
  simp only [Bool.and_eq_true, decide_eq_true_eq] at loads
  obtain ⟨⟨op, maps⟩, size⟩ := loads
  have turned : Machine.next (.hart {}) _ = .ok m := stepped
  have inside := always {} m ready nextPc 0xFFFFFFF9 d (Runs.Reachable.step reached turned) started
    op maps (by decide)
  rw [size] at inside
  exact absurd inside (by decide)

end Xemu
