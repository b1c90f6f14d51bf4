import Xemu.Isa.Atomic
import Xemu.Proofs.ByteMemory
import Xemu.Machine.Compute
import Xemu.Proofs.PageBoundary

/-! The atomic memory operations, of which the word forms do not extend the word they return. -/

namespace Xemu

/-! ### The update in RAM -/

namespace Isa

/-- The parameter with which the code asks RAM for an update. -/
def Atomic.params : Atomic → Params
  | .swap => .amoSwap
  | .add => .amoAdd
  | .xor => .amoXor
  | .and => .amoAnd
  | .or => .amoOr
  | .min => .amoMin
  | .max => .amoMax
  | .minu => .amoMinu
  | .maxu => .amoMaxu

/-- RAM makes the update that it is asked for. -/
theorem amo_params (kind : Atomic) {w : Nat} (old operand : BitVec w) :
    amo old operand kind.params = kind.apply old operand := by
  cases kind with
  | swap | xor | and | or => rfl
  | add => exact (add_eq old operand).symm
  -- The code replaces the old word by a better operand, and so keeps it when they are equal.
  | min | max =>
    simp only [amo, Atomic.params, Atomic.apply, BitVec.slt, decide_eq_true_eq, ← Int.not_le,
      ite_not]
  | minu | maxu =>
    simp only [amo, Atomic.params, Atomic.apply, BitVec.lt_def, ← Nat.not_le, ite_not]

/-- The updates are of words and doublewords. -/
theorem atomic_size {op : Op} {kind : Atomic} {size : Nat} (atomic : atomic op = some (kind, size)) :
    size = 8 ∨ size = 4 := by
  cases op <;> cases atomic <;> decide

/-- The parameter of an update is not the one of a store-conditional. -/
theorem Atomic.params_unconditional (kind : Atomic) : kind.params ≠ .lrSc := by
  cases kind <;> decide

end Isa

/-- The word that RAM writes is the one the operation makes of the bytes that were there. -/
theorem store_ramWord_atomic {mem : BitVec 64 → BitVec 8} {addr data : BitVec 64} {size : Nat}
    {op : Op} {kind : Isa.Atomic} (atomic : Isa.atomic op = some (kind, size)) :
    LittleEndian.store mem addr size
        (Bus.ramWord (LittleEndian.load 64 mem addr size) data size kind.params) =
      LittleEndian.store mem addr size
        (kind.apply (LittleEndian.load (8 * size) mem addr size) (data.setWidth (8 * size))) := by
  rcases Isa.atomic_size atomic with rfl | rfl
  · rw [Bus.ramWord, if_pos rfl, Isa.amo_params]
    simp
  · -- A word is updated in its own width, and widened only to be stored.
    rw [Bus.ramWord, if_neg (by decide), if_pos rfl, Isa.amo_params,
      LittleEndian.store_setWidth (by decide)]
    have old : (LittleEndian.load 64 mem addr 4).setWidth (8 * 4) =
        LittleEndian.load (8 * 4) mem addr 4 := (LittleEndian.load_widen (by decide)).symm
    rw [← old]

/-! ### The instructions -/

section Instructions

variable {host : Host} {m : Machine} {pc nextPc pa : BitVec 64} {d : Decoded} {size : Nat}
  {kind : Isa.Atomic}

/-- The case of an atomic operation in the switch of `execute`. -/
theorem executeOp_atomic (atomic : Isa.atomic d.op = some (kind, size)) :
    Bus.validSize size ∧ executeOp host m pc nextPc d =
      ({ m, retPc := nextPc, rdVal := host.rdVal } : Locals).update host pc (m.hart.reg d.rs1) size
        (m.hart.reg d.rs2) kind.params := by
  obtain ⟨op, rd, rs1, rs2, imm, csrAddr⟩ := d
  cases op with
  | amoSwapW | amoAddW | amoXorW | amoAndW | amoOrW | amoMinW | amoMaxW | amoMinuW | amoMaxuW
  | amoSwapD | amoAddD | amoXorD | amoAndD | amoOrD | amoMinD | amoMaxD | amoMinuD | amoMaxuD =>
    cases atomic
    exact ⟨rfl, rfl⟩
  | _ => cases atomic

/-- What an atomic operation in RAM does: it returns the old word as an unsigned number. -/
theorem execute_atomic (atomic : Isa.atomic d.op = some (kind, size))
    (maps : m.Maps host (m.hart.reg d.rs1) pa) (whole : m.bus.ram.size = ramSize)
    (placed : InMemory pa size) :
    ∃ after, execute host m pc nextPc d = .ok (nextPc, after) ∧
      after.hart = m.hart.assign d.rd (LittleEndian.load 64 m.bus.memory pa size) ∧
      after.bus.memory = LittleEndian.store m.bus.memory pa size
        (kind.apply (LittleEndian.load (8 * size) m.bus.memory pa size)
          ((m.hart.reg d.rs2).setWidth (8 * size))) ∧
      after.bus.rom = m.bus.rom ∧ after.bus.flash = m.bus.flash ∧ after.bus.blk = m.bus.blk := by
  obtain ⟨valid, switch⟩ : _ ∧ executeOp host m pc nextPc d = _ := executeOp_atomic atomic
  obtain ⟨⟨_, walked⟩, found, rfl⟩ := map_eq_ok.mp maps
  -- The walk through the tables only reads, so the memory is the same after it.
  have kept := Machine.mmu_keeps found
  have written : walked.asWriteNommu host pa size (m.hart.reg d.rs2) kind.params = _ :=
    Bus.asWriteNommuWith_update (kept.ram ▸ whole) valid placed kind.params_unconditional _ _
  rw [kept.memory, store_ramWord_atomic atomic] at written
  rw [execute, switch, Locals.update, Locals.writeMem, Machine.asWrite, found]
  simp only [ok_bind, written, pure_eq_ok, Locals.setRd]
  refine ⟨_, writeBack_rd rfl rfl, rfl, ?_, ?_, ?_, ?_⟩
  · simp only [Bus.memory_setMemory]
  · simp only [Bus.rom_setMemory, kept.rom]
  · simp only [Bus.flash_setMemory, kept.flash]
  · simp only [Bus.blk_setMemory, kept.blk]

/--
An atomic operation has the effect that the instruction set gives it.

The word in RAM is updated, the old one goes to the destination with its sign, and no other byte or register changes.
-/
def AtomicEffect (host : Host) (m : Machine) (pc nextPc : BitVec 64) (d : Decoded)
    (kind : Isa.Atomic) (size : Nat) (pa : BitVec 64) : Prop :=
  let old := LittleEndian.load (8 * size) m.bus.memory pa size
  let new := kind.apply old ((m.hart.reg d.rs2).setWidth (8 * size))
  ∃ after, execute host m pc nextPc d = .ok (nextPc, after) ∧
    after.hart = m.hart.assign d.rd (old.signExtend 64) ∧
    after.bus.memory = LittleEndian.store m.bus.memory pa size new ∧
    after.bus.rom = m.bus.rom ∧ after.bus.flash = m.bus.flash ∧ after.bus.blk = m.bus.blk

/-- Assignments of two numbers differ in the register unless that is the one never written. -/
theorem assign_inj {hart : Hart} {rd : BitVec 5} {first second : BitVec 64} :
    hart.assign rd first = hart.assign rd second ↔ rd = 0 ∨ first = second := by
  -- Only register zero hides what is assigned to it.
  by_cases zero : rd = 0
  · simp [Hart.assign, zero]
  · constructor
    · intro same
      have register := congrArg (fun hart => hart.reg rd) same
      simp only [Hart.assign, ne_eq, zero, not_false_eq_true, if_true, Hart.setReg_reg,
        Function.update_self] at register
      exact .inr register
    · rintro (impossible | rfl)
      · exact absurd impossible zero
      · rfl

/-- Only what is returned can be wrong, and that only in a register that keeps it. -/
theorem atomicEffect_iff_returned (atomic : Isa.atomic d.op = some (kind, size))
    (maps : m.Maps host (m.hart.reg d.rs1) pa) (whole : m.bus.ram.size = ramSize)
    (placed : InMemory pa size) :
    AtomicEffect host m pc nextPc d kind size pa ↔ d.rd = 0 ∨
      LittleEndian.load 64 m.bus.memory pa size =
        (LittleEndian.load (8 * size) m.bus.memory pa size).signExtend 64 := by
  obtain ⟨after, ran, hart, memory, rest⟩ : ∃ after, execute host m pc nextPc d = _ ∧ _ :=
    execute_atomic atomic maps whole placed
  -- Memory and the rest are right in any case.
  rw [← assign_inj, ← hart]
  constructor
  · rintro ⟨other, executed, assigned, -⟩
    cases executed.symm.trans ran
    exact assigned
  · intro assigned
    exact ⟨after, ran, assigned, memory, rest⟩

/--
An atomic operation has its effect unless the word it returns has its highest bit set.

A doubleword is its own sign extension, and nothing is returned to register zero.
-/
theorem atomic_effect_iff (atomic : Isa.atomic d.op = some (kind, size))
    (maps : m.Maps host (m.hart.reg d.rs1) pa) (whole : m.bus.ram.size = ramSize)
    (placed : InMemory pa size) :
    AtomicEffect host m pc nextPc d kind size pa ↔
      size = 8 ∨ d.rd = 0 ∨ (LittleEndian.load (8 * size) m.bus.memory pa size).msb = false := by
  rw [atomicEffect_iff_returned atomic maps whole placed]
  rcases Isa.atomic_size atomic with rfl | rfl
  · -- A doubleword is its own extension.
    simp
  · -- A word is returned with zeros above it, which is right when its sign is clear.
    have sign := Isa.extend_eq_setWidth_iff (LittleEndian.load (8 * 4) m.bus.memory pa 4)
    rw [LittleEndian.load_widen (w := 64) (v := 8 * 4) le_rfl]
    exact (or_congr_right (eq_comm.trans sign)).trans (by simp)

end Instructions

/-- An atomic addition to a word at the start of RAM has its effect when the emulator starts. -/
theorem atomic_effect_iff_add :
    let m := (Machine.boot []).writeRd 1 0x80000000
    let d : Decoded := { op := .amoAddW, rd := 2, rs1 := 1, rs2 := 3, imm := 0, csrAddr := 0 }
    AtomicEffect {} m 0x1000 0x1004 d .add 4 0x80000000 ↔
      4 = 8 ∨ (2 : BitVec 5) = 0 ∨
        (LittleEndian.load (8 * 4) m.bus.memory 0x80000000 4).msb = false :=
  atomic_effect_iff rfl rfl rfl ⟨by decide, by decide⟩

/-- The same word with its highest bit set is returned without its sign. -/
theorem atomic_word_unsigned :
    let bus := (Machine.boot []).bus.setMemory fun _ => 0xFF
    let m : Machine := { (Machine.boot []).writeRd 1 0x80000000 with bus }
    let d : Decoded := { op := .amoAddW, rd := 2, rs1 := 1, rs2 := 3, imm := 0, csrAddr := 0 }
    m.Maps {} (m.hart.reg 1) 0x80000000 ∧
      ¬ AtomicEffect {} m 0x1000 0x1004 d .add 4 0x80000000 := by
  intro bus m d
  have maps : m.Maps {} (m.hart.reg 1) 0x80000000 := rfl
  refine ⟨maps, fun effect => ?_⟩
  have returned : d.rd = 0 ∨ LittleEndian.load 64 m.bus.memory 0x80000000 4 =
      (LittleEndian.load (8 * 4) m.bus.memory 0x80000000 4).signExtend 64 :=
    (atomicEffect_iff_returned rfl maps rfl ⟨by decide, by decide⟩).mp effect
  exact absurd returned (by decide)

end Xemu
