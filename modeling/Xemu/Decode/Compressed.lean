import Xemu.Decode.Encoding

/-! The 32-bit instructions that the C extension defines its 16-bit words to stand for. -/

namespace Xemu.Compressed

/-! ### Fields -/

/-- The three-bit register field at bit two, which names registers eight to fifteen. -/
def lowReg (inst : BitVec 16) : BitVec 5 := 0b01#2 ++ inst.extractLsb 4 2

/-- The three-bit register field at bit seven. -/
def highReg (inst : BitVec 16) : BitVec 5 := 0b01#2 ++ inst.extractLsb 9 7

/-- The full register field at bit seven. -/
def fullReg (inst : BitVec 16) : BitVec 5 := inst.extractLsb 11 7

/-- The full register field at bit two. -/
def fullReg2 (inst : BitVec 16) : BitVec 5 := inst.extractLsb 6 2

/-! ### Immediates, from their highest bits to their lowest -/

/-- The immediate of an addition to the stack pointer with another destination. -/
def spAddend (inst : BitVec 16) : BitVec 10 :=
  inst.extractLsb 10 7 ++ inst.extractLsb 12 11 ++ inst.extractLsb 5 5 ++ inst.extractLsb 6 6 ++ 0#2

/-- The offset of a word from a register. -/
def wordOffset (inst : BitVec 16) : BitVec 7 :=
  inst.extractLsb 5 5 ++ inst.extractLsb 12 10 ++ inst.extractLsb 6 6 ++ 0#2

/-- The offset of a doubleword from a register. -/
def doubleOffset (inst : BitVec 16) : BitVec 8 :=
  inst.extractLsb 6 5 ++ inst.extractLsb 12 10 ++ 0#3

/-- The signed number of six bits, or the amount of a shift. -/
def small (inst : BitVec 16) : BitVec 6 := inst.extractLsb 12 12 ++ inst.extractLsb 6 2

/-- The immediate of an adjustment of the stack pointer. -/
def spAdjustment (inst : BitVec 16) : BitVec 10 :=
  inst.extractLsb 12 12 ++ inst.extractLsb 4 3 ++ inst.extractLsb 5 5 ++ inst.extractLsb 2 2 ++
    inst.extractLsb 6 6 ++ 0#4

/-- The upper immediate. -/
def upper (inst : BitVec 16) : BitVec 18 := small inst ++ 0#12

/-- The offset of a jump. -/
def jumpOffset (inst : BitVec 16) : BitVec 12 :=
  inst.extractLsb 12 12 ++ inst.extractLsb 8 8 ++ inst.extractLsb 10 9 ++ inst.extractLsb 6 6 ++
    inst.extractLsb 7 7 ++ inst.extractLsb 2 2 ++ inst.extractLsb 11 11 ++ inst.extractLsb 5 3 ++ 0#1

/-- The offset of a branch. -/
def branchOffset (inst : BitVec 16) : BitVec 9 :=
  inst.extractLsb 12 12 ++ inst.extractLsb 6 5 ++ inst.extractLsb 2 2 ++ inst.extractLsb 11 10 ++
    inst.extractLsb 4 3 ++ 0#1

/-- The offset of a word to load from the stack. -/
def wordLoadOffset (inst : BitVec 16) : BitVec 8 :=
  inst.extractLsb 3 2 ++ inst.extractLsb 12 12 ++ inst.extractLsb 6 4 ++ 0#2

/-- The offset of a doubleword to load from the stack. -/
def doubleLoadOffset (inst : BitVec 16) : BitVec 9 :=
  inst.extractLsb 4 2 ++ inst.extractLsb 12 12 ++ inst.extractLsb 6 5 ++ 0#3

/-- The offset of a word to store on the stack. -/
def wordStoreOffset (inst : BitVec 16) : BitVec 8 :=
  inst.extractLsb 8 7 ++ inst.extractLsb 12 9 ++ 0#2

/-- The offset of a doubleword to store on the stack. -/
def doubleStoreOffset (inst : BitVec 16) : BitVec 9 :=
  inst.extractLsb 9 7 ++ inst.extractLsb 12 10 ++ 0#3

/-! ### Expansions -/

/-- An operation with its operands, as the expansion of a word. -/
structure Expansion where
  op : Op
  operands : Operands

/-- The expansions of quadrant zero. -/
def quadrant0 (inst : BitVec 16) : Option Expansion :=
  let low := lowReg inst
  let high := highReg inst
  let word := (wordOffset inst).setWidth 64
  let double := (doubleOffset inst).setWidth 64
  match (inst.extractLsb 15 13).toNat with
  -- Without an addend the word is reserved, and all zeros are no instruction.
  | 0 =>
    if spAddend inst = 0 then none
    else some ⟨.addi, { rd := low, rs1 := 2, imm := (spAddend inst).setWidth 64 }⟩
  | 1 => some ⟨.fld, { rd := low, rs1 := high, imm := double }⟩
  | 2 => some ⟨.lw, { rd := low, rs1 := high, imm := word }⟩
  | 3 => some ⟨.ld, { rd := low, rs1 := high, imm := double }⟩
  | 5 => some ⟨.fsd, { rs1 := high, rs2 := low, imm := double }⟩
  | 6 => some ⟨.sw, { rs1 := high, rs2 := low, imm := word }⟩
  | 7 => some ⟨.sd, { rs1 := high, rs2 := low, imm := double }⟩
  | _ => none

/-- The expansions of quadrant one that compute in a register of the three-bit fields. -/
def arith (inst : BitVec 16) : Option Expansion :=
  let low := lowReg inst
  let high := highReg inst
  match (inst.extractLsb 11 10).toNat with
  | 0 => some ⟨.srli, { rd := high, rs1 := high, imm := (small inst).setWidth 64 }⟩
  | 1 => some ⟨.srai, { rd := high, rs1 := high, imm := (small inst).setWidth 64 }⟩
  | 2 => some ⟨.andi, { rd := high, rs1 := high, imm := (small inst).signExtend 64 }⟩
  | _ =>
    match (inst.extractLsb 12 12).toNat, (inst.extractLsb 6 5).toNat with
    | 0, 0 => some ⟨.sub, { rd := high, rs1 := high, rs2 := low }⟩
    | 0, 1 => some ⟨.xor, { rd := high, rs1 := high, rs2 := low }⟩
    | 0, 2 => some ⟨.or, { rd := high, rs1 := high, rs2 := low }⟩
    | 0, _ => some ⟨.and, { rd := high, rs1 := high, rs2 := low }⟩
    | _, 0 => some ⟨.subw, { rd := high, rs1 := high, rs2 := low }⟩
    | _, 1 => some ⟨.addw, { rd := high, rs1 := high, rs2 := low }⟩
    -- The last two words are reserved.
    | _, _ => none

/-- The expansions of quadrant one. -/
def quadrant1 (inst : BitVec 16) : Option Expansion :=
  let rd := fullReg inst
  let imm := (small inst).signExtend 64
  match (inst.extractLsb 15 13).toNat with
  -- An addition to register zero does nothing, and is a hint unless its immediate is zero.
  | 0 => some ⟨.addi, { rd, rs1 := rd, imm }⟩
  | 1 => if rd = 0 then none else some ⟨.addiw, { rd, rs1 := rd, imm }⟩
  | 2 => some ⟨.addi, { rd, rs1 := 0, imm }⟩
  | 3 =>
    if small inst = 0 then none
    else if rd = 2 then
      some ⟨.addi, { rd := 2, rs1 := 2, imm := (spAdjustment inst).signExtend 64 }⟩
    else some ⟨.lui, { rd, imm := (upper inst).signExtend 64 }⟩
  | 4 => arith inst
  | 5 => some ⟨.jal, { rd := 0, imm := (jumpOffset inst).signExtend 64 }⟩
  | 6 =>
    some ⟨.beq, { rs1 := highReg inst, rs2 := 0, imm := (branchOffset inst).signExtend 64 }⟩
  | _ =>
    some ⟨.bne, { rs1 := highReg inst, rs2 := 0, imm := (branchOffset inst).signExtend 64 }⟩

/-- The expansions of quadrant two that move, add or jump through a register. -/
def moveOrJump (inst : BitVec 16) : Option Expansion :=
  let first := fullReg inst
  let second := fullReg2 inst
  if inst.getLsbD 12 then
    -- An addition to register zero is a hint, and not the breakpoint.
    if second ≠ 0 then some ⟨.add, { rd := first, rs1 := first, rs2 := second }⟩
    else if first ≠ 0 then some ⟨.jalr, { rd := 1, rs1 := first, imm := 0 }⟩
    else some ⟨.ebreak, {}⟩
  else if second ≠ 0 then some ⟨.add, { rd := first, rs1 := 0, rs2 := second }⟩
  else if first ≠ 0 then some ⟨.jalr, { rd := 0, rs1 := first, imm := 0 }⟩
  else none

/-- The expansions of quadrant two. -/
def quadrant2 (inst : BitVec 16) : Option Expansion :=
  let rd := fullReg inst
  let rs2 := fullReg2 inst
  match (inst.extractLsb 15 13).toNat with
  | 0 => some ⟨.slli, { rd, rs1 := rd, imm := (small inst).setWidth 64 }⟩
  | 1 => some ⟨.fld, { rd, rs1 := 2, imm := (doubleLoadOffset inst).setWidth 64 }⟩
  -- A load from the stack to register zero is reserved.
  | 2 =>
    if rd = 0 then none
    else some ⟨.lw, { rd, rs1 := 2, imm := (wordLoadOffset inst).setWidth 64 }⟩
  | 3 =>
    if rd = 0 then none
    else some ⟨.ld, { rd, rs1 := 2, imm := (doubleLoadOffset inst).setWidth 64 }⟩
  | 4 => moveOrJump inst
  | 5 => some ⟨.fsd, { rs1 := 2, rs2, imm := (doubleStoreOffset inst).setWidth 64 }⟩
  | 6 => some ⟨.sw, { rs1 := 2, rs2, imm := (wordStoreOffset inst).setWidth 64 }⟩
  | _ => some ⟨.sd, { rs1 := 2, rs2, imm := (doubleStoreOffset inst).setWidth 64 }⟩

/-- The expansion of a word, or nothing when the extension reserves it. -/
def expand (inst : BitVec 16) : Option Expansion :=
  match (inst.extractLsb 1 0).toNat with
  | 0 => quadrant0 inst
  | 1 => quadrant1 inst
  | 2 => quadrant2 inst
  | _ => none

/-- The word that encodes an expansion. -/
def Expansion.encode (expansion : Expansion) : Option (BitVec 32) :=
  expansion.op.format.map fun format => format.encode expansion.operands

end Xemu.Compressed
