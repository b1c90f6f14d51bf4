import Xemu.Decode.Operation

/-! The decoder of 16-bit instruction words. -/

namespace Xemu.Dec16

/-! ### Immediates -/

/-- The macro `N_IMM`. -/
def nImm (inst : BitVec 16) : BitVec 64 :=
  (bits inst 10 7 <<< 6) ||| (bits inst 12 11 <<< 4) ||| (bit inst 5 <<< 3) ||| (bit inst 6 <<< 2)

/-- The macro `U_IMM`. -/
def uImm (inst : BitVec 16) : BitVec 64 :=
  (bit inst 5 <<< 6) ||| (bits inst 12 10 <<< 3) ||| (bit inst 6 <<< 2)

/-- The macro `U_IMM_D`. -/
def uImmD (inst : BitVec 16) : BitVec 64 :=
  (bits inst 6 5 <<< 6) ||| (bits inst 12 10 <<< 3)

/-- The macro `I_IMM`. -/
def iImm (inst : BitVec 16) : BitVec 64 :=
  (expandBit inst 12 59 <<< 5) ||| bits inst 6 2

/-- The macro `D_IMM`. -/
def dImm (inst : BitVec 16) : BitVec 64 :=
  (expandBit inst 12 55 <<< 9) ||| (bits inst 4 3 <<< 7) ||| (bit inst 5 <<< 6) |||
    (bit inst 2 <<< 5) ||| (bit inst 6 <<< 4)

/-- The macro `UI_IMM`. -/
def uiImm (inst : BitVec 16) : BitVec 64 :=
  (bit inst 12 <<< 5) ||| bits inst 6 2

/-- The macro `J_IMM`. -/
def jImm (inst : BitVec 16) : BitVec 64 :=
  (expandBit inst 12 53 <<< 11) ||| (bit inst 8 <<< 10) ||| (bits inst 10 9 <<< 8) |||
    (bit inst 6 <<< 7) ||| (bit inst 7 <<< 6) ||| (bit inst 2 <<< 5) ||| (bit inst 11 <<< 4) |||
    (bits inst 5 3 <<< 1)

/-- The macro `B_IMM`. -/
def bImm (inst : BitVec 16) : BitVec 64 :=
  (expandBit inst 12 56 <<< 8) ||| (bits inst 6 5 <<< 6) ||| (bit inst 2 <<< 5) |||
    (bits inst 11 10 <<< 3) ||| (bits inst 4 3 <<< 1)

/-- The macro `LWSP_IMM`. -/
def lwspImm (inst : BitVec 16) : BitVec 64 :=
  (bits inst 3 2 <<< 6) ||| (bit inst 12 <<< 5) ||| (bits inst 6 4 <<< 2)

/-- The macro `LDSP_IMM`. -/
def ldspImm (inst : BitVec 16) : BitVec 64 :=
  (bits inst 4 2 <<< 6) ||| (bit inst 12 <<< 5) ||| (bits inst 6 5 <<< 3)

/-- The macro `SWSP_IMM`. -/
def swspImm (inst : BitVec 16) : BitVec 64 :=
  (bits inst 8 7 <<< 6) ||| (bits inst 12 9 <<< 2)

/-- The macro `SDSP_IMM`. -/
def sdspImm (inst : BitVec 16) : BitVec 64 :=
  (bits inst 9 7 <<< 6) ||| (bits inst 12 10 <<< 3)

/-! ### Register fields -/

/-- A three-bit register field whose lowest bit is bit two, naming registers eight to fifteen. -/
def lowReg (inst : BitVec 16) : BitVec 5 := 8 + (inst.extractLsb 4 2).setWidth 5

/-- A three-bit register field whose lowest bit is bit seven, naming registers eight to fifteen. -/
def highReg (inst : BitVec 16) : BitVec 5 := 8 + (inst.extractLsb 9 7).setWidth 5

/-- The full register field whose lowest bit is bit seven. -/
def fullReg (inst : BitVec 16) : BitVec 5 := inst.extractLsb 11 7

/-- The full register field whose lowest bit is bit two. -/
def fullReg2 (inst : BitVec 16) : BitVec 5 := inst.extractLsb 6 2

/-! ### The three quadrants -/

/-- The fields every case starts from. -/
def fields : Decoded := { op := .nop, rd := 0, rs1 := 0, rs2 := 0, imm := 0, csrAddr := 0 }

/-- The cases of quadrant zero. -/
def quadrant0 (inst : BitVec 16) (funct3 : BitVec 3) : Except Stop Decoded :=
  match funct3.toNat with
  | 0 => .ok { fields with op := .addi, rd := lowReg inst, rs1 := 2, imm := nImm inst }
  | 1 => .ok { fields with op := .fld, rd := lowReg inst, rs1 := highReg inst, imm := uImmD inst }
  | 2 => .ok { fields with op := .lw, rd := lowReg inst, rs1 := highReg inst, imm := uImm inst }
  | 3 => .ok { fields with op := .ld, rd := lowReg inst, rs1 := highReg inst, imm := uImmD inst }
  | 5 => .ok { fields with op := .fsd, rs1 := highReg inst, rs2 := lowReg inst, imm := uImmD inst }
  | 6 => .ok { fields with op := .sw, rs1 := highReg inst, rs2 := lowReg inst, imm := uImm inst }
  | 7 => .ok { fields with op := .sd, rs1 := highReg inst, rs2 := lowReg inst, imm := uImmD inst }
  | _ => .error (.panic "dec16: bad instruction (0x%x)\n")

/-- The cases of quadrant one whose register field is three bits wide. -/
def arith (inst : BitVec 16) : Decoded :=
  let reg := highReg inst
  -- The two shifts take a six-bit amount, the mask a signed immediate.
  match (inst.extractLsb 11 10).toNat with
  | 0 => { fields with op := .srli, rd := reg, rs1 := reg, imm := uiImm inst }
  | 1 => { fields with op := .srai, rd := reg, rs1 := reg, imm := uiImm inst }
  | 2 => { fields with op := .andi, rd := reg, rs1 := reg, imm := iImm inst }
  | _ =>
    -- What is left are the register-register operations, told apart by three bits in two fields.
    match (inst.extractLsb 6 5).toNat with
    | 0 =>
      let op := if inst.getLsbD 12 then .subw else .sub
      { fields with op, rd := reg, rs1 := reg, rs2 := lowReg inst }
    | 1 =>
      let op := if inst.getLsbD 12 then .addw else .xor
      { fields with op, rd := reg, rs1 := reg, rs2 := lowReg inst }
    | 2 => { fields with op := .or, rd := reg, rs1 := reg, rs2 := lowReg inst }
    | _ => { fields with op := .and, rd := reg, rs1 := reg, rs2 := lowReg inst }

/-- The cases of quadrant one, for which every `funct3` has one. -/
def quadrant1 (inst : BitVec 16) (funct3 : BitVec 3) : Decoded :=
  let rd := fullReg inst
  match funct3.toNat with
  | 0 =>
    -- With a zero register the instruction is a `NOP`, whatever its immediate bits hold.
    if rd ≠ 0 then { fields with op := .addi, rd, rs1 := rd, imm := iImm inst }
    else { fields with op := .nop, rd, rs1 := rd }
  | 1 => { fields with op := .addiw, rd, rs1 := rd, imm := iImm inst }
  -- Register one of a load immediate stays zero, so the sum is the immediate itself.
  | 2 => { fields with op := .addi, rd, imm := iImm inst }
  | 3 =>
    -- The stack pointer has an adjustment of its own in place of an upper immediate.
    if rd = 2 then { fields with op := .addi, rd, rs1 := 2, imm := dImm inst }
    else { fields with op := .lui, rd, imm := iImm inst <<< 12 }
  | 4 => arith inst
  -- A jump leaves the destination zero, so no return address is kept.
  | 5 => { fields with op := .jal, imm := jImm inst }
  -- The second register of the branches stays zero, which is what they compare with.
  | 6 => { fields with op := .beq, rs1 := highReg inst, imm := bImm inst }
  | _ => { fields with op := .bne, rs1 := highReg inst, imm := bImm inst }

/-- The moves, jumps and breakpoints of quadrant two. -/
def moveOrJump (inst : BitVec 16) : Decoded :=
  let rs1 := fullReg inst
  let rs2 := fullReg2 inst
  -- With the bit set, the two register fields choose an addition, a call or a breakpoint.
  if inst.getLsbD 12 then
    if rs1 ≠ 0 then
      if rs2 ≠ 0 then { fields with op := .add, rd := rs1, rs1, rs2 }
      else { fields with op := .jalr, rd := 1, rs1, rs2 }
    else { fields with op := .ebreak, rs1 }
  -- With the bit clear, a move is an addition to register zero.
  else if rs2 ≠ 0 then { fields with op := .add, rd := rs1, rs2 }
  else { fields with op := .jalr, rs1, rs2 }

/-- The cases of quadrant two. -/
def quadrant2 (inst : BitVec 16) (funct3 : BitVec 3) : Except Stop Decoded :=
  let rd := fullReg inst
  match funct3.toNat with
  | 0 => .ok { fields with op := .slli, rd, rs1 := rd, imm := uiImm inst }
  | 1 => .ok { fields with op := .fld, rd, rs1 := 2, imm := ldspImm inst }
  | 2 => .ok { fields with op := .lw, rd, rs1 := 2, imm := lwspImm inst }
  | 3 => .ok { fields with op := .ld, rd, rs1 := 2, imm := ldspImm inst }
  | 4 => .ok (moveOrJump inst)
  | 6 => .ok { fields with op := .sw, rs1 := 2, rs2 := fullReg2 inst, imm := swspImm inst }
  | 7 => .ok { fields with op := .sd, rs1 := 2, rs2 := fullReg2 inst, imm := sdspImm inst }
  | _ => .error (.panic "dec16: bad instruction (0x%x)\n")

/-! ### The decoder -/

/-- The function `dec16`. -/
def dec16 (inst : BitVec 16) : Except Stop Decoded :=
  let funct3 : BitVec 3 := inst.extractLsb 15 13
  match (inst.extractLsb 1 0).toNat with
  | 0 => quadrant0 inst funct3
  | 1 => .ok (quadrant1 inst funct3)
  | 2 => quadrant2 inst funct3
  | _ => .error (.panic "dec16: bad instruction (0x%x) at (0x%lx)\n")

end Xemu.Dec16
