import Xemu.Decode.Operation

/-! The decoder of 32-bit instruction words. -/

namespace Xemu.Dec32

/-! ### Immediates -/

/-- The macro `I_IMM`. -/
def iImm (inst : BitVec 32) : BitVec 64 :=
  (expandBit inst 31 52 <<< 12) ||| bits inst 31 20

/-- The macro `S_IMM`. -/
def sImm (inst : BitVec 32) : BitVec 64 :=
  (expandBit inst 31 52 <<< 12) ||| (bits inst 31 25 <<< 5) ||| bits inst 11 7

/-- The macro `B_IMM`. -/
def bImm (inst : BitVec 32) : BitVec 64 :=
  (expandBit inst 31 52 <<< 12) ||| (bit inst 7 <<< 11) ||| (bits inst 30 25 <<< 5) |||
    (bits inst 11 8 <<< 1)

/-- The macro `U_IMM`. -/
def uImm (inst : BitVec 32) : BitVec 64 :=
  (expandBit inst 31 32 <<< 32) ||| (bits inst 31 12 <<< 12)

/-- The macro `J_IMM`. -/
def jImm (inst : BitVec 32) : BitVec 64 :=
  (expandBit inst 31 44 <<< 20) ||| (bits inst 19 12 <<< 12) ||| (bit inst 20 <<< 11) |||
    (bits inst 30 21 <<< 1)

/-- The macro `C_IMM`. -/
def cImm (inst : BitVec 32) : BitVec 64 := bits inst 19 15

/-- The macro `M_IMM6`. -/
def mImm6 (inst : BitVec 32) : BitVec 64 := bits inst 25 20

/-- The macro `M_IMM5`. -/
def mImm5 (inst : BitVec 32) : BitVec 64 := bits inst 24 20

/-! ### Operations by instruction class -/

/-- The operation of a branch. -/
def branchOp (funct3 : BitVec 3) : Except Stop Op :=
  match funct3.toNat with
  | 0 => .ok .beq
  | 1 => .ok .bne
  | 4 => .ok .blt
  | 5 => .ok .bge
  | 6 => .ok .bltu
  | 7 => .ok .bgeu
  | _ => .error (.panic "dec32: bad branch instruction (0x%x)\n")

/-- The operation of a load. -/
def loadOp (funct3 : BitVec 3) : Except Stop Op :=
  match funct3.toNat with
  | 0 => .ok .lb
  | 1 => .ok .lh
  | 2 => .ok .lw
  | 3 => .ok .ld
  | 4 => .ok .lbu
  | 5 => .ok .lhu
  | 6 => .ok .lwu
  | _ => .error (.panic "dec32: bad load instruction (0x%x)\n")

/-- The operation of a store. -/
def storeOp (funct3 : BitVec 3) : Except Stop Op :=
  match funct3.toNat with
  | 0 => .ok .sb
  | 1 => .ok .sh
  | 2 => .ok .sw
  | 3 => .ok .sd
  | _ => .error (.panic "dec32: bad store instruction (0x%x)\n")

/-- The operation of a floating-point load. -/
def loadFpOp (funct3 : BitVec 3) : Except Stop Op :=
  match funct3.toNat with
  | 2 => .ok .flw
  | 3 => .ok .fld
  | _ => .error (.panic "dec32: bad load-fp instruction (0x%x)\n")

/-- The operation of a floating-point store. -/
def storeFpOp (funct3 : BitVec 3) : Except Stop Op :=
  match funct3.toNat with
  | 2 => .ok .fsw
  | 3 => .ok .fsd
  | _ => .error (.panic "dec32: bad store-fp instruction (0x%x)\n")

/-- The operation of a register-immediate instruction, for which every `funct3` has a case. -/
def immOp (inst : BitVec 32) (funct3 : BitVec 3) : Op :=
  match funct3.toNat with
  | 0 => .addi
  | 1 => .slli
  | 2 => .slti
  | 3 => .sltiu
  | 4 => .xori
  -- Bit thirty tells the two right shifts apart, and is looked at nowhere else.
  | 5 => if inst.getLsbD 30 then .srai else .srli
  | 6 => .ori
  | _ => .andi

/-- The operation and immediate of a register-immediate instruction on words. -/
def immWOp (inst : BitVec 32) (funct3 : BitVec 3) : Except Stop (Op × BitVec 64) :=
  match funct3.toNat with
  | 0 => .ok (.addiw, iImm inst)
  | 1 => .ok (.slliw, mImm5 inst)
  | 5 => .ok (if inst.getLsbD 30 then .sraiw else .srliw, mImm5 inst)
  | _ => .error (.panic "dec32: bad imm_w instruction (0x%x)\n")

/-- The operation of a register-register instruction, for which every `funct3` has a case. -/
def regOp (inst : BitVec 32) (funct3 : BitVec 3) (funct7 : BitVec 7) : Op :=
  -- The multiplications and divisions share an opcode with the other operations.
  if funct7 = 1 then
    match funct3.toNat with
    | 0 => .mul
    | 1 => .mulh
    | 2 => .mulhsu
    | 3 => .mulhu
    | 4 => .div
    | 5 => .divu
    | 6 => .rem
    | _ => .remu
  else
    -- Of any other `funct7` only one bit is looked at.
    match funct3.toNat with
    | 0 => if inst.getLsbD 30 then .sub else .add
    | 1 => .sll
    | 2 => .slt
    | 3 => .sltu
    | 4 => .xor
    | 5 => if inst.getLsbD 30 then .sra else .srl
    | 6 => .or
    | _ => .and

/-- The operation of a register-register instruction on words. -/
def regWOp (inst : BitVec 32) (funct3 : BitVec 3) (funct7 : BitVec 7) : Except Stop Op :=
  if funct7 = 1 then
    match funct3.toNat with
    | 0 => .ok .mulw
    | 4 => .ok .divw
    | 5 => .ok .divuw
    | 6 => .ok .remw
    | 7 => .ok .remuw
    | _ => .error (.panic "dec32: bad mul(w)/div(w) instruction (0x%x)\n")
  else
    match funct3.toNat with
    | 0 => .ok (if inst.getLsbD 30 then .subw else .addw)
    | 1 => .ok .sllw
    | 5 => .ok (if inst.getLsbD 30 then .sraw else .srlw)
    | _ => .error (.panic "dec32: bad reg_w instruction (0x%x)")

/-- The operation of a fence. -/
def miscOp (funct3 : BitVec 3) : Except Stop Op :=
  match funct3.toNat with
  | 0 => .ok .fence
  | 1 => .ok .fenceI
  | _ => .error (.panic "dec32: bad misc instruction (0x%x)")

/-- The operation of a system instruction that names no control register. -/
def privOp (inst : BitVec 32) (funct7 : BitVec 7) : Except Stop Op :=
  let rs2 := (bits inst 24 20).toNat
  -- Returns and fences are named by `funct7`, the rest by the second register field as well.
  match funct7.toNat with
  | 0 =>
    match rs2 with
    | 0 => .ok .ecall
    | 1 => .ok .ebreak
    | 2 => .ok .uret
    | _ => .error (.panic "dec32: bad system instruction (0x%x)")
  | 8 =>
    if rs2 = 2 then .ok .sret
    else if rs2 = 5 then .ok .wfi
    else .error (.panic "dec32: bad system instruction (0x%x)")
  | 9 => .ok .sfenceVma
  | 24 => .ok .mret
  | _ => .error (.panic "dec32: bad system instruction (0x%x)")

/-- The operation and immediate of a system instruction. -/
def systemOp (inst : BitVec 32) (funct3 : BitVec 3) (funct7 : BitVec 7) :
    Except Stop (Op × BitVec 64) :=
  match funct3.toNat with
  | 0 => do return (← privOp inst funct7, 0)
  -- The register forms take their operand from `rs1`, the others from the immediate.
  | 1 => .ok (.csrrw, 0)
  | 2 => .ok (.csrrs, 0)
  | 3 => .ok (.csrrc, 0)
  | 5 => .ok (.csrrwi, cImm inst)
  | 6 => .ok (.csrrsi, cImm inst)
  | 7 => .ok (.csrrci, cImm inst)
  | _ => .error (.panic "dec32: bad system instruction (0x%x)")

/-- The operation of an atomic instruction, of doubleword width only for `funct3` three. -/
def amoOp (funct3 : BitVec 3) (funct5 : BitVec 5) : Except Stop Op :=
  match funct5.toNat with
  | 0 => .ok (if funct3 = 3 then .amoAddD else .amoAddW)
  | 1 => .ok (if funct3 = 3 then .amoSwapD else .amoSwapW)
  | 2 => .ok (if funct3 = 3 then .lrD else .lrW)
  | 3 => .ok (if funct3 = 3 then .scD else .scW)
  | 4 => .ok (if funct3 = 3 then .amoXorD else .amoXorW)
  | 8 => .ok (if funct3 = 3 then .amoOrD else .amoOrW)
  | 12 => .ok (if funct3 = 3 then .amoAndD else .amoAndW)
  | 16 => .ok (if funct3 = 3 then .amoMinD else .amoMinW)
  | 20 => .ok (if funct3 = 3 then .amoMaxD else .amoMaxW)
  | 24 => .ok (if funct3 = 3 then .amoMinuD else .amoMinuW)
  | 28 => .ok (if funct3 = 3 then .amoMaxuD else .amoMaxuW)
  | _ => .error (.panic "dec32: bad system instruction (0x%x)\n")

/-- The operation of a floating-point computation, of which only one move is implemented. -/
def fpOp (funct7 : BitVec 7) : Except Stop Op :=
  if funct7 = 0x78 then .ok .fmvWX
  else .error (.panic "dec32: bad fp instruction (0x%x)\n")

/-! ### The decoder -/

/-- The function `dec32`. -/
def dec32 (inst : BitVec 32) : Except Stop Decoded :=
  let funct3 : BitVec 3 := inst.extractLsb 14 12
  let funct5 : BitVec 5 := inst.extractLsb 31 27
  let funct7 : BitVec 7 := inst.extractLsb 31 25
  let fields : Decoded :=
    { op := .nop, rd := inst.extractLsb 11 7, rs1 := inst.extractLsb 19 15,
      rs2 := inst.extractLsb 24 20, imm := 0, csrAddr := 0 }
  match (inst.extractLsb 6 0).toNat with
  | 0x37 => .ok { fields with op := .lui, imm := uImm inst }
  | 0x17 => .ok { fields with op := .auipc, imm := uImm inst }
  | 0x6F => .ok { fields with op := .jal, imm := jImm inst }
  | 0x67 => .ok { fields with op := .jalr, imm := iImm inst }
  -- Branches and stores have no destination, and the field that holds one is cleared.
  | 0x63 => do
    let op ← branchOp funct3
    return { fields with op, imm := bImm inst, rd := 0 }
  | 0x03 => do
    let op ← loadOp funct3
    return { fields with op, imm := iImm inst }
  | 0x23 => do
    let op ← storeOp funct3
    return { fields with op, imm := sImm inst, rd := 0 }
  | 0x07 => do
    let op ← loadFpOp funct3
    return { fields with op, imm := iImm inst }
  | 0x27 => do
    let op ← storeFpOp funct3
    return { fields with op, imm := sImm inst, rd := 0 }
  | 0x13 =>
    -- The two shifts keep six bits of the field the others read as a signed number.
    let imm := if funct3 = 1 ∨ funct3 = 5 then mImm6 inst else iImm inst
    .ok { fields with op := immOp inst funct3, imm }
  | 0x1B => do
    let (op, imm) ← immWOp inst funct3
    return { fields with op, imm }
  | 0x33 => .ok { fields with op := regOp inst funct3 funct7 }
  | 0x3B => do
    let op ← regWOp inst funct3 funct7
    return { fields with op }
  | 0x0F => do
    let op ← miscOp funct3
    return { fields with op }
  -- The number of the control register is the whole upper field, whatever the operation.
  | 0x73 => do
    let (op, imm) ← systemOp inst funct3 funct7
    return { fields with op, imm, csrAddr := inst.extractLsb 31 20 }
  | 0x2F => do
    let op ← amoOp funct3 funct5
    return { fields with op }
  | 0x53 => do
    let op ← fpOp funct7
    return { fields with op }
  | _ => .error (.panic "dec32: bad instruction (0x%x) at (0x%lx)\n")

end Xemu.Dec32
