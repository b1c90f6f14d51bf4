import Xemu.Decode.Operation

/-! The standard 32-bit encodings of the operations, by format. -/

namespace Xemu

/-- The operands an instruction can have. -/
structure Operands where
  rd : BitVec 5 := 0
  rs1 : BitVec 5 := 0
  rs2 : BitVec 5 := 0
  /-- The immediate as the 64-bit number it stands for, or the amount of a shift. -/
  imm : BitVec 64 := 0
  csrAddr : BitVec 12 := 0
  aq : BitVec 1 := 0
  rl : BitVec 1 := 0
  /-- The mode and the two sets of a fence, for which no decoder has an output. -/
  order : BitVec 12 := 0

/-- The formats, each with the parts of the encoding that do not depend on the operands. -/
inductive Format where
  /-- Two registers to a third. -/
  | reg (opcode : BitVec 7) (funct3 : BitVec 3) (funct7 : BitVec 7)
  /-- A register and twelve bits of a signed number. -/
  | imm (opcode : BitVec 7) (funct3 : BitVec 3)
  | store (opcode : BitVec 7) (funct3 : BitVec 3)
  | branch (funct3 : BitVec 3)
  | upper (opcode : BitVec 7)
  | jump
  /-- A shift by six bits of an amount. -/
  | shift (funct3 : BitVec 3) (funct6 : BitVec 6)
  /-- A shift of a word by five bits of an amount. -/
  | shiftW (funct3 : BitVec 3) (funct7 : BitVec 7)
  | csr (funct3 : BitVec 3)
  /-- A control register and five bits of an unsigned number. -/
  | csrImm (funct3 : BitVec 3)
  | amo (funct3 : BitVec 3) (funct5 : BitVec 5)
  | lr (funct3 : BitVec 3)
  | fence (funct3 : BitVec 3)
  /-- No operand at all. -/
  | system (funct12 : BitVec 12)
  | sfence
  /-- The move of a word from an integer to a floating-point register. -/
  | move

/-- The columns in which all formats have their fields, from the highest bits to the lowest. -/
def columns (funct7 : BitVec 7) (rs2 rs1 : BitVec 5) (funct3 : BitVec 3) (rd : BitVec 5)
    (opcode : BitVec 7) : BitVec 32 :=
  funct7 ++ rs2 ++ rs1 ++ funct3 ++ rd ++ opcode

/-- The word that encodes operands in a format. -/
def Format.encode (format : Format) (o : Operands) : BitVec 32 :=
  let imm := o.imm
  match format with
  | .reg opcode funct3 funct7 => columns funct7 o.rs2 o.rs1 funct3 o.rd opcode
  | .imm opcode funct3 =>
    columns (imm.extractLsb 11 5) (imm.extractLsb 4 0) o.rs1 funct3 o.rd opcode
  | .store opcode funct3 =>
    columns (imm.extractLsb 11 5) o.rs2 o.rs1 funct3 (imm.extractLsb 4 0) opcode
  -- The sign is always in the highest bit, and what it displaces takes the place left over.
  | .branch funct3 =>
    columns (imm.extractLsb 12 12 ++ imm.extractLsb 10 5) o.rs2 o.rs1 funct3
      (imm.extractLsb 4 1 ++ imm.extractLsb 11 11) 0x63
  | .upper opcode =>
    columns (imm.extractLsb 31 25) (imm.extractLsb 24 20) (imm.extractLsb 19 15)
      (imm.extractLsb 14 12) o.rd opcode
  | .jump =>
    columns (imm.extractLsb 20 20 ++ imm.extractLsb 10 5)
      (imm.extractLsb 4 1 ++ imm.extractLsb 11 11) (imm.extractLsb 19 15) (imm.extractLsb 14 12)
      o.rd 0x6F
  | .shift funct3 funct6 =>
    columns (funct6 ++ imm.extractLsb 5 5) (imm.extractLsb 4 0) o.rs1 funct3 o.rd 0x13
  | .shiftW funct3 funct7 => columns funct7 (imm.extractLsb 4 0) o.rs1 funct3 o.rd 0x1B
  | .csr funct3 =>
    columns (o.csrAddr.extractLsb 11 5) (o.csrAddr.extractLsb 4 0) o.rs1 funct3 o.rd 0x73
  | .csrImm funct3 =>
    columns (o.csrAddr.extractLsb 11 5) (o.csrAddr.extractLsb 4 0) (imm.extractLsb 4 0) funct3 o.rd
      0x73
  | .amo funct3 funct5 => columns (funct5 ++ o.aq ++ o.rl) o.rs2 o.rs1 funct3 o.rd 0x2F
  | .lr funct3 => columns (0x02#5 ++ o.aq ++ o.rl) 0 o.rs1 funct3 o.rd 0x2F
  | .fence funct3 =>
    columns (o.order.extractLsb 11 5) (o.order.extractLsb 4 0) o.rs1 funct3 o.rd 0x0F
  | .system funct12 => columns (funct12.extractLsb 11 5) (funct12.extractLsb 4 0) 0 0 0 0x73
  | .sfence => columns 0x09 o.rs2 o.rs1 0 0 0x73
  | .move => columns 0x78 0 o.rs1 0 o.rd 0x53

/-- A number is the sign-extension of so many of its bits. -/
def SignedBits (width : Nat) (imm : BitVec 64) : Prop := (imm.setWidth width).signExtend 64 = imm

/-- A number is the zero-extension of so many of its bits. -/
def UnsignedBits (width : Nat) (imm : BitVec 64) : Prop := (imm.setWidth width).setWidth 64 = imm

/-- The immediate can be represented in a format. -/
def Format.Fits (format : Format) (imm : BitVec 64) : Prop :=
  match format with
  | .imm .. | .store .. => SignedBits 12 imm
  -- The targets of jumps and branches are even.
  | .branch _ => SignedBits 13 imm ∧ imm.setWidth 1 = 0
  | .jump => SignedBits 21 imm ∧ imm.setWidth 1 = 0
  | .upper _ => SignedBits 32 imm ∧ imm.setWidth 12 = 0
  | .shift .. => UnsignedBits 6 imm
  | .shiftW .. | .csrImm _ => UnsignedBits 5 imm
  | _ => True

instance (width : Nat) (imm : BitVec 64) : Decidable (SignedBits width imm) :=
  inferInstanceAs (Decidable (_ = _))

instance (width : Nat) (imm : BitVec 64) : Decidable (UnsignedBits width imm) :=
  inferInstanceAs (Decidable (_ = _))

instance : DecidableRel Format.Fits := fun format imm => match format with
  | .imm .. | .store .. => inferInstanceAs (Decidable (SignedBits 12 imm))
  | .branch _ => inferInstanceAs (Decidable (SignedBits 13 imm ∧ imm.setWidth 1 = 0))
  | .jump => inferInstanceAs (Decidable (SignedBits 21 imm ∧ imm.setWidth 1 = 0))
  | .upper _ => inferInstanceAs (Decidable (SignedBits 32 imm ∧ imm.setWidth 12 = 0))
  | .shift .. => inferInstanceAs (Decidable (UnsignedBits 6 imm))
  | .shiftW .. | .csrImm _ => inferInstanceAs (Decidable (UnsignedBits 5 imm))
  | .reg .. | .csr _ | .amo .. | .lr _ | .fence _ | .system _ | .sfence | .move => .isTrue trivial

/-- The format has a destination register. -/
def Format.hasRd : Format → Bool
  | .store .. | .branch _ | .system _ | .sfence => false
  | _ => true

/-- The format has a first source register. -/
def Format.hasRs1 : Format → Bool
  | .upper _ | .jump | .csrImm _ | .system _ => false
  | _ => true

/-- The format has a second source register. -/
def Format.hasRs2 : Format → Bool
  | .reg .. | .store .. | .branch _ | .amo .. | .sfence => true
  | _ => false

/-- The format has an immediate or the amount of a shift. -/
def Format.hasImm : Format → Bool
  | .imm .. | .store .. | .branch _ | .upper _ | .jump | .shift .. | .shiftW .. | .csrImm _ => true
  | _ => false

/-- The format has the number of a control register. -/
def Format.hasCsr : Format → Bool
  | .csr _ | .csrImm _ => true
  | _ => false

/-- The format in which an operation is encoded, which the idle operation alone has not. -/
def Op.format : Op → Option Format
  | .nop => none
  | .lui => some (.upper 0x37)
  | .auipc => some (.upper 0x17)
  | .jal => some .jump
  | .jalr => some (.imm 0x67 0)
  | .beq => some (.branch 0)
  | .bne => some (.branch 1)
  | .blt => some (.branch 4)
  | .bge => some (.branch 5)
  | .bltu => some (.branch 6)
  | .bgeu => some (.branch 7)
  | .lb => some (.imm 0x03 0)
  | .lh => some (.imm 0x03 1)
  | .lw => some (.imm 0x03 2)
  | .ld => some (.imm 0x03 3)
  | .lbu => some (.imm 0x03 4)
  | .lhu => some (.imm 0x03 5)
  | .lwu => some (.imm 0x03 6)
  | .sb => some (.store 0x23 0)
  | .sh => some (.store 0x23 1)
  | .sw => some (.store 0x23 2)
  | .sd => some (.store 0x23 3)
  | .addi => some (.imm 0x13 0)
  | .slti => some (.imm 0x13 2)
  | .sltiu => some (.imm 0x13 3)
  | .xori => some (.imm 0x13 4)
  | .ori => some (.imm 0x13 6)
  | .andi => some (.imm 0x13 7)
  | .slli => some (.shift 1 0x00)
  | .srli => some (.shift 5 0x00)
  | .srai => some (.shift 5 0x10)
  | .addiw => some (.imm 0x1B 0)
  | .slliw => some (.shiftW 1 0x00)
  | .srliw => some (.shiftW 5 0x00)
  | .sraiw => some (.shiftW 5 0x20)
  | .add => some (.reg 0x33 0 0x00)
  | .sub => some (.reg 0x33 0 0x20)
  | .sll => some (.reg 0x33 1 0x00)
  | .slt => some (.reg 0x33 2 0x00)
  | .sltu => some (.reg 0x33 3 0x00)
  | .xor => some (.reg 0x33 4 0x00)
  | .srl => some (.reg 0x33 5 0x00)
  | .sra => some (.reg 0x33 5 0x20)
  | .or => some (.reg 0x33 6 0x00)
  | .and => some (.reg 0x33 7 0x00)
  | .addw => some (.reg 0x3B 0 0x00)
  | .subw => some (.reg 0x3B 0 0x20)
  | .sllw => some (.reg 0x3B 1 0x00)
  | .srlw => some (.reg 0x3B 5 0x00)
  | .sraw => some (.reg 0x3B 5 0x20)
  | .fence => some (.fence 0)
  | .fenceI => some (.fence 1)
  | .ecall => some (.system 0x000)
  | .ebreak => some (.system 0x001)
  | .uret => some (.system 0x002)
  | .sret => some (.system 0x102)
  | .wfi => some (.system 0x105)
  | .mret => some (.system 0x302)
  | .sfenceVma => some .sfence
  | .csrrw => some (.csr 1)
  | .csrrs => some (.csr 2)
  | .csrrc => some (.csr 3)
  | .csrrwi => some (.csrImm 5)
  | .csrrsi => some (.csrImm 6)
  | .csrrci => some (.csrImm 7)
  | .mul => some (.reg 0x33 0 0x01)
  | .mulh => some (.reg 0x33 1 0x01)
  | .mulhsu => some (.reg 0x33 2 0x01)
  | .mulhu => some (.reg 0x33 3 0x01)
  | .div => some (.reg 0x33 4 0x01)
  | .divu => some (.reg 0x33 5 0x01)
  | .rem => some (.reg 0x33 6 0x01)
  | .remu => some (.reg 0x33 7 0x01)
  | .mulw => some (.reg 0x3B 0 0x01)
  | .divw => some (.reg 0x3B 4 0x01)
  | .divuw => some (.reg 0x3B 5 0x01)
  | .remw => some (.reg 0x3B 6 0x01)
  | .remuw => some (.reg 0x3B 7 0x01)
  | .amoAddW => some (.amo 2 0x00)
  | .amoSwapW => some (.amo 2 0x01)
  | .lrW => some (.lr 2)
  | .scW => some (.amo 2 0x03)
  | .amoXorW => some (.amo 2 0x04)
  | .amoOrW => some (.amo 2 0x08)
  | .amoAndW => some (.amo 2 0x0C)
  | .amoMinW => some (.amo 2 0x10)
  | .amoMaxW => some (.amo 2 0x14)
  | .amoMinuW => some (.amo 2 0x18)
  | .amoMaxuW => some (.amo 2 0x1C)
  | .amoAddD => some (.amo 3 0x00)
  | .amoSwapD => some (.amo 3 0x01)
  | .lrD => some (.lr 3)
  | .scD => some (.amo 3 0x03)
  | .amoXorD => some (.amo 3 0x04)
  | .amoOrD => some (.amo 3 0x08)
  | .amoAndD => some (.amo 3 0x0C)
  | .amoMinD => some (.amo 3 0x10)
  | .amoMaxD => some (.amo 3 0x14)
  | .amoMinuD => some (.amo 3 0x18)
  | .amoMaxuD => some (.amo 3 0x1C)
  | .flw => some (.imm 0x07 2)
  | .fld => some (.imm 0x07 3)
  | .fsw => some (.store 0x27 2)
  | .fsd => some (.store 0x27 3)
  | .fmvWX => some .move

/-- A decoder's outputs are the operation and the operands that a format has. -/
structure Format.Carries (format : Format) (op : Op) (o : Operands) (d : Decoded) : Prop where
  op : d.op = op
  /-- Without a destination the output is the register that is never written. -/
  rd : d.rd = if format.hasRd then o.rd else 0
  rs1 : format.hasRs1 → d.rs1 = o.rs1
  rs2 : format.hasRs2 → d.rs2 = o.rs2
  imm : format.hasImm → d.imm = o.imm
  csrAddr : format.hasCsr → d.csrAddr = o.csrAddr

end Xemu
