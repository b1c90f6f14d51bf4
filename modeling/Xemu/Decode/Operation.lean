import Xemu.Util

/-! The operations the decoders produce, with their operand fields. -/

namespace Xemu

/-- The operations of `op_t`, in its order and without its end marker. -/
inductive Op where
  | nop
  | lui
  | auipc
  | jal
  | jalr
  | beq | bne | blt | bge | bltu | bgeu
  | lb | lh | lw | ld | lbu | lhu | lwu
  | sb | sh | sw | sd
  | addi | slli | slti | sltiu | xori | srli | srai | ori | andi
  | addiw | slliw | srliw | sraiw
  | add | sub | sll | slt | sltu | xor | srl | sra | or | and
  | addw | subw | sllw | srlw | sraw
  | fence | fenceI
  | ecall | ebreak | uret | sret | mret | wfi | sfenceVma
  | csrrw | csrrs | csrrc
  | csrrwi | csrrsi | csrrci
  | mul | mulh | mulhsu | mulhu | div | divu | rem | remu
  | mulw | divw | divuw | remw | remuw
  | amoAddD | amoSwapD | lrD | scD | amoXorD | amoOrD | amoAndD
  | amoMinD | amoMaxD | amoMinuD | amoMaxuD
  | amoAddW | amoSwapW | lrW | scW | amoXorW | amoOrW | amoAndW
  | amoMinW | amoMaxW | amoMinuW | amoMaxuW
  | flw | fsw | fmvWX
  | fld | fsd
  deriving DecidableEq, Repr

/-- The operations of `csr_op_type`. -/
inductive CsrOp where
  | write
  | set
  | clear
  deriving DecidableEq, Repr

/-- The operations that name a control register, and what they do with it. -/
def Op.csrOp : Op → Option CsrOp
  | .csrrw | .csrrwi => some .write
  | .csrrs | .csrrsi => some .set
  | .csrrc | .csrrci => some .clear
  | _ => none

/-- The operations that may go on at an address relative to their own. -/
def Op.relative : Op → Bool
  | .jal | .beq | .bne | .blt | .bge | .bltu | .bgeu => true
  | _ => false

/-- The operations that are neither relative nor among the two that `execute` has no case for. -/
def Op.plain (op : Op) : Bool := !op.relative && op != .ebreak && op != .uret

/-- A plain operation is not relative. -/
theorem Op.not_relative {op : Op} (plain : op.plain) : op.relative = false := by
  simp only [Op.plain, Bool.and_eq_true, Bool.not_eq_true'] at plain
  exact plain.1.1

/-- A plain operation is none of the two. -/
theorem Op.not_uncovered {op : Op} (plain : op.plain) : op ≠ .ebreak ∧ op ≠ .uret := by
  simp only [Op.plain, Bool.and_eq_true, bne_iff_ne] at plain
  exact ⟨plain.1.2, plain.2⟩

/-- The operations that write memory. -/
def Op.stores : Op → Bool
  | .sb | .sh | .sw | .sd | .fsw | .fsd | .scD | .scW | .amoAddD | .amoSwapD | .amoXorD | .amoOrD
  | .amoAndD | .amoMinD | .amoMaxD | .amoMinuD | .amoMaxuD | .amoAddW | .amoSwapW | .amoXorW
  | .amoOrW | .amoAndW | .amoMinW | .amoMaxW | .amoMinuW | .amoMaxuW => true
  | _ => false

/-- The width in bytes of a load-reserved. -/
def Op.lrSize : Op → Option Nat
  | .lrD => some 8
  | .lrW => some 4
  | _ => none

/-- The width in bytes of a store-conditional. -/
def Op.scSize : Op → Option Nat
  | .scD => some 8
  | .scW => some 4
  | _ => none

/-- What a decoder stores through its output pointers. -/
structure Decoded where
  op : Op
  rd : BitVec 5
  rs1 : BitVec 5
  rs2 : BitVec 5
  imm : BitVec 64
  csrAddr : BitVec 12
  deriving DecidableEq, Repr

end Xemu
