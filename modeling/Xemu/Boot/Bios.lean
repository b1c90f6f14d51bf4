import Xemu.Isa.Machine
import Xemu.Lib.Bytes

/-! The program that the hart starts with, line by line, and what an assembler makes of it. -/

namespace Xemu

/-! ### Lines -/

/-- The lines of assembly that the program is written in. -/
inductive BiosLine where
  /-- The number of the hart is the only control register it reads. -/
  | csrr (rd : BitVec 5)
  | li (rd : BitVec 5) (value : BitVec 64)
  | ld (rd : BitVec 5) (offset : BitVec 64) (rs1 : BitVec 5)
  | sd (rs2 : BitVec 5) (offset : BitVec 64) (rs1 : BitVec 5)
  | mv (rd rs : BitVec 5)
  | addi (rd rs : BitVec 5) (imm : BitVec 64)
  | andi (rd rs : BitVec 5) (imm : BitVec 64)
  | add (rd rs1 rs2 : BitVec 5)
  | call (label : Nat)
  | blt (rs1 rs2 : BitVec 5) (label : Nat)
  | jr (rs : BitVec 5)
  | ret
  deriving DecidableEq, Repr

namespace BiosLine

/-- What a line needs of the memory and of the address it jumps to. -/
def Can (layout : Isa.Layout) (s : Isa.State) : BiosLine → Prop
  | ld _ offset rs1 => Isa.Aligned layout.readable (s.reg rs1 + offset) 8
  | sd _ offset rs1 => Isa.Aligned layout.writable (s.reg rs1 + offset) 8
  | jr rs => (s.reg rs).toNat % 2 = 0
  | ret => (s.reg 1).toNat % 2 = 0
  | _ => True

/-- The state after a line, where the lines start at some addresses. -/
def effect (place : Nat → BitVec 64) (index : Nat) (s : Isa.State) : BiosLine → Isa.State
  | csrr rd => (s.assign rd s.hartId).goto (place (index + 1))
  | li rd value => (s.assign rd value).goto (place (index + 1))
  | ld rd offset rs1 =>
    (s.assign rd (LittleEndian.load 64 s.mem (s.reg rs1 + offset) 8)).goto (place (index + 1))
  | sd rs2 offset rs1 =>
    (s.store (s.reg rs1 + offset) 8 (s.reg rs2)).goto (place (index + 1))
  | mv rd rs => (s.assign rd (s.reg rs)).goto (place (index + 1))
  | addi rd rs imm => (s.assign rd (s.reg rs + imm)).goto (place (index + 1))
  | andi rd rs imm => (s.assign rd (s.reg rs &&& imm)).goto (place (index + 1))
  | add rd rs1 rs2 => (s.assign rd (s.reg rs1 + s.reg rs2)).goto (place (index + 1))
  -- A call leaves the address behind it in the register that a return takes it from.
  | call label => (s.assign 1 (place (index + 1))).goto (place label)
  | blt rs1 rs2 label =>
    s.goto (if (s.reg rs1).slt (s.reg rs2) then place label else place (index + 1))
  | jr rs => s.goto (s.reg rs)
  | ret => s.goto (s.reg 1)

end BiosLine

/-! ### The program -/

namespace Bios

def a0 : BitVec 5 := 10
def a1 : BitVec 5 := 11
def t0 : BitVec 5 := 5
def t1 : BitVec 5 := 6
def t2 : BitVec 5 := 7
def t3 : BitVec 5 := 28
def t4 : BitVec 5 := 29
def t5 : BitVec 5 := 30
def t6 : BitVec 5 := 31

/-- The constant `ROM_BASE`, where the program is linked to run. -/
def romBase : BitVec 64 := 0x1000

/-- The constant `FLASH_BASE`. -/
def flashBase : BitVec 64 := 0x20000000

def dtbLoadAddr : BitVec 64 := romBase + 0x100
def sbiLoadAddr : BitVec 64 := romBase + 0x2000
def payloadLoadAddr : BitVec 64 := flashBase + 0x100
def sbiLinkAddr : BitVec 64 := 0x80000000
def payloadLinkAddr : BitVec 64 := 0x80200000

/-- The label `_relocate`, by the number of its line. -/
def relocate : Nat := 11

/-- The label `_loop`. -/
def loop : Nat := 18

/-- The text of the program, from the label `_start` on. -/
def start : List BiosLine := [
  .csrr a0,
  .li a1 dtbLoadAddr,
  .li t6 payloadLinkAddr,
  .li t5 payloadLoadAddr,
  -- The size of the kernel is in its own header.
  .ld t4 16 t5,
  .call relocate,
  .li t6 sbiLinkAddr,
  .li t5 sbiLoadAddr,
  -- The size of the firmware was recorded below it when it was added to the ROM.
  .ld t4 (-8) t5,
  .call relocate,
  .jr t6,
  -- The label `_relocate`.
  .mv t1 t4,
  .mv t2 t5,
  .addi t1 t1 7,
  .andi t1 t1 (~~~7),
  .add t3 t2 t1,
  .mv t0 t6,
  .add t1 t0 t1,
  -- The label `_loop`.
  .addi t3 t3 (-8),
  .addi t1 t1 (-8),
  .ld t2 0 t3,
  .sd t2 0 t1,
  .blt t0 t1 loop,
  .ret]

/-- One line of the program is executed. -/
def Step (place : Nat → BitVec 64) (layout : Isa.Layout) (s t : Isa.State) : Prop :=
  ∃ index line, start[index]? = some line ∧ s.pc = place index ∧ line.Can layout s ∧
    t = line.effect place index s

end Bios

/-! ### The image -/

/-- An instruction, written as the short ones are expanded. -/
abbrev Instruction := Compressed.Expansion

/-- The bytes that an assembler may write for an instruction. -/
inductive Instruction.Emits : Instruction → List (BitVec 8) → Prop where
  | full {op : Op} {o : Operands} {format : Format} (standard : op.format = some format)
    (fits : format.Fits o.imm) : Emits ⟨op, o⟩ (Bytes.ofWord (format.encode o) 4)
  | half {op : Op} {o : Operands} {inst : BitVec 16}
    (expanded : Compressed.expand inst = some ⟨op, o⟩) : Emits ⟨op, o⟩ (Bytes.ofWord inst 2)

/-- The bytes for some instructions, one behind the other. -/
inductive Emitted : List Instruction → List (BitVec 8) → Prop where
  | nil : Emitted [] []
  | cons {instruction : Instruction} {rest : List Instruction} {head tail : List (BitVec 8)}
    (first : instruction.Emits head) (others : Emitted rest tail) :
    Emitted (instruction :: rest) (head ++ tail)

/-- The steps in which an assembler builds up a constant in a register. -/
inductive ConstantStep where
  | lui (imm : BitVec 64)
  | li (imm : BitVec 64)
  | addi (imm : BitVec 64)
  | addiw (imm : BitVec 64)
  | slli (amount : BitVec 64)

namespace ConstantStep

/-- The instruction that takes the step. -/
def instruction (rd : BitVec 5) : ConstantStep → Instruction
  | lui imm => ⟨.lui, { rd, imm }⟩
  | li imm => ⟨.addi, { rd, imm }⟩
  | addi imm => ⟨.addi, { rd, rs1 := rd, imm }⟩
  | addiw imm => ⟨.addiw, { rd, rs1 := rd, imm }⟩
  | slli imm => ⟨.slli, { rd, rs1 := rd, imm }⟩

/-- What the step makes of the register. -/
def apply (old : BitVec 64) : ConstantStep → BitVec 64
  | lui imm | li imm => imm
  | addi imm => old + imm
  | addiw imm => Isa.extend (Isa.low old + Isa.low imm)
  | slli amount => Isa.sll old amount.toNat

end ConstantStep

/-- The instructions that an assembler may write for a line. -/
inductive BiosLine.Code (place : Nat → BitVec 64) (index : Nat) :
    BiosLine → List Instruction → Prop where
  | csrr (rd : BitVec 5) : Code place index (.csrr rd) [⟨.csrrs, { rd, csrAddr := mhartid }⟩]
  | li {rd : BitVec 5} {value : BitVec 64} (steps : List ConstantStep)
    (builds : ∀ old, steps.foldl ConstantStep.apply old = value) :
    Code place index (.li rd value) (steps.map (·.instruction rd))
  | ld (rd : BitVec 5) (offset : BitVec 64) (rs1 : BitVec 5) :
    Code place index (.ld rd offset rs1) [⟨.ld, { rd, rs1, imm := offset }⟩]
  | sd (rs2 : BitVec 5) (offset : BitVec 64) (rs1 : BitVec 5) :
    Code place index (.sd rs2 offset rs1) [⟨.sd, { rs1, rs2, imm := offset }⟩]
  | mv (rd rs : BitVec 5) : Code place index (.mv rd rs) [⟨.addi, { rd, rs1 := rs }⟩]
  /-- The short form of a move is an addition to register zero. -/
  | shortMv (rd rs : BitVec 5) : Code place index (.mv rd rs) [⟨.add, { rd, rs2 := rs }⟩]
  | addi (rd rs : BitVec 5) (imm : BitVec 64) :
    Code place index (.addi rd rs imm) [⟨.addi, { rd, rs1 := rs, imm }⟩]
  | andi (rd rs : BitVec 5) (imm : BitVec 64) :
    Code place index (.andi rd rs imm) [⟨.andi, { rd, rs1 := rs, imm }⟩]
  | add (rd rs1 rs2 : BitVec 5) :
    Code place index (.add rd rs1 rs2) [⟨.add, { rd, rs1, rs2 }⟩]
  /-- The short form of an addition has its destination in front. -/
  | shortAdd (rd rs1 rs2 : BitVec 5) :
    Code place index (.add rd rs1 rs2) [⟨.add, { rd, rs1 := rs2, rs2 := rs1 }⟩]
  | call {label : Nat} (offset : BitVec 64) (lands : place index + offset = place label) :
    Code place index (.call label) [⟨.jal, { rd := 1, imm := offset }⟩]
  /-- A call that the linker does not shorten reaches any address. -/
  | farCall {label : Nat} (upper lower : BitVec 64)
    (lands : place index + upper + lower = place label) :
    Code place index (.call label)
      [⟨.auipc, { rd := 1, imm := upper }⟩, ⟨.jalr, { rd := 1, rs1 := 1, imm := lower }⟩]
  | blt {label : Nat} (rs1 rs2 : BitVec 5) (offset : BitVec 64)
    (lands : place index + offset = place label) :
    Code place index (.blt rs1 rs2 label) [⟨.blt, { rs1, rs2, imm := offset }⟩]
  | jr (rs : BitVec 5) : Code place index (.jr rs) [⟨.jalr, { rs1 := rs }⟩]
  | ret : Code place index .ret [⟨.jalr, { rs1 := 1 }⟩]

/-- An image that an assembler may make of the program, linked to run from the start of the ROM. -/
structure Bios.Assembled (image : List (BitVec 8)) (place : Nat → BitVec 64) : Prop where
  starts : place 0 = romBase
  lines : ∀ index line, start[index]? = some line → ∃ code bytes,
    line.Code place index code ∧ Emitted code bytes ∧
      place (index + 1) = place index + BitVec.ofNat 64 bytes.length ∧
      bytes <+: image.drop (place index - romBase).toNat

end Xemu
