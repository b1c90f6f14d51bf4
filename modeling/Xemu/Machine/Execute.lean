import Xemu.Decode.Decode
import Xemu.Machine.Mmu

/-! The execution of one decoded instruction. -/

namespace Xemu

/-! ### Arithmetic helpers -/

/-- The high half of the 128-bit product of two register contents, neither of them sign-extended. -/
def mulHigh (a b : BitVec 64) : BitVec 64 :=
  ((a.setWidth 128 * b.setWidth 128) >>> 64).setWidth 64

/-- An arithmetic right shift of a word, which C leaves undefined from 32 places on. -/
def sraWord (word : BitVec 32) (amount : BitVec 64) : Except Stop (BitVec 64) :=
  if amount.toNat < 32 then .ok ((word.sshiftRight amount.toNat).signExtend 64)
  else .error (.undefined "shift by the width of the operand or more")

/--
The conversion of an integer to a binary floating-point format with so many significant bits.

Every value here is an integer again, so it is kept as one; ties go to the even neighbour.
-/
def roundTo (precision n : Nat) : Nat :=
  -- The unit is what the last kept bit counts, and one for a number that fits.
  let unit := 2 ^ (n.log2 + 1 - precision)
  let quotient := n / unit
  let remainder := n % unit
  if 2 * remainder > unit ∨ (2 * remainder = unit ∧ quotient % 2 = 1) then (quotient + 1) * unit
  else quotient * unit

/-- The conversion of a floating-point integer back to `uint64_t`, undefined when it does not fit. -/
def floatToU64 (value : Nat) : Except Stop (BitVec 64) :=
  if value < 2 ^ 64 then .ok (BitVec.ofNat 64 value)
  else .error (.undefined "conversion of a floating-point value out of range")

/-! ### Local variables -/

/-- The locals that the cases of `execute` assign, with the machine they work on. -/
structure Locals where
  m : Machine
  retPc : BitVec 64
  rdVal : BitVec 64
  frdVal : Nat := 0
  isFrd : Bool := false
  hasExcept : Bool := false

namespace Locals

/-- A case that only assigns `rd_val`. -/
def setRd (locals : Locals) (rdVal : BitVec 64) : Except Stop Locals :=
  .ok { locals with rdVal }

/-- A case that assigns `frd_val` and marks the destination as a floating-point register. -/
def setFrd (locals : Locals) (frdVal : Nat) : Locals :=
  { locals with frdVal, isFrd := true }

/-- The call of `raise_except` after an access has set the exception flag. -/
def fault (locals : Locals) (pc cause tval : BitVec 64) : Locals :=
  let (retPc, hart) := raiseExcept locals.m.hart pc cause tval
  { locals with m.hart := hart, retPc, hasExcept := true }

/-- A call of `as_read` with the test of the exception flag after it, and the value it returns. -/
def readMem (locals : Locals) (host : Host) (pc addr : BitVec 64) (size : Nat) (params : Params)
    (cause : BitVec 64) : Except Stop (BitVec 64 × Locals) := do
  let (data, bus) ← locals.m.asRead host addr size params
  let locals := { locals with m.bus := bus }
  match data with
  | none => return (0, locals.fault pc cause addr)
  | some data => return (data, locals)

/-- A call of `as_write` with the test of the exception flag after it, and the value it returns. -/
def writeMem (locals : Locals) (host : Host) (pc addr : BitVec 64) (size : Nat) (data : BitVec 64)
    (params : Params) : Except Stop (BitVec 64 × Locals) := do
  let (ret, bus) ← locals.m.asWrite host addr size data params
  let locals := { locals with m.bus := bus }
  match ret with
  | none => return (0, locals.fault pc causeStorePageFault addr)
  | some ret => return (ret, locals)

/-- The cases of the integer loads, which differ in size and in the cast of the value read. -/
def load (locals : Locals) (host : Host) (pc addr : BitVec 64) (size : Nat)
    (cast : BitVec 64 → BitVec 64) : Except Stop Locals := do
  -- After a fault the cast still runs, on a value the tail does not use.
  let (data, locals) ← locals.readMem host pc addr size .none causeLoadPageFault
  locals.setRd (cast data)

/-- The cases of the stores, which do not use the value returned. -/
def store (locals : Locals) (host : Host) (pc addr : BitVec 64) (size : Nat)
    (data : BitVec 64) : Except Stop Locals := do
  let (_, locals) ← locals.writeMem host pc addr size data .none
  return locals

/-- The cases of load-reserved, whose fault is recorded as one of a store. -/
def loadReserved (locals : Locals) (host : Host) (pc addr : BitVec 64) (size : Nat)
    (cast : BitVec 64 → BitVec 64) : Except Stop Locals := do
  let (data, locals) ← locals.readMem host pc addr size .lrSc causeStorePageFault
  locals.setRd (cast data)

/-- The cases of store-conditional and the atomic updates, which keep the value returned. -/
def update (locals : Locals) (host : Host) (pc addr : BitVec 64) (size : Nat) (data : BitVec 64)
    (params : Params) : Except Stop Locals := do
  let (ret, locals) ← locals.writeMem host pc addr size data params
  locals.setRd ret

/-- The cases of the floating-point loads, whose fault is recorded as one of a store. -/
def loadFp (locals : Locals) (host : Host) (pc addr : BitVec 64) (size precision : Nat) :
    Except Stop Locals := do
  let (data, locals) ← locals.readMem host pc addr size .none causeStorePageFault
  return locals.setFrd (roundTo precision data.toNat)

/-- The cases of the control-register instructions. -/
def csr (locals : Locals) (host : Host) (pc : BitVec 64) (csrAddr : BitVec 12) (data : BitVec 64)
    (type : CsrOp) : Except Stop Locals := do
  let (ret, hart) ← csrUpdate host locals.m.hart csrAddr data type
  let locals := { locals with m.hart := hart }
  match ret with
  -- The exception flag is set, and the tail then writes no register.
  | none => (locals.fault pc causeIllegalInst 0).setRd 0
  | some ret => locals.setRd ret

/-- The cases of the branches. -/
def branch (locals : Locals) (target : BitVec 64) (taken : Bool) : Except Stop Locals :=
  .ok (if taken then { locals with retPc := target } else locals)

/-- The cases of the two jumps. -/
def jump (locals : Locals) (link target : BitVec 64) : Except Stop Locals :=
  .ok { locals with rdVal := link, retPc := target }

/-- A case that leaves the hart with another handler or return address, and no exception flag. -/
def leave (locals : Locals) (result : BitVec 64 × Hart) : Except Stop Locals :=
  .ok { locals with m.hart := result.2, retPc := result.1 }

end Locals

/-! ### The instruction -/

/-- The sign-extending cast of the low bits of a value. -/
def signed (w : Nat) (value : BitVec 64) : BitVec 64 := (value.setWidth w).signExtend 64

/-- The zero-extending cast of the low bits of a value. -/
def unsigned (w : Nat) (value : BitVec 64) : BitVec 64 := (value.setWidth w).setWidth 64

/-- The switch of `execute`: the locals after the case of the operation. -/
def executeOp (host : Host) (m : Machine) (pc nextPc : BitVec 64) (d : Decoded) :
    Except Stop Locals :=
  let locals : Locals := { m, retPc := nextPc, rdVal := host.rdVal }
  let rs1 := m.hart.reg d.rs1
  let rs2 := m.hart.reg d.rs2
  let imm := d.imm
  let word1 := rs1.setWidth 32
  let word2 := rs2.setWidth 32
  let mostNegative : BitVec 64 := 1 <<< 63
  let mostNegativeWord : BitVec 32 := 1 <<< 31
  match d.op with
  | .nop => .ok locals
  | .lui => locals.setRd imm
  | .auipc => locals.setRd (pc + imm)
  | .jal => locals.jump nextPc (pc + imm)
  -- The sum is taken as it is, with its lowest bit.
  | .jalr => locals.jump nextPc (rs1 + imm)
  | .beq => locals.branch (pc + imm) (rs1 == rs2)
  | .bne => locals.branch (pc + imm) (rs1 != rs2)
  | .blt => locals.branch (pc + imm) (rs1.slt rs2)
  | .bge => locals.branch (pc + imm) (rs2.sle rs1)
  | .bltu => locals.branch (pc + imm) (rs1 < rs2)
  | .bgeu => locals.branch (pc + imm) (rs2 ≤ rs1)
  | .lb => locals.load host pc (rs1 + imm) 1 (signed 8)
  | .lh => locals.load host pc (rs1 + imm) 2 (signed 16)
  | .lw => locals.load host pc (rs1 + imm) 4 (signed 32)
  | .ld => locals.load host pc (rs1 + imm) 8 id
  | .lbu => locals.load host pc (rs1 + imm) 1 (unsigned 8)
  | .lhu => locals.load host pc (rs1 + imm) 2 (unsigned 16)
  | .lwu => locals.load host pc (rs1 + imm) 4 (unsigned 32)
  | .sb => locals.store host pc (rs1 + imm) 1 rs2
  | .sh => locals.store host pc (rs1 + imm) 2 rs2
  | .sw => locals.store host pc (rs1 + imm) 4 rs2
  | .sd => locals.store host pc (rs1 + imm) 8 rs2
  | .addi => locals.setRd (rs1 + imm)
  | .addiw => locals.setRd (toWord ((word1 + imm.setWidth 32).signExtend 64))
  | .add => locals.setRd (rs1 + rs2)
  | .slt => locals.setRd (if rs1.slt rs2 then 1 else 0)
  | .sltu => locals.setRd (if rs1 < rs2 then 1 else 0)
  | .addw => locals.setRd (toWord ((word1 + word2).signExtend 64))
  | .slti => locals.setRd (if rs1.slt imm then 1 else 0)
  | .sltiu => locals.setRd (if rs1 < imm then 1 else 0)
  | .sub => locals.setRd (rs1 - rs2)
  | .subw => locals.setRd (toWord ((word1 - word2).signExtend 64))
  | .slli => locals.setRd (rs1 <<< bits imm 5 0)
  | .slliw => locals.setRd (toWord ((word1 <<< bits imm 4 0).setWidth 64))
  | .sll => locals.setRd (rs1 <<< bits rs2 5 0)
  | .sllw => locals.setRd (toWord ((word1 <<< bits rs2 4 0).setWidth 64))
  | .xori => locals.setRd (rs1 ^^^ imm)
  | .xor => locals.setRd (rs1 ^^^ rs2)
  | .srli => locals.setRd (rs1 >>> bits imm 5 0)
  | .srliw => locals.setRd (toWord ((word1 >>> bits imm 4 0).setWidth 64))
  | .srl => locals.setRd (rs1 >>> bits rs2 5 0)
  | .srlw => locals.setRd (toWord ((word1 >>> bits rs2 4 0).setWidth 64))
  | .srai => locals.setRd (rs1.sshiftRight (bits imm 5 0).toNat)
  -- The two word shifts take six bits of their amount where the others take five.
  | .sraiw => do locals.setRd (← sraWord word1 (bits imm 5 0))
  | .sra => locals.setRd (rs1.sshiftRight (bits rs2 5 0).toNat)
  | .sraw => do locals.setRd (← sraWord word1 (bits rs2 5 0))
  | .ori => locals.setRd (rs1 ||| imm)
  | .or => locals.setRd (rs1 ||| rs2)
  | .andi => locals.setRd (rs1 &&& imm)
  | .and => locals.setRd (rs1 &&& rs2)
  | .fence | .fenceI | .wfi | .sfenceVma => .ok locals
  -- A call raises its exception without the flag, so the tail of the function still writes `rd`.
  | .ecall =>
    locals.leave (raiseExcept m.hart pc (causeEcallFromUMode + m.hart.priv.setWidth 64) 0)
  | .uret => .error (.panic "trap_exit: bad op(0x%x)\n")
  | .sret => locals.leave (trapExitSret m.hart)
  | .mret => locals.leave (trapExitMret m.hart)
  | .csrrw => locals.csr host pc d.csrAddr rs1 .write
  | .csrrs => locals.csr host pc d.csrAddr rs1 .set
  | .csrrc => locals.csr host pc d.csrAddr rs1 .clear
  | .csrrwi => locals.csr host pc d.csrAddr imm .write
  | .csrrsi => locals.csr host pc d.csrAddr imm .set
  | .csrrci => locals.csr host pc d.csrAddr imm .clear
  | .mul => locals.setRd (rs1 * rs2)
  -- The casts to 128 bits start from unsigned numbers, so all three are the unsigned product.
  | .mulh => locals.setRd (mulHigh rs1 rs2)
  | .mulhsu => locals.setRd (mulHigh rs1 rs2)
  | .mulhu => locals.setRd (mulHigh rs1 rs2)
  | .div => locals.setRd (
    if rs2 = 0 then -1
    else if rs2 = -1 ∧ rs1 = mostNegative then mostNegative
    else rs1.sdiv rs2)
  | .divu => locals.setRd (if rs2 = 0 then -1 else rs1 / rs2)
  | .rem => locals.setRd (
    if rs2 = 0 then rs1
    else if rs2 = -1 ∧ rs1 = mostNegative then 0
    else rs1.srem rs2)
  | .remu => locals.setRd (if rs2 = 0 then rs1 else rs1 % rs2)
  | .mulw => locals.setRd (toWord ((word1 * word2).signExtend 64))
  | .divw => locals.setRd (
    if word2 = 0 then -1
    else if word2 = -1 ∧ word1 = mostNegativeWord then mostNegativeWord.signExtend 64
    else toWord ((word1.sdiv word2).signExtend 64))
  -- The quotient by zero is not sign-extended.
  | .divuw => locals.setRd (
    if word2 = 0 then 0xFFFFFFFF else toWord ((word1 / word2).setWidth 64))
  | .remw => locals.setRd (
    if word2 = 0 then word1.signExtend 64
    else if word2 = -1 ∧ word1 = mostNegativeWord then 0
    else toWord ((word1.srem word2).signExtend 64))
  | .remuw => locals.setRd (
    if word2 = 0 then word1.setWidth 64 else toWord ((word1 % word2).setWidth 64))
  -- A load-reserved is a read with a parameter, and nothing remembers it.
  | .lrD => locals.loadReserved host pc rs1 8 id
  | .scD => locals.update host pc rs1 8 rs2 .lrSc
  | .amoAddD => locals.update host pc rs1 8 rs2 .amoAdd
  | .amoSwapD => locals.update host pc rs1 8 rs2 .amoSwap
  | .amoXorD => locals.update host pc rs1 8 rs2 .amoXor
  | .amoOrD => locals.update host pc rs1 8 rs2 .amoOr
  | .amoAndD => locals.update host pc rs1 8 rs2 .amoAnd
  | .amoMinD => locals.update host pc rs1 8 rs2 .amoMin
  | .amoMaxD => locals.update host pc rs1 8 rs2 .amoMax
  | .amoMinuD => locals.update host pc rs1 8 rs2 .amoMinu
  | .amoMaxuD => locals.update host pc rs1 8 rs2 .amoMaxu
  | .lrW => locals.loadReserved host pc rs1 4 (signed 32)
  | .scW => locals.update host pc rs1 4 rs2 .lrSc
  | .amoAddW => locals.update host pc rs1 4 rs2 .amoAdd
  | .amoSwapW => locals.update host pc rs1 4 rs2 .amoSwap
  | .amoXorW => locals.update host pc rs1 4 rs2 .amoXor
  | .amoOrW => locals.update host pc rs1 4 rs2 .amoOr
  | .amoAndW => locals.update host pc rs1 4 rs2 .amoAnd
  | .amoMinW => locals.update host pc rs1 4 rs2 .amoMin
  | .amoMaxW => locals.update host pc rs1 4 rs2 .amoMax
  | .amoMinuW => locals.update host pc rs1 4 rs2 .amoMinu
  | .amoMaxuW => locals.update host pc rs1 4 rs2 .amoMaxu
  | .flw => locals.loadFp host pc (rs1 + imm) 4 24
  -- The operand is the integer register, converted to the float format and back.
  | .fsw => do locals.store host pc (rs1 + imm) 4 (← floatToU64 (roundTo 24 rs2.toNat))
  | .fmvWX => .ok (locals.setFrd (roundTo 24 rs1.toNat))
  | .fld => locals.loadFp host pc (rs1 + imm) 8 53
  | .fsd => locals.store host pc (rs1 + imm) 8 (m.hart.freg d.rs2)
  | .ebreak => .error (.panic "execute: bad op (%s) at: %x\n")

/-- The tail of `execute`, which writes the destination register unless the flag is set. -/
def Locals.writeBack (locals : Locals) (rd : BitVec 5) : Except Stop (BitVec 64 × Machine) :=
  -- After a fault the handler comes next and no register is written.
  if locals.hasExcept then .ok (locals.retPc, locals.m)
  else if locals.isFrd then do
    let data ← floatToU64 locals.frdVal
    return (locals.retPc, { locals.m with hart := locals.m.hart.setFreg rd data })
  else if rd ≠ 0 then
    .ok (locals.retPc, { locals.m with hart := locals.m.hart.setReg rd locals.rdVal })
  else .ok (locals.retPc, locals.m)

/-- The function `execute`: the address to go on at, and the machine after the instruction. -/
def execute (host : Host) (m : Machine) (pc nextPc : BitVec 64) (d : Decoded) :
    Except Stop (BitVec 64 × Machine) := do
  let locals ← executeOp host m pc nextPc d
  locals.writeBack d.rd

end Xemu
