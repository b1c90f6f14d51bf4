import Xemu.Machine.Outcome

/-! The instructions that compute a value from registers, and the C operations they do it with. -/

namespace Xemu

/-! ### Values for the destination register -/

/-- The machine after a value is written to an integer register, of which zero is never written. -/
def Machine.writeRd (m : Machine) (rd : BitVec 5) (value : BitVec 64) : Machine :=
  { m with hart := m.hart.assign rd value }

section Computed

variable {host : Host} {m : Machine} {pc nextPc retPc value : BitVec 64} {d : Decoded}

/-- A case that only assigns the locals `rd_val` and `ret_pc` writes that value and goes on there. -/
theorem execute_of_locals
    (switched : executeOp host m pc nextPc d = .ok { m, retPc, rdVal := value }) :
    execute host m pc nextPc d = .ok (retPc, m.writeRd d.rd value) := by
  rw [execute, switched, ok_bind, writeBack_rd rfl rfl]
  rfl

/-- The instruction writes a value to its destination, whichever it is, and does nothing else. -/
def Computes (host : Host) (m : Machine) (pc nextPc : BitVec 64) (d : Decoded)
    (value : BitVec 64) : Prop :=
  ∀ rd, execute host m pc nextPc { d with rd } = .ok (nextPc, m.writeRd rd value)

/-- A case that only assigns `rd_val` computes that value. -/
theorem computes_of_setRd (switched : ∀ rd, executeOp host m pc nextPc { d with rd } =
    .ok { m, retPc := nextPc, rdVal := value }) : Computes host m pc nextPc d value :=
  fun rd => execute_of_locals (switched rd)

/-- What an instruction computes is determined, as it can be seen in any register but zero. -/
theorem Computes.unique {first second : BitVec 64} (one : Computes host m pc nextPc d first)
    (other : Computes host m pc nextPc d second) : first = second := by
  have same := (Prod.mk.inj (Except.ok.inj ((one 1).symm.trans (other 1)))).2
  have written := congrArg (fun after : Machine => after.hart.reg 1) same
  simpa [Machine.writeRd, Hart.assign] using written

end Computed

/-! ### Shifts -/

/-- A shift in the C code: the width of its left operand, and its amount. -/
structure Shift where
  width : Nat
  amount : Nat

/-- The language defines the result of a shift. -/
def Shift.Defined (shift : Shift) : Prop := shift.amount < shift.width

instance (shift : Shift) : Decidable shift.Defined :=
  inferInstanceAs (Decidable (_ < _))

/-- The shifts of the macro `BITS`, of which the second makes the mask. -/
def bitsShifts (width high low : Nat) : List Shift := [⟨width, low⟩, ⟨64, high - low + 1⟩]

/-- The shifts of the macro `TO_WORD`. -/
def toWordShifts : List Shift := [⟨64, 31⟩, ⟨64, 32⟩, ⟨64, 32⟩] ++ bitsShifts 64 31 0

/-- The shifts that `execute` evaluates in the case of an operation on registers. -/
def Decoded.shifts (d : Decoded) (hart : Hart) : List Shift :=
  let rs2 := hart.reg d.rs2
  match d.op with
  | .slli | .srli | .srai => ⟨64, (bits d.imm 5 0).toNat⟩ :: bitsShifts 64 5 0
  | .sll | .srl | .sra => ⟨64, (bits rs2 5 0).toNat⟩ :: bitsShifts 64 5 0
  | .slliw | .srliw => ⟨32, (bits d.imm 4 0).toNat⟩ :: (bitsShifts 64 4 0 ++ toWordShifts)
  | .sllw | .srlw => ⟨32, (bits rs2 4 0).toNat⟩ :: (bitsShifts 64 4 0 ++ toWordShifts)
  -- The two word shifts that keep the sign take six bits of their amount.
  | .sraiw => ⟨32, (bits d.imm 5 0).toNat⟩ :: bitsShifts 64 5 0
  | .sraw => ⟨32, (bits rs2 5 0).toNat⟩ :: bitsShifts 64 5 0
  | .addiw | .addw | .subw => toWordShifts
  | _ => []

/-- The shifts of the macros with which `dec32` takes fields and immediates from a word. -/
def Dec32.shifts : List Shift :=
  let fields := [(14, 12), (31, 27), (31, 25), (11, 7), (19, 15), (24, 20), (6, 0)]
  let pieces := [(31, 20), (31, 25), (11, 7), (7, 7), (30, 25), (11, 8), (31, 12), (19, 12),
    (20, 20), (30, 21), (19, 15), (25, 20), (24, 20), (30, 30)]
  -- The sign is a run of ones, and each piece of an immediate has its own place.
  let signs := [⟨32, 31⟩, ⟨64, 52⟩, ⟨64, 32⟩, ⟨64, 44⟩]
  let places := [⟨64, 12⟩, ⟨64, 5⟩, ⟨64, 11⟩, ⟨64, 1⟩, ⟨64, 32⟩, ⟨64, 20⟩]
  (fields ++ pieces).flatMap (fun (high, low) => bitsShifts 32 high low) ++ signs ++ places

/-! ### Divisions -/

section Division

variable {w : Nat}

/-- A signed quotient does not fit its width: the most negative number divided by minus one. -/
def QuotientOverflows (a b : BitVec w) : Prop := a = BitVec.intMin w ∧ b = BitVec.allOnes w

instance (a b : BitVec w) : Decidable (QuotientOverflows a b) :=
  inferInstanceAs (Decidable (_ ∧ _))

/-- A division of C, undefined for a zero divisor and, of signed numbers, on overflow. -/
def cDivide (signed : Bool) (compute : BitVec w → BitVec w → BitVec w) (a b : BitVec w) :
    Except Stop (BitVec w) :=
  if b = 0 then .error (.undefined "division by zero")
  else if signed ∧ QuotientOverflows a b then .error (.undefined "quotient out of range")
  else .ok (compute a b)

/-- The operator `/` on signed numbers. -/
def cDiv (a b : BitVec w) : Except Stop (BitVec w) := cDivide true BitVec.sdiv a b

/-- The operator `%` on signed numbers. -/
def cRem (a b : BitVec w) : Except Stop (BitVec w) := cDivide true BitVec.srem a b

/-- The operator `/` on unsigned numbers. -/
def cDivu (a b : BitVec w) : Except Stop (BitVec w) := cDivide false BitVec.udiv a b

/-- The operator `%` on unsigned numbers. -/
def cRemu (a b : BitVec w) : Except Stop (BitVec w) := cDivide false BitVec.umod a b

end Division

/-- The cases of the eight divisions, with each operator of C as it is defined. -/
def divisionCase (op : Op) (rs1 rs2 : BitVec 64) : Except Stop (BitVec 64) :=
  let word1 := rs1.setWidth 32
  let word2 := rs2.setWidth 32
  match op with
  | .div =>
    if rs2 = 0 then .ok (-1)
    else if rs2 = -1 ∧ rs1 = 1 <<< 63 then .ok (1 <<< 63)
    else cDiv rs1 rs2
  | .divu => if rs2 = 0 then .ok (-1) else cDivu rs1 rs2
  | .rem =>
    if rs2 = 0 then .ok rs1
    else if rs2 = -1 ∧ rs1 = 1 <<< 63 then .ok 0
    else cRem rs1 rs2
  | .remu => if rs2 = 0 then .ok rs1 else cRemu rs1 rs2
  | .divw =>
    if word2 = 0 then .ok (-1)
    else if word2 = -1 ∧ word1 = 1 <<< 31 then .ok ((1 <<< 31 : BitVec 32).signExtend 64)
    else do return toWord ((← cDiv word1 word2).signExtend 64)
  -- The quotient by zero is not sign-extended.
  | .divuw =>
    if word2 = 0 then .ok 0xFFFFFFFF else do return toWord ((← cDivu word1 word2).setWidth 64)
  | .remw =>
    if word2 = 0 then .ok (word1.signExtend 64)
    else if word2 = -1 ∧ word1 = 1 <<< 31 then .ok 0
    else do return toWord ((← cRem word1 word2).signExtend 64)
  | .remuw =>
    if word2 = 0 then .ok (word1.setWidth 64)
    else do return toWord ((← cRemu word1 word2).setWidth 64)
  | _ => .error (.undefined "no division")

end Xemu
