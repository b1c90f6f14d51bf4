import Mathlib.Data.BitVec
import Xemu.Decode.Operation

/-! What the integer instructions compute, in terms of the numbers their operands stand for. -/

namespace Xemu.Isa

/-! ### Arithmetic in one width -/

section Widths

variable {w : Nat}

/-- The content that stands for a sum, wherever the sum lies. -/
def add (x y : BitVec w) : BitVec w := BitVec.ofInt w (x.toInt + y.toInt)

/-- The content that stands for a difference. -/
def sub (x y : BitVec w) : BitVec w := BitVec.ofInt w (x.toInt - y.toInt)

/-- A left shift, whose amount counts modulo the width. -/
def sll (x : BitVec w) (amount : Nat) : BitVec w := BitVec.ofNat w (x.toNat * 2 ^ (amount % w))

/-- A right shift of an unsigned number. -/
def srl (x : BitVec w) (amount : Nat) : BitVec w := BitVec.ofNat w (x.toNat / 2 ^ (amount % w))

/-- A right shift of a signed number, which rounds down. -/
def sra (x : BitVec w) (amount : Nat) : BitVec w := BitVec.ofInt w (x.toInt / 2 ^ (amount % w))

/-- The signed quotient rounded towards zero, of which a division by zero gives all ones. -/
def div (x y : BitVec w) : BitVec w :=
  if y = 0 then BitVec.allOnes w else BitVec.ofInt w (x.toInt.tdiv y.toInt)

/-- The signed remainder with the dividend's sign, of which a division by zero gives the dividend. -/
def rem (x y : BitVec w) : BitVec w :=
  if y = 0 then x else BitVec.ofInt w (x.toInt.tmod y.toInt)

/-- The unsigned quotient. -/
def divu (x y : BitVec w) : BitVec w :=
  if y = 0 then BitVec.allOnes w else BitVec.ofNat w (x.toNat / y.toNat)

/-- The unsigned remainder. -/
def remu (x y : BitVec w) : BitVec w :=
  if y = 0 then x else BitVec.ofNat w (x.toNat % y.toNat)

end Widths

/-- The low half of a register, on which the word operations work. -/
def low (x : BitVec 64) : BitVec 32 := x.setWidth 32

/-- The register content that a word result is sign-extended to. -/
def extend (word : BitVec 32) : BitVec 64 := word.signExtend 64

/-- A comparison as a register content. -/
def flag (holds : Prop) [Decidable holds] : BitVec 64 := if holds then 1 else 0

/-! ### The base operations -/

/-- The operations of the base set that neither access memory nor concern the system. -/
def isBase : Op → Bool
  | .lui | .auipc | .jal | .beq | .bne | .blt | .bge | .bltu | .bgeu
  | .addi | .slti | .sltiu | .xori | .ori | .andi | .slli | .srli | .srai
  | .add | .sub | .sll | .slt | .sltu | .xor | .srl | .sra | .or | .and
  | .addiw | .slliw | .srliw | .sraiw | .addw | .subw | .sllw | .srlw | .sraw => true
  | _ => false

/-- What the destination register receives, for the base operations that have one. -/
def baseResult (op : Op) (pc x y imm : BitVec 64) : Option (BitVec 64) :=
  match op with
  | .lui => some imm
  | .auipc => some (add pc imm)
  -- The link is the address of the following word.
  | .jal => some (add pc 4)
  | .addi => some (add x imm)
  | .slti => some (flag (x.toInt < imm.toInt))
  -- The immediate is sign-extended first and then compared as an unsigned number.
  | .sltiu => some (flag (x.toNat < imm.toNat))
  | .xori => some (x ^^^ imm)
  | .ori => some (x ||| imm)
  | .andi => some (x &&& imm)
  | .slli => some (sll x imm.toNat)
  | .srli => some (srl x imm.toNat)
  | .srai => some (sra x imm.toNat)
  | .add => some (add x y)
  | .sub => some (sub x y)
  | .sll => some (sll x y.toNat)
  | .slt => some (flag (x.toInt < y.toInt))
  | .sltu => some (flag (x.toNat < y.toNat))
  | .xor => some (x ^^^ y)
  | .srl => some (srl x y.toNat)
  | .sra => some (sra x y.toNat)
  | .or => some (x ||| y)
  | .and => some (x &&& y)
  | .addiw => some (extend (add (low x) (low imm)))
  | .slliw => some (extend (sll (low x) imm.toNat))
  | .srliw => some (extend (srl (low x) imm.toNat))
  | .sraiw => some (extend (sra (low x) imm.toNat))
  | .addw => some (extend (add (low x) (low y)))
  | .subw => some (extend (sub (low x) (low y)))
  | .sllw => some (extend (sll (low x) y.toNat))
  | .srlw => some (extend (srl (low x) y.toNat))
  | .sraw => some (extend (sra (low x) y.toNat))
  | _ => none

/-- The comparison that decides whether a branch is taken. -/
def taken (op : Op) (x y : BitVec 64) : Bool :=
  match op with
  | .beq => x = y
  | .bne => x ≠ y
  | .blt => x.toInt < y.toInt
  | .bge => y.toInt ≤ x.toInt
  | .bltu => x.toNat < y.toNat
  | .bgeu => y.toNat ≤ x.toNat
  | _ => false

/-- Where a base operation in a full word goes on. -/
def baseTarget (op : Op) (pc x y imm : BitVec 64) : BitVec 64 :=
  if op = .jal ∨ taken op x y then add pc imm else add pc 4

/-! ### Multiplications and divisions -/

/-- The two ways to read a content as a number. -/
inductive Sign where
  | signed
  | unsigned
  deriving DecidableEq

/-- The number a content stands for. -/
def Sign.value (sign : Sign) {w : Nat} (x : BitVec w) : Int :=
  match sign with
  | .signed => x.toInt
  | .unsigned => x.toNat

/-- How an operation that gives the high half of a product reads its two factors. -/
def factors : Op → Option (Sign × Sign)
  | .mulh => some (.signed, .signed)
  | .mulhsu => some (.signed, .unsigned)
  | .mulhu => some (.unsigned, .unsigned)
  | _ => none

/-- The exact product of two contents, in as many bits as it needs. -/
def exactProduct (signs : Sign × Sign) (x y : BitVec 64) : BitVec 128 :=
  BitVec.ofInt 128 (signs.1.value x * signs.2.value y)

/-- What the destination register receives from a multiplication. -/
def product (op : Op) (x y : BitVec 64) : Option (BitVec 64) :=
  match op with
  | .mul => some (BitVec.ofInt 64 (x.toInt * y.toInt))
  | .mulw => some (extend (BitVec.ofInt 32 ((low x).toInt * (low y).toInt)))
  -- The high half is the product divided by a power of two and rounded down.
  | op => (factors op).map fun signs =>
    BitVec.ofInt 64 ((signs.1.value x * signs.2.value y) / 2 ^ 64)

/-- The forms of a division, which has two results in each. -/
structure DivisionForm where
  sign : Sign
  /-- The operation works on the low halves and extends its result. -/
  word : Bool
  deriving DecidableEq

/-- The operation that gives the quotient. -/
def DivisionForm.quotient : DivisionForm → Op
  | ⟨.signed, false⟩ => .div
  | ⟨.unsigned, false⟩ => .divu
  | ⟨.signed, true⟩ => .divw
  | ⟨.unsigned, true⟩ => .divuw

/-- The operation that gives the remainder. -/
def DivisionForm.remainder : DivisionForm → Op
  | ⟨.signed, false⟩ => .rem
  | ⟨.unsigned, false⟩ => .remu
  | ⟨.signed, true⟩ => .remw
  | ⟨.unsigned, true⟩ => .remuw

/-- The dividend is the product of quotient and divisor plus the remainder, in the width at work. -/
def DivisionForm.Splits (form : DivisionForm) (x y quotient remainder : BitVec 64) : Prop :=
  if form.word then low x = low quotient * low y + low remainder
  else x = quotient * y + remainder

/-- What the destination register receives from a division. -/
def division (op : Op) (x y : BitVec 64) : Option (BitVec 64) :=
  match op with
  | .div => some (div x y)
  | .divu => some (divu x y)
  | .rem => some (rem x y)
  | .remu => some (remu x y)
  | .divw => some (extend (div (low x) (low y)))
  | .divuw => some (extend (divu (low x) (low y)))
  | .remw => some (extend (rem (low x) (low y)))
  | .remuw => some (extend (remu (low x) (low y)))
  | _ => none

/-! ### The operators -/

section Widths

variable {w : Nat} (x y : BitVec w) (amount : Nat)

/-- The operator `+` is the exact sum wherever the result wraps. -/
theorem add_eq : add x y = x + y := by
  rw [add, BitVec.ofInt_add, BitVec.ofInt_toInt, BitVec.ofInt_toInt]

/-- The operator `-` is the exact difference wherever the result wraps. -/
theorem sub_eq : sub x y = x - y := by
  rw [sub, Int.sub_eq_add_neg, BitVec.ofInt_add, BitVec.ofInt_neg, BitVec.ofInt_toInt,
    BitVec.ofInt_toInt, BitVec.sub_eq_add_neg]

/-- A shift to the left is by the remainder of the amount. -/
theorem sll_eq : sll x amount = x <<< (amount % w) := by
  rw [sll, ← Nat.shiftLeft_eq]
  rfl

/-- So is one to the right, which divides by a power of two. -/
theorem srl_eq : srl x amount = x >>> (amount % w) := by
  rw [srl, ← Nat.shiftRight_eq_div_pow]
  apply BitVec.eq_of_toNat_eq
  -- A quotient of a number of the width has the width too.
  rw [BitVec.toNat_ofNat, BitVec.toNat_ushiftRight, Nat.mod_eq_of_lt]
  exact Nat.lt_of_le_of_lt (Nat.shiftRight_le _ _) x.isLt

/-- An arithmetic shift divides the signed reading, rounding down. -/
theorem sra_eq : sra x amount = x.sshiftRight (amount % w) := by
  rw [sra, BitVec.sshiftRight, Int.shiftRight_eq_div_pow]
  simp

end Widths

/-- An operation that neither jumps nor branches goes on at the following word. -/
theorem baseTarget_next {op : Op} {pc x y imm : BitVec 64} (straight : op ≠ .jal)
    (never : taken op x y = false) : baseTarget op pc x y imm = pc + 4 := by
  rw [baseTarget, if_neg (by simp [straight, never]), add_eq]

/-- A branch goes on at its target when its comparison holds. -/
theorem baseTarget_branch {op : Op} {pc x y imm : BitVec 64} (branch : op ≠ .jal) :
    baseTarget op pc x y imm = if taken op x y then pc + imm else pc + 4 := by
  simp only [baseTarget, branch, false_or, add_eq]

/-! ### Products of integers in two halves -/

/-- The content is read as a negative number. -/
def Sign.negative (sign : Sign) {w : Nat} (x : BitVec w) : Bool := sign = .signed ∧ x.msb

/-- A negative number is less than its unsigned reading by a power of two. -/
theorem Sign.value_eq (sign : Sign) (x : BitVec 64) :
    sign.value x = x.toNat - 2 ^ 64 * (if sign.negative x then 1 else 0) := by
  cases sign with
  | unsigned => simp [Sign.value, Sign.negative]
  | signed =>
    cases sign : x.msb <;> simp [Sign.value, Sign.negative, BitVec.toInt_eq_msb_cond, sign]

/-- Any integer of twice the width is its quotient and its remainder by a power of two. -/
theorem halves_join (n : Int) :
    BitVec.ofInt 64 (n / 2 ^ 64) ++ BitVec.ofInt 64 n = BitVec.ofInt 128 n := by
  apply BitVec.eq_of_toNat_eq
  rw [BitVec.toNat_append, ← Nat.shiftLeft_add_eq_or_of_lt (BitVec.isLt _), Nat.shiftLeft_eq]
  simp only [BitVec.toNat_ofInt]
  omega

/-! ### Quotients and remainders in one width -/

section Widths

variable {w : Nat} {x y : BitVec w}

/-- The signed quotient is the operator of C, whose overflow wraps around. -/
theorem div_eq (nonzero : y ≠ 0) : div x y = x.sdiv y := by
  rw [div, if_neg nonzero]
  apply BitVec.eq_of_toInt_eq
  rw [BitVec.toInt_ofInt, BitVec.toInt_sdiv]

/-- The signed remainder is the operator of C. -/
theorem rem_eq (nonzero : y ≠ 0) : rem x y = x.srem y := by
  rw [rem, if_neg nonzero, ← BitVec.toInt_srem, BitVec.ofInt_toInt]

/-- The unsigned quotient is that of the contents. -/
theorem divu_eq (nonzero : y ≠ 0) : divu x y = x / y := by
  rw [divu, if_neg nonzero, BitVec.udiv_def]

/-- So is the unsigned remainder. -/
theorem remu_eq (nonzero : y ≠ 0) : remu x y = x % y := by
  rw [remu, if_neg nonzero, BitVec.umod_def]

/-- Quotient and remainder make up the dividend, for a zero divisor through the remainder alone. -/
theorem div_rem (x y : BitVec w) : x = div x y * y + rem x y := by
  by_cases zero : y = 0
  · simp [zero, rem]
  · rw [div, rem, if_neg zero, if_neg zero]
    have split := congrArg (BitVec.ofInt w) (Int.tdiv_mul_add_tmod x.toInt y.toInt)
    rw [BitVec.ofInt_add, BitVec.ofInt_mul, BitVec.ofInt_toInt, BitVec.ofInt_toInt] at split
    exact split.symm

/-- Unsigned quotient and remainder make up the dividend as well. -/
theorem divu_remu (x y : BitVec w) : x = divu x y * y + remu x y := by
  by_cases zero : y = 0
  · simp [zero, remu]
  · rw [divu, remu, if_neg zero, if_neg zero]
    have split := congrArg (BitVec.ofNat w) (Nat.div_add_mod' x.toNat y.toNat)
    rw [BitVec.ofNat_add, BitVec.ofNat_mul, BitVec.ofNat_toNat, BitVec.ofNat_toNat] at split
    simp only [BitVec.setWidth_eq] at split
    exact split.symm

end Widths

/-- A word is the low half of its extension. -/
@[simp] theorem low_extend (word : BitVec 32) : low (extend word) = word := by
  apply BitVec.eq_of_getLsbD_eq
  intro i below
  rw [low, extend, BitVec.getLsbD_setWidth, BitVec.getLsbD_signExtend]
  simp [below, show i < 64 by omega]

/-- A word is the low half of its extension by zeros too. -/
@[simp] theorem low_setWidth (word : BitVec 32) : low (word.setWidth 64) = word := by
  simp [low]

/-- A word is extended with its sign as with zeros when it has none. -/
theorem extend_eq_setWidth_iff (word : BitVec 32) :
    extend word = word.setWidth 64 ↔ word.msb = false := by
  constructor
  · intro same
    -- The two differ at the top, where one has the sign and the other has zero.
    have place : (extend word).getLsbD 63 = (word.setWidth 64).getLsbD 63 :=
      congrArg (fun x => x.getLsbD 63) same
    rw [extend, BitVec.getLsbD_signExtend, BitVec.getLsbD_setWidth] at place
    simpa using place
  · intro positive
    exact BitVec.signExtend_eq_setWidth_of_msb_false positive

end Xemu.Isa
