import Xemu.Decode.Compressed

/-! The legal encodings of RV64GC with the privileged instructions of machine and supervisor. -/

namespace Xemu

/-- The rounding modes, of which two are reserved. -/
def legalRounding (mode : Nat) : Bool := mode ≤ 4 || mode = 7

/-- The floating-point computations of single and double precision. -/
def legalFp (funct7 rs2 funct3 : Nat) : Bool :=
  let double := funct7 % 4 = 1
  -- The lowest bits are the format, and two of its four values belong to other extensions.
  funct7 % 4 ≤ 1 &&
    match funct7 / 4 with
    | 0x00 | 0x01 | 0x02 | 0x03 => legalRounding funct3
    | 0x04 => funct3 ≤ 2
    | 0x05 => funct3 ≤ 1
    -- A conversion between the formats names in its second field the one it comes from.
    | 0x08 => (if double then rs2 = 0 else rs2 = 1) && legalRounding funct3
    | 0x0B => rs2 = 0 && legalRounding funct3
    | 0x14 => funct3 ≤ 2
    | 0x18 | 0x1A => rs2 ≤ 3 && legalRounding funct3
    | 0x1C => rs2 = 0 && funct3 ≤ 1
    | 0x1E => rs2 = 0 && funct3 = 0
    | _ => false

/-- The system instructions that name no control register. -/
def legalPriv (funct7 rs2 rs1 rd : Nat) : Bool :=
  match funct7 with
  -- The environment call and the breakpoint; the user mode has no traps of its own.
  | 0x00 => rs2 ≤ 1 && rs1 = 0 && rd = 0
  -- The return from the supervisor, and the wait for an interrupt.
  | 0x08 => (rs2 = 2 || rs2 = 5) && rs1 = 0 && rd = 0
  -- The fence takes an address and an address space from registers.
  | 0x09 => rd = 0
  | 0x18 => rs2 = 2 && rs1 = 0 && rd = 0
  | _ => false

/-- The operations on memory that are atomic, of which the load alone has no second register. -/
def legalAmo (funct5 rs2 funct3 : Nat) : Bool :=
  (funct3 = 2 || funct3 = 3) &&
    match funct5 with
    | 0x00 | 0x01 | 0x03 | 0x04 | 0x08 | 0x0C | 0x10 | 0x14 | 0x18 | 0x1C => true
    | 0x02 => rs2 = 0
    | _ => false

/--
The contents of the columns that make an instruction, by the opcode.

Fields an implementation is told to ignore, such as those of the fences, hold anything.
-/
def legalFields (opcode rd funct3 rs1 rs2 funct7 : Nat) : Bool :=
  match opcode with
  | 0x37 | 0x17 | 0x6F => true
  | 0x67 => funct3 = 0
  | 0x63 => funct3 ≠ 2 && funct3 ≠ 3
  | 0x03 => funct3 ≤ 6
  | 0x23 => funct3 ≤ 3
  | 0x07 | 0x27 => funct3 = 2 || funct3 = 3
  -- Above the six bits of a shift amount one bit chooses between the two right shifts.
  | 0x13 =>
    match funct3 with
    | 1 => funct7 / 2 = 0x00
    | 5 => funct7 / 2 = 0x00 || funct7 / 2 = 0x10
    | _ => true
  | 0x1B =>
    match funct3 with
    | 0 => true
    | 1 => funct7 = 0x00
    | 5 => funct7 = 0x00 || funct7 = 0x20
    | _ => false
  | 0x33 =>
    match funct7 with
    | 0x00 | 0x01 => true
    | 0x20 => funct3 = 0 || funct3 = 5
    | _ => false
  | 0x3B =>
    match funct7 with
    | 0x00 => funct3 = 0 || funct3 = 1 || funct3 = 5
    | 0x01 => funct3 = 0 || 4 ≤ funct3
    | 0x20 => funct3 = 0 || funct3 = 5
    | _ => false
  | 0x0F => funct3 ≤ 1
  -- Any number names a control register, and without one the other fields are fixed.
  | 0x73 => if funct3 = 0 then legalPriv funct7 rs2 rs1 rd else funct3 ≠ 4
  | 0x2F => legalAmo (funct7 / 4) rs2 funct3
  | 0x43 | 0x47 | 0x4B | 0x4F => funct7 % 4 ≤ 1 && legalRounding funct3
  | 0x53 => legalFp funct7 rs2 funct3
  | _ => false

/-- The 32-bit words that are instructions. -/
def legal (inst : BitVec 32) : Bool :=
  legalFields (inst.extractLsb 6 0).toNat (inst.extractLsb 11 7).toNat
    (inst.extractLsb 14 12).toNat (inst.extractLsb 19 15).toNat (inst.extractLsb 24 20).toNat
    (inst.extractLsb 31 25).toNat

/-- The 16-bit words that are instructions, which are those with an expansion. -/
def legalHalf (inst : BitVec 16) : Bool := (Compressed.expand inst).isSome

end Xemu
