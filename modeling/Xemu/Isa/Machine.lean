import Xemu.Decode.Compressed
import Xemu.Isa.Integer
import Xemu.Proofs.ByteMemory

/-! The instruction set as a machine of its own: a counter, integer registers, and a byte memory. -/

namespace Xemu.Isa

/-! ### States -/

/-- What the memory at each address can be used for. -/
@[ext] structure Layout where
  code : BitVec 64 → Prop
  readable : BitVec 64 → Prop
  writable : BitVec 64 → Prop

/-- A hart that runs without traps and without address translation. -/
@[ext] structure State where
  pc : BitVec 64
  reg : BitVec 5 → BitVec 64
  mem : BitVec 64 → BitVec 8
  hartId : BitVec 64

/-- An access whose address is a multiple of its size, with all its bytes in a region. -/
def Aligned (region : BitVec 64 → Prop) (addr : BitVec 64) (size : Nat) : Prop :=
  addr.toNat % size = 0 ∧ ∀ index < size, region (addr + BitVec.ofNat 64 index)

namespace State

/-- The state that goes on at another address. -/
def goto (s : State) (pc : BitVec 64) : State := { s with pc }

/-- The state after an assignment to a register, which register zero ignores. -/
def assign (s : State) (rd : BitVec 5) (value : BitVec 64) : State :=
  { s with reg := if rd ≠ 0 then Function.update s.reg rd value else s.reg }

/-- The state after the low bytes of a number were put into memory. -/
def store (s : State) (addr : BitVec 64) (size : Nat) (value : BitVec 64) : State :=
  { s with mem := LittleEndian.store s.mem addr size value }

section Updates

variable (s : State) (pc addr value : BitVec 64) (rd : BitVec 5) (size : Nat)

@[simp] theorem goto_pc : (s.goto pc).pc = pc := rfl
@[simp] theorem goto_reg : (s.goto pc).reg = s.reg := rfl
@[simp] theorem goto_mem : (s.goto pc).mem = s.mem := rfl
@[simp] theorem goto_hartId : (s.goto pc).hartId = s.hartId := rfl

@[simp] theorem assign_pc : (s.assign rd value).pc = s.pc := rfl
@[simp] theorem assign_mem : (s.assign rd value).mem = s.mem := rfl
@[simp] theorem assign_hartId : (s.assign rd value).hartId = s.hartId := rfl

@[simp] theorem store_pc : (s.store addr size value).pc = s.pc := rfl
@[simp] theorem store_reg : (s.store addr size value).reg = s.reg := rfl
@[simp] theorem store_mem :
    (s.store addr size value).mem = LittleEndian.store s.mem addr size value := rfl
@[simp] theorem store_hartId : (s.store addr size value).hartId = s.hartId := rfl

/-- A register other than zero holds what was assigned to it. -/
theorem assign_same (some : rd ≠ 0) : (s.assign rd value).reg rd = value := by
  rw [assign, if_pos some]
  exact Function.update_self ..

/-- The other registers hold what they held. -/
theorem assign_other {other : BitVec 5} (apart : other ≠ rd) :
    (s.assign rd value).reg other = s.reg other := by
  rw [assign]
  split
  · exact Function.update_of_ne apart ..
  · rfl

/-- The last of two assignments to a register counts. -/
theorem assign_again (other : BitVec 64) : ((s.assign rd value).goto pc).assign rd other =
    (s.assign rd other).goto pc := by
  unfold assign
  split
  · simp [goto]
  · rfl

/-- Assigning to a register what it holds changes nothing. -/
theorem assign_self : s.assign rd (s.reg rd) = s := by
  unfold assign
  split
  · rw [Function.update_eq_self]
  · rfl

end Updates

end State

/-! ### Instructions -/

/-- A word begins with an instruction of so many bytes. -/
inductive Encodes (word : BitVec 32) (op : Op) (o : Operands) : BitVec 64 → Prop where
  /-- The whole word encodes it in its format. -/
  | full {format : Format} (standard : op.format = some format) (fits : format.Fits o.imm)
    (encoded : word = format.encode o) : Encodes word op o 4
  /-- The low half stands for it. -/
  | half (expanded : Compressed.expand (word.setWidth 16) = some ⟨op, o⟩) : Encodes word op o 2

/-- The instruction at the program counter. -/
structure Fetches (layout : Layout) (s : State) (op : Op) (o : Operands) (length : BitVec 64) :
    Prop where
  even : s.pc.toNat % 2 = 0
  code : ∀ index < 4, layout.code (s.pc + BitVec.ofNat 64 index)
  encoded : Encodes (LittleEndian.load 32 s.mem s.pc 4) op o length

/-- What the destination register receives from an operation on registers. -/
def result (op : Op) (pc next x y imm : BitVec 64) : Option (BitVec 64) :=
  match op with
  -- Both jumps link the address behind them.
  | .jal | .jalr => some next
  | op => baseResult op pc x y imm <|> product op x y <|> division op x y

/-- Where an operation on registers goes on. -/
def target (op : Op) (pc next x y imm : BitVec 64) : BitVec 64 :=
  -- The sum that a jump through a register takes has its lowest bit cleared.
  if op = .jalr then (x + imm) &&& ~~~1
  else if op = .jal ∨ taken op x y then pc + imm
  else next

/-- The operations that work on registers alone. -/
def onRegisters (op : Op) : Bool :=
  isBase op || op = .jalr || (product op 0 0).isSome || (division op 0 0).isSome

/-- The state after an operation on registers. -/
def State.compute (s : State) (op : Op) (o : Operands) (length : BitVec 64) : State :=
  let x := s.reg o.rs1
  let y := s.reg o.rs2
  let next := s.pc + length
  let after := match result op s.pc next x y o.imm with
    | none => s
    | some value => s.assign o.rd value
  after.goto (target op s.pc next x y o.imm)

/-- The effect of an instruction. -/
inductive Executes (layout : Layout) (s : State) (op : Op) (o : Operands) (length : BitVec 64) :
    State → Prop where
  | compute (known : onRegisters op) : Executes layout s op o length (s.compute op o length)
  | load {size : Nat} {sign : Bool} (kind : op.loadKind = some (size, sign))
    (inside : Aligned layout.readable (s.reg o.rs1 + o.imm) size) :
    Executes layout s op o length ((s.assign o.rd
      (Xemu.extend sign (LittleEndian.load (8 * size) s.mem (s.reg o.rs1 + o.imm) size))).goto
        (s.pc + length))
  | store {size : Nat} (kind : op.storeWidth = some size)
    (inside : Aligned layout.writable (s.reg o.rs1 + o.imm) size) :
    Executes layout s op o length
      ((s.store (s.reg o.rs1 + o.imm) size (s.reg o.rs2)).goto (s.pc + length))
  /-- The number of the hart is read without being changed. -/
  | hartId (read : op = .csrrs) (named : o.csrAddr = mhartid) (unchanged : o.rs1 = 0) :
    Executes layout s op o length ((s.assign o.rd s.hartId).goto (s.pc + length))

/-- One step of the machine: the instruction at the counter has its effect. -/
def Step (layout : Layout) (s t : State) : Prop :=
  ∃ op o length, Fetches layout s op o length ∧ Executes layout s op o length t

end Xemu.Isa
