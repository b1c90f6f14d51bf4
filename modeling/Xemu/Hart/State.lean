import Mathlib.Logic.Function.Basic
import Xemu.Util

/-! The architectural state of the single hart: counter, privilege, and the three register files. -/

namespace Xemu

/-- User mode. -/
def uMode : BitVec 2 := 0

/-- Supervisor mode. -/
def sMode : BitVec 2 := 1

/-- Machine mode. -/
def mMode : BitVec 2 := 3

/--
The globals the guest's instructions work on.

Register numbers, CSR numbers and modes have the width of the fields they are decoded from, so an index outside its array cannot be written down.
-/
@[ext] structure Hart where
  /-- The global `_pc`. -/
  pc : BitVec 64
  /-- The global `_priv`. -/
  priv : BitVec 2
  /-- The array `_csr`. -/
  csr : BitVec 12 → BitVec 64
  /-- The array `reg`. -/
  reg : BitVec 5 → BitVec 64
  /-- The array `freg`. -/
  freg : BitVec 5 → BitVec 64

namespace Hart

/-- The function `switch_to`. -/
def switchTo (hart : Hart) (priv : BitVec 2) : Hart := { hart with priv }

/-- An assignment to one element of `_csr`. -/
def setCsr (hart : Hart) (addr : BitVec 12) (data : BitVec 64) : Hart :=
  { hart with csr := Function.update hart.csr addr data }

/-- An assignment to one element of `reg`. -/
def setReg (hart : Hart) (rd : BitVec 5) (data : BitVec 64) : Hart :=
  { hart with reg := Function.update hart.reg rd data }

/-- An assignment to a register, which register zero ignores. -/
def assign (hart : Hart) (rd : BitVec 5) (data : BitVec 64) : Hart :=
  if rd ≠ 0 then hart.setReg rd data else hart

/-- An assignment to one element of `freg`. -/
def setFreg (hart : Hart) (rd : BitVec 5) (data : BitVec 64) : Hart :=
  { hart with freg := Function.update hart.freg rd data }

section Updates

variable (hart : Hart) (priv : BitVec 2) (addr : BitVec 12) (rd : BitVec 5) (data : BitVec 64)

@[simp] theorem switchTo_pc : (hart.switchTo priv).pc = hart.pc := rfl
@[simp] theorem switchTo_priv : (hart.switchTo priv).priv = priv := rfl
@[simp] theorem switchTo_csr : (hart.switchTo priv).csr = hart.csr := rfl
@[simp] theorem switchTo_reg : (hart.switchTo priv).reg = hart.reg := rfl
@[simp] theorem switchTo_freg : (hart.switchTo priv).freg = hart.freg := rfl

@[simp] theorem setCsr_pc : (hart.setCsr addr data).pc = hart.pc := rfl
@[simp] theorem setCsr_priv : (hart.setCsr addr data).priv = hart.priv := rfl
@[simp] theorem setCsr_csr : (hart.setCsr addr data).csr = Function.update hart.csr addr data := rfl
@[simp] theorem setCsr_reg : (hart.setCsr addr data).reg = hart.reg := rfl
@[simp] theorem setCsr_freg : (hart.setCsr addr data).freg = hart.freg := rfl

@[simp] theorem setReg_pc : (hart.setReg rd data).pc = hart.pc := rfl
@[simp] theorem setReg_priv : (hart.setReg rd data).priv = hart.priv := rfl
@[simp] theorem setReg_csr : (hart.setReg rd data).csr = hart.csr := rfl
@[simp] theorem setReg_reg : (hart.setReg rd data).reg = Function.update hart.reg rd data := rfl
@[simp] theorem setReg_freg : (hart.setReg rd data).freg = hart.freg := rfl

@[simp] theorem setFreg_pc : (hart.setFreg rd data).pc = hart.pc := rfl
@[simp] theorem setFreg_priv : (hart.setFreg rd data).priv = hart.priv := rfl
@[simp] theorem setFreg_csr : (hart.setFreg rd data).csr = hart.csr := rfl
@[simp] theorem setFreg_reg : (hart.setFreg rd data).reg = hart.reg := rfl
@[simp] theorem setFreg_freg : (hart.setFreg rd data).freg = Function.update hart.freg rd data := rfl

end Updates

end Hart

end Xemu
