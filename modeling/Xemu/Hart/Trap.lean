import Xemu.Hart.Csr

/-! Interrupt numbering, trap entry, and trap return. -/

namespace Xemu

/-- The interrupt classes of `intr_type_t`, without its end marker. -/
inductive IntrType where
  | none
  | software
  | timer
  | external
  deriving DecidableEq, Repr

/-- The number of a class in the enumeration. -/
def IntrType.toBitVec : IntrType → BitVec 64
  | .none => 0
  | .software => 1
  | .timer => 2
  | .external => 3

/-- The function `intr_cause`, for the classes that pass its check. -/
def intrCause (type : IntrType) (priv : BitVec 2) : BitVec 64 :=
  -- The causes of one mode are four apart in the order of the classes.
  let offset := (type.toBitVec - 1) <<< 2
  if priv = uMode then causeUSoftwareIntr + offset
  else if priv = sMode then causeSSoftwareIntr + offset
  else if priv = mMode then causeMSoftwareIntr + offset
  else 0

/-- The function `intr_bit_flag`. -/
def intrBitFlag (type : IntrType) (priv : BitVec 2) : BitVec 64 :=
  ((1#32 <<< (intrCause type priv &&& 0xF).toNat).setWidth 64)

/-- The function `intr_next_priv`, which reads `MIDELEG` and the current mode. -/
def intrNextPriv (hart : Hart) (type : IntrType) : BitVec 2 :=
  -- Only a mode below machine mode delegates, and the supervisor's bit decides for it.
  if hart.priv ≠ mMode ∧ hart.csr mideleg &&& intrBitFlag type sMode ≠ 0 then sMode else mMode

/-- The function `except_bit_flag`. -/
def exceptBitFlag (cause : BitVec 64) : BitVec 64 :=
  (1#32 <<< cause.toNat).setWidth 64

/-- The function `except_next_priv`. -/
def exceptNextPriv (hart : Hart) (cause : BitVec 64) : BitVec 2 :=
  if hart.priv ≠ mMode ∧ hart.csr medeleg &&& exceptBitFlag cause ≠ 0 then sMode else mMode

/--
The function `trap_enter`: the handler's address and the hart inside the trap.

Its `csr_read` and `csr_update` calls all name stored registers, so they are reads and writes of the array.
-/
def trapEnter (hart : Hart) (pc : BitVec 64) (nextPriv : BitVec 2) (cause tval : BitVec 64) :
    BitVec 64 × Hart :=
  if nextPriv = sMode then
    -- The bit for the previous mode has room for user and supervisor mode only.
    let modeBit : BitVec 64 := if hart.priv = uMode then 0 else 1
    let status := setBit (hart.csr sstatus) bitSppPos modeBit
    let hart := ((hart.switchTo sMode).setCsr scause cause).setCsr stval tval
    -- Interrupts are off in the handler, and the bit they had before is kept for the return.
    let status := setBit status bitSpiePos (bit status bitSiePos)
    let status := setBit status bitSiePos 0
    let hart := (hart.setCsr sstatus status).setCsr sepc pc
    (hart.csr stvec, hart)
  else
    -- The field for the previous mode is two bits wide and holds any of them.
    let status := setBits (hart.csr mstatus) 12 11 (hart.priv.setWidth 64)
    let hart := ((hart.switchTo mMode).setCsr mcause cause).setCsr mtval tval
    let status := setBit status bitMpiePos (bit status bitMiePos)
    let status := setBit status bitMiePos 0
    let hart := (hart.setCsr mstatus status).setCsr mepc pc
    (hart.csr mtvec, hart)

/-- The function `raise_except`. -/
def raiseExcept (hart : Hart) (pc cause tval : BitVec 64) : BitVec 64 × Hart :=
  trapEnter hart pc (exceptNextPriv hart cause) cause tval

/-- The part of `trap_exit` for `SRET`. -/
def trapExitSret (hart : Hart) : BitVec 64 × Hart :=
  let status := hart.csr sstatus
  -- No mode is asked for before the switch, and none is refused.
  let hart := hart.switchTo (if bit status bitSppPos ≠ 0 then sMode else uMode)
  let status := setBit status bitSiePos (bit status bitSpiePos)
  let hart := hart.setCsr sstatus status
  (hart.csr sepc, hart)

/-- The part of `trap_exit` for `MRET`. -/
def trapExitMret (hart : Hart) : BitVec 64 × Hart :=
  let status := hart.csr mstatus
  -- The mode is whatever the guest left in the field, the reserved one included.
  let hart := hart.switchTo ((bits status 12 11).setWidth 2)
  let status := setBit status bitMiePos (bit status bitMpiePos)
  let hart := hart.setCsr mstatus status
  (hart.csr mepc, hart)

/-! ### The registers of a trap -/

/-- The register with the handler's address of the mode a trap goes to. -/
def trapVector (mode : BitVec 2) : BitVec 12 := if mode = sMode then stvec else mtvec

/-- The register that keeps the interrupted address for the mode a trap goes to. -/
def trapEpc (mode : BitVec 2) : BitVec 12 := if mode = sMode then sepc else mepc

/-- The register with the cause of a trap to a mode. -/
def trapCause (mode : BitVec 2) : BitVec 12 := if mode = sMode then scause else mcause

/-- The register with the value that goes with the cause. -/
def trapTval (mode : BitVec 2) : BitVec 12 := if mode = sMode then stval else mtval

/-- The registers that trap entry assigns for the mode a trap goes to. -/
def trapCsrs (mode : BitVec 2) : List (BitVec 12) :=
  if mode = sMode then [scause, stval, sstatus, sepc] else [mcause, mtval, mstatus, mepc]

section Entry

variable (hart : Hart) (pc : BitVec 64) (mode : BitVec 2) (cause tval : BitVec 64)

/-- Trap entry goes to the supervisor when asked to and to the machine otherwise. -/
theorem trapEnter_priv :
    (trapEnter hart pc mode cause tval).2.priv = if mode = sMode then sMode else mMode := by
  unfold trapEnter
  split <;> rfl

/-- Trap entry returns the content of the vector register, which it does not change. -/
theorem trapEnter_vector :
    (trapEnter hart pc mode cause tval).1 = hart.csr (trapVector mode) := by
  unfold trapEnter trapVector
  -- The vector is none of the four registers assigned before it is read.
  split <;> simp [stvec, sepc, sstatus, stval, scause, mtvec, mepc, mstatus, mtval, mcause]

/-- Trap entry keeps the interrupted address in the register of the mode it enters. -/
theorem trapEnter_epc : (trapEnter hart pc mode cause tval).2.csr (trapEpc mode) = pc := by
  unfold trapEnter trapEpc
  split <;> simp

/-- Trap entry leaves the cause in the register of the mode it enters. -/
theorem trapEnter_cause :
    (trapEnter hart pc mode cause tval).2.csr (trapCause mode) = cause := by
  unfold trapEnter trapCause
  -- The two registers assigned after it are other ones.
  split
  · simp [scause, stval, sstatus, sepc]
  · simp [mcause, mtval, mstatus, mepc]

/-- Trap entry leaves the value that goes with the cause there too. -/
theorem trapEnter_tval : (trapEnter hart pc mode cause tval).2.csr (trapTval mode) = tval := by
  unfold trapEnter trapTval
  split
  · simp [stval, sstatus, sepc]
  · simp [mtval, mstatus, mepc]

/-- Trap entry assigns four registers of the mode it enters and no other register. -/
theorem trapEnter_csr {addr : BitVec 12} (other : addr ∉ trapCsrs mode) :
    (trapEnter hart pc mode cause tval).2.csr addr = hart.csr addr := by
  unfold trapCsrs at other
  unfold trapEnter
  split
  · -- The four registers of the supervisor are assigned in turn.
    rename_i supervisor
    simp only [supervisor, if_true, List.mem_cons, List.not_mem_nil, or_false, not_or] at other
    simp [Function.update_of_ne, other]
  · -- So are the four of the machine.
    rename_i machine
    simp only [machine, if_false, List.mem_cons, List.not_mem_nil, or_false, not_or] at other
    simp [Function.update_of_ne, other]

/-- Trap entry changes neither the counter nor a general register. -/
theorem trapEnter_kept :
    (trapEnter hart pc mode cause tval).2.pc = hart.pc ∧
      (trapEnter hart pc mode cause tval).2.reg = hart.reg ∧
      (trapEnter hart pc mode cause tval).2.freg = hart.freg := by
  unfold trapEnter
  split <;> exact ⟨rfl, rfl, rfl⟩

/-- A trap goes to one of two modes. -/
theorem exceptNextPriv_cases : exceptNextPriv hart cause = sMode ∨ exceptNextPriv hart cause = mMode := by
  unfold exceptNextPriv
  split
  · exact .inl rfl
  · exact .inr rfl

/-- An interrupt goes to one of two modes. -/
theorem intrNextPriv_cases (type : IntrType) :
    intrNextPriv hart type = sMode ∨ intrNextPriv hart type = mMode := by
  unfold intrNextPriv
  split
  · exact .inl rfl
  · exact .inr rfl

end Entry

section Return

variable (hart : Hart)

/-- A return to the supervisor's caller assigns the supervisor's status and nothing else. -/
theorem trapExitSret_csr {addr : BitVec 12} (other : addr ≠ sstatus) :
    (trapExitSret hart).2.csr addr = hart.csr addr := by
  simp [trapExitSret, Function.update_of_ne other]

/-- A return to the machine's caller assigns the machine's status and nothing else. -/
theorem trapExitMret_csr {addr : BitVec 12} (other : addr ≠ mstatus) :
    (trapExitMret hart).2.csr addr = hart.csr addr := by
  simp [trapExitMret, Function.update_of_ne other]

/-- A return to the supervisor's caller goes on at the address kept for it. -/
theorem trapExitSret_target : (trapExitSret hart).1 = hart.csr sepc := by
  simp [trapExitSret, sepc, sstatus]

/-- A return to the machine's caller goes on at the address kept for it. -/
theorem trapExitMret_target : (trapExitMret hart).1 = hart.csr mepc := by
  simp [trapExitMret, mepc, mstatus]

end Return

end Xemu
