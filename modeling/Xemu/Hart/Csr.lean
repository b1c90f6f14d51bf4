import Xemu.Decode.Operation
import Xemu.Hart.State

/-! Control and status registers: their numbers, their bits, and the two access routines. -/

namespace Xemu

/-! ### Register numbers -/

def fcsr : BitVec 12 := 0x003
def sstatus : BitVec 12 := 0x100
def sedeleg : BitVec 12 := 0x102
def sideleg : BitVec 12 := 0x103
def sie : BitVec 12 := 0x104
def stvec : BitVec 12 := 0x105
def scounteren : BitVec 12 := 0x106
def sscratch : BitVec 12 := 0x140
def sepc : BitVec 12 := 0x141
def scause : BitVec 12 := 0x142
def stval : BitVec 12 := 0x143
def sip : BitVec 12 := 0x144
def satp : BitVec 12 := 0x180
def mstatus : BitVec 12 := 0x300
def misa : BitVec 12 := 0x301
def medeleg : BitVec 12 := 0x302
def mideleg : BitVec 12 := 0x303
def mie : BitVec 12 := 0x304
def mtvec : BitVec 12 := 0x305
def mcounteren : BitVec 12 := 0x306
def mscratch : BitVec 12 := 0x340
def mepc : BitVec 12 := 0x341
def mcause : BitVec 12 := 0x342
def mtval : BitVec 12 := 0x343
def mip : BitVec 12 := 0x344
def pmpcfg0 : BitVec 12 := 0x3a0
def pmpcfg2 : BitVec 12 := 0x3a2
def pmpaddr0 : BitVec 12 := 0x3b0
def pmpaddr15 : BitVec 12 := 0x3bf
def pmpaddr16 : BitVec 12 := 0x3c0
def pmpaddr63 : BitVec 12 := 0x3ef
def mhpmcounter3 : BitVec 12 := 0xb03
def mhpmcounter31 : BitVec 12 := 0xb1f
def cycle : BitVec 12 := 0xc00
def time : BitVec 12 := 0xc01
def instret : BitVec 12 := 0xc02
def mvendorid : BitVec 12 := 0xf11
def marchid : BitVec 12 := 0xf12
def mimpid : BitVec 12 := 0xf13
def mhartid : BitVec 12 := 0xf14

/-! ### Status bits and causes -/

def bitSiePos : Nat := 1
def bitMiePos : Nat := 3
def bitSpiePos : Nat := 5
def bitMpiePos : Nat := 7
def bitSppPos : Nat := 8

def causeIllegalInst : BitVec 64 := 0x2
def causeEcallFromUMode : BitVec 64 := 0x8
def causeInstPageFault : BitVec 64 := 0xc
def causeLoadPageFault : BitVec 64 := 0xd
def causeStorePageFault : BitVec 64 := 0xf

def bitCauseIntr : BitVec 64 := 0x8000000000000000
def causeUSoftwareIntr : BitVec 64 := bitCauseIntr ||| 0x0
def causeSSoftwareIntr : BitVec 64 := bitCauseIntr ||| 0x1
def causeMSoftwareIntr : BitVec 64 := bitCauseIntr ||| 0x3

/-- The value `MISA_INIT_VAL`: a 64-bit machine with U, S, F, D, M, I, C and A. -/
def misaInitVal : BitVec 64 := 0x800000000014112d

/-! ### Access -/

/-- The named numbers for which `_read` returns the element of `_csr` itself. -/
def namedCsrs : List (BitVec 12) :=
  [fcsr, sstatus, sedeleg, sideleg, sie, stvec, sscratch, sepc, scause, stval, sip, satp,
    mstatus, misa, medeleg, mideleg, mie, mtvec, mscratch, mepc, mcause, mtval, mip,
    pmpcfg0, pmpcfg2, mvendorid, marchid, mimpid, mhartid]

/-- The numbers for which `_read` returns the element of `_csr` itself. -/
def storedCsr (addr : BitVec 12) : Bool :=
  addr ∈ namedCsrs || (pmpaddr0 ≤ addr && addr ≤ pmpaddr15)

/-- The numbers for which `_read` reports an exception. -/
def rejectedCsr (addr : BitVec 12) : Bool :=
  (pmpaddr16 ≤ addr && addr ≤ pmpaddr63) || (mhpmcounter3 ≤ addr && addr ≤ mhpmcounter31)

/-- The remaining numbers that `_read` gives a value. -/
def computedCsr (addr : BitVec 12) : Bool :=
  addr ∈ [scounteren, mcounteren, time, cycle, instret, 0]

/--
The function `csr_read`, which is `_read` behind a check the width of the number makes redundant.

Nothing is returned when the exception flag is set.
-/
def csrRead (host : Host) (hart : Hart) (addr : BitVec 12) : Except Stop (Option (BitVec 64)) :=
  -- The switch lists these names one by one, and then three ranges.
  if storedCsr addr then .ok (some (hart.csr addr))
  -- The counter-enable registers are constants: what is written to them is never read.
  else if addr = scounteren ∨ addr = mcounteren then .ok (some 0x7)
  else if addr = time then .ok (some (cpuReadRtc host))
  else if addr = cycle ∨ addr = instret then .ok (some host.ticks)
  else if rejectedCsr addr then .ok none
  -- Of the remaining numbers only zero reads, as zero.
  else if addr ≠ 0 then .error (.panic "_read: bad addr 0x%x\n")
  else .ok (some 0)

/-- The value an operation stores, given the one that was read. -/
def CsrOp.apply (type : CsrOp) (ret data : BitVec 64) : BitVec 64 :=
  match type with
  | .write => data
  | .set => ret ||| data
  | .clear => ret &&& ~~~data

/-- The function `csr_update`: the value before, and the hart with the register changed. -/
def csrUpdate (host : Host) (hart : Hart) (addr : BitVec 12) (data : BitVec 64) (type : CsrOp) :
    Except Stop (Option (BitVec 64) × Hart) := do
  match ← csrRead host hart addr with
  -- An exception returns before the assignment.
  | none => return (none, hart)
  | some ret => return (some ret, hart.setCsr addr (type.apply ret data))

/-- No number is both stored and rejected. -/
theorem rejectedCsr_not_stored {addr : BitVec 12} (rejected : rejectedCsr addr) :
    storedCsr addr = false := by
  -- None of the names lies in a rejected range, and the stored range ends below the first of them.
  have names : namedCsrs.all (fun named => !rejectedCsr named) = true := by decide
  have unnamed : addr ∉ namedCsrs := fun member => by
    have accepted := List.all_eq_true.mp names addr member
    rw [rejected] at accepted
    cases accepted
  have outside : (pmpaddr0 ≤ addr && addr ≤ pmpaddr15) = false := by
    simp only [rejectedCsr, pmpaddr16, pmpaddr63, mhpmcounter3, mhpmcounter31, Bool.or_eq_true,
      Bool.and_eq_true, decide_eq_true_eq, BitVec.le_def, BitVec.ofNat_eq_ofNat,
      BitVec.toNat_ofNat] at rejected
    simp only [pmpaddr0, pmpaddr15, Bool.and_eq_false_iff, decide_eq_false_iff_not, BitVec.le_def,
      BitVec.ofNat_eq_ofNat, BitVec.toNat_ofNat]
    omega
  simp [storedCsr, unnamed, outside]

/-- A rejected number is not read. -/
theorem csrRead_rejected {addr : BitVec 12} (rejected : rejectedCsr addr) (host : Host)
    (hart : Hart) : csrRead host hart addr = .ok none := by
  -- No register with a computed value has a rejected number, so the switch gets that far.
  have computed : [scounteren, mcounteren, time, cycle, instret].all
      (fun number => !rejectedCsr number) = true := by decide
  have other : ∀ number ∈ [scounteren, mcounteren, time, cycle, instret], addr ≠ number := by
    rintro number member rfl
    have accepted := List.all_eq_true.mp computed addr member
    rw [rejected] at accepted
    cases accepted
  simp only [List.mem_cons, List.not_mem_nil, or_false, forall_eq_or_imp, forall_eq] at other
  simp [csrRead, rejectedCsr_not_stored rejected, rejected, other]

/-- A number with a computed value reads as that value. -/
theorem csrRead_computed {addr : BitVec 12} (computed : computedCsr addr) (host : Host)
    (hart : Hart) : ∃ value, csrRead host hart addr = .ok (some value) := by
  simp only [computedCsr, List.mem_cons, List.not_mem_nil, or_false, decide_eq_true_eq] at computed
  -- Each of the six has a case of its own, and every case reads.
  rcases computed with rfl | rfl | rfl | rfl | rfl | rfl
  all_goals exact ⟨_, rfl⟩

/-- Any other number stops the emulator. -/
theorem csrRead_missing {addr : BitVec 12} (stored : storedCsr addr = false)
    (computed : computedCsr addr = false) (rejected : rejectedCsr addr = false) (host : Host)
    (hart : Hart) : csrRead host hart addr = .error (.panic "_read: bad addr 0x%x\n") := by
  -- None of the tests before the panic applies, the one for zero included.
  simp only [computedCsr, List.mem_cons, List.not_mem_nil, or_false, decide_eq_false_iff_not,
    not_or] at computed
  simp only [csrRead, stored, rejected, computed, Bool.false_eq_true, or_self, if_false, ne_eq,
    not_false_eq_true, if_true]

/-- An update is refused and changes nothing, or it stores a value computed from the one read. -/
theorem csrUpdate_cases {host : Host} {hart after : Hart} {addr : BitVec 12} {data : BitVec 64}
    {type : CsrOp} {ret : Option (BitVec 64)}
    (updated : csrUpdate host hart addr data type = .ok (ret, after)) :
    (csrRead host hart addr = .ok none ∧ ret = none ∧ after = hart) ∨
      ∃ old, csrRead host hart addr = .ok (some old) ∧ ret = some old ∧
        after = hart.setCsr addr (type.apply old data) := by
  obtain ⟨read, looked, result⟩ := bind_eq_ok.mp updated
  cases read with
  | none =>
    -- The read was refused, so nothing was assigned.
    cases Except.ok.inj result
    exact .inl ⟨looked, rfl, rfl⟩
  | some old =>
    -- The value stored is computed from the one just read.
    cases Except.ok.inj result
    exact .inr ⟨old, looked, rfl, rfl⟩

/-- A stored register reads as the element of the array. -/
theorem csrRead_stored {addr : BitVec 12} (stored : storedCsr addr) (host : Host) (hart : Hart) :
    csrRead host hart addr = .ok (some (hart.csr addr)) := by
  simp [csrRead, stored]

end Xemu
