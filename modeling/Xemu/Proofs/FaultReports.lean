import Xemu.Proofs.Atomicity
import Xemu.Proofs.FetchFaults

/-! How a failed translation is reported to the guest: the cause, the address, and the mode. -/

namespace Xemu

/-! ### What is to be reported -/

/-- The page fault that the architecture names for an instruction that accesses memory. -/
def Op.namedFault : Op → Option (BitVec 64)
  | .lb | .lh | .lw | .ld | .lbu | .lhu | .lwu | .flw | .fld | .lrW | .lrD =>
    some causeLoadPageFault
  | .sb | .sh | .sw | .sd | .fsw | .fsd | .scD | .scW | .amoAddD | .amoSwapD | .amoXorD
  | .amoOrD | .amoAndD | .amoMinD | .amoMaxD | .amoMinuD | .amoMaxuD | .amoAddW | .amoSwapW
  | .amoXorW | .amoOrW | .amoAndW | .amoMinW | .amoMaxW | .amoMinuW | .amoMaxuW =>
    some causeStorePageFault
  | _ => none

/-- The page fault that the cases of the source name. -/
def Op.recordedFault : Op → BitVec 64
  -- The loads of integer registers, and nothing else, hand over the fault of a load.
  | .lb | .lh | .lw | .ld | .lbu | .lhu | .lwu => causeLoadPageFault
  | _ => causeStorePageFault

/-- The instructions that only read and whose cases were copied from those of the stores. -/
def Op.readAsStore : Op → Bool
  | .flw | .fld | .lrW | .lrD => true
  | _ => false

/-- A page fault that the guest finds in the registers of the mode it was delegated to. -/
structure FaultReported (hart after : Hart) (pc cause tval : BitVec 64) : Prop where
  /-- It goes to the supervisor when it comes from below the machine and is delegated. -/
  supervisor : after.priv = sMode ↔
    hart.priv ≠ mMode ∧ (hart.csr medeleg).getLsbD cause.toNat = true
  /-- Otherwise it goes to the machine. -/
  machine : after.priv = sMode ∨ after.priv = mMode
  cause : after.csr (trapCause after.priv) = cause
  tval : after.csr (trapTval after.priv) = tval
  epc : after.csr (trapEpc after.priv) = pc

/-- The bit that stands for a cause is the one of its number. -/
theorem and_exceptBitFlag {word cause : BitVec 64} (small : cause.toNat < 32) :
    word &&& exceptBitFlag cause ≠ 0 ↔ word.getLsbD cause.toNat = true := by
  -- A one shifted by the cause is set at that place alone.
  have flag : ∀ i, (exceptBitFlag cause).getLsbD i = decide (i = cause.toNat) := by
    intro i
    rw [exceptBitFlag, BitVec.getLsbD_setWidth, BitVec.getLsbD_shiftLeft, BitVec.getLsbD_one]
    by_cases same : i = cause.toNat
    · simp [same, small, show cause.toNat < 64 by omega]
    · have apart : ¬ (¬ i < cause.toNat ∧ i - cause.toNat = 0) := by omega
      simp only [same, decide_false, Bool.and_eq_false_iff, decide_eq_false_iff_not,
        Bool.not_eq_false_eq_eq_true, decide_eq_true_eq]
      tauto
  constructor
  · intro some
    by_contra clear
    refine some (BitVec.eq_of_getLsbD_eq fun i below => ?_)
    rw [BitVec.getLsbD_and, flag]
    by_cases same : i = cause.toNat
    · simp [same, Bool.not_eq_true _ ▸ clear]
    · simp [same]
  · intro set zero
    have bit := congrArg (fun both => both.getLsbD cause.toNat) zero
    simp [flag, set] at bit

/-- Raising an exception reports it as it was raised. -/
theorem raiseExcept_reported (hart : Hart) (pc : BitVec 64) {cause : BitVec 64} (tval : BitVec 64)
    (small : cause.toNat < 32) :
    FaultReported hart (raiseExcept hart pc cause tval).2 pc cause tval := by
  have entered : (raiseExcept hart pc cause tval).2.priv = exceptNextPriv hart cause := by
    refine (trapEnter_priv ..).trans ?_
    rcases exceptNextPriv_cases hart cause with mode | mode <;> rw [mode] <;> rfl
  refine ⟨?_, entered ▸ exceptNextPriv_cases hart cause, ?_, ?_, ?_⟩
  · -- The mode is chosen by the same two tests.
    rw [entered, exceptNextPriv, ← and_exceptBitFlag small]
    split
    · rename_i delegated
      exact iff_of_true rfl delegated
    · rename_i kept
      exact iff_of_false (by decide) kept
  · rw [entered]
    exact trapEnter_cause ..
  · rw [entered]
    exact trapEnter_tval ..
  · rw [entered]
    exact trapEnter_epc ..

/-! ### What the cases of an instruction do -/

section Cases

variable {host : Host} {m : Machine} {addr : BitVec 64} {bus : Bus} (pc nextPc rdVal : BitVec 64)

/-- The locals are those of a fault raised by the hart the case started with. -/
def Locals.Faulted (locals : Locals) (m : Machine) (bus : Bus) (pc cause addr : BitVec 64) : Prop :=
  locals.hasExcept = true ∧ locals.retPc = (raiseExcept m.hart pc cause addr).1 ∧
    locals.m = { hart := (raiseExcept m.hart pc cause addr).2, bus }

variable (missing : m.mmu host addr = .ok (none, bus))

include missing

/-- A read of an address without a translation raises the fault it was given. -/
theorem readMem_unmapped (size : Nat) (params : Params) (cause : BitVec 64) :
    ∃ after, ({ m, retPc := nextPc, rdVal } : Locals).readMem host pc addr size params cause =
      .ok (0, after) ∧ after.Faulted m bus pc cause addr := by
  -- Without a translation the read reaches no device and returns nothing.
  have read : m.asRead host addr size params = .ok (none, bus) := by
    rw [Machine.asRead, missing]
    rfl
  rw [Locals.readMem]
  simp only [read, ok_bind, pure_eq_ok]
  exact ⟨_, rfl, rfl, rfl, rfl⟩

/-- A write to an address without a translation raises the fault of a store. -/
theorem writeMem_unmapped (size : Nat) (data : BitVec 64) (params : Params) :
    ∃ after, ({ m, retPc := nextPc, rdVal } : Locals).writeMem host pc addr size data params =
      .ok (0, after) ∧ after.Faulted m bus pc causeStorePageFault addr := by
  -- The write ends the same way, and no device sees the data.
  have written : m.asWrite host addr size data params = .ok (none, bus) := by
    rw [Machine.asWrite, missing]
    rfl
  rw [Locals.writeMem]
  simp only [written, ok_bind, pure_eq_ok]
  exact ⟨_, rfl, rfl, rfl, rfl⟩

/-- An integer load raises the fault of a load. -/
theorem load_unmapped (size : Nat) (cast : BitVec 64 → BitVec 64) :
    ∃ after, ({ m, retPc := nextPc, rdVal } : Locals).load host pc addr size cast = .ok after ∧
      after.Faulted m bus pc causeLoadPageFault addr := by
  obtain ⟨after, read, faulted⟩ := readMem_unmapped pc nextPc rdVal missing size .none causeLoadPageFault
  rw [Locals.load, read]
  exact ⟨_, rfl, faulted⟩

/-- A load-reserved raises the fault of a store. -/
theorem loadReserved_unmapped (size : Nat) (cast : BitVec 64 → BitVec 64) :
    ∃ after, ({ m, retPc := nextPc, rdVal } : Locals).loadReserved host pc addr size cast =
      .ok after ∧ after.Faulted m bus pc causeStorePageFault addr := by
  obtain ⟨after, read, faulted⟩ := readMem_unmapped pc nextPc rdVal missing size .lrSc causeStorePageFault
  rw [Locals.loadReserved, read]
  exact ⟨_, rfl, faulted⟩

/-- A floating-point load raises the fault of a store. -/
theorem loadFp_unmapped (size precision : Nat) :
    ∃ after, ({ m, retPc := nextPc, rdVal } : Locals).loadFp host pc addr size precision =
      .ok after ∧ after.Faulted m bus pc causeStorePageFault addr := by
  obtain ⟨after, read, faulted⟩ := readMem_unmapped pc nextPc rdVal missing size .none causeStorePageFault
  rw [Locals.loadFp, read]
  exact ⟨_, rfl, faulted⟩

/-- A store raises its own fault. -/
theorem store_unmapped (size : Nat) (data : BitVec 64) :
    ∃ after, ({ m, retPc := nextPc, rdVal } : Locals).store host pc addr size data = .ok after ∧
      after.Faulted m bus pc causeStorePageFault addr := by
  obtain ⟨after, written, faulted⟩ := writeMem_unmapped pc nextPc rdVal missing size data .none
  rw [Locals.store, written]
  exact ⟨_, rfl, faulted⟩

/-- A conditional store or an atomic update raises the fault of a store. -/
theorem update_unmapped (size : Nat) (data : BitVec 64) (params : Params) :
    ∃ after, ({ m, retPc := nextPc, rdVal } : Locals).update host pc addr size data params =
      .ok after ∧ after.Faulted m bus pc causeStorePageFault addr := by
  obtain ⟨after, written, faulted⟩ := writeMem_unmapped pc nextPc rdVal missing size data params
  rw [Locals.update, written]
  exact ⟨_, rfl, faulted⟩

end Cases

/-- The operand that `FSW` converts before its access fits its integer type again. -/
def Decoded.Converts (d : Decoded) (hart : Hart) : Prop :=
  d.op = .fsw → roundTo 24 (hart.reg d.rs2).toNat < 2 ^ 64

section Instruction

variable {host : Host} {m : Machine} {pc nextPc addr : BitVec 64} {bus : Bus} {d : Decoded}

/-- An instruction whose address has no translation raises the fault that its case names. -/
theorem executeOp_unmapped (accesses : d.access m.hart = some addr)
    (missing : m.mmu host addr = .ok (none, bus)) (converts : d.Converts m.hart) :
    ∃ locals, executeOp host m pc nextPc d = .ok locals ∧
      locals.Faulted m bus pc d.op.recordedFault addr := by
  obtain ⟨op, rd, rs1, rs2, imm, csrAddr⟩ := d
  -- The cases are grouped by the helper that makes the access.
  cases op with
  | lb | lh | lw | ld | lbu | lhu | lwu =>
    cases Option.some.inj accesses
    exact load_unmapped pc nextPc host.rdVal missing ..
  | sb | sh | sw | sd | fsd =>
    cases Option.some.inj accesses
    exact store_unmapped pc nextPc host.rdVal missing ..
  | fsw =>
    cases Option.some.inj accesses
    have operand : floatToU64 (roundTo 24 (m.hart.reg rs2).toNat) = .ok _ := if_pos (converts rfl)
    obtain ⟨after, stored, faulted⟩ := store_unmapped pc nextPc host.rdVal missing 4
      (BitVec.ofNat 64 (roundTo 24 (m.hart.reg rs2).toNat))
    refine ⟨after, ?_, faulted⟩
    rw [executeOp]
    simp only [operand, ok_bind]
    exact stored
  | flw | fld =>
    cases Option.some.inj accesses
    exact loadFp_unmapped pc nextPc host.rdVal missing ..
  | lrD | lrW =>
    cases Option.some.inj accesses
    exact loadReserved_unmapped pc nextPc host.rdVal missing ..
  | scD | amoAddD | amoSwapD | amoXorD | amoOrD | amoAndD | amoMinD | amoMaxD | amoMinuD
  | amoMaxuD | scW | amoAddW | amoSwapW | amoXorW | amoOrW | amoAndW | amoMinW | amoMaxW
  | amoMinuW | amoMaxuW =>
    cases Option.some.inj accesses
    exact update_unmapped pc nextPc host.rdVal missing ..
  | _ => cases accesses

/-- After a fault the tail writes no register, and the instruction ends in the handler. -/
theorem execute_unmapped (accesses : d.access m.hart = some addr)
    (missing : m.mmu host addr = .ok (none, bus)) (converts : d.Converts m.hart) :
    execute host m pc nextPc d =
      .ok ((raiseExcept m.hart pc d.op.recordedFault addr).1,
        { hart := (raiseExcept m.hart pc d.op.recordedFault addr).2, bus }) := by
  obtain ⟨locals, ran, flag, goesOn, machine⟩ := executeOp_unmapped accesses missing converts
  rw [execute, ran, ok_bind, Locals.writeBack, if_pos flag, goesOn, machine]

/-- Without a conversion the access is not reached. -/
theorem execute_unconverted (fails : ¬ d.Converts m.hart) :
    ∃ stop, execute host m pc nextPc d = .error stop := by
  obtain ⟨op, rd, rs1, rs2, imm, csrAddr⟩ := d
  rw [Decoded.Converts, Classical.not_imp] at fails
  obtain ⟨rfl, wide⟩ := fails
  -- The conversion back to an integer is undefined, and it comes before the access.
  have operand : floatToU64 (roundTo 24 (m.hart.reg rs2).toNat) = .error _ := if_neg wide
  refine ⟨.undefined "conversion of a floating-point value out of range", ?_⟩
  rw [execute, executeOp]
  simp only [operand, error_bind]

/-- The fault recorded is the one named, but for the reads that are recorded as stores. -/
theorem recordedFault_iff (accesses : d.access m.hart = some addr) :
    d.op.namedFault = some d.op.recordedFault ↔ d.op.readAsStore = false := by
  obtain ⟨op, rd, rs1, rs2, imm, csrAddr⟩ := d
  cases op with
  | lrD | lrW | flw | fld =>
    -- These four read, and hand over the fault of a store.
    exact iff_of_false (show ¬ some causeLoadPageFault = some causeStorePageFault by decide)
      (show ¬ true = false by decide)
  | _ => first
    | exact iff_of_true rfl rfl
    | cases accesses

/-- The fault recorded has a number below 32, as every cause. -/
theorem recordedFault_small (op : Op) : op.recordedFault.toNat < 32 := by
  cases op <;> decide

/-- The instruction ends in the handler, with the fault that is named for it reported. -/
def FaultsAsNamed (host : Host) (m : Machine) (pc nextPc : BitVec 64) (d : Decoded)
    (addr : BitVec 64) : Prop :=
  ∃ cause vector after, d.op.namedFault = some cause ∧
    execute host m pc nextPc d = .ok (vector, after) ∧
    FaultReported m.hart after.hart pc cause addr

end Instruction

/-! ### The result -/

/--
A page fault is reported with the cause of the access, but for reads that are reported as stores.

These are `FLW`, `FLD` and `LR`; besides, `FSW` has no defined result for an operand that does not
fit the integer type again after the conversion. A fault of a fetch is reported for the halfword
that has no translation.
-/
theorem fault_reported_iff (host : Host) (m : Machine) :
    (∀ pc nextPc addr (d : Decoded), d.access m.hart = some addr → m.Unmapped host addr →
      (FaultsAsNamed host m pc nextPc d addr ↔ d.op.readAsStore = false ∧ d.Converts m.hart)) ∧
    (m.Unmapped host m.hart.pc →
      ∃ vector after, m.fetch host = .ok (vector, 0, after) ∧
        FaultReported m.hart after.hart m.hart.pc causeInstPageFault m.hart.pc) ∧
    ∀ low bus, EndsPage m.hart.pc →
      m.asRead host m.hart.pc 2 .none = .ok (some low, bus) →
      Machine.Unmapped host { m with bus } (m.hart.pc + 2) →
      ∃ vector after, m.fetch host = .ok (vector, 0, after) ∧
        FaultReported m.hart after.hart m.hart.pc causeInstPageFault (m.hart.pc + 2) := by
  have small : causeInstPageFault.toNat < 32 := by decide
  refine ⟨fun pc nextPc addr d accesses missing => ?_, fun missing => ?_,
    fun low bus across first missing => ?_⟩
  · obtain ⟨bus, walked⟩ := missing.result
    constructor
    · rintro ⟨cause, vector, after, named, ran, reported⟩
      -- A result was returned, so the conversion of the operand went through.
      have converts : d.Converts m.hart := by
        by_contra fails
        obtain ⟨stop, stopped⟩ := execute_unconverted fails
        cases stopped.symm.trans ran
      refine ⟨(recordedFault_iff accesses).mp ?_, converts⟩
      -- The cause in the register is the one recorded, so it is that one which is named.
      cases (execute_unmapped accesses walked converts).symm.trans ran
      have recorded := raiseExcept_reported m.hart pc addr (recordedFault_small d.op)
      exact named.trans (congrArg some (reported.cause.symm.trans recorded.cause))
    · rintro ⟨named, converts⟩
      exact ⟨_, _, _, (recordedFault_iff accesses).mpr named,
        execute_unmapped accesses walked converts,
        raiseExcept_reported m.hart pc addr (recordedFault_small d.op)⟩
  · obtain ⟨bus, walked⟩ := missing.result
    -- The first halfword has no translation, and the fault is at the address of the instruction.
    let trap := raiseExcept m.hart m.hart.pc causeInstPageFault m.hart.pc
    refine ⟨trap.1, { hart := trap.2, bus }, ?_, raiseExcept_reported m.hart _ _ small⟩
    rw [Machine.fetch_eq, Machine.fetched_unmapped walked]
    rfl
  · obtain ⟨last, walked⟩ := missing.result
    -- The second halfword is on the next page, and the fault is at its own address.
    let trap := raiseExcept m.hart m.hart.pc causeInstPageFault (m.hart.pc + 2)
    refine ⟨trap.1, { hart := trap.2, bus := last }, ?_, raiseExcept_reported m.hart _ _ small⟩
    have second : Machine.asRead host { m with bus } (m.hart.pc + 2) 2 .none = .ok (none, last) := by
      rw [Machine.asRead, walked]
      rfl
    rw [Machine.fetch_eq]
    dsimp only [Machine.fetched]
    rw [if_neg (show ¬ (m.hart.pc + 2) &&& 0xFFF ≠ 0 from not_not.mpr across), first]
    simp only [ok_bind, second]
    rfl

/-- A store to a page without a translation is reported as one. -/
theorem fault_reported_iff_store :
    FaultsAsNamed {} unmappedMachine 0x1000 0x1004 (storeWord 0x80002000) 0x80002000 :=
  have missing : unmappedMachine.Unmapped {} 0x80002000 := by
    unfold Machine.Unmapped
    decide +kernel
  have accesses : (storeWord 0x80002000).access unmappedMachine.hart = some 0x80002000 := by decide
  ((fault_reported_iff {} unmappedMachine).1 0x1000 0x1004 _ _ accesses missing).mpr
    ⟨by decide, fun impossible => by cases impossible⟩

/-- A load-reserved of the word at the address that register zero holds. -/
def reserveWord : Decoded := { op := .lrW, rd := 5, rs1 := 0, rs2 := 0, imm := 0, csrAddr := 0 }

/-- A load-reserved from a page without a translation is reported as a store. -/
theorem load_reported_as_store :
    ¬ ∀ (host : Host) (m : Machine) (pc nextPc addr : BitVec 64) (d : Decoded),
      d.access m.hart = some addr → m.Unmapped host addr → FaultsAsNamed host m pc nextPc d addr := by
  intro always
  have missing : unmappedMachine.Unmapped {} 0 := by
    unfold Machine.Unmapped
    decide +kernel
  obtain ⟨cause, vector, after, named, ran, reported⟩ :=
    always {} unmappedMachine 0x1000 0x1004 0 reserveWord (by decide) missing
  cases Option.some.inj named
  -- The supervisor's fault goes to the machine, where the register has the cause of a store.
  have recorded : (execute {} unmappedMachine 0x1000 0x1004 reserveWord).map
      (fun result => result.2.hart.csr (trapCause result.2.hart.priv)) = .ok causeStorePageFault := by
    decide +kernel
  rw [ran] at recorded
  cases reported.cause.symm.trans (Except.ok.inj recorded)

end Xemu
