import Xemu.Machine.Program
import Xemu.Proofs.Atomicity

/-! Where trap entry jumps to, by what the guest has written to the vector registers. -/

namespace Xemu

/-! ### The address of a handler -/

/-- The base address in a vector register, which is aligned to words. -/
def vectorBase (v : BitVec 64) : BitVec 64 := (v >>> 2) <<< 2

/-- The mode field in a vector register. -/
def vectorMode (v : BitVec 64) : BitVec 64 := v &&& 3

/-- The handler of a cause for what a vector register holds, as the architecture has it. -/
def specifiedHandler (v cause : BitVec 64) : BitVec 64 :=
  -- Only interrupts have handlers of their own, four bytes apart.
  if cause.msb = true ∧ vectorMode v = 1 then vectorBase v + 4 * (cause &&& ~~~bitCauseIntr)
  else vectorBase v

/-- The register holds the handler of a cause exactly when its mode field is zero. -/
theorem specifiedHandler_iff (v cause : BitVec 64) :
    v = specifiedHandler v cause ↔ vectorMode v = 0 := by
  -- Both sides are compared as numbers, of which the field is the remainder by four.
  have field : (vectorMode v).toNat = v.toNat % 4 := by
    rw [vectorMode, BitVec.toNat_and]
    exact Nat.and_two_pow_sub_one_eq_mod _ 2
  have base : (vectorBase v).toNat = v.toNat / 4 * 4 := by
    have bound := v.isLt
    rw [vectorBase, BitVec.toNat_shiftLeft, BitVec.toNat_ushiftRight,
      Nat.shiftRight_eq_div_pow, Nat.shiftLeft_eq]
    omega
  rw [← BitVec.toNat_inj, ← BitVec.toNat_inj, field]
  unfold specifiedHandler
  split
  · -- The handlers of interrupts are as far apart as words are.
    rename_i vectored
    have mode := congrArg BitVec.toNat vectored.2
    rw [field] at mode
    rw [BitVec.toNat_add, BitVec.toNat_mul, base]
    change v.toNat = (v.toNat / 4 * 4 + 4 * _ % 2 ^ 64) % 2 ^ 64 ↔ v.toNat % 4 = 0
    change v.toNat % 4 = 1 at mode
    omega
  · rw [base]
    change v.toNat = v.toNat / 4 * 4 ↔ v.toNat % 4 = 0
    omega

/-! ### The vector registers -/

/-- A trap assigns neither vector register. -/
theorem vector_not_trap (target mode : BitVec 2) :
    trapVector target ≠ trapIp mode ∧ trapVector target ∉ trapCsrs mode ∧
      trapVector target ≠ sstatus ∧ trapVector target ≠ mstatus := by
  unfold trapVector trapIp trapCsrs
  -- Two registers against the two modes.
  split <;> split <;> decide

/-- Both vector registers are stored as they are written. -/
theorem vector_stored (mode : BitVec 2) : storedCsr (trapVector mode) := by
  -- Neither address is one of the registers that are views of others.
  unfold trapVector
  split <;> decide

/-! ### The three ways into a trap -/

/-- Only an instruction that accesses memory or a control register sets the exception flag. -/
theorem executeOp_flag {host : Host} {m : Machine} {pc nextPc : BitVec 64} {d : Decoded}
    {locals : Locals} (ran : executeOp host m pc nextPc d = .ok locals) (flag : locals.hasExcept) :
    (d.access m.hart).isSome ∨ d.op.csrOp.isSome := by
  obtain ⟨op, rd, rs1, rs2, imm, csrAddr⟩ := d
  -- The cases are those of the accesses, of the control registers, and the rest.
  cases op with
  | lb | lh | lw | ld | lbu | lhu | lwu | lrD | lrW | flw | fld | sb | sh | sw | sd | fsd | fsw
  | scD | amoAddD | amoSwapD | amoXorD | amoOrD | amoAndD | amoMinD | amoMaxD | amoMinuD
  | amoMaxuD | scW | amoAddW | amoSwapW | amoXorW | amoOrW | amoAndW | amoMinW | amoMaxW
  | amoMinuW | amoMaxuW => exact .inl rfl
  | csrrw | csrrs | csrrc | csrrwi | csrrsi | csrrci => exact .inr rfl
  -- The word shifts may be undefined, and then there is no result.
  | sraiw | sraw =>
    obtain ⟨value, shifted, set⟩ := bind_eq_ok.mp ran
    cases Except.ok.inj set
    cases flag
  -- A branch changes the address to go on at, if anything.
  | beq | bne | blt | bge | bltu | bgeu =>
    cases Except.ok.inj ran
    rw [apply_ite Locals.hasExcept, ite_self] at flag
    cases flag
  | ebreak | uret => cases ran
  | _ =>
    cases Except.ok.inj ran
    cases flag

/--
Every trap to a mode jumps to the address that stands in its vector register.

A trap is entered from the interrupt check, from the fetch, or from an instruction, and for any
cause; the address is the value that the guest reads back.
-/
structure Machine.JumpsTo (host : Host) (m : Machine) (mode : BitVec 2) (v : BitVec 64) : Prop where
  reads : csrRead host m.hart (trapVector mode) = .ok (some v)
  entry : ∀ pc cause tval, (trapEnter m.hart pc mode cause tval).1 = v
  interrupts : ∀ pc vector polled, m.handleInterrupt pc = .ok (vector, polled) →
    (vector = 0 ∧ polled.hart = m.hart) ∨ ∃ type, type ≠ .none ∧
      polled.hart.csr (trapCause polled.hart.priv) = intrCause type polled.hart.priv ∧
      (polled.hart.priv = mode → vector = v)
  fetches : ∀ vector inst after, m.fetch host = .ok (vector, inst, after) →
    (vector = 0 ∧ after.hart = m.hart) ∨
      after.hart.csr (trapCause after.hart.priv) = causeInstPageFault ∧
      (after.hart.priv = mode → vector = v)
  instructions : ∀ pc nextPc d locals, executeOp host m pc nextPc d = .ok locals →
    d.op = .ecall ∨ locals.hasExcept = true → locals.m.hart.priv = mode → locals.retPc = v

/-- A trap jumps to what the vector register of its mode holds. -/
theorem Machine.jumpsTo_vector (host : Host) (m : Machine) (mode : BitVec 2) :
    m.JumpsTo host mode (m.hart.csr (trapVector mode)) where
  reads := csrRead_stored (vector_stored mode) host m.hart
  entry pc cause tval := trapEnter_vector m.hart pc mode cause tval
  interrupts pc vector polled handled := by
    rcases handleInterrupt_cases handled with none | ⟨type, some, entered⟩
    · exact .inl none
    · have reached := trapEnter_reaches (intrNextPriv_cases _ _) entered
      have cause := trapEnter_cause (m.hart.setPending type (intrNextPriv m.hart type)) pc
        (intrNextPriv m.hart type) (intrCause type (intrNextPriv m.hart type)) 0
      have vectored := trapEnter_vector (m.hart.setPending type (intrNextPriv m.hart type)) pc
        (intrNextPriv m.hart type) (intrCause type (intrNextPriv m.hart type)) 0
      rw [entered, ← reached] at cause vectored
      refine .inr ⟨type, some, cause, fun same => ?_⟩
      -- The pending bit that was set before is in another register.
      exact vectored.trans (same ▸ setPending_vector ..)
  fetches vector inst after fetched := by
    rcases fetch_cases fetched with none | ⟨tval, entered⟩
    · exact .inl none
    · have reached := trapEnter_reaches (exceptNextPriv_cases _ _) entered
      have cause := trapEnter_cause m.hart m.hart.pc (exceptNextPriv m.hart causeInstPageFault)
        causeInstPageFault tval
      have vectored := trapEnter_vector m.hart m.hart.pc
        (exceptNextPriv m.hart causeInstPageFault) causeInstPageFault tval
      rw [← raiseExcept, entered, ← reached] at cause vectored
      exact .inr ⟨cause, fun same => same ▸ vectored⟩
  instructions pc nextPc d locals ran flag same := by
    obtain ⟨cause, tval, raised⟩ : ∃ cause tval,
        raiseExcept m.hart pc cause tval = (locals.retPc, locals.m.hart) := by
      rcases flag with call | flag
      · -- A call raises its exception in any case.
        obtain ⟨op, rd, rs1, rs2, imm, csrAddr⟩ := d
        cases call
        cases Except.ok.inj ran
        exact ⟨_, _, rfl⟩
      · cases executeOp_fault (executeOp_flag ran flag) ran flag with
        | page addr accesses missing cause raised => exact ⟨cause, addr, raised⟩
        | csr op kept raised => exact ⟨causeIllegalInst, 0, raised⟩
    have reached := trapEnter_reaches (exceptNextPriv_cases _ _) raised
    -- Whatever was raised, the address was read from the register of the mode reached.
    have vectored := trapEnter_vector m.hart pc (exceptNextPriv m.hart cause) cause tval
    rw [← raiseExcept, raised, ← reached, same] at vectored
    exact vectored

/-! ### What the guest has written -/

section Written

variable {host : Host} {before ready first final : Machine} {nextPc : BitVec 64} {d : Decoded}
  {type : CsrOp} {mode : BitVec 2} {events : List Event}

/-- A run that does not name a vector register again has there what the last instruction wrote. -/
theorem run_vector (started : before.Ready host ready nextPc d) (op : d.op.csrOp = some type)
    (names : d.csrAddr = trapVector mode) (stepped : before.step host = .ok first)
    (unnamed : Runs.Along Machine.next (NotNamedAt (trapVector mode)) first events)
    (ran : Runs.run Machine.next first events = .ok final) :
    final.hart.csr (trapVector mode) =
      type.apply (ready.hart.csr (trapVector mode)) (d.csrData ready.hart) := by
  -- Traps and returns assign other registers.
  have unwritten := unnamed.mono fun event m => noWrite_of_notNamed (vector_not_trap mode)
  rw [run_csr unwritten ran]
  exact step_csr_assigns (vector_stored mode) started op names stepped

/--
A trap jumps to the value that the guest has written, whatever its low bits and the cause.

That is the handler the architecture has for it exactly when the mode field is zero.
-/
theorem trap_jumps_as_written (started : before.Ready host ready nextPc d)
    (op : d.op.csrOp = some type) (names : d.csrAddr = trapVector mode)
    (stepped : before.step host = .ok first)
    (unnamed : Runs.Along Machine.next (NotNamedAt (trapVector mode)) first events)
    (ran : Runs.run Machine.next first events = .ok final) :
    ∃ v, v = type.apply (ready.hart.csr (trapVector mode)) (d.csrData ready.hart) ∧
      (∀ now, final.JumpsTo now mode v) ∧
      ∀ cause, v = specifiedHandler v cause ↔ vectorMode v = 0 := by
  refine ⟨_, rfl, fun now => ?_, fun cause => specifiedHandler_iff _ cause⟩
  rw [← run_vector started op names stepped unnamed ran]
  exact Machine.jumpsTo_vector now final mode

end Written

/-- Writes a vector register with the vectored mode, and goes on. -/
def vectoredProgram : List (BitVec 32) :=
  [0x3052D073, 0x00000013, 0x00000013] -- csrrwi zero, mtvec, 5; nop; nop

/-- A machine that has written a vector register jumps to what it has written, two turns later too. -/
theorem trap_jumps_vectored :
    ∃ first final v, (Machine.boot vectoredProgram).step {} = .ok first ∧
      Runs.run Machine.next first (turns 2) = .ok final ∧ v = 5 ∧ ∀ now, final.JumpsTo now mMode v := by
  -- The machine is run, and the facts the theorem needs are read off that run.
  have tested : ((Machine.boot vectoredProgram).findReady {}).toOption.join.any
      (fun found => found.2.2.op = .csrrwi && found.2.2.csrAddr = mtvec &&
        found.2.2.csrData found.1.hart = 5) := by
    decide +kernel
  obtain ⟨ready, nextPc, d, started, tested⟩ := Machine.ready_of_test tested
  simp only [Bool.and_eq_true, decide_eq_true_eq] at tested
  obtain ⟨⟨op, names⟩, written⟩ := tested
  obtain ⟨first, stepped, later⟩ := @ok_of_test _ ((Machine.boot vectoredProgram).step {})
    (fun first => testTurns (unnamedTest (trapVector mMode)) 2 first &&
      (Runs.run Machine.next first (turns 2)).toOption.any fun _ => true)
    (by decide +kernel)
  obtain ⟨unnamed, completes⟩ := Bool.and_eq_true_iff.mp later
  obtain ⟨final, ran, -⟩ := ok_of_test completes
  have vector : d.csrAddr = trapVector mMode := names.trans (by decide)
  obtain ⟨v, value, jumps, _⟩ := trap_jumps_as_written started
    (by rw [op]; rfl : d.op.csrOp = some .write) vector stepped (notNamed_of_test unnamed) ran
  exact ⟨first, final, v, stepped, ran, value.trans written, jumps⟩

/-- Writes a handler's address with the vectored mode, and calls it. -/
def misalignedProgram : List (BitVec 32) :=
  [0x00000097, 0x02108093, 0x30509073, -- auipc ra, 0; addi ra, ra, 33; csrw mtvec, ra
    0x00000073] -- ecall

/-- The handler of a call is entered with the mode field as part of its address. -/
theorem trap_jumps_misaligned :
    ¬ ∀ (host : Host) (m after : Machine), m.Reached → m.step host = .ok after →
      ∀ ready nextPc d, m.Ready host ready nextPc d → d.op = .ecall → after.hart.priv = mMode →
        after.hart.pc = specifiedHandler (after.hart.csr mtvec) (after.hart.csr mcause) := by
  intro always
  -- The call is the fourth step, and the register holds an odd address by then.
  obtain ⟨m, after, _, reached, stepped, tested⟩ :=
    reached_step_of_test misalignedProgram 3 (fun m after =>
      (m.findReady {}).toOption.join.any (fun found => found.2.2.op = .ecall) &&
        after.hart.priv = mMode &&
        after.hart.pc ≠ specifiedHandler (after.hart.csr mtvec) (after.hart.csr mcause))
      (by decide +kernel)
  simp only [Bool.and_eq_true, decide_eq_true_eq] at tested
  obtain ⟨⟨called, machine⟩, elsewhere⟩ := tested
  obtain ⟨ready, nextPc, d, started, op⟩ := Machine.ready_of_test called
  exact elsewhere (always {} m after reached stepped ready nextPc d started
    (of_decide_eq_true op) machine)

end Xemu
