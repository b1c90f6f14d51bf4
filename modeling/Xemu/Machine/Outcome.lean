import Xemu.Machine.Step

/-! What one executed instruction, and one turn of the main loop, can do to the hart. -/

namespace Xemu

/-! ### Memory accesses keep the hart -/

namespace Locals

variable {host : Host} {locals after : Locals} {pc addr : BitVec 64}

/-- A read either keeps the hart and the exception flag, or raises the fault it was given. -/
theorem readMem_cases {size : Nat} {params : Params} {cause data : BitVec 64}
    (ran : locals.readMem host pc addr size params cause = .ok (data, after)) :
    ∃ bus, after = { locals with m.bus := bus } ∨
      after = ({ locals with m.bus := bus } : Locals).fault pc cause addr := by
  obtain ⟨⟨read, bus⟩, accessed, result⟩ := bind_eq_ok.mp ran
  refine ⟨bus, ?_⟩
  -- The flag of the access decides whether the exception is raised.
  cases read with
  | none => exact .inr (by simpa [eq_comm] using (Prod.mk.inj (Except.ok.inj result)).2)
  | some value => exact .inl (by simpa [eq_comm] using (Prod.mk.inj (Except.ok.inj result)).2)

/-- A write either keeps the hart and the exception flag, or raises a store fault. -/
theorem writeMem_cases {size : Nat} {params : Params} {data ret : BitVec 64}
    (ran : locals.writeMem host pc addr size data params = .ok (ret, after)) :
    ∃ bus, after = { locals with m.bus := bus } ∨
      after = ({ locals with m.bus := bus } : Locals).fault pc causeStorePageFault addr := by
  obtain ⟨⟨written, bus⟩, accessed, result⟩ := bind_eq_ok.mp ran
  refine ⟨bus, ?_⟩
  -- The flag of the access decides whether the exception is raised.
  cases written with
  | none => exact .inr (by simpa [eq_comm] using (Prod.mk.inj (Except.ok.inj result)).2)
  | some value => exact .inl (by simpa [eq_comm] using (Prod.mk.inj (Except.ok.inj result)).2)

end Locals

/-! ### One instruction -/

/-- The operand of a control-register operation: a register's content or the immediate. -/
def Decoded.csrData (d : Decoded) (hart : Hart) : BitVec 64 :=
  match d.op with
  | .csrrwi | .csrrsi | .csrrci => d.imm
  | _ => hart.reg d.rs1

/-- The ways in which the switch of `execute` can leave the hart and the address to go on at. -/
inductive Outcome (host : Host) (hart : Hart) (pc nextPc : BitVec 64) (d : Decoded)
    (locals : Locals) : Prop where
  /-- The hart is as before and goes on at the following instruction. -/
  | next (kept : locals.m.hart = hart) (goesOn : locals.retPc = nextPc)
  /-- The hart is as before and goes on at an address relative to the instruction. -/
  | relative (op : d.op.relative) (kept : locals.m.hart = hart)
      (goesOn : locals.retPc = pc + d.imm)
  /-- The hart is as before and goes on at an address taken from a register. -/
  | jalr (op : d.op = .jalr) (kept : locals.m.hart = hart)
      (goesOn : locals.retPc = hart.reg d.rs1 + d.imm)
  /-- One control register was updated. -/
  | csr (type : CsrOp) (op : d.op.csrOp = some type) (ret : BitVec 64)
      (updated : csrUpdate host hart d.csrAddr (d.csrData hart) type =
        .ok (some ret, locals.m.hart)) (goesOn : locals.retPc = nextPc)
  /-- An exception was raised, by a call or with the exception flag set. -/
  | except (flag : d.op = .ecall ∨ locals.hasExcept) (cause tval : BitVec 64)
      (raised : raiseExcept hart pc cause tval = (locals.retPc, locals.m.hart))
  /-- The hart returned from a trap to the supervisor. -/
  | sret (op : d.op = .sret) (returned : trapExitSret hart = (locals.retPc, locals.m.hart))
  /-- The hart returned from a trap to the machine. -/
  | mret (op : d.op = .mret) (returned : trapExitMret hart = (locals.retPc, locals.m.hart))

namespace Outcome

variable {host : Host} {m : Machine} {pc nextPc : BitVec 64} {d : Decoded} {after : Locals}
  {rdVal : BitVec 64}

/-- Locals that differ from the starting ones in the devices alone are those of a plain case. -/
theorem of_access {start : Locals} (hart : start.m.hart = m.hart) (goesOn : start.retPc = nextPc)
    {addr cause : BitVec 64}
    (accessed : ∃ bus, after = { start with m.bus := bus } ∨
      after = ({ start with m.bus := bus } : Locals).fault pc cause addr) :
    Outcome host m.hart pc nextPc d after := by
  obtain ⟨bus, rfl | rfl⟩ := accessed
  · exact .next hart goesOn
  · -- The fault was raised by the hart the case started with.
    exact .except (.inr rfl) cause addr (by simp [Locals.fault, hart])

/-- Only the hart, the address to go on at and the exception flag matter for an outcome. -/
theorem congr {locals : Locals} (outcome : Outcome host m.hart pc nextPc d locals)
    (hart : after.m.hart = locals.m.hart) (goesOn : after.retPc = locals.retPc)
    (flags : after.hasExcept = locals.hasExcept) :
    Outcome host m.hart pc nextPc d after := by
  -- Each outcome speaks of these three alone.
  cases outcome with
  | next kept target => exact .next (hart.trans kept) (goesOn.trans target)
  | relative op kept target => exact .relative op (hart.trans kept) (goesOn.trans target)
  | jalr op kept target => exact .jalr op (hart.trans kept) (goesOn.trans target)
  | csr type op ret updated target =>
    exact .csr type op ret (hart ▸ updated) (goesOn.trans target)
  | except flag cause tval raised =>
    exact .except (flags ▸ flag) cause tval (by rw [hart, goesOn, raised])
  | sret op returned => exact .sret op (by rw [hart, goesOn, returned])
  | mret op returned => exact .mret op (by rw [hart, goesOn, returned])

/-- A value for the destination changes no hart, and execution goes on behind the instruction. -/
theorem of_setRd {start : Locals} (hart : start.m.hart = m.hart)
    (goesOn : start.retPc = nextPc) {value : BitVec 64} (ran : start.setRd value = .ok after) :
    Outcome host m.hart pc nextPc d after := by
  cases Except.ok.inj ran
  exact .next hart goesOn

/-- An integer load has an outcome. -/
theorem of_load {addr : BitVec 64} {size : Nat} {cast : BitVec 64 → BitVec 64}
    (ran : ({ m, retPc := nextPc, rdVal } : Locals).load host pc addr size cast = .ok after) :
    Outcome host m.hart pc nextPc d after := by
  obtain ⟨⟨data, locals⟩, read, result⟩ := bind_eq_ok.mp ran
  -- The cast changes the value read, and no outcome speaks of that.
  cases Except.ok.inj result
  exact congr (of_access rfl rfl (Locals.readMem_cases read)) rfl rfl rfl

/-- A load-reserved has one. -/
theorem of_loadReserved {addr : BitVec 64} {size : Nat} {cast : BitVec 64 → BitVec 64}
    (ran : ({ m, retPc := nextPc, rdVal } : Locals).loadReserved host pc addr size cast =
      .ok after) :
    Outcome host m.hart pc nextPc d after := by
  obtain ⟨⟨data, locals⟩, read, result⟩ := bind_eq_ok.mp ran
  cases Except.ok.inj result
  exact congr (of_access rfl rfl (Locals.readMem_cases read)) rfl rfl rfl

/-- A floating-point load has one. -/
theorem of_loadFp {addr : BitVec 64} {size precision : Nat}
    (ran : ({ m, retPc := nextPc, rdVal } : Locals).loadFp host pc addr size precision =
      .ok after) :
    Outcome host m.hart pc nextPc d after := by
  obtain ⟨⟨data, locals⟩, read, result⟩ := bind_eq_ok.mp ran
  cases Except.ok.inj result
  exact congr (of_access rfl rfl (Locals.readMem_cases read)) rfl rfl rfl

/-- A store has one. -/
theorem of_store {addr data : BitVec 64} {size : Nat}
    (ran : ({ m, retPc := nextPc, rdVal } : Locals).store host pc addr size data = .ok after) :
    Outcome host m.hart pc nextPc d after := by
  obtain ⟨⟨ret, locals⟩, written, result⟩ := bind_eq_ok.mp ran
  cases Except.ok.inj result
  exact of_access rfl rfl (Locals.writeMem_cases written)

/-- A conditional store or an atomic update has one. -/
theorem of_update {addr data : BitVec 64} {size : Nat} {params : Params}
    (ran : ({ m, retPc := nextPc, rdVal } : Locals).update host pc addr size data params =
      .ok after) :
    Outcome host m.hart pc nextPc d after := by
  obtain ⟨⟨ret, locals⟩, written, result⟩ := bind_eq_ok.mp ran
  -- The value returned goes to the destination, and no outcome speaks of that.
  cases Except.ok.inj result
  exact congr (of_access rfl rfl (Locals.writeMem_cases written)) rfl rfl rfl

/-- An access to a control register goes on, or raises the exception of an illegal instruction. -/
theorem of_csr {type : CsrOp} (op : d.op.csrOp = some type)
    (ran : ({ m, retPc := nextPc, rdVal } : Locals).csr host pc d.csrAddr (d.csrData m.hart) type =
      .ok after) :
    Outcome host m.hart pc nextPc d after := by
  obtain ⟨⟨ret, hart⟩, updated, result⟩ := bind_eq_ok.mp ran
  cases ret with
  | none =>
    -- A rejected number leaves the hart as it was, so the exception is raised from there.
    have kept : hart = m.hart := by
      rcases csrUpdate_cases updated with ⟨_, _, same⟩ | ⟨old, _, impossible, _⟩
      · exact same
      · cases impossible
    cases Except.ok.inj result
    exact .except (.inr rfl) causeIllegalInst 0 (by simp [Locals.fault, kept])
  | some ret =>
    -- An accepted number goes on at the following instruction.
    cases Except.ok.inj result
    exact .csr type op ret updated rfl

/-- A branch goes on at its target or behind itself. -/
theorem of_branch {taken : Bool} (op : d.op.relative)
    (ran : ({ m, retPc := nextPc, rdVal } : Locals).branch (pc + d.imm) taken = .ok after) :
    Outcome host m.hart pc nextPc d after := by
  cases Except.ok.inj ran
  -- A branch that is not taken goes on at the following instruction.
  cases taken with
  | false => exact .next rfl rfl
  | true => exact .relative op rfl rfl

end Outcome

open Outcome in
/-- Every case of `execute` has one of the outcomes. -/
theorem executeOp_outcome {host : Host} {m : Machine} {pc nextPc : BitVec 64} {d : Decoded}
    {locals : Locals} (ran : executeOp host m pc nextPc d = .ok locals) :
    Outcome host m.hart pc nextPc d locals := by
  obtain ⟨op, rd, rs1, rs2, imm, csrAddr⟩ := d
  cases op with
  | nop | fence | fenceI | wfi | sfenceVma =>
    cases Except.ok.inj ran
    exact .next rfl rfl
  | jal =>
    cases Except.ok.inj ran
    exact .relative rfl rfl rfl
  | jalr =>
    cases Except.ok.inj ran
    exact .jalr rfl rfl rfl
  -- Branches and the direct jump are the relative operations.
  | beq | bne | blt | bge | bltu | bgeu => exact of_branch rfl ran
  | lb | lh | lw | ld | lbu | lhu | lwu => exact of_load ran
  | sb | sh | sw | sd | fsd => exact of_store ran
  | lrD | lrW => exact of_loadReserved ran
  | scD | amoAddD | amoSwapD | amoXorD | amoOrD | amoAndD | amoMinD | amoMaxD | amoMinuD
  | amoMaxuD | scW | amoAddW | amoSwapW | amoXorW | amoOrW | amoAndW | amoMinW | amoMaxW
  | amoMinuW | amoMaxuW => exact of_update ran
  | flw | fld => exact of_loadFp ran
  -- The conversion and the word shifts may be undefined, and then there is no result.
  | fsw =>
    obtain ⟨data, converted, stored⟩ := bind_eq_ok.mp ran
    exact of_store stored
  | fmvWX =>
    cases Except.ok.inj ran
    exact .next rfl rfl
  | sraiw | sraw =>
    obtain ⟨value, shifted, set⟩ := bind_eq_ok.mp ran
    exact of_setRd rfl rfl set
  -- A call raises its exception in any case.
  | ecall =>
    cases Except.ok.inj ran
    exact .except (.inl rfl) _ _ rfl
  | sret =>
    cases Except.ok.inj ran
    exact .sret rfl rfl
  | mret =>
    cases Except.ok.inj ran
    exact .mret rfl rfl
  -- Two operations stop the emulator.
  | uret | ebreak => simp [executeOp] at ran
  | csrrw | csrrwi | csrrs | csrrsi | csrrc | csrrci => exact of_csr rfl ran
  -- What is left computes a value from registers.
  | _ => exact of_setRd rfl rfl ran

/-- The tail of `execute` changes registers only, and goes on where the switch decided. -/
theorem writeBack_kept {locals : Locals} {rd : BitVec 5} {retPc : BitVec 64} {after : Machine}
    (written : locals.writeBack rd = .ok (retPc, after)) :
    retPc = locals.retPc ∧ after.bus = locals.m.bus ∧ after.hart.priv = locals.m.hart.priv ∧
      after.hart.csr = locals.m.hart.csr ∧ after.hart.pc = locals.m.hart.pc := by
  unfold Locals.writeBack at written
  split at written
  · -- The tail returns early after an exception.
    cases Except.ok.inj written
    exact ⟨rfl, rfl, rfl, rfl, rfl⟩
  · split at written
    · -- A floating-point result goes to the other register file.
      obtain ⟨data, converted, result⟩ := bind_eq_ok.mp written
      cases Except.ok.inj result
      exact ⟨rfl, rfl, rfl, rfl, rfl⟩
    · split at written
      · cases Except.ok.inj written
        exact ⟨rfl, rfl, rfl, rfl, rfl⟩
      · cases Except.ok.inj written
        exact ⟨rfl, rfl, rfl, rfl, rfl⟩

/-- Without an exception the tail of `execute` writes the integer result to the destination. -/
theorem writeBack_rd {locals : Locals} {rd : BitVec 5} (quiet : locals.hasExcept = false)
    (integer : locals.isFrd = false) :
    locals.writeBack rd = .ok (locals.retPc, { locals.m with
      hart := if rd ≠ 0 then locals.m.hart.setReg rd locals.rdVal else locals.m.hart }) := by
  unfold Locals.writeBack
  rw [quiet, integer]
  by_cases named : rd ≠ 0
  · rw [if_pos named, if_pos named]
    rfl
  · -- Register zero is never written.
    rw [if_neg named, if_neg named]
    rfl

/-! ### The interrupt check and the fetch -/

/-- The register in which taking an interrupt sets a pending bit. -/
def trapIp (mode : BitVec 2) : BitVec 12 := if mode = sMode then sip else mip

/-- The hart after an interrupt's pending bit is set, just before the trap is entered. -/
def Hart.setPending (hart : Hart) (type : IntrType) (mode : BitVec 2) : Hart :=
  hart.setCsr (trapIp mode) (hart.csr (trapIp mode) ||| intrBitFlag type mode)

/-- The enable register of the mode an interrupt goes to. -/
def trapIe (mode : BitVec 2) : BitVec 12 := if mode = sMode then sie else mie

/-- The status register of that mode. -/
def trapStatus (mode : BitVec 2) : BitVec 12 := if mode = sMode then sstatus else mstatus

/-- The place of that mode's global enable bit in its status register. -/
def trapEnablePos (mode : BitVec 2) : Nat := if mode = sMode then bitSiePos else bitMiePos

namespace Hart

/-- The bit of an interrupt class is set in the enable register of the mode it goes to. -/
def IrqEnabled (hart : Hart) (type : IntrType) : Prop :=
  hart.csr (trapIe (intrNextPriv hart type)) &&& intrBitFlag type (intrNextPriv hart type) ≠ 0

/-- The global enable bit of a mode is set. -/
def GlobalOn (hart : Hart) (mode : BitVec 2) : Prop :=
  bit (hart.csr (trapStatus mode)) (trapEnablePos mode) ≠ 0

instance (hart : Hart) (type : IntrType) : Decidable (hart.IrqEnabled type) :=
  inferInstanceAs (Decidable (_ ≠ _))

instance (hart : Hart) (mode : BitVec 2) : Decidable (hart.GlobalOn mode) :=
  inferInstanceAs (Decidable (_ ≠ _))

/-- The handler's address and the hart when an interrupt is taken. -/
def enterInterrupt (hart : Hart) (pc : BitVec 64) (type : IntrType) : BitVec 64 × Hart :=
  trapEnter (hart.setPending type (intrNextPriv hart type)) pc (intrNextPriv hart type)
    (intrCause type (intrNextPriv hart type)) 0

variable (hart : Hart) (pc : BitVec 64) (type : IntrType)

/-- The code takes an interrupt when both of its enable bits are set, whatever the mode. -/
theorem takeInterrupt_eq :
    hart.takeInterrupt pc type =
      if hart.GlobalOn (intrNextPriv hart type) ∧ hart.IrqEnabled type
      then hart.enterInterrupt pc type else (0, hart) := by
  -- The two targets test the bits of their own registers.
  rcases intrNextPriv_cases hart type with mode | mode
  · have bits : (bit (hart.csr sstatus) bitSiePos ≠ 0 ∧
        hart.csr sie &&& intrBitFlag type sMode ≠ 0) ↔
          hart.GlobalOn (intrNextPriv hart type) ∧ hart.IrqEnabled type := by
      rw [GlobalOn, IrqEnabled, mode]
      rfl
    dsimp only [takeInterrupt]
    rw [if_pos mode, if_congr bits rfl rfl, enterInterrupt, mode]
    rfl
  · have bits : (bit (hart.csr mstatus) bitMiePos ≠ 0 ∧
        hart.csr mie &&& intrBitFlag type mMode ≠ 0) ↔
          hart.GlobalOn (intrNextPriv hart type) ∧ hart.IrqEnabled type := by
      rw [GlobalOn, IrqEnabled, mode]
      rfl
    have machine : ¬ intrNextPriv hart type = sMode := by
      rw [mode]
      decide
    dsimp only [takeInterrupt]
    rw [if_neg machine, if_congr bits rfl rfl, enterInterrupt, mode]
    rfl

end Hart

/-- Finding the pending class changes the two controllers' registers and keeps the hart. -/
theorem pendingType_hart {m polled : Machine} {type : IntrType}
    (found : m.pendingType = .ok (type, polled)) : polled.hart = m.hart := by
  obtain ⟨⟨eid, plic⟩, interrupted, result⟩ := bind_eq_ok.mp found
  rw [← (Prod.mk.inj (Except.ok.inj result)).2]

/-- An interrupt is not taken, or it is taken to the mode that `intr_next_priv` gives. -/
theorem takeInterrupt_cases {hart after : Hart} {pc vector : BitVec 64} {type : IntrType}
    (taken : hart.takeInterrupt pc type = (vector, after)) :
    (vector = 0 ∧ after = hart) ∨
      trapEnter (hart.setPending type (intrNextPriv hart type)) pc (intrNextPriv hart type)
        (intrCause type (intrNextPriv hart type)) 0 = (vector, after) := by
  rw [Hart.takeInterrupt_eq] at taken
  split at taken
  · exact .inr taken
  · cases taken
    exact .inl ⟨rfl, rfl⟩

/-- The interrupt check keeps the hart, or enters a trap for a class that is pending. -/
theorem handleInterrupt_cases {m polled : Machine} {pc vector : BitVec 64}
    (handled : m.handleInterrupt pc = .ok (vector, polled)) :
    (vector = 0 ∧ polled.hart = m.hart) ∨
      ∃ type, type ≠ .none ∧
        trapEnter (m.hart.setPending type (intrNextPriv m.hart type)) pc
          (intrNextPriv m.hart type) (intrCause type (intrNextPriv m.hart type)) 0 =
            (vector, polled.hart) := by
  obtain ⟨⟨type, found⟩, pending, result⟩ := bind_eq_ok.mp handled
  have kept := pendingType_hart pending
  by_cases none : type = .none
  · -- With nothing pending the check returns at once.
    simp only [none, if_true, pure_eq_ok, Except.ok.injEq, Prod.mk.injEq] at result
    exact .inl ⟨result.1.symm, result.2 ▸ kept⟩
  · -- The class found is handed to the second half, which sees the same hart.
    simp only [none, if_false, pure_eq_ok, Except.ok.injEq, Prod.mk.injEq] at result
    obtain ⟨rfl, rfl⟩ := result
    have taken : found.hart.takeInterrupt pc type =
        ((found.hart.takeInterrupt pc type).1, (found.hart.takeInterrupt pc type).2) := rfl
    rw [kept] at taken
    rcases takeInterrupt_cases taken with ⟨zero, same⟩ | entered
    · exact .inl ⟨kept ▸ zero, kept ▸ same⟩
    · exact .inr ⟨type, none, kept ▸ entered⟩

/-- The fetch keeps the hart, or raises an instruction page fault. -/
theorem fetch_cases {host : Host} {m after : Machine} {vector : BitVec 64} {inst : BitVec 32}
    (fetched : m.fetch host = .ok (vector, inst, after)) :
    (vector = 0 ∧ after.hart = m.hart) ∨
      ∃ tval, raiseExcept m.hart m.hart.pc causeInstPageFault tval = (vector, after.hart) := by
  dsimp only [Machine.fetch] at fetched
  split at fetched
  · -- An instruction within its page has one translation.
    obtain ⟨⟨word, bus⟩, read, result⟩ := bind_eq_ok.mp fetched
    cases word with
    | none =>
      cases Except.ok.inj result
      exact .inr ⟨_, rfl⟩
    | some word =>
      cases Except.ok.inj result
      exact .inl ⟨rfl, rfl⟩
  · -- Either half may have no translation.
    obtain ⟨⟨lo, bus⟩, read, rest⟩ := bind_eq_ok.mp fetched
    cases lo with
    | none =>
      cases Except.ok.inj rest
      exact .inr ⟨_, rfl⟩
    | some lo =>
      obtain ⟨⟨hi, bus⟩, second, result⟩ := bind_eq_ok.mp rest
      cases hi with
      | none =>
        cases Except.ok.inj result
        exact .inr ⟨_, rfl⟩
      | some hi =>
        cases Except.ok.inj result
        exact .inl ⟨rfl, rfl⟩

/-! ### One turn of the loop -/

/-- The state and the instruction with which a turn reaches `execute`. -/
def Machine.Ready (host : Host) (m ready : Machine) (nextPc : BitVec 64) (d : Decoded) : Prop :=
  ∃ polled inst, m.handleInterrupt m.hart.pc = .ok (0, polled) ∧
    polled.fetch host = .ok (0, inst, ready) ∧ decode ready.hart.pc inst = .ok (nextPc, d)

/-- The three ways through the body of the main loop. -/
inductive Turn (host : Host) (m after : Machine) : Prop where
  /-- An interrupt was taken, and the turn ended in its handler. -/
  | interrupted (vector : BitVec 64) (trapped : Machine)
      (handled : m.handleInterrupt m.hart.pc = .ok (vector, trapped)) (nonzero : vector ≠ 0)
      (moved : after = trapped.setPc vector)
  /-- The instruction could not be fetched, and the turn ended in the handler of the fault. -/
  | faulted (polled : Machine) (handled : m.handleInterrupt m.hart.pc = .ok (0, polled))
      (vector : BitVec 64) (inst : BitVec 32) (trapped : Machine)
      (fetched : polled.fetch host = .ok (vector, inst, trapped)) (nonzero : vector ≠ 0)
      (moved : after = trapped.setPc vector)
  /-- An instruction was executed. -/
  | performed (ready : Machine) (nextPc : BitVec 64) (d : Decoded)
      (started : m.Ready host ready nextPc d) (locals : Locals) (ran : executeOp host ready ready.hart.pc nextPc d = .ok locals)
      (retPc : BitVec 64) (executed : Machine)
      (written : locals.writeBack d.rd = .ok (retPc, executed))
      (moved : after = executed.setPc retPc)

/-- Every turn of the loop takes one of the three ways. -/
theorem step_turn {host : Host} {m after : Machine} (stepped : m.step host = .ok after) :
    Turn host m after := by
  unfold Machine.step at stepped
  split at stepped
  · simp at stepped
  · -- Both checks tell by a zero vector that the turn goes on.
    obtain ⟨⟨vector, polled⟩, handled, rest⟩ := bind_eq_ok.mp stepped
    by_cases zero : vector = 0
    · subst zero
      obtain ⟨⟨vector, inst, ready⟩, fetched, rest⟩ := bind_eq_ok.mp rest
      by_cases zero : vector = 0
      · subst zero
        obtain ⟨⟨nextPc, d⟩, decoded, rest⟩ := bind_eq_ok.mp rest
        obtain ⟨⟨retPc, executed⟩, ran, moved⟩ := bind_eq_ok.mp rest
        obtain ⟨locals, switched, written⟩ := bind_eq_ok.mp ran
        exact .performed ready nextPc d ⟨polled, inst, handled, fetched, decoded⟩ locals switched
          retPc executed written (Except.ok.inj moved).symm
      · simp only [ne_eq, zero, not_false_eq_true, if_true, pure_eq_ok, Except.ok.injEq] at rest
        exact .faulted polled handled vector inst ready fetched zero rest.symm
    · simp only [ne_eq, zero, not_false_eq_true, if_true, pure_eq_ok, Except.ok.injEq] at rest
      exact .interrupted vector polled handled zero rest.symm

/-- A turn that reaches `execute` ends as that call does. -/
theorem Machine.Ready.step {host : Host} {m ready : Machine} {nextPc : BitVec 64} {d : Decoded}
    (started : m.Ready host ready nextPc d) (above : ¬ m.hart.pc < 0x1000) :
    m.step host = (do
      let (retPc, executed) ← execute host ready ready.hart.pc nextPc d
      return executed.setPc retPc) := by
  obtain ⟨polled, inst, handled, fetched, decoded⟩ := started
  rw [Machine.step, if_neg above]
  simp [handled, fetched, Machine.perform, decoded]

/-- A turn that found an interrupt's handler ends there. -/
theorem step_interrupted {host : Host} {m trapped : Machine} {vector : BitVec 64}
    (above : ¬ m.hart.pc < 0x1000)
    (handled : m.handleInterrupt m.hart.pc = .ok (vector, trapped)) (nonzero : vector ≠ 0) :
    m.step host = .ok (trapped.setPc vector) := by
  rw [Machine.step, if_neg above]
  simp only [handled, ok_bind, ne_eq, nonzero, not_false_eq_true, if_true, pure_eq_ok]

/-- A turn that found the handler of a fetch fault ends there. -/
theorem step_faulted {host : Host} {m polled trapped : Machine} {vector : BitVec 64}
    {inst : BitVec 32} (above : ¬ m.hart.pc < 0x1000)
    (handled : m.handleInterrupt m.hart.pc = .ok (0, polled))
    (fetched : polled.fetch host = .ok (vector, inst, trapped)) (nonzero : vector ≠ 0) :
    m.step host = .ok (trapped.setPc vector) := by
  rw [Machine.step, if_neg above]
  simp only [handled, fetched, ok_bind, ne_eq, nonzero, not_false_eq_true, not_true_eq_false,
    if_true, if_false, pure_eq_ok]

/-- A turn that completed did not start at an address below the ROM. -/
theorem step_above {host : Host} {m after : Machine} (stepped : m.step host = .ok after) :
    ¬ m.hart.pc < 0x1000 := by
  intro below
  rw [Machine.step, if_pos below] at stepped
  cases stepped

/-- What a completed turn that reached `execute` did there. -/
theorem Machine.Ready.ends {host : Host} {m ready after : Machine} {nextPc : BitVec 64}
    {d : Decoded} (started : m.Ready host ready nextPc d) (stepped : m.step host = .ok after) :
    ∃ locals retPc executed, executeOp host ready ready.hart.pc nextPc d = .ok locals ∧
      locals.writeBack d.rd = .ok (retPc, executed) ∧ after = executed.setPc retPc := by
  -- The turn is determined up to this call, so its result is that of the instruction.
  rw [started.step (step_above stepped)] at stepped
  obtain ⟨⟨retPc, executed⟩, ran, moved⟩ := bind_eq_ok.mp stepped
  obtain ⟨locals, switched, written⟩ := bind_eq_ok.mp ran
  exact ⟨locals, retPc, executed, switched, written, (Except.ok.inj moved).symm⟩

end Xemu
