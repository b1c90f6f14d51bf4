import Xemu.Proofs.ControlRegisters
import Xemu.Proofs.Permission

/-! An instruction that faults changes nothing but the registers of its trap. -/

namespace Xemu

open PageWalk

/-- Every page-table entry that translating an address reads is in RAM. -/
def Machine.TablesInRam (host : Host) (m : Machine) (va : BitVec 64) : Prop :=
  m.Translated → ReadsWithin (Machine.readPte host) inRam va 3 m.rootTable m.bus

/-- A translation through tables in RAM leaves every device as it was. -/
theorem mmu_quiet {host : Host} {m : Machine} {va : BitVec 64} (tables : m.TablesInRam host va)
    {address : Option (BitVec 64)} {bus : Bus} (found : m.mmu host va = .ok (address, bus)) :
    bus = m.bus := by
  by_cases translated : m.Translated
  · rw [Machine.mmu_eq_walk translated] at found
    obtain ⟨⟨leaf, walked⟩, walk, result⟩ := bind_eq_ok.mp found
    cases Except.ok.inj result
    -- A read of RAM returns the devices it was given.
    exact findLeaf_quiet (fun _ _ _ _ inside read => (Bus.asReadNommu_ram_ok inside read).2.1)
      (tables translated) walk
  · rw [Machine.mmu_bare translated] at found
    cases Except.ok.inj found
    rfl

/-- A walk that ends at an entry of the root table in RAM makes no other read. -/
theorem tablesInRam_of_root {host : Host} {m : Machine} {va : BitVec 64}
    (inside : inRam (m.rootTable + (vpn va 2 <<< 3)))
    (ends : (Machine.readPte host m.bus (m.rootTable + (vpn va 2 <<< 3))).map
      (fun read => invalid read.1 || isLeaf read.1) = .ok true) : m.TablesInRam host va := by
  intro _
  refine ⟨inside, fun pte after read usable pointer => ?_⟩
  rw [read] at ends
  have last : (invalid pte || isLeaf pte) = true := Except.ok.inj ends
  rw [usable, pointer] at last
  cases last

/-! ### What a set exception flag means -/

/--
The exception flag was set by an access without a translation or by a rejected register.

Either way the hart is the one the exception was raised from, and is now in its handler.
-/
inductive Fault (host : Host) (m : Machine) (pc : BitVec 64) (d : Decoded) (locals : Locals) :
    Prop where
  /-- The address accessed has no translation, and only the translation was attempted. -/
  | page (addr : BitVec 64) (accesses : d.access m.hart = some addr)
      (missing : m.mmu host addr = .ok (none, locals.m.bus)) (cause : BitVec 64)
      (raised : raiseExcept m.hart pc cause addr = (locals.retPc, locals.m.hart))
  /-- The control register named is one that is rejected. -/
  | csr (op : d.op.csrOp.isSome) (kept : locals.m.bus = m.bus)
      (raised : raiseExcept m.hart pc causeIllegalInst 0 = (locals.retPc, locals.m.hart))

namespace Fault

variable {host : Host} {m : Machine} {pc nextPc addr rdVal : BitVec 64} {d : Decoded}
  {after : Locals}

/-- Only the machine and the address to go on at matter for a fault. -/
theorem congr {locals : Locals} (fault : Fault host m pc d locals) (machine : after.m = locals.m)
    (goesOn : after.retPc = locals.retPc) : Fault host m pc d after := by
  cases fault with
  | page addr accesses missing cause raised =>
    exact .page addr accesses (machine ▸ missing) cause (by rw [machine, goesOn, raised])
  | csr op kept raised => exact .csr op (machine ▸ kept) (by rw [machine, goesOn, raised])

/-- A read sets the flag only when its address has no translation. -/
theorem of_readMem (accesses : d.access m.hart = some addr) {size : Nat} {params : Params}
    {cause data : BitVec 64}
    (ran : ({ m, retPc := nextPc, rdVal } : Locals).readMem host pc addr size params cause =
      .ok (data, after)) (flag : after.hasExcept) : Fault host m pc d after := by
  obtain ⟨⟨read, bus⟩, accessed, result⟩ := bind_eq_ok.mp ran
  rcases Machine.asRead_inv accessed with ⟨rfl, found⟩ | ⟨pa, walked, value, rfl, _⟩
  · cases Except.ok.inj result
    exact .page addr accesses found cause rfl
  · -- With a translation the read returns a value, and the flag stays clear.
    cases Except.ok.inj result
    cases flag

/-- A write sets the flag only when its address has no translation. -/
theorem of_writeMem (accesses : d.access m.hart = some addr) {size : Nat} {params : Params}
    {data ret : BitVec 64}
    (ran : ({ m, retPc := nextPc, rdVal } : Locals).writeMem host pc addr size data params =
      .ok (ret, after)) (flag : after.hasExcept) : Fault host m pc d after := by
  obtain ⟨⟨written, bus⟩, accessed, result⟩ := bind_eq_ok.mp ran
  rcases Machine.asWrite_inv accessed with ⟨rfl, found⟩ | ⟨pa, walked, value, rfl, _⟩
  · cases Except.ok.inj result
    exact .page addr accesses found causeStorePageFault rfl
  · -- So does a write.
    cases Except.ok.inj result
    cases flag

/-- A control-register access sets the flag only when its register is rejected. -/
theorem of_csr {type : CsrOp} (op : d.op.csrOp = some type)
    (ran : ({ m, retPc := nextPc, rdVal } : Locals).csr host pc d.csrAddr (d.csrData m.hart) type =
      .ok after) (flag : after.hasExcept) : Fault host m pc d after := by
  obtain ⟨⟨ret, hart⟩, updated, result⟩ := bind_eq_ok.mp ran
  cases ret with
  | none =>
    -- The refused update has assigned nothing.
    have kept : hart = m.hart := by
      rcases csrUpdate_cases updated with ⟨_, _, same⟩ | ⟨old, _, impossible, _⟩
      · exact same
      · cases impossible
    subst kept
    cases Except.ok.inj result
    exact .csr (by rw [op]; rfl) rfl rfl
  | some ret =>
    cases Except.ok.inj result
    cases flag

end Fault

open Fault in
/-- Every instruction that ends with the exception flag set has one of the two faults. -/
theorem executeOp_fault {host : Host} {m : Machine} {pc nextPc : BitVec 64} {d : Decoded}
    {locals : Locals} (kind : (d.access m.hart).isSome ∨ d.op.csrOp.isSome)
    (ran : executeOp host m pc nextPc d = .ok locals) (flag : locals.hasExcept) :
    Fault host m pc d locals := by
  obtain ⟨op, rd, rs1, rs2, imm, csrAddr⟩ := d
  cases op with
  | lb | lh | lw | ld | lbu | lhu | lwu | lrD | lrW =>
    -- The cast of the value read leaves the flag as the read did.
    obtain ⟨⟨data, after⟩, read, result⟩ := bind_eq_ok.mp ran
    cases Except.ok.inj result
    exact congr (of_readMem rfl read flag) rfl rfl
  | flw | fld =>
    obtain ⟨⟨data, after⟩, read, result⟩ := bind_eq_ok.mp ran
    cases Except.ok.inj result
    exact congr (of_readMem rfl read flag) rfl rfl
  | sb | sh | sw | sd | fsd =>
    obtain ⟨⟨ret, after⟩, written, result⟩ := bind_eq_ok.mp ran
    cases Except.ok.inj result
    exact of_writeMem rfl written flag
  | fsw =>
    -- The operand is converted before the access.
    obtain ⟨data, converted, stored⟩ := bind_eq_ok.mp ran
    obtain ⟨⟨ret, after⟩, written, result⟩ := bind_eq_ok.mp stored
    cases Except.ok.inj result
    exact of_writeMem rfl written flag
  | scD | amoAddD | amoSwapD | amoXorD | amoOrD | amoAndD | amoMinD | amoMaxD | amoMinuD
  | amoMaxuD | scW | amoAddW | amoSwapW | amoXorW | amoOrW | amoAndW | amoMinW | amoMaxW
  | amoMinuW | amoMaxuW =>
    obtain ⟨⟨ret, after⟩, written, result⟩ := bind_eq_ok.mp ran
    cases Except.ok.inj result
    exact congr (of_writeMem rfl written flag) rfl rfl
  | csrrw | csrrwi | csrrs | csrrsi | csrrc | csrrci => exact of_csr rfl ran flag
  -- No other operation is of either kind.
  | _ => rcases kind with kind | kind <;> cases kind

/-! ### The result -/

/--
A memory or control-register instruction that faults has no effect but that of its trap.

The registers of the hart, the memories and the devices are as before, only the trap's own control registers are assigned, and the handler of its mode comes next.
-/
theorem fault_atomic {host : Host} {m : Machine} {pc nextPc : BitVec 64} {d : Decoded}
    {locals : Locals} (kind : (d.access m.hart).isSome ∨ d.op.csrOp.isSome)
    (tables : ∀ addr, d.access m.hart = some addr → m.TablesInRam host addr)
    (ran : executeOp host m pc nextPc d = .ok locals) (flag : locals.hasExcept) :
    ∃ after, execute host m pc nextPc d = .ok (m.hart.csr (trapVector after.hart.priv), after) ∧
      after.bus = m.bus ∧ after.hart.reg = m.hart.reg ∧ after.hart.freg = m.hart.freg ∧
      after.hart.pc = m.hart.pc ∧ (after.hart.priv = sMode ∨ after.hart.priv = mMode) ∧
      ∀ addr, addr ∉ trapCsrs after.hart.priv → after.hart.csr addr = m.hart.csr addr := by
  -- The tail of the function returns at once.
  have tail : execute host m pc nextPc d = .ok (locals.retPc, locals.m) := by
    rw [execute, ran, ok_bind, Locals.writeBack, if_pos flag]
  obtain ⟨cause, tval, raised, bus⟩ : ∃ cause tval,
      raiseExcept m.hart pc cause tval = (locals.retPc, locals.m.hart) ∧ locals.m.bus = m.bus := by
    cases executeOp_fault kind ran flag with
    | page addr accesses missing cause raised =>
      exact ⟨cause, addr, raised, mmu_quiet (tables addr accesses) missing⟩
    | csr op kept raised => exact ⟨causeIllegalInst, 0, raised, kept⟩
  -- Everything else is what trap entry does.
  have target := exceptNextPriv_cases m.hart cause
  have kept := trapEnter_kept m.hart pc (exceptNextPriv m.hart cause) cause tval
  rw [← raiseExcept, raised] at kept
  have mode := trapEnter_reaches target raised
  refine ⟨locals.m, ?_, bus, kept.2.1, kept.2.2, kept.1, mode ▸ target,
    fun addr other => trapEnter_leaves target raised other⟩
  rw [tail, trapEnter_handler target raised]

/-- A supervisor without a page table. -/
def unmappedMachine : Machine := pagedMachine []

/-- A store without a translation has no effect but that of its trap. -/
theorem fault_atomic_store :
    ∃ after, execute {} unmappedMachine 0x1000 0x1004 (storeWord 0x80002000) =
        .ok (unmappedMachine.hart.csr (trapVector after.hart.priv), after) ∧
      after.bus = unmappedMachine.bus := by
  have tested : (executeOp {} unmappedMachine 0x1000 0x1004 (storeWord 0x80002000)).map
      (fun locals => locals.hasExcept) = .ok true := by decide +kernel
  obtain ⟨locals, ran, flag⟩ := map_eq_ok.mp tested
  -- The first entry looked at is in RAM, and it points nowhere.
  have tables : unmappedMachine.TablesInRam {} 0x80002000 :=
    tablesInRam_of_root (by decide) (by decide +kernel)
  have accessed : ∀ addr, (storeWord 0x80002000).access unmappedMachine.hart = some addr →
      unmappedMachine.TablesInRam {} addr := by
    intro addr accesses
    cases Option.some.inj accesses
    exact tables
  obtain ⟨after, done, bus, _⟩ := fault_atomic (.inl rfl) accessed ran flag
  exact ⟨after, done, bus⟩

end Xemu
