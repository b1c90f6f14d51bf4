import Xemu.Proofs.Counter

/-! Which steps change which control register, and what an access to one of them depends on. -/

namespace Xemu

/-! ### Who writes a register -/

/-- The reasons for which a turn of the loop may change the content of a control register. -/
inductive Machine.WritesCsr (host : Host) (m : Machine) (addr : BitVec 12) : Prop where
  /-- An interrupt was taken to a mode one of whose registers this is. -/
  | interrupt (vector : BitVec 64) (polled : Machine)
      (handled : m.handleInterrupt m.hart.pc = .ok (vector, polled)) (taken : polled.hart ≠ m.hart)
      (named : addr = trapIp polled.hart.priv ∨ addr ∈ trapCsrs polled.hart.priv)
  /-- The fetch faulted into a mode one of whose registers this is. -/
  | fetchFault (polled : Machine) (handled : m.handleInterrupt m.hart.pc = .ok (0, polled))
      (vector : BitVec 64) (inst : BitVec 32) (trapped : Machine)
      (fetched : polled.fetch host = .ok (vector, inst, trapped))
      (taken : trapped.hart ≠ polled.hart) (named : addr ∈ trapCsrs trapped.hart.priv)
  /-- The instruction raised an exception into a mode one of whose registers this is. -/
  | except (ready : Machine) (nextPc : BitVec 64) (d : Decoded)
      (started : m.Ready host ready nextPc d) (locals : Locals)
      (ran : executeOp host ready ready.hart.pc nextPc d = .ok locals)
      (flag : d.op = .ecall ∨ locals.hasExcept) (named : addr ∈ trapCsrs locals.m.hart.priv)
  /-- The instruction names the register. -/
  | csr (ready : Machine) (nextPc : BitVec 64) (d : Decoded)
      (started : m.Ready host ready nextPc d) (op : d.op.csrOp.isSome) (named : d.csrAddr = addr)
  /-- The instruction is a return to the supervisor's caller, and this is its status. -/
  | sret (ready : Machine) (nextPc : BitVec 64) (d : Decoded)
      (started : m.Ready host ready nextPc d) (op : d.op = .sret) (named : addr = sstatus)
  /-- The instruction is a return to the machine's caller, and this is its status. -/
  | mret (ready : Machine) (nextPc : BitVec 64) (d : Decoded)
      (started : m.Ready host ready nextPc d) (op : d.op = .mret) (named : addr = mstatus)

/-- The mode after trap entry to one of the two modes is that mode. -/
theorem trapEnter_reaches {hart after : Hart} {pc vector cause tval : BitVec 64}
    {mode : BitVec 2} (target : mode = sMode ∨ mode = mMode)
    (entered : trapEnter hart pc mode cause tval = (vector, after)) : after.priv = mode := by
  have reached := trapEnter_priv hart pc mode cause tval
  rw [entered] at reached
  rw [reached]
  rcases target with rfl | rfl <;> rfl

/-- Trap entry leaves a register alone that is none of those of the mode it ends in. -/
theorem trapEnter_leaves {hart after : Hart} {pc vector cause tval : BitVec 64}
    {mode : BitVec 2} (target : mode = sMode ∨ mode = mMode)
    (entered : trapEnter hart pc mode cause tval = (vector, after)) {addr : BitVec 12}
    (other : addr ∉ trapCsrs after.priv) : after.csr addr = hart.csr addr := by
  rw [trapEnter_reaches target entered] at other
  have kept := trapEnter_csr hart pc mode cause tval other
  rwa [entered] at kept

/-- The interrupt check leaves a register alone unless it takes an interrupt that writes it. -/
theorem handleInterrupt_leaves {m polled : Machine} {pc vector : BitVec 64}
    (handled : m.handleInterrupt pc = .ok (vector, polled)) {addr : BitVec 12}
    (other : polled.hart ≠ m.hart →
      ¬ (addr = trapIp polled.hart.priv ∨ addr ∈ trapCsrs polled.hart.priv)) :
    polled.hart.csr addr = m.hart.csr addr := by
  -- If no interrupt was taken the hart is the same, registers included.
  by_cases taken : polled.hart = m.hart
  · rw [taken]
  · have unnamed := not_or.mp (other taken)
    rcases handleInterrupt_cases handled with ⟨_, same⟩ | ⟨type, _, entered⟩
    · exact absurd same taken
    · have mode := trapEnter_reaches (intrNextPriv_cases _ _) entered
      rw [trapEnter_leaves (intrNextPriv_cases _ _) entered unnamed.2]
      -- Before the entry only the pending bit was set.
      exact Function.update_of_ne (mode ▸ unnamed.1) _ _

/-- The fetch leaves a register alone unless it faults into a trap that writes it. -/
theorem fetch_leaves {host : Host} {m after : Machine} {vector : BitVec 64} {inst : BitVec 32}
    (fetched : m.fetch host = .ok (vector, inst, after)) {addr : BitVec 12}
    (other : after.hart ≠ m.hart → addr ∉ trapCsrs after.hart.priv) :
    after.hart.csr addr = m.hart.csr addr := by
  -- If the fetch did not fault the hart is the same, registers included.
  by_cases taken : after.hart = m.hart
  · rw [taken]
  · rcases fetch_cases fetched with ⟨_, same⟩ | ⟨tval, entered⟩
    · exact absurd same taken
    · exact trapEnter_leaves (exceptNextPriv_cases _ _) entered (other taken)

/-- A turn changes a control register only for one of the reasons listed. -/
theorem step_csr {host : Host} {m after : Machine} {addr : BitVec 12}
    (unwritten : ¬ m.WritesCsr host addr) (stepped : m.step host = .ok after) :
    after.hart.csr addr = m.hart.csr addr := by
  -- Up to the instruction only a trap can have written the register.
  have checked : ∀ {vector polled}, m.handleInterrupt m.hart.pc = .ok (vector, polled) →
      polled.hart.csr addr = m.hart.csr addr := fun handled =>
    handleInterrupt_leaves handled fun taken named =>
      unwritten (.interrupt _ _ handled taken named)
  have fetches : ∀ {polled vector inst trapped}, m.handleInterrupt m.hart.pc = .ok (0, polled) →
      polled.fetch host = .ok (vector, inst, trapped) →
      trapped.hart.csr addr = m.hart.csr addr := fun handled fetched =>
    (fetch_leaves fetched fun taken named =>
      unwritten (.fetchFault _ handled _ _ _ fetched taken named)).trans (checked handled)
  cases step_turn stepped with
  | interrupted vector trapped handled nonzero moved =>
    subst moved
    exact (checked handled : trapped.hart.csr addr = _)
  | faulted polled handled vector inst trapped fetched nonzero moved =>
    subst moved
    exact (fetches handled fetched : trapped.hart.csr addr = _)
  | performed ready nextPc d started locals ran retPc executed written moved =>
    subst moved
    have before : ready.hart.csr addr = m.hart.csr addr := by
      obtain ⟨polled, inst, handled, fetched, decoded⟩ := started
      exact fetches handled fetched
    -- The tail writes no control register, so the switch is what is left to look at.
    have csr : executed.hart.csr = locals.m.hart.csr := (writeBack_kept written).2.2.2.1
    suffices locals.m.hart.csr addr = ready.hart.csr addr from
      (congrFun csr addr).trans (this.trans before)
    cases executeOp_outcome ran with
    | next kept goesOn | relative op kept goesOn | jalr op kept goesOn => rw [kept]
    | csr type op ret updated goesOn =>
      rcases csrUpdate_cases updated with ⟨_, impossible, _⟩ | ⟨old, _, _, stored⟩
      · cases impossible
      · -- The instruction assigns the register it names, and that is another one.
        have named : addr ≠ d.csrAddr := fun same =>
          unwritten (.csr ready nextPc d started (by rw [op]; rfl) same.symm)
        rw [stored, Hart.setCsr_csr, Function.update_of_ne named]
    | except flag cause tval raised =>
      exact trapEnter_leaves (exceptNextPriv_cases _ _) raised fun named =>
        unwritten (.except ready nextPc d started locals ran flag named)
    | sret op returned =>
      -- The return assigns the status of its mode alone.
      have kept := trapExitSret_csr ready.hart fun named =>
        unwritten (.sret ready nextPc d started op named)
      rwa [returned] at kept
    | mret op returned =>
      have kept := trapExitMret_csr ready.hart fun named =>
        unwritten (.mret ready nextPc d started op named)
      rwa [returned] at kept

/-- The condition asked of an event: if it is a turn of the loop, it does not write the register. -/
def NoWriteAt (addr : BitVec 12) (event : Event) (m : Machine) : Prop :=
  match event with
  | .hart host => ¬ m.WritesCsr host addr
  | _ => True

/-- The threads of the devices leave the hart alone. -/
theorem next_device_hart {event : Event} {m after : Machine}
    (device : ∀ host, event ≠ .hart host) (stepped : Machine.next event m = .ok after) :
    after.hart = m.hart := by
  cases event with
  | hart host => exact absurd rfl (device host)
  -- Each of these changes a device and puts the hart back as it was.
  | timer host | blkTake =>
    cases Except.ok.inj stepped
    rfl
  | input byte =>
    obtain ⟨⟨uart, plic⟩, received, result⟩ := bind_eq_ok.mp stepped
    cases Except.ok.inj result
    rfl
  | blkServe host =>
    obtain ⟨bus, served, result⟩ := bind_eq_ok.mp stepped
    cases Except.ok.inj result
    rfl

/-- An event that does not write a control register leaves its content. -/
theorem next_csr {event : Event} {m after : Machine} {addr : BitVec 12}
    (unwritten : NoWriteAt addr event m) (stepped : Machine.next event m = .ok after) :
    after.hart.csr addr = m.hart.csr addr := by
  cases event with
  | hart host => exact step_csr unwritten stepped
  | timer _ | input _ | blkTake | blkServe _ =>
    rw [next_device_hart (fun _ => by simp) stepped]

/-- A register that no turn of a run writes has the same content after the run. -/
theorem run_csr {first final : Machine} {events : List Event} {addr : BitVec 12}
    (unwritten : Runs.Along Machine.next (NoWriteAt addr) first events)
    (ran : Runs.run Machine.next first events = .ok final) :
    final.hart.csr addr = first.hart.csr addr := by
  -- The invariant is that the register still has its first content.
  exact Runs.run_induction_along (fun m => m.hart.csr addr = first.hart.csr addr)
    (fun _ _ _ same asked stepped => (next_csr asked stepped).trans same) rfl unwritten ran

/-! ### What an access depends on -/

/-- The switch of `execute` treats the six instructions alike, up to operand and operation. -/
theorem executeOp_csr {host : Host} {m : Machine} {pc nextPc : BitVec 64} {d : Decoded}
    {type : CsrOp} (named : d.op.csrOp = some type) :
    executeOp host m pc nextPc d =
      ({ m, retPc := nextPc, rdVal := host.rdVal } : Locals).csr host pc d.csrAddr
        (d.csrData m.hart) type := by
  obtain ⟨op, rd, rs1, rs2, imm, csrAddr⟩ := d
  cases op with
  -- The operand is the register or the immediate, as the operation says.
  | csrrw | csrrs | csrrc | csrrwi | csrrsi | csrrci =>
    cases named
    rfl
  | _ => cases named

/-- The hart after the destination register is written, where register zero stays as it is. -/
def Hart.writeRd (hart : Hart) (rd : BitVec 5) (data : BitVec 64) : Hart :=
  if rd ≠ 0 then hart.setReg rd data else hart

/-- A write of a general register is none of a control register. -/
@[simp] theorem Hart.writeRd_csr (hart : Hart) (rd : BitVec 5) (data : BitVec 64) :
    (hart.writeRd rd data).csr = hart.csr := by
  unfold Hart.writeRd
  split <;> rfl

/-- The machine after a control-register instruction has updated its register and destination. -/
def Machine.csrDone (m : Machine) (d : Decoded) (type : CsrOp) (old : BitVec 64) : Machine :=
  let hart := m.hart.setCsr d.csrAddr (type.apply old (d.csrData m.hart))
  { m with hart := hart.writeRd d.rd old }

/-- An access to a rejected number raises an illegal-instruction exception and nothing else. -/
theorem execute_csr_rejected {host : Host} {m : Machine} {pc nextPc : BitVec 64} {d : Decoded}
    {type : CsrOp} (named : d.op.csrOp = some type) (rejected : rejectedCsr d.csrAddr) :
    execute host m pc nextPc d = .ok ((raiseExcept m.hart pc causeIllegalInst 0).1,
      { m with hart := (raiseExcept m.hart pc causeIllegalInst 0).2 }) := by
  -- The read reports the exception, so the update assigns nothing.
  have refused : csrUpdate host m.hart d.csrAddr (d.csrData m.hart) type =
      .ok (none, m.hart) := by
    simp [csrUpdate, csrRead_rejected rejected]
  rw [execute, executeOp_csr named, Locals.csr, refused]
  rfl

/-- An access to a number that reads completes, and neither of its results depends on the mode. -/
theorem execute_csr_readable {host : Host} {m : Machine} {pc nextPc : BitVec 64} {d : Decoded}
    {type : CsrOp} (named : d.op.csrOp = some type) {old : BitVec 64}
    (reads : csrRead host m.hart d.csrAddr = .ok (some old)) :
    execute host m pc nextPc d = .ok (nextPc, m.csrDone d type old) := by
  -- The read returns a value, and the register is assigned what the operation makes of it.
  have updated : csrUpdate host m.hart d.csrAddr (d.csrData m.hart) type =
      .ok (some old, m.hart.setCsr d.csrAddr (type.apply old (d.csrData m.hart))) := by
    simp [csrUpdate, reads]
  rw [execute, executeOp_csr named, Locals.csr, updated]
  simp only [ok_bind, Locals.setRd, Locals.writeBack, Machine.csrDone, Hart.writeRd,
    Bool.false_eq_true, if_false]
  split <;> rfl

/-- A turn whose instruction names a stored register leaves there what the instruction makes. -/
theorem step_csr_assigns {host : Host} {m after ready : Machine} {nextPc : BitVec 64}
    {d : Decoded} {type : CsrOp} {addr : BitVec 12} (stored : storedCsr addr)
    (started : m.Ready host ready nextPc d) (op : d.op.csrOp = some type)
    (names : d.csrAddr = addr) (stepped : m.step host = .ok after) :
    after.hart.csr addr = type.apply (ready.hart.csr addr) (d.csrData ready.hart) := by
  have reads : csrRead host ready.hart d.csrAddr = .ok (some (ready.hart.csr addr)) := by
    rw [names, csrRead_stored stored]
  rw [started.step (step_above stepped), execute_csr_readable op reads] at stepped
  cases Except.ok.inj stepped
  -- The destination is a general register, and the word is the one the instruction assigns.
  change ((ready.hart.setCsr d.csrAddr _).writeRd d.rd _).csr addr = _
  rw [Hart.writeRd_csr, names, Hart.setCsr_csr, Function.update_self]

/-- An access to any other number stops the emulator. -/
theorem execute_csr_missing {host : Host} {m : Machine} {pc nextPc : BitVec 64} {d : Decoded}
    {type : CsrOp} (named : d.op.csrOp = some type) (stored : storedCsr d.csrAddr = false)
    (computed : computedCsr d.csrAddr = false) (rejected : rejectedCsr d.csrAddr = false) :
    execute host m pc nextPc d = .error (.panic "_read: bad addr 0x%x\n") := by
  rw [execute, executeOp_csr named, Locals.csr, csrUpdate,
    csrRead_missing stored computed rejected]
  rfl

/-- The identification registers. -/
def identCsrs : List (BitVec 12) := [mvendorid, marchid, mimpid, mhartid]

/-- A turn of the loop executes a control-register instruction that names a register. -/
def Machine.Names (host : Host) (m : Machine) (addr : BitVec 12) : Prop :=
  ∃ ready nextPc d, m.Ready host ready nextPc d ∧ d.op.csrOp.isSome ∧ d.csrAddr = addr

/-- The condition asked of an event: if it is a turn of the loop, it does not name the register. -/
def NotNamedAt (addr : BitVec 12) (event : Event) (m : Machine) : Prop :=
  match event with
  | .hart host => ¬ m.Names host addr
  | _ => True

/-- A test that the next instruction names another register or none. -/
def unnamedTest (addr : BitVec 12) (m : Machine) : Bool :=
  (m.findReady {}).toOption.join.all fun found =>
    !found.2.2.op.csrOp.isSome || found.2.2.csrAddr ≠ addr

/-- Turns that pass the test do not name the register. -/
theorem notNamed_of_test {addr : BitVec 12} {count : Nat} {m : Machine}
    (tested : testTurns (unnamedTest addr) count m) :
    Runs.Along Machine.next (NotNamedAt addr) m (turns count) := by
  refine along_of_test (unnamedTest addr) (fun m passed => ?_) tested
  rintro ⟨ready, nextPc, d, started, named, same⟩
  have other := started.passes passed
  simp [named, same] at other

/-- A trap assigns no identification register. -/
theorem ident_not_trap {addr : BitVec 12} (ident : addr ∈ identCsrs) (mode : BitVec 2) :
    addr ≠ trapIp mode ∧ addr ∉ trapCsrs mode ∧ addr ≠ sstatus ∧ addr ≠ mstatus := by
  simp only [identCsrs, List.mem_cons, List.not_mem_nil, or_false] at ident
  unfold trapIp trapCsrs
  -- Four registers against the two modes.
  rcases ident with rfl | rfl | rfl | rfl
  all_goals split <;> decide

/-- An instruction that names a register is the only thing that writes it, unless traps do. -/
theorem noWrite_of_notNamed {addr : BitVec 12}
    (other : ∀ mode, addr ≠ trapIp mode ∧ addr ∉ trapCsrs mode ∧ addr ≠ sstatus ∧ addr ≠ mstatus)
    {event : Event} {m : Machine} (unnamed : NotNamedAt addr event m) : NoWriteAt addr event m := by
  cases event with
  | hart host =>
    intro writes
    -- Five of the six reasons name other registers.
    cases writes with
    | interrupt vector polled handled taken named =>
      rcases named with named | named
      · exact (other _).1 named
      · exact (other _).2.1 named
    | fetchFault polled handled vector inst trapped fetched taken named =>
      exact (other _).2.1 named
    | except ready nextPc d started locals ran flag named => exact (other _).2.1 named
    | csr ready nextPc d started op named => exact unnamed ⟨ready, nextPc, d, started, op, named⟩
    | sret ready nextPc d started op named => exact (other uMode).2.2.1 named
    | mret ready nextPc d started op named => exact (other uMode).2.2.2 named
  | timer _ | input _ | blkTake | blkServe _ => trivial

/--
The number alone decides what a control-register instruction does, in every mode.

A rejected number raises an exception that leaves all but the registers of trap entry, a number that reads completes, and any other number stops the emulator.
An identification register keeps its content until an instruction names it.
-/
theorem csr_gated_by_number :
    (∀ host (m : Machine) pc nextPc (d : Decoded) type, d.op.csrOp = some type →
      (rejectedCsr d.csrAddr →
        execute host m pc nextPc d = .ok ((raiseExcept m.hart pc causeIllegalInst 0).1,
          { m with hart := (raiseExcept m.hart pc causeIllegalInst 0).2 }) ∧
        (raiseExcept m.hart pc causeIllegalInst 0).2.reg = m.hart.reg ∧
        (raiseExcept m.hart pc causeIllegalInst 0).2.freg = m.hart.freg ∧
        ∀ addr, addr ∉ trapCsrs (exceptNextPriv m.hart causeIllegalInst) →
          (raiseExcept m.hart pc causeIllegalInst 0).2.csr addr = m.hart.csr addr) ∧
      (storedCsr d.csrAddr ∨ computedCsr d.csrAddr → ∃ old,
        (∀ mode, csrRead host (m.hart.switchTo mode) d.csrAddr = .ok (some old)) ∧
        execute host m pc nextPc d = .ok (nextPc, m.csrDone d type old)) ∧
      (rejectedCsr d.csrAddr = false → storedCsr d.csrAddr = false →
        computedCsr d.csrAddr = false →
        execute host m pc nextPc d = .error (.panic "_read: bad addr 0x%x\n"))) ∧
    (∀ addr ∈ identCsrs, ∀ first final events,
      Runs.Along Machine.next (NotNamedAt addr) first events →
      Runs.run Machine.next first events = .ok final →
      final.hart.csr addr = first.hart.csr addr) := by
  refine ⟨fun host m pc nextPc d type named => ⟨fun rejected => ?_, fun readable => ?_, ?_⟩, ?_⟩
  · have kept := trapEnter_kept m.hart pc (exceptNextPriv m.hart causeIllegalInst)
      causeIllegalInst 0
    exact ⟨execute_csr_rejected named rejected, kept.2.1, kept.2.2,
      fun addr other => trapEnter_csr m.hart pc _ causeIllegalInst 0 other⟩
  · have reads : ∃ old, csrRead host m.hart d.csrAddr = .ok (some old) := by
      rcases readable with stored | computed
      · exact ⟨_, csrRead_stored stored host m.hart⟩
      · exact csrRead_computed computed host m.hart
    obtain ⟨old, read⟩ := reads
    -- Reading looks at the array and the host only, so the mode may be any other.
    exact ⟨old, fun mode => read, execute_csr_readable named read⟩
  · intro rejected stored computed
    exact execute_csr_missing named stored computed rejected
  · intro addr ident first final events unnamed ran
    exact run_csr (unnamed.mono fun event m => noWrite_of_notNamed (ident_not_trap ident)) ran

/-- A hart in user mode about to write the machine's scratch register. -/
def userScratch : Machine × Decoded :=
  ({ Machine.boot [] with hart := (Machine.boot []).hart.switchTo uMode },
    { op := .csrrw, rd := 1, rs1 := 2, rs2 := 0, imm := 0, csrAddr := mscratch })

/-- Drops to user mode and writes the machine's scratch register there. -/
def scratchProgram : List (BitVec 32) :=
  [0x00000297, 0x01028293, 0x34129073, 0x30200073, -- auipc t0, 0; addi t0, t0, 16; csrw mepc; mret
    0x34029073] -- csrw mscratch, t0

/-- In user mode the machine's scratch register is written like any other, and its number stays. -/
theorem csr_gated_scratch :
    (∃ old, execute {} userScratch.1 0x1000 0x1004 userScratch.2 =
      .ok (0x1004, userScratch.1.csrDone userScratch.2 .write old)) ∧
    ∃ final, Runs.run Machine.next (Machine.boot scratchProgram) (turns 5) = .ok final ∧
      final.hart.csr mhartid = (Machine.boot scratchProgram).hart.csr mhartid := by
  obtain ⟨old, _, done⟩ := (csr_gated_by_number.1 {} userScratch.1 0x1000 0x1004 userScratch.2
    .write rfl).2.1 (.inl rfl)
  -- No instruction of the program names the register of the hart's number.
  obtain ⟨final, ran, -⟩ := @ok_of_test _
    (Runs.run Machine.next (Machine.boot scratchProgram) (turns 5)) (fun _ => true)
    (by decide +kernel)
  have unnamed : Runs.Along Machine.next (NotNamedAt mhartid) (Machine.boot scratchProgram) (turns 5) :=
    notNamed_of_test (by decide +kernel)
  exact ⟨⟨old, done⟩, final, ran,
    csr_gated_by_number.2 mhartid (by decide) _ final (turns 5) unnamed ran⟩

/-- A user program changes a machine register, and stays in user mode. -/
theorem user_writes_machine_csr :
    ¬ ∀ (host : Host) (m after : Machine), m.Reached → m.step host = .ok after →
      m.hart.priv = uMode → after.hart.priv = uMode →
      after.hart.csr mscratch = m.hart.csr mscratch := by
  intro always
  -- The last instruction of the program is executed in user mode and writes the register.
  obtain ⟨m, after, ran, reached, stepped, tested⟩ :=
    reached_step_of_test scratchProgram 4 (fun m after => m.hart.priv = uMode &&
      after.hart.priv = uMode && after.hart.csr mscratch != m.hart.csr mscratch) (by decide +kernel)
  simp only [Bool.and_eq_true, decide_eq_true_eq, bne_iff_ne] at tested
  obtain ⟨⟨before, now⟩, changed⟩ := tested
  exact changed (always {} m after reached stepped before now)

/-! ### The two copies of the supervisor's registers -/

/-- The supervisor's status registers and the machine registers they are views of by architecture. -/
def viewCsrs : List (BitVec 12) := [sstatus, mstatus, sie, mie, sip, mip]

/-- Each of these registers is an element of the array. -/
theorem viewCsrs_stored {addr : BitVec 12} (view : addr ∈ viewCsrs) : storedCsr addr := by
  have all : viewCsrs.all storedCsr = true := by decide
  exact List.all_eq_true.mp all addr view

/--
The supervisor's and the machine's registers are independent words.

Each name reads its own word, an instruction on one name changes that word alone, and in a run a word keeps its content until an instruction names it, a trap or interrupt goes to its mode, or its mode's return is executed.
-/
theorem status_words_independent :
    (∀ addr ∈ viewCsrs, ∀ host hart data type, ∃ after,
      csrUpdate host hart addr data type = .ok (some (hart.csr addr), after) ∧
      csrRead host after addr = .ok (some (type.apply (hart.csr addr) data)) ∧
      ∀ other ∈ viewCsrs, other ≠ addr →
        csrRead host after other = csrRead host hart other) ∧
    (∀ addr ∈ viewCsrs, ∀ first final events host,
      Runs.Along Machine.next (NoWriteAt addr) first events →
      Runs.run Machine.next first events = .ok final →
      csrRead host final.hart addr = csrRead host first.hart addr) := by
  refine ⟨fun addr view host hart data type => ?_, fun addr view first final events host
    unwritten ran => ?_⟩
  · -- The six registers are elements of the array, so reading and writing them is indexing.
    have stored := viewCsrs_stored view
    refine ⟨hart.setCsr addr (type.apply (hart.csr addr) data), ?_, ?_, ?_⟩
    · simp [csrUpdate, csrRead_stored stored]
    · rw [csrRead_stored stored, Hart.setCsr_csr, Function.update_self]
    · intro other view distinct
      rw [csrRead_stored (viewCsrs_stored view), csrRead_stored (viewCsrs_stored view),
        Hart.setCsr_csr, Function.update_of_ne distinct]
  · -- In a run the element stays as long as no turn writes it.
    rw [csrRead_stored (viewCsrs_stored view), csrRead_stored (viewCsrs_stored view),
      run_csr unwritten ran]

/-- Enables the machine's software interrupt. -/
def enableProgram : List (BitVec 32) := [0x30445073, 0x00000013] -- csrwi mie, 8; nop

/-- The supervisor's enable register stays while the machine's is written. -/
theorem status_words_independent_enable :
    ∃ final, Runs.run Machine.next (Machine.boot enableProgram) (turns 2) = .ok final ∧
      final.hart.csr mie = 8 ∧
      csrRead {} final.hart sie = csrRead {} (Machine.boot enableProgram).hart sie := by
  obtain ⟨final, ran, written⟩ := @ok_of_test _
    (Runs.run Machine.next (Machine.boot enableProgram) (turns 2))
    (fun final => final.hart.csr mie = 8) (by decide +kernel)
  -- Traps assign neither of the two, and the program names the machine's alone.
  have unwritten : Runs.Along Machine.next (NoWriteAt sie) (Machine.boot enableProgram) (turns 2) :=
    (notNamed_of_test (by decide +kernel)).mono fun _ _ =>
      noWrite_of_notNamed fun mode => by unfold trapIp trapCsrs; split <;> decide
  exact ⟨final, ran, of_decide_eq_true written,
    status_words_independent.2 sie (by decide) _ final (turns 2) {} unwritten ran⟩

/-- Sets the supervisor's interrupt enable through the machine's status register. -/
def statusProgram : List (BitVec 32) := [0x30015073] -- csrwi mstatus, 2

/-- The supervisor's status register does not show what was written through the machine's. -/
theorem sstatus_is_no_view :
    ¬ ∀ m : Machine, m.Reached →
      bit (m.hart.csr sstatus) bitSiePos = bit (m.hart.csr mstatus) bitSiePos := by
  intro always
  -- The program writes the enable bit through the register of machine mode.
  obtain ⟨m, after, ran, reached, stepped, tested⟩ :=
    reached_step_of_test statusProgram 0 (fun _ after =>
      bit (after.hart.csr sstatus) bitSiePos != bit (after.hart.csr mstatus) bitSiePos)
      (by decide +kernel)
  have turned : Machine.next (.hart {}) m = .ok after := stepped
  rw [bne_iff_ne] at tested
  exact tested (always after (Runs.Reachable.step reached turned))

end Xemu
