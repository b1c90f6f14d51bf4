import Xemu.Machine.Program

/-! How a turn of the main loop changes the mode the hart runs in. -/

namespace Xemu

/--
The turn enters a trap whose handler is at address zero, which its caller takes for no trap.

The hart then goes on inside the trap with the instruction it was about to execute.
-/
def Machine.TrapsSilently (host : Host) (m : Machine) : Prop :=
  ∃ polled, m.handleInterrupt m.hart.pc = .ok (0, polled) ∧
    (polled.hart ≠ m.hart ∨
      ∃ inst ready, polled.fetch host = .ok (0, inst, ready) ∧ ready.hart ≠ polled.hart)

/-- The hart is in the handler of a trap that interrupted it where it was. -/
def Hart.Entered (before after : Hart) : Prop :=
  after.pc = before.csr (trapVector after.priv) ∧ after.csr (trapEpc after.priv) = before.pc

/-- After trap entry and the jump to the handler the hart is in that handler. -/
theorem trapEnter_entered {before hart after : Hart} {vector cause tval : BitVec 64}
    {mode : BitVec 2} (target : mode = sMode ∨ mode = mMode)
    (entered : trapEnter before before.pc mode cause tval = (vector, hart))
    (jumped : after.pc = vector) (priv : after.priv = hart.priv) (csr : after.csr = hart.csr) :
    before.Entered after := by
  have reached := trapEnter_priv before before.pc mode cause tval
  have handler := trapEnter_vector before before.pc mode cause tval
  have saved := trapEnter_epc before before.pc mode cause tval
  rw [entered] at reached handler saved
  -- The mode the hart is in now is the one whose registers the entry used.
  have now : after.priv = mode := by
    rw [priv, reached]
    rcases target with rfl | rfl <;> rfl
  exact ⟨by rw [jumped, now, ← handler], by rw [csr, now, ← saved]⟩

/-- No vector register is one of the two pending registers. -/
theorem trapVector_ne_trapIp (target mode : BitVec 2) : trapVector target ≠ trapIp mode := by
  unfold trapVector trapIp
  -- Both registers depend on a mode, and the four pairs are checked one by one.
  split <;> split <;> decide

/-- Setting a pending bit leaves the vectors alone. -/
theorem setPending_vector (hart : Hart) (type : IntrType) (mode target : BitVec 2) :
    (hart.setPending type mode).csr (trapVector target) = hart.csr (trapVector target) := by
  rw [Hart.setPending, Hart.setCsr_csr, Function.update_of_ne (trapVector_ne_trapIp target mode)]

/-- A trap entered with a pending bit just set is one entered from the hart without it. -/
theorem Hart.Entered.of_setPending {before after : Hart} {type : IntrType} {mode : BitVec 2}
    (entered : (before.setPending type mode).Entered after) : before.Entered after :=
  ⟨entered.1.trans (setPending_vector before type mode after.priv), entered.2⟩

/-- A turn that traps in no silent way executes its instruction in the hart's own state. -/
theorem Machine.Ready.hart {host : Host} {m ready : Machine} {nextPc : BitVec 64} {d : Decoded}
    (started : m.Ready host ready nextPc d) (quiet : ¬ m.TrapsSilently host) :
    ready.hart = m.hart := by
  obtain ⟨polled, inst, handled, fetched, decoded⟩ := started
  -- Either change on the way would have been a silent trap.
  have first : polled.hart = m.hart := by
    by_contra changed
    exact quiet ⟨polled, handled, .inl changed⟩
  have second : ready.hart = polled.hart := by
    by_contra changed
    exact quiet ⟨polled, handled, .inr ⟨inst, ready, fetched, changed⟩⟩
  exact second.trans first

/-- With a handler at a nonzero address for either mode no trap is entered silently. -/
theorem not_trapsSilently {host : Host} {m : Machine} (supervisor : m.hart.csr stvec ≠ 0)
    (machine : m.hart.csr mtvec ≠ 0) : ¬ m.TrapsSilently host := by
  -- A trap would have returned the content of one of the two registers.
  have nonzero : ∀ mode, m.hart.csr (trapVector mode) ≠ 0 := by
    intro mode
    unfold trapVector
    split
    · exact supervisor
    · exact machine
  rintro ⟨polled, handled, changed⟩
  have first : polled.hart = m.hart := by
    rcases handleInterrupt_cases handled with ⟨_, same⟩ | ⟨type, _, entered⟩
    · exact same
    · -- A taken interrupt returns the vector of its target, which is not zero.
      have vector := trapEnter_vector (m.hart.setPending type (intrNextPriv m.hart type))
        m.hart.pc (intrNextPriv m.hart type) (intrCause type (intrNextPriv m.hart type)) 0
      rw [entered, setPending_vector] at vector
      exact absurd vector.symm (nonzero _)
  rcases changed with changed | ⟨inst, ready, fetched, changed⟩
  · exact changed first
  · rcases fetch_cases fetched with ⟨_, same⟩ | ⟨tval, entered⟩
    · exact changed same
    · -- So does a fetch fault, of which the check has left the vectors alone.
      have vector := trapEnter_vector polled.hart polled.hart.pc
        (exceptNextPriv polled.hart causeInstPageFault) causeInstPageFault tval
      rw [← raiseExcept, entered, first] at vector
      exact nonzero _ vector.symm

/-- The two instructions that return from a trap, with the mode and address each returns to. -/
def Hart.ReturnsTo (hart : Hart) (op : Op) (mode : BitVec 2) (target : BitVec 64) : Prop :=
  (op = .sret ∧ mode = (if bit (hart.csr sstatus) bitSppPos ≠ 0 then sMode else uMode) ∧
      target = hart.csr sepc) ∨
    (op = .mret ∧ mode = (bits (hart.csr mstatus) 12 11).setWidth 2 ∧ target = hart.csr mepc)

/--
A turn that ends in a higher mode entered a trap or executed one of the two returns.

Neither return looks at the mode it is executed in, so the status word alone decides where it leads.
-/
theorem raised_by_trap_or_return {host : Host} {m after : Machine}
    (quiet : ¬ m.TrapsSilently host) (stepped : m.step host = .ok after)
    (raised : m.hart.priv < after.hart.priv) :
    m.hart.Entered after.hart ∨
      ∃ ready nextPc d, m.Ready host ready nextPc d ∧
        m.hart.ReturnsTo d.op after.hart.priv after.hart.pc := by
  cases step_turn stepped with
  | interrupted vector trapped handled nonzero moved =>
    -- The check returned an address, so it entered a trap.
    rcases handleInterrupt_cases handled with ⟨zero, _⟩ | ⟨type, _, entered⟩
    · exact absurd zero nonzero
    · subst moved
      have handler : (m.hart.setPending type (intrNextPriv m.hart type)).Entered
          (trapped.setPc vector).hart :=
        trapEnter_entered (intrNextPriv_cases _ _) entered rfl rfl rfl
      exact .inl handler.of_setPending
  | faulted polled handled vector inst trapped fetched nonzero moved =>
    -- The check was quiet, so the fault interrupted the hart where it was.
    have start : polled.hart = m.hart := by
      by_contra changed
      exact quiet ⟨polled, handled, .inl changed⟩
    rcases fetch_cases fetched with ⟨zero, _⟩ | ⟨tval, entered⟩
    · exact absurd zero nonzero
    · subst moved
      rw [start] at entered
      exact .inl (trapEnter_entered (exceptNextPriv_cases _ _) entered rfl rfl rfl)
  | performed ready nextPc d started locals ran retPc executed written moved =>
    have start := started.hart quiet
    obtain ⟨target, bus, priv, csr, pc⟩ := writeBack_kept written
    subst moved
    -- The tail writes registers alone, so a case that keeps the mode raised nothing.
    have unraised : executed.hart.priv ≠ m.hart.priv := fun same =>
      BitVec.lt_irrefl _ (same ▸ raised)
    cases executeOp_outcome ran with
    | next kept goesOn | relative op kept goesOn | jalr op kept goesOn =>
      exact absurd (by rw [priv, kept, start]) unraised
    | csr type op ret updated goesOn =>
      -- The update assigns a register and leaves the mode alone.
      rcases csrUpdate_cases updated with ⟨_, impossible, _⟩ | ⟨old, _, _, stored⟩
      · cases impossible
      · exact absurd (by rw [priv, stored, Hart.setCsr_priv, start]) unraised
    | except flag cause tval entered =>
      rw [start] at entered
      exact .inl (trapEnter_entered (exceptNextPriv_cases _ _) entered target priv csr)
    | sret op returned =>
      -- The mode and the address come out of the status and the kept address of the hart itself.
      rw [start] at returned
      have address := trapExitSret_target m.hart
      rw [returned] at address
      have mode : locals.m.hart.priv = (trapExitSret m.hart).2.priv := by rw [returned]
      exact .inr ⟨ready, nextPc, d, started, .inl ⟨op, priv.trans mode, target.trans address⟩⟩
    | mret op returned =>
      rw [start] at returned
      have address := trapExitMret_target m.hart
      rw [returned] at address
      have mode : locals.m.hart.priv = (trapExitMret m.hart).2.priv := by rw [returned]
      exact .inr ⟨ready, nextPc, d, started, .inr ⟨op, priv.trans mode, target.trans address⟩⟩

/-- Sets both vectors and drops to user mode, where it makes a call. -/
def callProgram : List (BitVec 32) :=
  [0x00000297, 0x01828293, 0x34129073, -- auipc t0, 0; addi t0, t0, 24; csrw mepc, t0
    0x30529073, 0x10529073, 0x30200073, 0x00000073] -- csrw mtvec, t0; csrw stvec, t0; mret; ecall

/-- The user program's call is a trap to machine mode. -/
theorem call_raises :
    ∃ m after, Machine.step {} m = .ok after ∧ m.hart.priv < after.hart.priv ∧
      (m.hart.Entered after.hart ∨
        ∃ ready nextPc d, m.Ready {} ready nextPc d ∧
          m.hart.ReturnsTo d.op after.hart.priv after.hart.pc) := by
  -- In the seventh turn the mode is raised with both vectors set.
  obtain ⟨m, after, ran, reached, stepped, tested⟩ :=
    reached_step_of_test callProgram 6
      (fun m after => m.hart.priv < after.hart.priv && m.hart.csr stvec != 0 &&
        m.hart.csr mtvec != 0) (by decide +kernel)
  simp only [Bool.and_eq_true, decide_eq_true_eq, bne_iff_ne] at tested
  obtain ⟨⟨raised, supervisor⟩, machine⟩ := tested
  exact ⟨m, after, stepped, raised,
    raised_by_trap_or_return (not_trapsSilently supervisor machine) stepped raised⟩

/-- Drops to user mode, sets the machine's previous mode to machine mode, and returns to it. -/
def climbProgram : List (BitVec 32) :=
  [0x00000297, 0x01028293, 0x34129073, 0x30200073, -- auipc t0, 0; addi t0, t0, 16; csrw mepc; mret
    0xfff00313, 0x30031073, 0x30200073] -- li t1, -1; csrw mstatus, t1; mret

/-- A user program that returns from a trap it never took reaches machine mode. -/
theorem user_reaches_machine :
    ¬ ∀ (host : Host) (m after : Machine), m.Reached → m.step host = .ok after →
      m.hart.priv < after.hart.priv → m.hart.Entered after.hart := by
  intro always
  -- In the seventh turn the mode is raised and the counter is not at a vector.
  obtain ⟨m, after, ran, reached, stepped, tested⟩ :=
    reached_step_of_test climbProgram 6
      (fun m after => m.hart.priv = uMode && after.hart.priv = mMode &&
        after.hart.pc != m.hart.csr (trapVector after.hart.priv)) (by decide +kernel)
  simp only [Bool.and_eq_true, decide_eq_true_eq, bne_iff_ne] at tested
  obtain ⟨⟨user, machine⟩, elsewhere⟩ := tested
  have raised : m.hart.priv < after.hart.priv := by rw [user, machine]; decide
  exact elsewhere (always {} m after reached stepped raised).1

end Xemu
