import Xemu.Proofs.ControlRegisters

/-! The modes the hart is in, and those its traps go to, in runs that never return to mode two. -/

namespace Xemu

/-- The hart is in one of the three modes there are. -/
def Hart.InMode (hart : Hart) : Prop :=
  hart.priv = uMode ∨ hart.priv = sMode ∨ hart.priv = mMode

/-- Two bits leave one value besides the three modes. -/
theorem inMode_iff {hart : Hart} : hart.InMode ↔ hart.priv ≠ 2 := by
  have values : ∀ priv : BitVec 2, (priv = uMode ∨ priv = sMode ∨ priv = mMode) ↔ priv ≠ 2 := by
    decide
  exact values hart.priv

/-- No trap of a turn goes to a mode below the one it interrupts. -/
structure Machine.TrapsUp (host : Host) (m : Machine) : Prop where
  /-- An interrupt, if the check takes one. -/
  interrupt : ∀ vector polled, m.handleInterrupt m.hart.pc = .ok (vector, polled) →
    m.hart.priv ≤ polled.hart.priv
  /-- A fault of the fetch, if there is one. -/
  fetch : ∀ polled vector inst after, m.handleInterrupt m.hart.pc = .ok (0, polled) →
    polled.fetch host = .ok (vector, inst, after) → polled.hart.priv ≤ after.hart.priv
  /-- An exception of the instruction. -/
  execute : ∀ ready nextPc d locals cause tval, m.Ready host ready nextPc d →
    executeOp host ready ready.hart.pc nextPc d = .ok locals →
    raiseExcept ready.hart ready.hart.pc cause tval = (locals.retPc, locals.m.hart) →
    ready.hart.priv ≤ locals.m.hart.priv

/-- The condition asked of an event: a return to the machine's caller finds one of the three modes. -/
def NoReservedReturn (event : Event) (m : Machine) : Prop :=
  match event with
  | .hart host => ∀ ready nextPc d, m.Ready host ready nextPc d → d.op = .mret →
    bits (ready.hart.csr mstatus) 12 11 ≠ 2
  | _ => True

/-! ### One trap -/

/-- Delegation never lowers the mode of a hart in one of the three modes. -/
theorem le_delegated {hart : Hart} (ordinary : hart.InMode) (delegated : Prop)
    [Decidable delegated] :
    hart.priv ≤ (if hart.priv ≠ mMode ∧ delegated then sMode else mMode) := by
  -- Below machine mode the supervisor is the highest mode, and machine mode is the highest of all.
  split
  · rename_i below
    rcases ordinary with user | supervisor | machine
    · rw [user]
      decide
    · rw [supervisor]
      decide
    · exact absurd machine below.1
  · have all : ∀ priv : BitVec 2, priv ≤ mMode := by decide
    exact all hart.priv

/-- Trap entry to one of the two modes traps go to leaves the hart in one of the three. -/
theorem trapEnter_inMode {hart after : Hart} {pc vector cause tval : BitVec 64} {mode : BitVec 2}
    (target : mode = sMode ∨ mode = mMode)
    (entered : trapEnter hart pc mode cause tval = (vector, after)) : after.InMode := by
  rw [Hart.InMode, trapEnter_reaches target entered]
  exact .inr target

/-- An exception goes up from any of the three modes, into one of them. -/
theorem raiseExcept_up {hart after : Hart} {pc vector cause tval : BitVec 64}
    (ordinary : hart.InMode) (raised : raiseExcept hart pc cause tval = (vector, after)) :
    hart.priv ≤ after.priv := by
  rw [trapEnter_reaches (exceptNextPriv_cases hart cause) raised]
  exact le_delegated ordinary _

/-- The interrupt check goes up from any of the three modes, into one of them. -/
theorem handleInterrupt_up {m polled : Machine} {pc vector : BitVec 64} (ordinary : m.hart.InMode)
    (handled : m.handleInterrupt pc = .ok (vector, polled)) :
    m.hart.priv ≤ polled.hart.priv ∧ polled.hart.InMode := by
  rcases handleInterrupt_cases handled with ⟨_, same⟩ | ⟨type, _, entered⟩
  · rw [same]
    exact ⟨BitVec.le_refl _, ordinary⟩
  · refine ⟨?_, trapEnter_inMode (intrNextPriv_cases _ _) entered⟩
    rw [trapEnter_reaches (intrNextPriv_cases _ _) entered]
    exact le_delegated ordinary _

/-- The fetch goes up from any of the three modes, into one of them. -/
theorem fetch_up {host : Host} {m after : Machine} {vector : BitVec 64} {inst : BitVec 32}
    (ordinary : m.hart.InMode) (fetched : m.fetch host = .ok (vector, inst, after)) :
    m.hart.priv ≤ after.hart.priv ∧ after.hart.InMode := by
  rcases fetch_cases fetched with ⟨_, same⟩ | ⟨tval, raised⟩
  · rw [same]
    exact ⟨BitVec.le_refl _, ordinary⟩
  · exact ⟨raiseExcept_up ordinary raised, trapEnter_inMode (exceptNextPriv_cases _ _) raised⟩

/-- A turn that reaches `execute` from one of the three modes gets there in one of them. -/
theorem Machine.Ready.inMode {host : Host} {m ready : Machine} {nextPc : BitVec 64} {d : Decoded}
    (started : m.Ready host ready nextPc d) (ordinary : m.hart.InMode) : ready.hart.InMode := by
  obtain ⟨polled, inst, handled, fetched, decoded⟩ := started
  exact (fetch_up (handleInterrupt_up ordinary handled).2 fetched).2

/-- In one of the three modes every trap goes up. -/
theorem Hart.InMode.trapsUp {m : Machine} (ordinary : m.hart.InMode) (host : Host) :
    m.TrapsUp host where
  interrupt _ _ handled := (handleInterrupt_up ordinary handled).1
  fetch _ _ _ _ handled fetched := (fetch_up (handleInterrupt_up ordinary handled).2 fetched).1
  execute _ _ _ _ _ _ started _ raised := raiseExcept_up (started.inMode ordinary) raised

/-! ### Turns and runs -/

/-- A return to the supervisor's caller goes to user or supervisor mode. -/
theorem trapExitSret_inMode (hart : Hart) : (trapExitSret hart).2.InMode := by
  have mode : (trapExitSret hart).2.priv =
      if bit (hart.csr sstatus) bitSppPos ≠ 0 then sMode else uMode := rfl
  rw [Hart.InMode, mode]
  split
  · exact .inr (.inl rfl)
  · exact .inl rfl

/-- A return to the machine's caller goes to one of the three modes when that is what it finds. -/
theorem trapExitMret_inMode {hart : Hart} (found : bits (hart.csr mstatus) 12 11 ≠ 2) :
    (trapExitMret hart).2.InMode := by
  refine inMode_iff.mpr fun reserved => found ?_
  -- The field has two bits, so cutting it down to the width of a mode loses nothing.
  have narrow : ∀ field : BitVec 2,
      (field.setWidth 64).setWidth 2 = 2#2 → field.setWidth 64 = 2#64 := by decide
  exact narrow ((hart.csr mstatus).extractLsb 12 11) reserved

/-- A turn that returns to no reserved mode ends in one of the three it started in. -/
theorem step_inMode {host : Host} {m after : Machine} (ordinary : m.hart.InMode)
    (unreserved : NoReservedReturn (.hart host) m) (stepped : m.step host = .ok after) :
    after.hart.InMode := by
  cases step_turn stepped with
  | interrupted vector trapped handled nonzero moved =>
    rw [moved]
    exact (handleInterrupt_up ordinary handled).2
  | faulted polled handled vector inst trapped fetched nonzero moved =>
    rw [moved]
    exact (fetch_up (handleInterrupt_up ordinary handled).2 fetched).2
  | performed ready nextPc d started locals ran retPc executed written moved =>
    -- The tail of the instruction leaves the mode alone.
    have before := started.inMode ordinary
    have priv := (writeBack_kept written).2.2.1
    suffices locals.m.hart.InMode by
      rw [moved, Hart.InMode]
      change executed.hart.priv = _ ∨ executed.hart.priv = _ ∨ executed.hart.priv = _
      rw [priv]
      exact this
    cases executeOp_outcome ran with
    | next kept goesOn | relative op kept goesOn | jalr op kept goesOn => rwa [kept]
    | csr type op ret updated goesOn =>
      rcases csrUpdate_cases updated with ⟨_, impossible, _⟩ | ⟨old, _, _, stored⟩
      · cases impossible
      · rw [stored]
        exact before
    | except flag cause tval raised => exact trapEnter_inMode (exceptNextPriv_cases _ _) raised
    | sret op returned =>
      have target := trapExitSret_inMode ready.hart
      rwa [returned] at target
    | mret op returned =>
      -- The field is what the condition asks about.
      have target := trapExitMret_inMode (unreserved ready nextPc d started op)
      rwa [returned] at target

/--
In a run from reset that never returns to the reserved mode the hart is always in one of the three modes.

Every trap the next turn may take then goes to a mode at least as high.
-/
theorem modes_ordinary {first final : Machine} {events : List Event} (start : first.IsReset)
    (unreserved : Runs.Along Machine.next NoReservedReturn first events)
    (ran : Runs.run Machine.next first events = .ok final) :
    final.hart.InMode ∧ ∀ host, final.TrapsUp host := by
  obtain ⟨rom, flash, disk, rfl⟩ := start
  have ordinary : final.hart.InMode := by
    refine Runs.run_induction_along (fun m : Machine => m.hart.InMode)
      (fun event m after before asked stepped => ?_) (.inr (.inr rfl)) unreserved ran
    cases event with
    | hart host => exact step_inMode before asked stepped
    -- The threads of the devices do not touch the hart.
    | timer _ | input _ | blkTake | blkServe _ =>
      rwa [next_device_hart (fun _ => by simp) stepped]
  exact ⟨ordinary, fun host => ordinary.trapsUp host⟩

/-- Drops to user mode and makes a call there. -/
def dropProgram : List (BitVec 32) :=
  [0x00000297, 0x01028293, 0x34129073, 0x30200073, -- auipc t0, 0; addi t0, t0, 16; csrw mepc; mret
    0x00000073] -- ecall

/-- In the user mode that program drops to every trap goes up. -/
theorem modes_ordinary_drop :
    ∃ m : Machine, m.hart.priv = uMode ∧ m.hart.InMode ∧ ∀ host, m.TrapsUp host := by
  obtain ⟨m, after, ran, reached, stepped, user⟩ :=
    reached_step_of_test dropProgram 4 (fun m _ => m.hart.priv = uMode) (by decide +kernel)
  -- The one return among the four turns finds user mode in the field.
  have unreserved : Runs.Along Machine.next NoReservedReturn (Machine.boot dropProgram) (turns 4) := by
    refine along_of_test (fun m => (m.findReady {}).toOption.join.all fun found =>
      found.2.2.op ≠ .mret || bits (found.1.hart.csr mstatus) 12 11 ≠ 2) ?_ (by decide +kernel)
    intro m tested ready nextPc d started returns
    simpa [returns] using started.passes tested
  exact ⟨m, of_decide_eq_true user, modes_ordinary ⟨_, _, _, rfl⟩ unreserved ran⟩

/-- Delegates all exceptions, returns to the mode numbered two, and makes a call there. -/
def reservedModeProgram : List (BitVec 32) :=
  [0xfff00313, 0x30231073, -- li t1, -1; csrw medeleg, t1
    0x00001337, 0x30031073, -- lui t1, 1; csrw mstatus, t1
    0x00000297, 0x01028293, 0x34129073, 0x30200073, -- auipc t0, 0; addi t0, t0, 16; csrw mepc; mret
    0x00000073] -- ecall

/-- A return with the reserved mode in the field reaches it, and a call from there goes down. -/
theorem reserved_mode_traps_down :
    ¬ ∀ (host : Host) (m after : Machine), m.Reached → m.step host = .ok after →
      m.hart.InMode ∧ m.TrapsUp host := by
  intro always
  obtain ⟨m, after, ran, reached, stepped, tested⟩ :=
    reached_step_of_test reservedModeProgram 8
      (fun m after => m.hart.priv = 2 && after.hart.priv = sMode) (by decide +kernel)
  simp only [Bool.and_eq_true, decide_eq_true_eq] at tested
  exact inMode_iff.mp (always {} m after reached stepped).1 tested.1

end Xemu
