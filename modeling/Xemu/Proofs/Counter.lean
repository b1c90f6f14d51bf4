import Xemu.Proofs.Privilege

/-! The program counter is even in every run that jumps to even addresses only. -/

namespace Xemu

/-- An address that a two-byte instruction can start at. -/
def EvenAddr (addr : BitVec 64) : Prop := addr.getLsbD 0 = false

/-- Evenness is that of the number an address stands for. -/
theorem evenAddr_iff {addr : BitVec 64} : EvenAddr addr ↔ addr.toNat % 2 = 0 := by
  rw [EvenAddr, ← BitVec.testBit_toNat, Nat.testBit_zero, decide_eq_false_iff_not]
  omega

/-- The sum of two even addresses is even, also when it wraps around. -/
theorem EvenAddr.add {a b : BitVec 64} (first : EvenAddr a) (second : EvenAddr b) :
    EvenAddr (a + b) := by
  rw [evenAddr_iff] at first second ⊢
  rw [BitVec.toNat_add]
  -- The modulus is even, so wrapping around does not change the parity.
  omega

/-- The ways in which a turn of the loop enters a trap and jumps to its handler. -/
inductive Machine.TrapsTo (host : Host) (m : Machine) (mode : BitVec 2) : Prop where
  /-- The interrupt check returned the handler of an interrupt. -/
  | interrupt (vector : BitVec 64) (trapped : Machine)
      (handled : m.handleInterrupt m.hart.pc = .ok (vector, trapped)) (nonzero : vector ≠ 0)
      (target : trapped.hart.priv = mode)
  /-- The fetch returned the handler of a page fault. -/
  | fetch (polled : Machine) (handled : m.handleInterrupt m.hart.pc = .ok (0, polled))
      (vector : BitVec 64) (inst : BitVec 32) (trapped : Machine)
      (fetched : polled.fetch host = .ok (vector, inst, trapped)) (nonzero : vector ≠ 0)
      (target : trapped.hart.priv = mode)
  /-- The instruction is a call, or it set the exception flag. -/
  | execute (ready : Machine) (nextPc : BitVec 64) (d : Decoded)
      (started : m.Ready host ready nextPc d) (locals : Locals)
      (ran : executeOp host ready ready.hart.pc nextPc d = .ok locals)
      (flag : d.op = .ecall ∨ locals.hasExcept) (cause tval : BitVec 64)
      (raised : raiseExcept ready.hart ready.hart.pc cause tval = (locals.retPc, locals.m.hart))
      (target : locals.m.hart.priv = mode)

/-- A turn goes on at an even address wherever the guest chose that address. -/
structure Machine.EvenTargets (host : Host) (m : Machine) : Prop where
  /-- The target of a jump through a register, of which the source clears no bit. -/
  jalr : ∀ ready nextPc d, m.Ready host ready nextPc d → d.op = .jalr →
    EvenAddr (ready.hart.reg d.rs1 + d.imm)
  /-- The address a return to the supervisor's caller goes to. -/
  sret : ∀ ready nextPc d, m.Ready host ready nextPc d → d.op = .sret →
    EvenAddr (ready.hart.csr sepc)
  /-- The address a return to the machine's caller goes to. -/
  mret : ∀ ready nextPc d, m.Ready host ready nextPc d → d.op = .mret →
    EvenAddr (ready.hart.csr mepc)
  /-- The handler of a trap, of which the source clears no bit either. -/
  trap : ∀ mode, m.TrapsTo host mode → EvenAddr (m.hart.csr (trapVector mode))

/-- The condition asked of every event of a run: turns of the loop have even targets. -/
def EvenTargetsAt (event : Event) (m : Machine) : Prop :=
  match event with
  | .hart host => m.EvenTargets host
  | _ => True

/-- The vector registers and the counter of a hart that has at most trapped on the way. -/
structure Hart.Trapped (before after : Hart) : Prop where
  pc : after.pc = before.pc
  vector : ∀ mode, after.csr (trapVector mode) = before.csr (trapVector mode)

/-- Trap entry assigns no vector register. -/
theorem trapVector_not_mem (target mode : BitVec 2) : trapVector target ∉ trapCsrs mode := by
  unfold trapVector trapCsrs
  split <;> split <;> decide

/-- Trap entry keeps the counter and the vectors. -/
theorem trapEnter_trapped (hart : Hart) (pc : BitVec 64) (mode : BitVec 2)
    (cause tval : BitVec 64) : hart.Trapped (trapEnter hart pc mode cause tval).2 :=
  ⟨(trapEnter_kept hart pc mode cause tval).1,
    fun target => trapEnter_csr hart pc mode cause tval (trapVector_not_mem target mode)⟩

/-- The interrupt check keeps the counter and the vectors. -/
theorem handleInterrupt_trapped {m polled : Machine} {pc vector : BitVec 64}
    (handled : m.handleInterrupt pc = .ok (vector, polled)) : m.hart.Trapped polled.hart := by
  rcases handleInterrupt_cases handled with ⟨_, same⟩ | ⟨type, _, entered⟩
  · exact ⟨by rw [same], fun _ => by rw [same]⟩
  · -- The pending bit and the entry change neither the counter nor a vector.
    have kept := trapEnter_trapped (m.hart.setPending type (intrNextPriv m.hart type)) pc
      (intrNextPriv m.hart type) (intrCause type (intrNextPriv m.hart type)) 0
    rw [entered] at kept
    exact ⟨kept.pc, fun mode => (kept.vector mode).trans (setPending_vector _ _ _ _)⟩

/-- The fetch keeps the counter and the vectors. -/
theorem fetch_trapped {host : Host} {m after : Machine} {vector : BitVec 64} {inst : BitVec 32}
    (fetched : m.fetch host = .ok (vector, inst, after)) : m.hart.Trapped after.hart := by
  rcases fetch_cases fetched with ⟨_, same⟩ | ⟨tval, entered⟩
  · exact ⟨by rw [same], fun _ => by rw [same]⟩
  · -- A fault enters a trap and nothing else.
    have kept := trapEnter_trapped m.hart m.hart.pc
      (exceptNextPriv m.hart causeInstPageFault) causeInstPageFault tval
    rw [← raiseExcept, entered] at kept
    exact kept

/-- A turn that reaches `execute` got there with its counter and vectors kept. -/
theorem Machine.Ready.trapped {host : Host} {m ready : Machine} {nextPc : BitVec 64} {d : Decoded}
    (started : m.Ready host ready nextPc d) : m.hart.Trapped ready.hart := by
  obtain ⟨polled, inst, handled, fetched, decoded⟩ := started
  have first := handleInterrupt_trapped handled
  have second := fetch_trapped fetched
  exact ⟨second.pc.trans first.pc, fun mode => (second.vector mode).trans (first.vector mode)⟩

/-- What decoding promises about the instruction a turn reaches `execute` with. -/
theorem Machine.Ready.decoded {host : Host} {m ready : Machine} {nextPc : BitVec 64} {d : Decoded}
    (started : m.Ready host ready nextPc d) :
    (nextPc = ready.hart.pc + 2 ∨ nextPc = ready.hart.pc + 4) ∧
      (d.op.relative → d.imm.getLsbD 0 = false) := by
  obtain ⟨polled, inst, handled, fetched, decoded⟩ := started
  exact decode_even decoded

/-- The handler of a trap is the content of the vector of the mode the hart is in afterwards. -/
theorem trapEnter_handler {hart after : Hart} {pc vector cause tval : BitVec 64}
    {mode : BitVec 2} (target : mode = sMode ∨ mode = mMode)
    (entered : trapEnter hart pc mode cause tval = (vector, after)) :
    vector = hart.csr (trapVector after.priv) := by
  have reached := trapEnter_priv hart pc mode cause tval
  have handler := trapEnter_vector hart pc mode cause tval
  rw [entered] at reached handler
  -- The mode afterwards is the target, so its vector is the one returned.
  have now : after.priv = mode := by
    rw [reached]
    rcases target with rfl | rfl <;> rfl
  rw [now]
  exact handler

/-- A turn with even targets that starts at an even address ends at one. -/
theorem even_step {host : Host} {m after : Machine} (start : EvenAddr m.hart.pc)
    (targets : m.EvenTargets host) (stepped : m.step host = .ok after) :
    EvenAddr after.hart.pc := by
  cases step_turn stepped with
  | interrupted vector trapped handled nonzero moved =>
    subst moved
    rcases handleInterrupt_cases handled with ⟨zero, _⟩ | ⟨type, _, entered⟩
    · exact absurd zero nonzero
    · have handler := trapEnter_handler (intrNextPriv_cases _ _) entered
      rw [setPending_vector] at handler
      exact handler ▸ targets.trap _ (.interrupt vector trapped handled nonzero rfl)
  | faulted polled handled vector inst trapped fetched nonzero moved =>
    subst moved
    rcases fetch_cases fetched with ⟨zero, _⟩ | ⟨tval, entered⟩
    · exact absurd zero nonzero
    · have handler := trapEnter_handler (exceptNextPriv_cases _ _) entered
      rw [(handleInterrupt_trapped handled).vector] at handler
      exact handler ▸
        targets.trap _ (.fetch polled handled vector inst trapped fetched nonzero rfl)
  | performed ready nextPc d started locals ran retPc executed written moved =>
    subst moved
    have trapped := started.trapped
    have here : EvenAddr ready.hart.pc := by rwa [trapped.pc]
    obtain ⟨following, offset⟩ := started.decoded
    -- The following instruction is two or four bytes away.
    have falls : EvenAddr nextPc := by
      rcases following with rfl | rfl
      · exact here.add (by rfl)
      · exact here.add (by rfl)
    have goesTo : retPc = locals.retPc := (writeBack_kept written).1
    -- Only the address the switch decided on matters from here.
    suffices EvenAddr locals.retPc by rwa [← goesTo] at this
    cases executeOp_outcome ran with
    | next kept goesOn => exact goesOn ▸ falls
    | relative op kept goesOn => exact goesOn ▸ here.add (offset op)
    -- The remaining targets come from the guest, and each has its part of the condition.
    | jalr op kept goesOn => exact goesOn ▸ targets.jalr ready nextPc d started op
    | csr type op ret updated goesOn => exact goesOn ▸ falls
    | except flag cause tval raised =>
      have handler := trapEnter_handler (exceptNextPriv_cases _ _) raised
      rw [trapped.vector] at handler
      exact handler ▸ targets.trap _ (.execute ready nextPc d started locals ran flag cause tval raised rfl)
    | sret op returned =>
      have target := trapExitSret_target ready.hart
      rw [returned] at target
      exact (congrArg EvenAddr target).mpr (targets.sret ready nextPc d started op)
    | mret op returned =>
      have target := trapExitMret_target ready.hart
      rw [returned] at target
      exact (congrArg EvenAddr target).mpr (targets.mret ready nextPc d started op)

/-- The switch of `execute` jumps through a register to the plain sum. -/
theorem executeOp_jalr {host : Host} {m : Machine} {pc nextPc : BitVec 64} {d : Decoded}
    {locals : Locals} (op : d.op = .jalr) (ran : executeOp host m pc nextPc d = .ok locals) :
    locals.retPc = m.hart.reg d.rs1 + d.imm := by
  simp only [executeOp, op] at ran
  cases Except.ok.inj ran
  rfl

/-- The switch of `execute` returns to the supervisor's caller at the kept address. -/
theorem executeOp_sret {host : Host} {m : Machine} {pc nextPc : BitVec 64} {d : Decoded}
    {locals : Locals} (op : d.op = .sret) (ran : executeOp host m pc nextPc d = .ok locals) :
    locals.retPc = m.hart.csr sepc := by
  simp only [executeOp, op] at ran
  cases Except.ok.inj ran
  exact trapExitSret_target m.hart

/-- The switch of `execute` returns to the machine's caller at the kept address. -/
theorem executeOp_mret {host : Host} {m : Machine} {pc nextPc : BitVec 64} {d : Decoded}
    {locals : Locals} (op : d.op = .mret) (ran : executeOp host m pc nextPc d = .ok locals) :
    locals.retPc = m.hart.csr mepc := by
  simp only [executeOp, op] at ran
  cases Except.ok.inj ran
  exact trapExitMret_target m.hart

/-- A turn that ends at an even address had even targets, so the condition asks no more. -/
theorem evenTargets_of_step {host : Host} {m after : Machine} (stepped : m.step host = .ok after)
    (even : EvenAddr after.hart.pc) : m.EvenTargets host := by
  have above := step_above stepped
  -- Wherever the turn reached `execute`, it ended where the switch decided.
  have target : ∀ {ready nextPc d locals}, m.Ready host ready nextPc d →
      executeOp host ready ready.hart.pc nextPc d = .ok locals → EvenAddr locals.retPc := by
    intro ready nextPc d locals started ran
    obtain ⟨same, retPc, executed, again, written, rfl⟩ := started.ends stepped
    -- The turn ended in the handler of the interrupt.
    cases Except.ok.inj (ran.symm.trans again)
    exact (writeBack_kept written).1 ▸ even
  refine ⟨?_, ?_, ?_, ?_⟩
  · intro ready nextPc d started op
    obtain ⟨locals, retPc, executed, ran, written, moved⟩ := started.ends stepped
    exact executeOp_jalr op ran ▸ target started ran
  · intro ready nextPc d started op
    obtain ⟨locals, retPc, executed, ran, written, moved⟩ := started.ends stepped
    exact executeOp_sret op ran ▸ target started ran
  · intro ready nextPc d started op
    obtain ⟨locals, retPc, executed, ran, written, moved⟩ := started.ends stepped
    exact executeOp_mret op ran ▸ target started ran
  · rintro mode (⟨vector, trapped, handled, nonzero, rfl⟩ |
      ⟨polled, handled, vector, inst, trapped, fetched, nonzero, rfl⟩ |
      ⟨ready, nextPc, d, started, locals, ran, flag, cause, tval, raised, rfl⟩)
    · -- It ended in the handler of the fault.
      cases Except.ok.inj (stepped.symm.trans (step_interrupted above handled nonzero))
      rcases handleInterrupt_cases handled with ⟨zero, _⟩ | ⟨type, _, entered⟩
      · exact absurd zero nonzero
      · have handler := trapEnter_handler (intrNextPriv_cases _ _) entered
        rw [setPending_vector] at handler
        exact handler ▸ even
    · cases Except.ok.inj (stepped.symm.trans (step_faulted above handled fetched nonzero))
      rcases fetch_cases fetched with ⟨zero, _⟩ | ⟨tval, entered⟩
      · exact absurd zero nonzero
      · have handler := trapEnter_handler (exceptNextPriv_cases _ _) entered
        rw [(handleInterrupt_trapped handled).vector] at handler
        exact handler ▸ even
    · -- The exception made the handler the address that the switch decided on.
      have handler := trapEnter_handler (exceptNextPriv_cases _ _) raised
      rw [started.trapped.vector] at handler
      exact handler ▸ target started ran

/-- No step of a device's thread moves the counter, and turns with even targets keep it even. -/
theorem even_next {event : Event} {m after : Machine} (start : EvenAddr m.hart.pc)
    (targets : EvenTargetsAt event m) (stepped : Machine.next event m = .ok after) :
    EvenAddr after.hart.pc := by
  cases event with
  | hart host => exact even_step start targets stepped
  -- A thread of a device has no hart.
  | timer host | blkTake =>
    cases Except.ok.inj stepped
    exact start
  | input byte =>
    obtain ⟨⟨uart, plic⟩, received, result⟩ := bind_eq_ok.mp stepped
    cases Except.ok.inj result
    exact start
  | blkServe host =>
    obtain ⟨bus, served, result⟩ := bind_eq_ok.mp stepped
    cases Except.ok.inj result
    exact start

/-- In a run from reset whose turns all have even targets the counter is even throughout. -/
theorem counter_even {first final : Machine} {events : List Event} (start : first.IsReset)
    (targets : Runs.Along Machine.next EvenTargetsAt first events)
    (ran : Runs.run Machine.next first events = .ok final) : EvenAddr final.hart.pc := by
  obtain ⟨rom, flash, disk, rfl⟩ := start
  -- The counter starts at 0x1000, and each event preserves its evenness.
  have begins : EvenAddr (Machine.reset rom flash disk).hart.pc := by
    change (0x1000#64).getLsbD 0 = false
    decide
  exact Runs.run_induction_along (fun m => EvenAddr m.hart.pc)
    (fun _ _ _ even asked stepped => even_next even asked stepped) begins targets ran

/-- Jumps through a register to the start of the ROM. -/
def loopProgram : List (BitVec 32) := [0x000012b7, 0x00028067] -- lui t0, 1; jr t0

/-- The jump of that program has an even target. -/
theorem counter_even_loop :
    ∃ final, Runs.run Machine.next (Machine.boot loopProgram) (turns 2) = .ok final ∧
      EvenAddr final.hart.pc := by
  obtain ⟨m, final, ran, reached, last, tested⟩ :=
    reached_step_of_test loopProgram 1
      (fun m final => !m.hart.pc.getLsbD 0 && !final.hart.pc.getLsbD 0) (by decide +kernel)
  simp only [Bool.and_eq_true, Bool.not_eq_true'] at tested
  obtain ⟨even, evenLast⟩ := tested
  obtain ⟨again, first, rest⟩ := Runs.run_cons_inv ran
  cases Except.ok.inj rest
  have whole : Runs.run Machine.next (Machine.boot loopProgram) (turns 2) = .ok final := by
    rw [turns, List.replicate_succ, Runs.run_cons_ok first]
    exact Runs.run_cons_ok last []
  -- Each turn ended at an even address, so its targets were even.
  have along : Runs.Along Machine.next EvenTargetsAt (Machine.boot loopProgram) (turns 2) := by
    refine ⟨evenTargets_of_step first even, fun after stepped => ?_⟩
    cases Except.ok.inj (stepped.symm.trans first)
    exact ⟨evenTargets_of_step last evenLast, fun _ _ => trivial⟩
  exact ⟨final, whole, counter_even ⟨_, _, _, rfl⟩ along whole⟩

/-- Jumps to the odd address that lies one byte above zero. -/
def oddJumpProgram : List (BitVec 32) := [0x00100067] -- jr 1(zero)

/-- A jump through a register makes the counter odd. -/
theorem counter_odd : ¬ ∀ m : Machine, m.Reached → EvenAddr m.hart.pc := by
  intro always
  -- The jump goes to an odd address, from which nothing clears the lowest bit.
  obtain ⟨m, after, ran, reached, stepped, tested⟩ :=
    reached_step_of_test oddJumpProgram 0
      (fun _ after => after.hart.pc.getLsbD 0) (by decide +kernel)
  have turned : Machine.next (.hart {}) m = .ok after := stepped
  have even := always after (Runs.Reachable.step reached turned)
  rw [EvenAddr, tested] at even
  cases even

end Xemu
