import Xemu.Proofs.FetchFaults
import Xemu.Proofs.Interrupt
import Xemu.Proofs.Nesting

/-! Zero as the sign that no trap was taken, and the handlers it cannot tell from that. -/

namespace Xemu

/-- The control registers that an entry into a trap may change. -/
def trapState : List (BitVec 12) :=
  [mstatus, mcause, mtval, mepc, mip, sstatus, scause, stval, sepc, sip]

/-- No trap was taken: the mode and the registers of a trap are as they were. -/
structure Hart.Untrapped (before after : Hart) : Prop where
  priv : after.priv = before.priv
  csr : ∀ addr ∈ trapState, after.csr addr = before.csr addr

namespace Machine

/-- The interrupt check returns zero exactly when it took no trap. -/
def CheckTells (m : Machine) : Prop :=
  ∀ pc vector after, m.handleInterrupt pc = .ok (vector, after) →
    (vector = 0 ↔ m.hart.Untrapped after.hart)

/-- A fetch returns zero exactly when it delivered an instruction, and so raised no fault. -/
def FetchTells (host : Host) (m : Machine) : Prop :=
  ∀ result bus, m.fetched host = .ok (result, bus) →
    ((m.endFetch (result, bus)).1 = 0 ↔ ∃ inst, result = .word inst)

/-- A translation that the fetch asks for does not exist. -/
def FetchFaults (host : Host) (m : Machine) : Prop :=
  (∃ bus, m.mmu host m.hart.pc = .ok (none, bus)) ∨
    (EndsPage m.hart.pc ∧ ∃ lo bus last, m.asRead host m.hart.pc 2 .none = .ok (some lo, bus) ∧
      { m with bus }.mmu host (m.hart.pc + 2) = .ok (none, last))

/-- The part of a turn that takes a trap is the last of that turn, so the next one is elsewhere. -/
structure TrapsEndTurn (host : Host) (m : Machine) : Prop where
  check : ∀ type after, Loop.Takes ⟨.poll, m⟩ type →
    Loop.next (.hart host) ⟨.poll, m⟩ = .ok after → after.point = .poll
  fetch : ∀ after, m.FetchFaults host →
    Loop.next (.hart host) ⟨.fetch, m⟩ = .ok after → after.point = .poll

/-- The handler of an instruction page fault is not at zero, if the fetch raises one. -/
def LoudFault (host : Host) (m : Machine) : Prop :=
  m.FetchFaults host → m.hart.csr (trapVector (exceptNextPriv m.hart causeInstPageFault)) ≠ 0

/-! ### The interrupt check -/

variable {host : Host} {m : Machine}

/-- An interrupt that is taken is seen in the status register of its mode. -/
theorem not_untrapped_of_takes {type : IntrType} (takes : Loop.Takes ⟨.poll, m⟩ type)
    (pc : BitVec 64) : ¬ m.hart.Untrapped (m.hart.enterInterrupt pc type).2 := by
  intro same
  -- The global enable bit was set before, and the trap has cleared it.
  have listed : trapStatus (intrNextPriv m.hart type) ∈ trapState := by
    unfold trapStatus
    split <;> decide
  have cleared := m.hart.enterInterrupt_globalOn pc type
  rw [Hart.GlobalOn, same.csr _ listed] at cleared
  exact cleared takes.globalOn

/-- The address returned for an interrupt is the one in the vector register of its mode. -/
theorem enterInterrupt_vector (hart : Hart) (pc : BitVec 64) (type : IntrType) :
    (hart.enterInterrupt pc type).1 = hart.csr (trapVector (intrNextPriv hart type)) := by
  -- The pending bit is set in another register.
  have other : trapVector (intrNextPriv hart type) ≠ trapIp (intrNextPriv hart type) := by
    unfold trapVector trapIp
    split <;> decide
  rw [Hart.enterInterrupt, trapEnter_vector, Hart.setPending]
  exact Function.update_of_ne other ..

/-- Without an interrupt to take the check returns zero and leaves the hart alone. -/
theorem handleInterrupt_idle {pc vector : BitVec 64} {after : Machine}
    (idle : ∀ type, ¬ Loop.Takes ⟨.poll, m⟩ type)
    (handled : m.handleInterrupt pc = .ok (vector, after)) : vector = 0 ∧ after.hart = m.hart := by
  obtain ⟨⟨type, polled⟩, pending, result⟩ := bind_eq_ok.mp handled
  have kept := pendingType_hart pending
  by_cases none : type = .none
  · -- Nothing is pending.
    simp only [none, if_true, pure_eq_ok, Except.ok.injEq, Prod.mk.injEq] at result
    exact ⟨result.1.symm, result.2 ▸ kept⟩
  · -- What is pending is not enabled.
    have disabled : ¬ (m.hart.GlobalOn (intrNextPriv m.hart type) ∧ m.hart.IrqEnabled type) :=
      fun both => idle type ⟨rfl, ⟨polled, pending⟩, none, both.1, both.2⟩
    simp only [none, if_false, kept, Hart.takeInterrupt_eq, if_neg disabled, pure_eq_ok,
      Except.ok.injEq, Prod.mk.injEq] at result
    exact ⟨result.1.symm, result.2 ▸ rfl⟩

/-- The check tells exactly when every interrupt it takes has a handler that is not at zero. -/
theorem checkTells_iff : m.CheckTells ↔ Loop.Loud ⟨.poll, m⟩ := by
  constructor
  · intro tells type takes zero
    -- The trap of this interrupt returns zero and is seen all the same.
    obtain ⟨bus, handled⟩ := takes.handled m.hart.pc
    have silent : (m.hart.enterInterrupt m.hart.pc type).1 = 0 :=
      (enterInterrupt_vector ..).trans zero
    exact not_untrapped_of_takes takes m.hart.pc ((tells _ _ _ handled).mp silent)
  · intro loud pc vector after handled
    by_cases taken : ∃ type, Loop.Takes ⟨.poll, m⟩ type
    · obtain ⟨type, takes⟩ := taken
      obtain ⟨bus, same⟩ := takes.handled pc
      cases Except.ok.inj (same.symm.trans handled)
      refine iff_of_false ?_ (not_untrapped_of_takes takes pc)
      rw [enterInterrupt_vector]
      exact loud type takes
    · obtain ⟨zero, same⟩ := handleInterrupt_idle (fun type takes => taken ⟨type, takes⟩) handled
      exact iff_of_true zero ⟨same ▸ rfl, fun addr _ => same ▸ rfl⟩

/-! ### The fetch -/

/-- A read finds nothing only where its address has no translation. -/
theorem mmu_of_asRead_none {va : BitVec 64} {size : Nat} {params : Params} {after : Bus}
    (read : m.asRead host va size params = .ok (none, after)) :
    m.mmu host va = .ok (none, after) := by
  rcases asRead_inv read with ⟨_, found⟩ | ⟨pa, walked, value, read, _⟩
  · exact found
  · -- With a translation the read returns what the bus does.
    cases read

/-- The fetch ends in a fault exactly when a translation it asks for does not exist. -/
theorem fetchFaults_iff :
    m.FetchFaults host ↔ ∃ tval bus, m.fetched host = .ok (.fault tval, bus) := by
  constructor
  · rintro (⟨bus, missing⟩ | ⟨across, lo, bus, last, first, missing⟩)
    · exact ⟨_, _, fetched_unmapped missing⟩
    · -- The first half was read, and the second is looked up in the state after that.
      refine ⟨m.hart.pc + 2, last, ?_⟩
      have second : { m with bus }.asRead host (m.hart.pc + 2) 2 .none = .ok (none, last) := by
        rw [asRead, missing]
        rfl
      dsimp only [fetched]
      rw [if_neg (show ¬ (m.hart.pc + 2) &&& 0xFFF ≠ 0 from not_not.mpr across), first, ok_bind]
      simp only [second, ok_bind, pure_eq_ok]
  · rintro ⟨tval, bus, ended⟩
    dsimp only [fetched] at ended
    split at ended
    · obtain ⟨⟨inst, after⟩, read, result⟩ := bind_eq_ok.mp ended
      cases inst with
      | none => exact .inl ⟨after, mmu_of_asRead_none read⟩
      | some inst => cases Except.ok.inj result
    · rename_i across
      obtain ⟨⟨lo, middle⟩, first, rest⟩ := bind_eq_ok.mp ended
      cases lo with
      | none => exact .inl ⟨middle, mmu_of_asRead_none first⟩
      | some lo =>
        obtain ⟨⟨hi, last⟩, second, result⟩ := bind_eq_ok.mp rest
        cases hi with
        | none => exact .inr ⟨not_not.mp across, lo, middle, last, first, mmu_of_asRead_none second⟩
        | some hi => cases Except.ok.inj result

/-- The address returned for a fault is the one in the vector register of its mode. -/
theorem endFetch_fault (tval : BitVec 64) (bus : Bus) :
    (m.endFetch (.fault tval, bus)).1 =
      m.hart.csr (trapVector (exceptNextPriv m.hart causeInstPageFault)) :=
  -- The reads of the fetch have not changed the hart.
  trapEnter_vector ..

/-- A fetch that faults returns that address. -/
theorem fetch_of_faults (faults : m.FetchFaults host) : ∃ inst after, m.fetch host =
    .ok (m.hart.csr (trapVector (exceptNextPriv m.hart causeInstPageFault)), inst, after) := by
  obtain ⟨tval, bus, ended⟩ := fetchFaults_iff.mp faults
  refine ⟨(m.endFetch (.fault tval, bus)).2.1, (m.endFetch (.fault tval, bus)).2.2, ?_⟩
  rw [fetch_eq, ended, ← endFetch_fault tval bus]
  rfl

/-- The fetch tells exactly when the handler of a fault it raises is not at zero. -/
theorem fetchTells_iff : m.FetchTells host ↔ m.LoudFault host := by
  constructor
  · intro tells faults zero
    obtain ⟨tval, bus, ended⟩ := fetchFaults_iff.mp faults
    -- The fault returns zero, which is said of words only.
    obtain ⟨inst, word⟩ := (tells _ _ ended).mp ((endFetch_fault tval bus).trans zero)
    cases word
  · intro loud result bus ended
    cases result with
    | word inst => exact iff_of_true rfl ⟨inst, rfl⟩
    | fault tval =>
      refine iff_of_false ?_ (by rintro ⟨inst, word⟩; cases word)
      rw [endFetch_fault]
      exact loud (fetchFaults_iff.mpr ⟨tval, bus, ended⟩)

/-! ### The main loop -/

/-- A trap ends its turn exactly when its handler is not at zero, if there is a turn at all. -/
theorem trapsEndTurn_iff :
    m.TrapsEndTurn host ↔
      (¬ m.hart.pc < 0x1000 → Loop.Loud ⟨.poll, m⟩) ∧ m.LoudFault host := by
  constructor
  · intro ends
    refine ⟨fun above type takes zero => ?_, fun faults zero => ?_⟩
    · obtain ⟨bus, handled⟩ := takes.handled m.hart.pc
      have silent := (enterInterrupt_vector m.hart m.hart.pc type).trans zero
      have goesOn : Loop.next (.hart host) _ = _ := Loop.next_poll above handled
      rw [if_neg (not_not.mpr silent)] at goesOn
      -- The turn would go on with the fetch.
      cases ends.check type _ takes goesOn
    · obtain ⟨inst, trapped, fetched⟩ := fetch_of_faults faults
      have goesOn := Loop.next_fetch fetched
      rw [if_neg (not_not.mpr zero)] at goesOn
      cases ends.fetch _ faults goesOn
  · rintro ⟨loud, loudFault⟩
    refine ⟨fun type after takes stepped => ?_, fun after faults stepped => ?_⟩
    · have above := Loop.above_of_poll (show Loop.advance host ⟨.poll, m⟩ = .ok after from stepped)
      obtain ⟨bus, handled⟩ := takes.handled m.hart.pc
      have ended : Loop.next (.hart host) _ = _ := Loop.next_poll above handled
      have nonzero := loud above type takes
      rw [if_pos ((enterInterrupt_vector m.hart m.hart.pc type).trans_ne nonzero)] at ended
      cases Except.ok.inj (ended.symm.trans stepped)
      rfl
    · obtain ⟨inst, trapped, fetched⟩ := fetch_of_faults faults
      have ended := Loop.next_fetch fetched
      rw [if_pos (loudFault faults)] at ended
      cases Except.ok.inj (ended.symm.trans stepped)
      rfl

end Machine

/-! ### The result -/

/--
Zero says that no trap was taken exactly when the handlers of the traps taken are not at zero.

This holds of the interrupt check, of the fetch, and of the loop, which goes on by what they return.
-/
theorem zero_tells_iff (host : Host) (m : Machine) :
    (m.CheckTells ↔ Loop.Loud ⟨.poll, m⟩) ∧
      m.fetch host = (m.fetched host).map m.endFetch ∧
      (m.FetchTells host ↔ m.LoudFault host) ∧
      (m.TrapsEndTurn host ↔
        (¬ m.hart.pc < 0x1000 → Loop.Loud ⟨.poll, m⟩) ∧ m.LoudFault host) :=
  ⟨Machine.checkTells_iff, m.fetch_eq host, Machine.fetchTells_iff, Machine.trapsEndTurn_iff⟩

/-- With its handler at zero the software interrupt is taken, and the check returns zero. -/
theorem handlers_at_zero :
    ¬ ∀ (host : Host) (m : Machine), m.Reached →
      m.CheckTells ∧ m.FetchTells host ∧ m.TrapsEndTurn host := by
  intro always
  obtain ⟨m, after, -, reached, -, tested⟩ := reached_step_of_test silentProgram 5
    (fun m _ => Loop.taken ⟨.poll, m⟩ = some .software &&
      m.hart.csr (trapVector (intrNextPriv m.hart .software)) = 0) (by decide +kernel)
  simp only [Bool.and_eq_true, decide_eq_true_eq] at tested
  -- The check would have to return something other than zero.
  exact Machine.checkTells_iff.mp (always {} m reached).1 .software
    (Loop.taken_eq_some.mp tested.1) tested.2

end Xemu
