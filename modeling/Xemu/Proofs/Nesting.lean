import Xemu.Machine.Loop
import Xemu.Machine.Program
import Xemu.Proofs.Mode

/-! Traps that nest, and what the return that matches one of them gives back. -/

namespace Xemu

/-! ### One trap and its return -/

/-- The places of the status register in which a trap to a mode saves what it changes. -/
def trapSaved (mode : BitVec 2) : List Nat :=
  if mode = sMode then [bitSpiePos, bitSppPos] else [bitMpiePos, 11, 12]

/-- The part of `trap_exit` for the return instruction of a mode. -/
def trapExit (mode : BitVec 2) (hart : Hart) : BitVec 64 × Hart :=
  if mode = sMode then trapExitSret hart else trapExitMret hart

/-- What a return gives back to the code that a trap interrupted. -/
structure Resumes (mode : BitVec 2) (pc : BitVec 64) (before after : Hart) (target : BitVec 64) :
    Prop where
  goesOn : target = pc
  priv : after.priv = before.priv
  enable : after.GlobalOn mode ↔ before.GlobalOn mode
  others : ∀ place, place ∉ trapSaved mode →
    (after.csr (trapStatus mode)).getLsbD place = (before.csr (trapStatus mode)).getLsbD place

section Return

variable {hart final : Hart} {pc cause tval : BitVec 64}

/-- The supervisor's status register just after a trap to it. -/
theorem getLsbD_trapEnter_sstatus (hart : Hart) (pc cause tval : BitVec 64) (i : Nat) :
    ((trapEnter hart pc sMode cause tval).2.csr sstatus).getLsbD i =
      if i = bitSiePos then false
      else if i = bitSpiePos then (hart.csr sstatus).getLsbD bitSiePos
      else if i = bitSppPos then decide (hart.priv ≠ uMode)
      else (hart.csr sstatus).getLsbD i := by
  -- The source computes the previous mode as a number, of which only one bit is stored.
  have previous : (if hart.priv = uMode then 0#64 else 1#64) =
      if decide (hart.priv ≠ uMode) then 1 else 0 := by
    by_cases user : hart.priv = uMode <;> simp [user]
  have status : (trapEnter hart pc sMode cause tval).2.csr sstatus =
      setBit (setBit (setBit (hart.csr sstatus) bitSppPos (if decide (hart.priv ≠ uMode) then 1 else 0))
        bitSpiePos (bit (setBit (hart.csr sstatus) bitSppPos
          (if decide (hart.priv ≠ uMode) then 1 else 0)) bitSiePos)) bitSiePos
        (if false then 1 else 0) := by
    rw [← previous]
    simp [trapEnter, sstatus, sepc]
  rw [status, bit_eq, getLsbD_setBit _ _ (by decide), getLsbD_setBit _ _ (by decide),
    getLsbD_setBit _ _ (by decide), getLsbD_setBit _ _ (by decide)]
  rfl

/-- The machine's status register just after a trap to it. -/
theorem getLsbD_trapEnter_mstatus (hart : Hart) (pc cause tval : BitVec 64) (i : Nat) :
    ((trapEnter hart pc mMode cause tval).2.csr mstatus).getLsbD i =
      if i = bitMiePos then false
      else if i = bitMpiePos then (hart.csr mstatus).getLsbD bitMiePos
      else if 11 ≤ i ∧ i < 13 then hart.priv.getLsbD (i - 11)
      else (hart.csr mstatus).getLsbD i := by
  -- The mode is put into its field first, and the two enable bits after that.
  have field := getLsbD_setBits (hart.csr mstatus) hart.priv 11 (by decide) (by decide)
  have status : (trapEnter hart pc mMode cause tval).2.csr mstatus =
      setBit (setBit (setBits (hart.csr mstatus) (11 + 2 - 1) 11 (hart.priv.setWidth 64))
        bitMpiePos (bit (setBits (hart.csr mstatus) (11 + 2 - 1) 11 (hart.priv.setWidth 64))
          bitMiePos)) bitMiePos (if false then 1 else 0) := by
    simp [trapEnter, mstatus, mepc, mMode, sMode]
  rw [status, bit_eq, getLsbD_setBit _ _ (by decide), getLsbD_setBit _ _ (by decide), field, field]
  rfl

/-- A return that gives back every other place of the status register gives back the enable bit. -/
theorem Resumes.of_others {mode : BitVec 2} {target : BitVec 64} {before after : Hart}
    (goesOn : target = pc) (priv : after.priv = before.priv)
    (others : ∀ place, place ∉ trapSaved mode →
      (after.csr (trapStatus mode)).getLsbD place = (before.csr (trapStatus mode)).getLsbD place) :
    Resumes mode pc before after target where
  goesOn := goesOn
  priv := priv
  enable := by
    -- The enable bit is none of the places the trap saves to.
    have unsaved : trapEnablePos mode ∉ trapSaved mode := by
      unfold trapEnablePos trapSaved
      split <;> decide
    rw [Hart.GlobalOn, Hart.GlobalOn, bit_eq, bit_eq, others _ unsaved]
  others := others

/-- A return to the supervisor's caller undoes a trap to the supervisor. -/
theorem trapExitSret_resumes (ordinary : hart.priv = uMode ∨ hart.priv = sMode)
    (epc : final.csr sepc = (trapEnter hart pc sMode cause tval).2.csr sepc)
    (status : final.csr sstatus = (trapEnter hart pc sMode cause tval).2.csr sstatus) :
    Resumes sMode pc hart (trapExitSret final).2 (trapExitSret final).1 := by
  refine .of_others ?_ ?_ fun place other => ?_
  · rw [trapExitSret_target, epc]
    exact trapEnter_epc hart pc sMode cause tval
  · have saved : bit (final.csr sstatus) bitSppPos ≠ 0 ↔ hart.priv ≠ uMode := by
      rw [status, bit_eq, getLsbD_trapEnter_sstatus]
      by_cases user : hart.priv = uMode <;> simp [user, bitSppPos, bitSiePos, bitSpiePos]
    change (if bit (final.csr sstatus) bitSppPos ≠ 0 then sMode else uMode) = hart.priv
    rw [if_congr saved rfl rfl]
    rcases ordinary with user | supervisor
    · simp [user]
    · simp [supervisor, sMode, uMode]
  · have returned : (trapExitSret final).2.csr sstatus =
        setBit (final.csr sstatus) bitSiePos (bit (final.csr sstatus) bitSpiePos) := by
      simp [trapExitSret]
    have unsaved : place ≠ bitSpiePos ∧ place ≠ bitSppPos := by simpa [trapSaved] using other
    change ((trapExitSret final).2.csr sstatus).getLsbD place = (hart.csr sstatus).getLsbD place
    rw [returned, status, bit_eq, getLsbD_setBit _ _ (by decide), getLsbD_trapEnter_sstatus,
      getLsbD_trapEnter_sstatus]
    -- The enable bit comes back from where the trap saved it.
    by_cases enable : place = bitSiePos
    · simp [enable, bitSiePos, bitSpiePos]
    · simp [enable, unsaved]

/-- A return to the machine's caller undoes a trap to the machine, from whatever mode. -/
theorem trapExitMret_resumes
    (epc : final.csr mepc = (trapEnter hart pc mMode cause tval).2.csr mepc)
    (status : final.csr mstatus = (trapEnter hart pc mMode cause tval).2.csr mstatus) :
    Resumes mMode pc hart (trapExitMret final).2 (trapExitMret final).1 := by
  refine .of_others ?_ ?_ fun place other => ?_
  · rw [trapExitMret_target, epc]
    exact trapEnter_epc hart pc mMode cause tval
  · change (bits (final.csr mstatus) 12 11).setWidth 2 = hart.priv
    apply BitVec.eq_of_getLsbD_eq
    intro i below
    -- Both bits of the field hold those of the mode interrupted.
    rw [BitVec.getLsbD_setWidth, getLsbD_bits, status, getLsbD_trapEnter_mstatus]
    simp [bitMiePos, bitMpiePos, below, show ¬ 11 + i = 3 by omega, show ¬ 11 + i = 7 by omega,
      show 11 + i < 13 by omega, show i < 64 by omega, show i ≤ 1 by omega]
  · have returned : (trapExitMret final).2.csr mstatus =
        setBit (final.csr mstatus) bitMiePos (bit (final.csr mstatus) bitMpiePos) := by
      simp [trapExitMret]
    have unsaved : place ≠ bitMpiePos ∧ place ≠ 11 ∧ place ≠ 12 := by
      simpa [trapSaved, mMode, sMode] using other
    have outside : ¬ (11 ≤ place ∧ place < 13) := by omega
    change ((trapExitMret final).2.csr mstatus).getLsbD place = (hart.csr mstatus).getLsbD place
    rw [returned, status, bit_eq, getLsbD_setBit _ _ (by decide), getLsbD_trapEnter_mstatus,
      getLsbD_trapEnter_mstatus]
    by_cases enable : place = bitMiePos
    · simp [enable, bitMiePos, bitMpiePos]
    · simp [enable, unsaved.1, outside]


end Return

/-! ### Traps within traps -/

/-- The registers in which a trap to a mode keeps what its return goes by. -/
def ownCsrs (mode : BitVec 2) : List (BitVec 12) := [trapEpc mode, trapStatus mode]

/-- The registers of the supervisor's traps, which a handler in machine mode has to spare. -/
def sparedCsrs (mode : BitVec 2) : List (BitVec 12) := if mode = sMode then [] else [sepc, sstatus]

namespace Loop

/-- The interrupt check comes next and takes an interrupt of a class. -/
structure Takes (loop : Loop) (type : IntrType) : Prop where
  point : loop.point = .poll
  pending : ∃ polled, loop.machine.pendingType = .ok (type, polled)
  some : type ≠ .none
  globalOn : loop.machine.hart.GlobalOn (intrNextPriv loop.machine.hart type)
  enabled : loop.machine.hart.IrqEnabled type

/-- The ways in which a part of a turn enters a trap to a mode. -/
inductive Enters (before opened : Loop) : BitVec 2 → Prop
  /-- The check takes an interrupt. -/
  | interrupt (type : IntrType) (takes : before.Takes type) :
    Enters before opened (intrNextPriv before.machine.hart type)
  /-- The fetch or the instruction raises an exception. -/
  | exception (past : before.point ≠ .poll) (cause tval vector : BitVec 64) (entered : Hart)
    (raised : raiseExcept before.machine.hart before.machine.hart.pc cause tval = (vector, entered))
    (csr : opened.machine.hart.csr = entered.csr)
    (priv : opened.machine.hart.priv = entered.priv) :
    Enters before opened (exceptNextPriv before.machine.hart cause)

/-- The return instruction of a mode is executed next. -/
def Returns (loop : Loop) (mode : BitVec 2) : Prop :=
  ∃ inst nextPc d, loop.point = .perform inst ∧
    decode loop.machine.hart.pc inst = .ok (nextPc, d) ∧ d.op = if mode = sMode then .sret else .mret

/-- A control-register instruction is executed next. -/
def SetsCsr (loop : Loop) : Prop :=
  ∃ inst nextPc d type, loop.point = .perform inst ∧
    decode loop.machine.hart.pc inst = .ok (nextPc, d) ∧ d.op.csrOp = some type

/-- Two states of the loop in which some control registers have the same content. -/
def SameCsrs (held : List (BitVec 12)) (before after : Loop) : Prop :=
  ∀ addr ∈ held, after.machine.hart.csr addr = before.machine.hart.csr addr

mutual

/--
A trap to a mode with its handler, from the part of a turn that enters it to the return that matches it.

The handler does anything at all, traps included, until it has put the registers back, and then it leaves.
-/
inductive Bracket : BitVec 2 → Loop → List Event → Loop → Prop
  | trap {mode : BitVec 2} {before opened restored closing after : Loop} {first last : Host}
    {work leave : List Event}
    (entering : before.advance first = .ok opened) (enters : Enters before opened mode)
    (worked : Runs.run next opened work = .ok restored)
    (restores : SameCsrs (ownCsrs mode ++ sparedCsrs mode) opened restored)
    (leaves : Leaves (ownCsrs mode ++ sparedCsrs mode) restored leave closing)
    (returns : closing.Returns mode) (returning : closing.advance last = .ok after) :
    Bracket mode before (.hart first :: (work ++ (leave ++ [.hart last]))) after

/-- The way of a handler to its return while some registers hold what the return goes by. -/
inductive Leaves : List (BitVec 12) → Loop → List Event → Loop → Prop
  | done {held : List (BitVec 12)} {loop : Loop} : Leaves held loop [] loop
  /-- Whatever happens next leaves the registers alone. -/
  | move {held : List (BitVec 12)} {before middle after : Loop} {event : Event}
    {rest : List Event} (moved : next event before = .ok middle)
    (same : SameCsrs held before middle) (leaves : Leaves held middle rest after) :
    Leaves held before (event :: rest) after
  /-- Another trap is taken, whose handler has to spare the registers. -/
  | nested {held : List (BitVec 12)} {mode : BitVec 2} {before middle after : Loop}
    {inner rest : List Event} (spared : held ⊆ sparedCsrs mode)
    (bracket : Bracket mode before inner middle) (leaves : Leaves held middle rest after) :
    Leaves held before (inner ++ rest) after

end

/-- The condition asked of a part of a turn: an interrupt it takes has a handler's address. -/
def Loud (loop : Loop) : Prop :=
  ∀ type, loop.Takes type →
    loop.machine.hart.csr (trapVector (intrNextPriv loop.machine.hart type)) ≠ 0

section Steps

variable {before opened after : Loop} {mode : BitVec 2} {host : Host}

/-- A check that takes an interrupt returns what its trap returns. -/
theorem Takes.handled {type : IntrType} (takes : before.Takes type) (pc : BitVec 64) :
    ∃ bus, before.machine.handleInterrupt pc =
      .ok ((before.machine.hart.enterInterrupt pc type).1,
        { hart := (before.machine.hart.enterInterrupt pc type).2, bus }) := by
  obtain ⟨point, m⟩ := before
  obtain ⟨-, ⟨polled, pending⟩, some, globalOn, enabled⟩ := takes
  have kept := pendingType_hart pending
  refine ⟨polled.bus, ?_⟩
  rw [Machine.handleInterrupt, pending, ok_bind]
  dsimp only
  -- The poll has left the hart alone, so both enable bits are still set.
  rw [if_neg some, kept, Hart.takeInterrupt_eq, if_pos ⟨globalOn, enabled⟩]
  rfl

/-- A check that takes an interrupt enters its trap, and ends the turn if that has an address. -/
theorem Takes.advance {type : IntrType} (takes : before.Takes type)
    (entering : before.advance host = .ok opened) :
    ∃ trapped, before.machine.handleInterrupt before.machine.hart.pc =
        .ok ((before.machine.hart.enterInterrupt before.machine.hart.pc type).1, trapped) ∧
      trapped.hart = (before.machine.hart.enterInterrupt before.machine.hart.pc type).2 ∧
      opened.machine.hart.csr = trapped.hart.csr := by
  -- What the check does is settled by the interrupt it takes.
  obtain ⟨bus, handled⟩ := takes.handled before.machine.hart.pc
  obtain ⟨point, m⟩ := before
  cases takes.point
  refine ⟨_, handled, rfl, ?_⟩
  have polls : next (.hart host) _ = _ := next_poll (above_of_poll entering) handled
  rw [next, entering] at polls
  cases Except.ok.inj polls
  split <;> rfl

/-- Whatever enters it, a trap is entered from the hart but for a pending bit of its mode. -/
theorem Enters.trapEnter (enters : Enters before opened mode)
    (entering : before.advance host = .ok opened) :
    ∃ start cause tval, start.priv = before.machine.hart.priv ∧
      (∀ addr, addr ≠ trapIp mode → start.csr addr = before.machine.hart.csr addr) ∧
      opened.machine.hart.csr =
        (Xemu.trapEnter start before.machine.hart.pc mode cause tval).2.csr := by
  -- An interrupt sets its pending bit first, and an exception enters at once.
  cases enters with
  | interrupt type takes =>
    obtain ⟨trapped, _, entered, csr⟩ := takes.advance entering
    refine ⟨before.machine.hart.setPending type (intrNextPriv before.machine.hart type),
      intrCause type (intrNextPriv before.machine.hart type), 0, rfl, fun addr other => ?_, ?_⟩
    · rw [Hart.setPending, Hart.setCsr_csr, Function.update_of_ne other]
    · rw [csr, entered, Hart.enterInterrupt]
  | exception past cause tval vector entered raised csr priv =>
    refine ⟨before.machine.hart, cause, tval, rfl, fun _ _ => rfl, ?_⟩
    rw [raiseExcept] at raised
    rw [csr, raised]

/-- A trap goes to one of two modes, and to the supervisor only from below machine mode. -/
theorem Enters.target (enters : Enters before opened mode) :
    mode = sMode ∧ before.machine.hart.priv ≠ mMode ∨ mode = mMode := by
  -- Both kinds of trap are delegated under the same condition on the mode.
  have delegated : ∀ (delegated : Prop) [Decidable delegated],
      (if before.machine.hart.priv ≠ mMode ∧ delegated then sMode else mMode) = sMode ∧
        before.machine.hart.priv ≠ mMode ∨
      (if before.machine.hart.priv ≠ mMode ∧ delegated then sMode else mMode) = mMode := by
    intro delegated _
    split
    · rename_i below
      exact .inl ⟨rfl, below.1⟩
    · exact .inr rfl
  cases enters with
  | interrupt type takes => exact delegated _
  | exception past cause tval vector entered raised csr priv => exact delegated _

/-- Entering a trap leaves the registers alone that its handler has to spare. -/
theorem Enters.spares (enters : Enters before opened mode)
    (entering : before.advance host = .ok opened) : SameCsrs (sparedCsrs mode) before opened := by
  intro addr member
  obtain ⟨start, cause, tval, _, csr, entered⟩ := enters.trapEnter entering
  -- A trap to the supervisor has nothing to spare, and one to the machine leaves its registers.
  rcases enters.target with ⟨rfl, _⟩ | rfl
  · cases member
  · have named : addr = sepc ∨ addr = sstatus := by simpa [sparedCsrs, sMode, mMode] using member
    have untouched : addr ∉ trapCsrs mMode ∧ addr ≠ trapIp mMode := by
      rcases named with rfl | rfl <;> decide
    rw [entered, trapEnter_csr _ _ _ _ _ untouched.1, csr addr untouched.2]

/-- A return instruction ends its turn as `trap_exit` does. -/
theorem Returns.advance (returns : before.Returns mode)
    (returning : before.advance host = .ok after) :
    after.point = .poll ∧ after.machine.hart.pc = (trapExit mode before.machine.hart).1 ∧
      after.machine.hart.priv = (trapExit mode before.machine.hart).2.priv ∧
      after.machine.hart.csr = (trapExit mode before.machine.hart).2.csr := by
  obtain ⟨point, m⟩ := before
  obtain ⟨inst, nextPc, d, rfl, decoded, op⟩ := returns
  obtain ⟨performed, completed, result⟩ := bind_eq_ok.mp returning
  cases Except.ok.inj result
  obtain ⟨⟨_, _⟩, decodes, executes⟩ := bind_eq_ok.mp completed
  rw [decoded] at decodes
  cases Except.ok.inj decodes
  obtain ⟨⟨retPc, executed⟩, ran, moved⟩ := bind_eq_ok.mp executes
  cases Except.ok.inj moved
  obtain ⟨locals, switched, written⟩ := bind_eq_ok.mp ran
  obtain ⟨goesOn, _, priv, csr, _⟩ := writeBack_kept written
  -- The switch leaves with what `trap_exit` returns, and its tail changes no more.
  suffices locals.retPc = (trapExit mode m.hart).1 ∧ locals.m.hart = (trapExit mode m.hart).2 from
    ⟨rfl, goesOn.trans this.1, priv.trans (congrArg Hart.priv this.2),
      csr.trans (congrArg Hart.csr this.2)⟩
  by_cases supervisor : mode = sMode
  · rw [if_pos supervisor] at op
    rw [executeOp, op] at switched
    cases Except.ok.inj switched
    rw [trapExit, if_pos supervisor]
    exact ⟨rfl, rfl⟩
  · rw [if_neg supervisor] at op
    rw [executeOp, op] at switched
    cases Except.ok.inj switched
    rw [trapExit, if_neg supervisor]
    exact ⟨rfl, rfl⟩

/-- A return changes no register of the supervisor's traps unless it is the supervisor's own. -/
theorem Returns.spares (returns : before.Returns mode)
    (returning : before.advance host = .ok after) : SameCsrs (sparedCsrs mode) before after := by
  intro addr member
  unfold sparedCsrs at member
  split at member
  · cases member
  · rename_i machine
    -- Only the register of the mode that returns is written.
    have other : addr ≠ mstatus := by
      rcases List.mem_pair.mp member with rfl | rfl <;> decide
    rw [(returns.advance returning).2.2.2, trapExit, if_neg machine, trapExitMret_csr _ other]

/-- A check enters the trap of an interrupt, or leaves the control registers and the mode alone. -/
theorem poll_cases {m : Machine} (advanced : advance host ⟨.poll, m⟩ = .ok after) :
    (∃ mode, Enters ⟨.poll, m⟩ after mode) ∨
      (after.machine.hart.priv = m.hart.priv ∧ after.machine.hart.csr = m.hart.csr) := by
  have above := above_of_poll advanced
  dsimp only [advance] at advanced
  rw [if_neg above] at advanced
  obtain ⟨⟨vector, polled⟩, handled, result⟩ := bind_eq_ok.mp advanced
  -- The turn goes on or ends, and neither touches what the check left.
  have machine : after.machine.hart.csr = polled.hart.csr ∧
      after.machine.hart.priv = polled.hart.priv := by
    dsimp only at result
    split at result
    all_goals
      cases Except.ok.inj result
      exact ⟨rfl, rfl⟩
  obtain ⟨⟨type, found⟩, pending, result⟩ := bind_eq_ok.mp handled
  have kept := pendingType_hart pending
  suffices (∃ mode, Enters ⟨.poll, m⟩ after mode) ∨ polled.hart = m.hart from
    this.imp_right fun same => ⟨by rw [machine.2, same], by rw [machine.1, same]⟩
  by_cases none : type = .none
  · simp only [none, if_true, pure_eq_ok, Except.ok.injEq, Prod.mk.injEq] at result
    exact .inr (result.2 ▸ kept)
  · by_cases both : m.hart.GlobalOn (intrNextPriv m.hart type) ∧ m.hart.IrqEnabled type
    · exact .inl ⟨_, .interrupt type ⟨rfl, ⟨found, pending⟩, none, both.1, both.2⟩⟩
    · -- An interrupt that is not enabled is left pending.
      simp only [none, if_false, kept, Hart.takeInterrupt_eq, if_neg both, pure_eq_ok,
        Except.ok.injEq, Prod.mk.injEq] at result
      exact .inr (by rw [← result.2])

/-- A fetch enters the trap of its page fault, or leaves the control registers and the mode alone. -/
theorem fetch_advance_cases {m : Machine} (advanced : advance host ⟨.fetch, m⟩ = .ok after) :
    (∃ mode, Enters ⟨.fetch, m⟩ after mode) ∨
      (after.machine.hart.priv = m.hart.priv ∧ after.machine.hart.csr = m.hart.csr) := by
  obtain ⟨⟨vector, inst, ready⟩, fetched, result⟩ := bind_eq_ok.mp advanced
  -- The turn goes on or ends, and neither touches what the fetch left.
  have machine : after.machine.hart.csr = ready.hart.csr ∧
      after.machine.hart.priv = ready.hart.priv := by
    dsimp only at result
    split at result
    all_goals
      cases Except.ok.inj result
      exact ⟨rfl, rfl⟩
  rcases fetch_cases fetched with ⟨_, same⟩ | ⟨tval, raised⟩
  · exact .inr ⟨by rw [machine.2, same], by rw [machine.1, same]⟩
  · exact .inl ⟨_, .exception (by simp) _ tval vector _ raised machine.1 machine.2⟩

/-- An instruction enters a trap, returns from one, or changes control registers that it names. -/
theorem perform_cases {inst : BitVec 32} {m : Machine}
    (advanced : advance host ⟨.perform inst, m⟩ = .ok after) :
    (∃ mode, Enters ⟨.perform inst, m⟩ after mode) ∨ (∃ mode, Returns ⟨.perform inst, m⟩ mode) ∨
      (after.machine.hart.priv = m.hart.priv ∧
        (after.machine.hart.csr = m.hart.csr ∨ SetsCsr ⟨.perform inst, m⟩)) := by
  obtain ⟨performed, completed, result⟩ := bind_eq_ok.mp advanced
  cases Except.ok.inj result
  obtain ⟨⟨nextPc, d⟩, decoded, executes⟩ := bind_eq_ok.mp completed
  obtain ⟨⟨retPc, executed⟩, ran, moved⟩ := bind_eq_ok.mp executes
  cases Except.ok.inj moved
  obtain ⟨locals, switched, written⟩ := bind_eq_ok.mp ran
  obtain ⟨_, _, priv, csr, _⟩ := writeBack_kept written
  -- The write of the result register changes neither, so the switch decides.
  cases executeOp_outcome switched with
  | next kept | relative _ kept | jalr _ kept =>
    exact .inr (.inr ⟨priv.trans (congrArg Hart.priv kept), .inl (csr.trans (congrArg Hart.csr kept))⟩)
  | csr type op ret updated =>
    refine .inr (.inr ⟨?_, .inr ⟨inst, nextPc, d, type, rfl, decoded, op⟩⟩)
    rcases csrUpdate_cases updated with ⟨_, impossible, _⟩ | ⟨old, _, _, stored⟩
    · cases impossible
    · exact priv.trans ((congrArg Hart.priv stored).trans (Hart.setCsr_priv ..))
  | except flag cause tval raised =>
    exact .inl ⟨_, .exception (by simp) cause tval _ _ raised csr priv⟩
  | sret op => exact .inr (.inl ⟨sMode, inst, nextPc, d, rfl, decoded, op⟩)
  | mret op => exact .inr (.inl ⟨mMode, inst, nextPc, d, rfl, decoded, op⟩)

/-- Apart from traps and returns only instructions that name a control register change one. -/
theorem advance_cases (advanced : before.advance host = .ok after) :
    (∃ mode, Enters before after mode) ∨ (∃ mode, before.Returns mode) ∨
      (after.machine.hart.priv = before.machine.hart.priv ∧
        (after.machine.hart.csr = before.machine.hart.csr ∨ before.SetsCsr)) := by
  obtain ⟨point, m⟩ := before
  -- Each part of a turn has its own way to change the control registers.
  cases point with
  | poll =>
    rcases poll_cases advanced with enters | ⟨priv, csr⟩
    · exact .inl enters
    · exact .inr (.inr ⟨priv, .inl csr⟩)
  | fetch =>
    rcases fetch_advance_cases advanced with enters | ⟨priv, csr⟩
    · exact .inl enters
    · exact .inr (.inr ⟨priv, .inl csr⟩)
  | perform inst => exact perform_cases advanced

end Steps

mutual

/-- A trap with its handler leaves the registers alone that the handler has to spare. -/
theorem Bracket.spares {mode : BitVec 2} {before after : Loop} {events : List Event} :
    Bracket mode before events after → SameCsrs (sparedCsrs mode) before after
  | .trap entering enters _ restores leaves returns returning => fun addr member => by
    have spared := List.mem_append_right (ownCsrs mode) member
    rw [returns.spares returning addr member, leaves.same addr spared, restores addr spared,
      enters.spares entering addr member]

/-- On its way to its return a handler keeps the registers the return goes by. -/
theorem Leaves.same {held : List (BitVec 12)} {before after : Loop} {events : List Event} :
    Leaves held before events after → SameCsrs held before after
  | .done => fun _ _ => rfl
  | .move _ same leaves => fun addr member => by
    rw [leaves.same addr member, same addr member]
  | .nested spared bracket leaves => fun addr member => by
    rw [leaves.same addr member, bracket.spares addr (spared member)]

end

/-- The return that matches a trap gives back what the trap interrupted. -/
theorem Bracket.resumes {mode : BitVec 2} {before after : Loop} {events : List Event}
    (ordinary : before.machine.hart.InMode) (bracket : Bracket mode before events after) :
    after.point = .poll ∧ Resumes mode before.machine.hart.pc before.machine.hart
      after.machine.hart after.machine.hart.pc := by
  obtain @⟨_, _, opened, restored, closing, _, _, _, _, _, entering, enters, _, restores, leaves,
    returns, returning⟩ := bracket
  obtain ⟨start, cause, tval, startPriv, startCsr, entered⟩ := enters.trapEnter entering
  have kept : ∀ addr ∈ ownCsrs mode, closing.machine.hart.csr addr =
      (Xemu.trapEnter start before.machine.hart.pc mode cause tval).2.csr addr := by
    intro addr member
    have own := List.mem_append_left (sparedCsrs mode) member
    rw [leaves.same addr own, restores addr own, entered]
  have epc := kept _ (List.mem_cons_self ..)
  have status := kept _ (List.mem_cons_of_mem _ (List.mem_cons_self ..))
  obtain ⟨point, goesOn, priv, csr⟩ := returns.advance returning
  refine ⟨point, ?_⟩
  have undone : Resumes mode before.machine.hart.pc start (trapExit mode closing.machine.hart).2
      (trapExit mode closing.machine.hart).1 := by
    rcases enters.target with ⟨rfl, below⟩ | rfl
    · refine trapExitSret_resumes ?_ epc status
      rw [startPriv]
      rcases ordinary with user | supervisor | machine
      · exact .inl user
      · exact .inr supervisor
      · exact absurd machine below
    · exact trapExitMret_resumes epc status
  -- The pending bit set on entry is in neither of the registers the result speaks of.
  have pending : trapStatus mode ≠ trapIp mode := by
    rcases enters.target with ⟨rfl, _⟩ | rfl <;> decide
  refine .of_others (goesOn.trans undone.goesOn) ?_ fun place other => ?_
  · rw [priv, undone.priv, startPriv]
  · rw [csr, undone.others place other, startCsr _ pending]

/-- An interrupt that has a handler's address is taken in a turn that reaches no instruction. -/
theorem Takes.reaches_none {loop opened : Loop} {type : IntrType} {first host : Host}
    (takes : loop.Takes type) (loud : loop.Loud) (entering : loop.advance first = .ok opened)
    {ready : Machine} {nextPc : BitVec 64} {d : Decoded} :
    ¬ loop.machine.Ready host ready nextPc d := by
  rintro ⟨polled, inst, handled, _⟩
  obtain ⟨trapped, taken, _⟩ := takes.advance entering
  rw [taken, Hart.enterInterrupt, trapEnter_vector] at handled
  -- The pending bit is in another register than the handler's address.
  have unchanged : (loop.machine.hart.setPending type
      (intrNextPriv loop.machine.hart type)).csr
        (trapVector (intrNextPriv loop.machine.hart type)) =
      loop.machine.hart.csr (trapVector (intrNextPriv loop.machine.hart type)) := by
    rw [Hart.setPending, Hart.setCsr_csr, Function.update_of_ne]
    rcases intrNextPriv_cases loop.machine.hart type with mode | mode <;> rw [mode] <;> decide
  rw [unchanged] at handled
  exact loud type takes (Prod.mk.inj (Except.ok.inj handled)).1

end Loop

/--
In a run that enters no interrupt silently every trap is undone by the return that matches it.

The turn that takes an interrupt reaches no instruction, so the one interrupted is executed once.
-/
theorem traps_resume {first before after : Loop} {mode : BitVec 2} {earlier during : List Event}
    (loud : Runs.Along Loop.next (fun _ loop => loop.Loud) first (earlier ++ during))
    (ran : Runs.run Loop.next first earlier = .ok before)
    (ordinary : before.machine.hart.InMode) (bracket : Loop.Bracket mode before during after) :
    after.point = .poll ∧
      Resumes mode before.machine.hart.pc before.machine.hart after.machine.hart
        after.machine.hart.pc ∧
      ((∃ type, before.Takes type) →
        ∀ host ready nextPc d, ¬ before.machine.Ready host ready nextPc d) := by
  obtain ⟨point, resumes⟩ := bracket.resumes ordinary
  refine ⟨point, resumes, fun ⟨type, takes⟩ host ready nextPc d => ?_⟩
  obtain ⟨entering, _⟩ := bracket
  exact takes.reaches_none (loud.drop ran).1 entering

/-! ### Single traps -/

namespace Loop

/-- The class of the interrupt that the check takes next, if any. -/
def taken (loop : Loop) : Option IntrType :=
  match loop.point, loop.machine.pendingType with
  | .poll, .ok (type, _) =>
    if type ≠ .none ∧ loop.machine.hart.GlobalOn (intrNextPriv loop.machine.hart type) ∧
      loop.machine.hart.IrqEnabled type then some type else none
  | _, _ => none

/-- What is computed is what the check takes. -/
theorem taken_eq_some {loop : Loop} {type : IntrType} :
    loop.taken = some type ↔ loop.Takes type := by
  obtain ⟨point, m⟩ := loop
  -- The computation tests the conditions in the order in which the source does.
  constructor
  · intro found
    unfold taken at found
    split at found
    · rename_i other polled atPoll pending
      split at found
      · rename_i admitted
        cases Option.some.inj found
        exact ⟨atPoll, ⟨polled, pending⟩, admitted.1, admitted.2.1, admitted.2.2⟩
      · cases found
    · cases found
  · rintro ⟨rfl, ⟨polled, pending⟩, some, globalOn, enabled⟩
    simp only [taken, pending]
    exact if_pos ⟨some, globalOn, enabled⟩

/-- A test that no interrupt taken next has its handler at zero. -/
def loudTest (loop : Loop) : Bool :=
  loop.taken.all fun type =>
    loop.machine.hart.csr (trapVector (intrNextPriv loop.machine.hart type)) ≠ 0

/-- Where the test succeeds nothing is taken silently. -/
theorem loud_of_test {loop : Loop} (tested : loop.loudTest) : loop.Loud := by
  intro type takes
  rw [loudTest, taken_eq_some.mpr takes] at tested
  exact of_decide_eq_true tested

/-- The operation that is executed next, if any. -/
def executed (loop : Loop) : Option Op :=
  match loop.point with
  | .perform inst => (decode loop.machine.hart.pc inst).toOption.map fun result => result.2.op
  | _ => none

/-- The operation found is the return instruction. -/
theorem returns_of_executed {loop : Loop} {mode : BitVec 2}
    (found : loop.executed = some (if mode = sMode then .sret else .mret)) :
    loop.Returns mode := by
  obtain ⟨point, m⟩ := loop
  -- Only the last part of a turn executes an instruction.
  cases point with
  | poll | fetch => cases found
  | perform inst =>
    cases decoded : decode m.hart.pc inst with
    | error stop =>
      simp only [executed, decoded] at found
      cases found
    | ok result =>
      simp only [executed, decoded] at found
      exact ⟨inst, result.1, result.2, rfl, decoded, Option.some.inj found⟩

/-- A test behind so many parts of a turn that keep some registers. -/
def keepsTest (held : List (BitVec 12)) (rest : Loop → Bool) : Nat → Loop → Bool
  | 0, loop => rest loop
  | count + 1, loop => (loop.advance {}).toOption.any fun after =>
    held.all (fun addr => after.machine.hart.csr addr = loop.machine.hart.csr addr) &&
      keepsTest held rest count after

/-- Where the test succeeds the registers are kept up to a state that passes the rest. -/
theorem keeps_of_test {held : List (BitVec 12)} {rest : Loop → Bool} {count : Nat} {loop : Loop}
    (tested : keepsTest held rest count loop) :
    ∃ middle, rest middle ∧ ∀ events after, Leaves held middle events after →
      Leaves held loop (turns count ++ events) after := by
  -- Every part of the handler is run once, and the registers are compared after it.
  induction count generalizing loop with
  | zero => exact ⟨loop, tested, fun _ _ leaves => leaves⟩
  | succ count ih =>
    obtain ⟨after, moved, kept⟩ := ok_of_test tested
    obtain ⟨same, later⟩ := Bool.and_eq_true_iff.mp kept
    obtain ⟨middle, passed, way⟩ := ih later
    have part : next (.hart {}) loop = .ok after := moved
    refine ⟨middle, passed, fun events last leaves => ?_⟩
    refine .move part (fun addr member => ?_) (way events last leaves)
    exact of_decide_eq_true (List.all_eq_true.mp same addr member)

/-- A test behind the return of a mode, which is executed next. -/
def returnsTest (mode : BitVec 2) (rest : Loop → Bool) (loop : Loop) : Bool :=
  loop.executed = some (if mode = sMode then .sret else .mret) &&
    (loop.advance {}).toOption.any rest

/-- Where the test succeeds the return is executed and completes. -/
theorem returns_of_test {mode : BitVec 2} {rest : Loop → Bool} {loop : Loop}
    (tested : returnsTest mode rest loop) :
    loop.Returns mode ∧ ∃ after, loop.advance {} = .ok after ∧ rest after := by
  obtain ⟨found, completes⟩ := Bool.and_eq_true_iff.mp tested
  exact ⟨returns_of_executed (of_decide_eq_true found), ok_of_test completes⟩

/-- The registers of a mode that its handler puts back, and those that it spares. -/
def heldCsrs (mode : BitVec 2) : List (BitVec 12) := ownCsrs mode ++ sparedCsrs mode

/-- A test of an interrupt whose handler does as another test says. -/
def entersTest (type : IntrType) (handler : Loop → Bool) (loop : Loop) : Bool :=
  loop.taken = some type && (loop.advance {}).toOption.any handler

/-- A handler that is entered and left again makes a trap. -/
theorem enters_of_test {type : IntrType} {handler rest : Loop → Bool} {loop : Loop}
    {leave : List Event}
    (leaves : ∀ opened, handler opened → ∃ closing after,
      Leaves (heldCsrs (intrNextPriv loop.machine.hart type)) opened leave closing ∧
        closing.Returns (intrNextPriv loop.machine.hart type) ∧
        closing.advance {} = .ok after ∧ rest after)
    (tested : loop.entersTest type handler) :
    loop.Takes type ∧ ∃ after, rest after ∧
      Bracket (intrNextPriv loop.machine.hart type) loop
        (.hart {} :: ([] ++ (leave ++ [.hart {}]))) after := by
  obtain ⟨found, entered⟩ := Bool.and_eq_true_iff.mp tested
  have takes := taken_eq_some.mp (of_decide_eq_true found)
  -- The first part enters the trap, and the rest of the test runs the handler.
  obtain ⟨opened, entering, handled⟩ := ok_of_test entered
  obtain ⟨closing, after, leaves, returns, returning, passed⟩ := leaves opened handled
  exact ⟨takes, after, passed,
    .trap entering (.interrupt type takes) rfl (fun _ _ => rfl) leaves returns returning⟩

/-- A test of an interrupt in machine mode whose handler keeps its registers, and of what follows. -/
def bracketTest (type : IntrType) (count : Nat) (rest : Loop → Bool) (loop : Loop) : Bool :=
  intrNextPriv loop.machine.hart type = mMode &&
    loop.entersTest type (keepsTest (heldCsrs mMode) (returnsTest mMode rest) count)

/-- The events of such an interrupt. -/
def bracketEvents (count : Nat) : List Event :=
  .hart {} :: ([] ++ ((turns count ++ []) ++ [.hart {}]))

/-- Where the test succeeds the interrupt makes a trap. -/
theorem bracket_of_test {type : IntrType} {count : Nat} {rest : Loop → Bool} {loop : Loop}
    (tested : loop.bracketTest type count rest) :
    loop.Takes type ∧ ∃ after, rest after ∧ Bracket mMode loop (bracketEvents count) after := by
  obtain ⟨target, entered⟩ := Bool.and_eq_true_iff.mp tested
  have mode := of_decide_eq_true target
  have enters := @enters_of_test type _ rest loop (turns count ++ []) (fun opened handled => by
    obtain ⟨closing, returning, way⟩ := keeps_of_test handled
    obtain ⟨returns, after, returned, passed⟩ := returns_of_test returning
    rw [mode]
    exact ⟨closing, after, way [] closing .done, returns, returned, passed⟩) entered
  rwa [mode] at enters

/-- A test of an interrupt to the supervisor in whose handler the machine takes another one. -/
def nestedTest (type : IntrType) (first : Nat) (other : IntrType) (inner last : Nat)
    (loop : Loop) : Bool :=
  intrNextPriv loop.machine.hart type = sMode &&
    loop.entersTest type (keepsTest (heldCsrs sMode) (bracketTest other inner
      (keepsTest (heldCsrs sMode) (returnsTest sMode fun _ => true) last)) first)

/-- The events of both interrupts. -/
def nestedEvents (first inner last : Nat) : List Event :=
  .hart {} :: ([] ++ ((turns first ++ (bracketEvents inner ++ (turns last ++ []))) ++ [.hart {}]))

/-- Where the test succeeds the outer interrupt makes a trap with the other one in it. -/
theorem nested_of_test {type other : IntrType} {first inner last : Nat} {loop : Loop}
    (tested : loop.nestedTest type first other inner last) :
    loop.Takes type ∧ ∃ after, Bracket sMode loop (nestedEvents first inner last) after := by
  obtain ⟨target, entered⟩ := Bool.and_eq_true_iff.mp tested
  have mode := of_decide_eq_true target
  have enters := @enters_of_test type _ (fun _ => true) loop
    (turns first ++ (bracketEvents inner ++ (turns last ++ []))) (fun opened handled => by
      obtain ⟨middle, nests, way⟩ := keeps_of_test handled
      obtain ⟨-, resumed, goes, bracket⟩ := bracket_of_test nests
      obtain ⟨closing, returning, rest⟩ := keeps_of_test goes
      obtain ⟨returns, after, returned, passed⟩ := returns_of_test returning
      rw [mode]
      -- The machine's handler spares the registers that the supervisor's return goes by.
      exact ⟨closing, after, way _ _ (.nested (by decide) bracket (rest [] closing .done)), returns,
        returned, passed⟩) entered
  rw [mode] at enters
  obtain ⟨takes, after, -, bracket⟩ := enters
  exact ⟨takes, after, bracket⟩

end Loop

/--
A timer interrupt goes to the supervisor, whose handler raises the software interrupt of the machine.

The handler of that one lowers the line again and returns into the handler of the first.
-/
def nestedProgram : List (BitVec 32) :=
  [0x00000297, 0x06428313, 0x30531073, -- auipc t0, 0; addi t1, t0, 100; csrw mtvec, t1
    0x05428313, 0x10531073, -- addi t1, t0, 84; csrw stvec, t1
    0x05028313, 0x34131073, -- addi t1, t0, 80; csrw mepc, t1
    0x020003b7, 0x02004e37, 0x00100313, -- lui t2, 0x2000; lui t3, 0x2004; li t1, 1
    0x02000e93, 0x303e9073, 0x104e9073, -- li t4, 32; csrw mideleg, t4; csrw sie, t4
    0x30445073, 0x00001f37, 0x880f0f13, -- csrwi mie, 8; lui t5, 1; addi t5, t5, -1920
    0x300f1073, 0x10015073, -- csrw mstatus, t5; csrwi sstatus, 2
    0x000e3023, 0x30200073, 0x00000013, -- sd zero, (t3); mret; nop
    0xfff00f93, 0x01fe3023, 0x0063a023, 0x10200073, -- li t6, -1; sd t6, (t3); sw t1, (t2); sret
    0x0003a023, 0x30200073] -- sw zero, (t2); mret

/-- The program is run to the supervisor's first instruction, before which the timer fires. -/
def nestedEarlier : List Event := turns 60 ++ [.timer {}]

/-- The timer interrupt returns to the instruction before which it was taken, the other one within. -/
theorem traps_resume_nested :
    ∃ before after : Loop, before.Takes .timer ∧
      Loop.Bracket sMode before (Loop.nestedEvents 9 5 2) after ∧
      Resumes sMode before.machine.hart.pc before.machine.hart after.machine.hart
        after.machine.hart.pc := by
  -- The program is run up to the turn that takes the interrupt, and both handlers after it.
  obtain ⟨before, ran, tested⟩ := @ok_of_test _
    (Runs.run Loop.next ⟨.poll, .boot nestedProgram⟩ nestedEarlier)
    (fun loop => loop.nestedTest .timer 9 .software 5 2 && loop.machine.hart.priv = sMode)
    (by decide +kernel)
  simp only [Bool.and_eq_true, decide_eq_true_eq] at tested
  obtain ⟨test, supervisor⟩ := tested
  obtain ⟨takes, after, bracket⟩ := Loop.nested_of_test test
  have loud : Runs.Along Loop.next (fun _ loop => loop.Loud) ⟨.poll, .boot nestedProgram⟩
      (nestedEarlier ++ Loop.nestedEvents 9 5 2) :=
    Runs.along_of_testAlong Loop.loudTest (fun _ => Loop.loud_of_test) (by decide +kernel)
  exact ⟨before, after, takes, bracket,
    (traps_resume loud ran (.inr (.inl supervisor)) bracket).2.1⟩

/-- Enables and raises the software interrupt with no handler, before an addition and a return. -/
def silentProgram : List (BitVec 32) :=
  [0x020003b7, 0x00100313, 0x0063a023, -- lui t2, 0x2000; li t1, 1; sw t1, (t2)
    0x30445073, 0x30045073, -- csrwi mie, 8; csrwi mstatus, 8
    0x00128293, 0x30200073] -- addi t0, t0, 1; mret

/-- With no handler the addition is executed inside the trap, whose return goes back to it. -/
theorem silent_interrupt_repeats :
    ¬ ∀ (first before after : Loop) (mode : BitVec 2) (earlier during : List Event),
      Runs.run Loop.next first earlier = .ok before → before.machine.hart.InMode →
      Loop.Bracket mode before during after →
      after.point = .poll ∧
        Resumes mode before.machine.hart.pc before.machine.hart after.machine.hart
          after.machine.hart.pc ∧
        ((∃ type, before.Takes type) →
          ∀ host ready nextPc d, ¬ before.machine.Ready host ready nextPc d) := by
  intro always
  -- With an empty vector the check returns zero, and the turn goes on to the addition.
  obtain ⟨before, ran, tested⟩ := @ok_of_test _
    (Runs.run Loop.next ⟨.poll, .boot silentProgram⟩ (turns 15))
    (fun loop => loop.bracketTest .software 4 (fun _ => true) && loop.machine.hart.priv = mMode &&
      (loop.machine.findReady {}).toOption.join.any fun found => found.2.2.op = .addi)
    (by decide +kernel)
  simp only [Bool.and_eq_true, decide_eq_true_eq] at tested
  obtain ⟨⟨test, machine⟩, executes⟩ := tested
  obtain ⟨takes, after, -, bracket⟩ := Loop.bracket_of_test test
  obtain ⟨ready, nextPc, d, started, _⟩ := Machine.ready_of_test executes
  exact (always _ before after _ _ _ ran (.inr (.inr machine)) bracket).2.2 ⟨.software, takes⟩ {}
    ready nextPc d started

end Xemu
