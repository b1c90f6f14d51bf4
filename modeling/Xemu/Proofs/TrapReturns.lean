import Xemu.Machine.Outcome

/-! What the two returns from a trap leave of the status word, and where a second one leads. -/

namespace Xemu

/-- The two instructions that return from a trap. -/
inductive TrapReturn where
  | sret
  | mret
  deriving DecidableEq, Repr

namespace TrapReturn

/-- The operation of a return. -/
def op : TrapReturn → Op
  | sret => .sret
  | mret => .mret

/-- The part of `trap_exit` for a return. -/
def exit (kind : TrapReturn) (hart : Hart) : BitVec 64 × Hart :=
  match kind with
  | sret => trapExitSret hart
  | mret => trapExitMret hart

/-- The status register that a return works on. -/
def status : TrapReturn → BitVec 12
  | sret => sstatus
  | mret => mstatus

/-- The place of the enable bit. -/
def enablePos : TrapReturn → Nat
  | sret => bitSiePos
  | mret => bitMiePos

/-- The place of the bit that keeps the enable bit of before the trap. -/
def previousEnablePos : TrapReturn → Nat
  | sret => bitSpiePos
  | mret => bitMpiePos

/-- The lowest place of the field that keeps the mode of before the trap. -/
def modePos : TrapReturn → Nat
  | sret => bitSppPos
  | mret => 11

/-- The highest place of that field, which for the supervisor is one bit wide. -/
def modeTop : TrapReturn → Nat
  | sret => bitSppPos
  | mret => 12

/-- The mode of before the trap. -/
def previousMode (kind : TrapReturn) (word : BitVec 64) : BitVec 2 :=
  (word.extractLsb kind.modeTop kind.modePos).setWidth 2

/-- What a return is to do with the mode and the status word. -/
structure Returns (kind : TrapReturn) (hart after : Hart) : Prop where
  mode : after.priv = kind.previousMode (hart.csr kind.status)
  enable : (after.csr kind.status).getLsbD kind.enablePos =
    (hart.csr kind.status).getLsbD kind.previousEnablePos
  previousEnable : (after.csr kind.status).getLsbD kind.previousEnablePos = true
  previousMode : kind.previousMode (after.csr kind.status) = uMode
  others : ∀ i, i ≠ kind.enablePos → i ≠ kind.previousEnablePos →
    ¬ (kind.modePos ≤ i ∧ i ≤ kind.modeTop) →
    (after.csr kind.status).getLsbD i = (hart.csr kind.status).getLsbD i

/-- Of two returns in a row, with the status word left alone between them, one leads to user mode. -/
def EndsInUser (kind : TrapReturn) (after : Hart) : Prop :=
  ∀ (host : Host) (m : Machine) (pc nextPc vector : BitVec 64) (d : Decoded) (last : Machine),
    m.hart.csr kind.status = after.csr kind.status → d.op = kind.op →
    execute host m pc nextPc d = .ok (vector, last) → after.priv = uMode ∨ last.hart.priv = uMode

/-- An instruction that returns from a trap does so as it is to, now and a second time. -/
def ReturnsRight (kind : TrapReturn) (host : Host) (m : Machine) (pc nextPc : BitVec 64)
    (d : Decoded) : Prop :=
  ∃ vector after, execute host m pc nextPc d = .ok (vector, after) ∧
    kind.Returns m.hart after.hart ∧ kind.EndsInUser after.hart

/-! ### What the code does -/

section Code

variable (kind : TrapReturn) (hart : Hart)

/-- The code goes on in the mode of before the trap. -/
theorem exit_priv : (kind.exit hart).2.priv = kind.previousMode (hart.csr kind.status) := by
  cases kind with
  | sret =>
    -- The mode is chosen by the one bit, which is its number.
    change (if bit (hart.csr sstatus) bitSppPos ≠ 0 then sMode else uMode) =
      ((hart.csr sstatus).extractLsb 8 8).setWidth 2
    rw [bit_eq]
    apply BitVec.eq_of_getLsbD_eq
    intro i below
    have places : i = 0 ∨ i = 1 := by omega
    rcases places with rfl | rfl
    · cases set : (hart.csr sstatus)[8] <;> simp [bitSppPos, set, sMode, uMode]
    · cases set : (hart.csr sstatus)[8] <;> simp [bitSppPos, set, sMode, uMode]
  | mret =>
    -- The two bits of the field are the number of the mode.
    change ((((hart.csr mstatus).extractLsb 12 11).setWidth 64).setWidth 2 : BitVec 2) =
      ((hart.csr mstatus).extractLsb 12 11).setWidth 2
    exact BitVec.setWidth_setWidth_of_le _ (by decide)

/-- Of the status word the code changes the enable bit alone. -/
theorem exit_status (i : Nat) :
    ((kind.exit hart).2.csr kind.status).getLsbD i =
      if i = kind.enablePos then (hart.csr kind.status).getLsbD kind.previousEnablePos
      else (hart.csr kind.status).getLsbD i := by
  -- Both returns assign one bit of their own word and write that back.
  cases kind with
  | sret =>
    have word : (trapExitSret hart).2.csr sstatus =
        setBit (hart.csr sstatus) bitSiePos (bit (hart.csr sstatus) bitSpiePos) := by simp [trapExitSret]
    rw [exit, status, word, bit_eq, getLsbD_setBit _ _ (by decide)]
    rfl
  | mret =>
    have word : (trapExitMret hart).2.csr mstatus =
        setBit (hart.csr mstatus) bitMiePos (bit (hart.csr mstatus) bitMpiePos) := by simp [trapExitMret]
    rw [exit, status, word, bit_eq, getLsbD_setBit _ _ (by decide)]
    rfl

/-- So the field with the mode is left as it was. -/
theorem exit_previousMode :
    kind.previousMode ((kind.exit hart).2.csr kind.status) =
      kind.previousMode (hart.csr kind.status) := by
  apply BitVec.eq_of_getLsbD_eq
  intro i below
  -- The enable bit lies below the field.
  have apart : kind.modePos + i ≠ kind.enablePos := by
    cases kind
    · change 8 + i ≠ 1
      omega
    · change 11 + i ≠ 3
      omega
  rw [previousMode, previousMode, BitVec.getLsbD_setWidth, BitVec.getLsbD_setWidth,
    BitVec.getLsbD_extractLsb, BitVec.getLsbD_extractLsb, exit_status, if_neg apart]

variable {kind hart} (host : Host) (m : Machine) (pc nextPc : BitVec 64) {d : Decoded}

/-- The instruction goes on where the mode of before the trap was left, with that hart's registers. -/
theorem execute_return (op : d.op = kind.op) :
    ∃ after, execute host m pc nextPc d = .ok ((kind.exit m.hart).1, after) ∧
      after.hart.priv = (kind.exit m.hart).2.priv ∧ after.hart.csr = (kind.exit m.hart).2.csr := by
  -- The case of a return leaves with what the exit from the trap computes.
  have ran : executeOp host m pc nextPc d =
      ({ m, retPc := nextPc, rdVal := host.rdVal } : Locals).leave (kind.exit m.hart) := by
    rw [executeOp, op]
    cases kind <;> rfl
  -- The tail may write an integer register, and neither the mode nor a control register.
  rw [execute, ran, Locals.leave, ok_bind, writeBack_rd rfl rfl]
  refine ⟨_, rfl, ?_, ?_⟩
  · dsimp only
    split <;> rfl
  · dsimp only
    split <;> rfl

end Code

/-- Of two returns in a row one leads to user mode only if the first of them does. -/
theorem endsInUser_iff {host : Host} {m after : Machine} {pc nextPc vector : BitVec 64}
    {d : Decoded} {kind : TrapReturn} (op : d.op = kind.op)
    (ran : execute host m pc nextPc d = .ok (vector, after)) :
    kind.EndsInUser after.hart ↔ kind.previousMode (m.hart.csr kind.status) = uMode := by
  obtain ⟨first, executed, mode, csr⟩ := execute_return host m pc nextPc op
  cases Except.ok.inj (executed.symm.trans ran)
  constructor
  · intro ends
    -- The second return finds the field as the first one left it.
    obtain ⟨last, again, lastMode, -⟩ := execute_return host after pc nextPc op
    have same := kind.exit_previousMode m.hart
    rcases ends host after pc nextPc _ d last rfl op again with user | user
    · rw [← user, mode, exit_priv]
    · rw [← user, lastMode, exit_priv, csr, same]
  · intro user _ _ _ _ _ _ _ _ _ _
    -- The first return leads to user mode, so the second does not matter.
    exact .inl (mode.trans ((exit_priv ..).trans user))

end TrapReturn

/-! ### The result -/

open TrapReturn in
/--
A return leaves the status word it is to leave exactly where two fields have their values already.

The bit that keeps the enable bit has to be set, and the mode of before the trap to be user mode,
since the code leaves both as they are. It is the mode that decides about a second return.
-/
theorem trap_return_iff {kind : TrapReturn} {host : Host} {m : Machine} {pc nextPc : BitVec 64}
    {d : Decoded} (op : d.op = kind.op) :
    kind.ReturnsRight host m pc nextPc d ↔
      (m.hart.csr kind.status).getLsbD kind.previousEnablePos = true ∧
        kind.previousMode (m.hart.csr kind.status) = uMode := by
  obtain ⟨after, ran, mode, csr⟩ := execute_return host m pc nextPc op
  have status (i : Nat) : (after.hart.csr kind.status).getLsbD i =
      if i = kind.enablePos then (m.hart.csr kind.status).getLsbD kind.previousEnablePos
      else (m.hart.csr kind.status).getLsbD i := by
    rw [csr]
    exact exit_status kind m.hart i
  have apart : kind.previousEnablePos ≠ kind.enablePos := by cases kind <;> decide
  constructor
  · rintro ⟨vector, other, executed, returns, ends⟩
    cases Except.ok.inj (executed.symm.trans ran)
    -- The bit is not assigned, so what it has to be after the return it was before.
    have set := returns.previousEnable
    rw [status, if_neg apart] at set
    exact ⟨set, (endsInUser_iff op ran).mp ends⟩
  · rintro ⟨set, user⟩
    refine ⟨_, after, ran, ⟨mode.trans (exit_priv ..), ?_, ?_, ?_, ?_⟩,
      (endsInUser_iff op ran).mpr user⟩
    · rw [status, if_pos rfl]
    · rw [status, if_neg apart, set]
    · rw [csr, exit_previousMode, user]
    · intro i enable _ _
      -- Of the other bits none is assigned.
      rw [status, if_neg enable]

/-- The instruction that returns to the caller of the machine. -/
def returnInst : Decoded := { op := .mret, rd := 0, rs1 := 0, rs2 := 0, imm := 0, csrAddr := 0 }

/-- A hart in machine mode with a word in its status register. -/
def returningMachine (word : BitVec 64) : Machine :=
  let m := Machine.reset (.zeroed 0) (.zeroed 0x100) (.zeroed 0)
  { m with hart := m.hart.setCsr mstatus word }

/-- A return to user mode, in a hart whose interrupts were on before the trap. -/
theorem trap_return_iff_user :
    TrapReturn.mret.ReturnsRight {} (returningMachine 0x80) 0x1000 0x1004 returnInst :=
  (trap_return_iff rfl).mpr ⟨by decide, by decide⟩

/-- After a return to the machine a second one leads there again. -/
theorem machine_returned_to_twice :
    ¬ ∀ (kind : TrapReturn) (host : Host) (m : Machine) (pc nextPc : BitVec 64) (d : Decoded),
      d.op = kind.op → kind.ReturnsRight host m pc nextPc d := by
  intro always
  -- The status word names machine mode, and goes on naming it.
  obtain ⟨vector, after, ran, -, ends⟩ :=
    always .mret {} (returningMachine 0x1880) 0x1000 0x1004 returnInst rfl
  have user := (TrapReturn.endsInUser_iff rfl ran).mp ends
  revert user
  decide

end Xemu
