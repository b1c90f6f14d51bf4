import Mathlib.Data.Set.Function
import Xemu.Machine.Indeterminate
import Xemu.Machine.Outcome
import Xemu.Machine.Program
import Xemu.Proofs.Coverage

/-! An instruction writes its destination register alone, but for the words that have none. -/

namespace Xemu

/-! ### The registers an instruction may write -/

/-- The registers of a file that an instruction may write, which never include register zero. -/
def Decoded.targets (d : Decoded) : RegFile → Set (BitVec 5)
  | .integer => { r | r = d.rd ∧ r ≠ 0 ∧ d.op.destination = some .integer }
  | .float => { r | r = d.rd ∧ d.op.destination = some .float }

/-- An instruction without a destination may write no register. -/
theorem Decoded.targets_empty {d : Decoded} (bare : d.op.destination = none) (file : RegFile) :
    d.targets file = ∅ := by
  cases file <;> simp [targets, bare]

/-- An instruction has written what it may, and the same whatever the unassigned local held. -/
structure Frame (host : Host) (m : Machine) (pc nextPc : BitVec 64) (d : Decoded)
    (retPc : BitVec 64) (after : Machine) : Prop where
  integer : Set.EqOn after.hart.reg m.hart.reg (d.targets .integer)ᶜ
  float : Set.EqOn after.hart.freg m.hart.freg (d.targets .float)ᶜ
  computed : ∀ rdVal, execute (host.withRdVal rdVal) m pc nextPc d = .ok (retPc, after)

/-- If an instruction completes, it has written no more than it may. -/
def Framed (host : Host) (m : Machine) (pc nextPc : BitVec 64) (d : Decoded) : Prop :=
  ∀ retPc after, execute host m pc nextPc d = .ok (retPc, after) →
    Frame host m pc nextPc d retPc after

/-- Branches, stores, fences and returns leave all registers as they are. -/
theorem Framed.unchanged {host : Host} {m after : Machine} {pc nextPc retPc : BitVec 64}
    {d : Decoded} (framed : Framed host m pc nextPc d) (bare : d.op.destination = none)
    (ran : execute host m pc nextPc d = .ok (retPc, after)) :
    after.hart.reg = m.hart.reg ∧ after.hart.freg = m.hart.freg := by
  obtain ⟨integer, float, -⟩ := framed retPc after ran
  -- Every register is outside the empty set.
  rw [Decoded.targets_empty bare, Set.compl_empty, Set.eqOn_univ] at integer float
  exact ⟨integer, float⟩

/-! ### The switch -/

namespace Locals

variable {host : Host} {locals after : Locals} {pc addr data value : BitVec 64} {size : Nat}

/-- A read of memory leaves the kind of destination alone. -/
theorem readMem_isFrd {params : Params} {cause : BitVec 64}
    (ran : locals.readMem host pc addr size params cause = .ok (value, after)) :
    after.isFrd = locals.isFrd := by
  obtain ⟨bus, rfl | rfl⟩ := readMem_cases ran <;> rfl

/-- So does a write. -/
theorem writeMem_isFrd {params : Params}
    (ran : locals.writeMem host pc addr size data params = .ok (value, after)) :
    after.isFrd = locals.isFrd := by
  obtain ⟨bus, rfl | rfl⟩ := writeMem_cases ran <;> rfl

/-- An integer load does. -/
theorem load_isFrd {cast : BitVec 64 → BitVec 64}
    (ran : locals.load host pc addr size cast = .ok after) : after.isFrd = locals.isFrd := by
  obtain ⟨_, read, result⟩ := bind_eq_ok.mp ran
  cases Except.ok.inj result
  exact (readMem_isFrd read :)

/-- A load-reserved does. -/
theorem loadReserved_isFrd {cast : BitVec 64 → BitVec 64}
    (ran : locals.loadReserved host pc addr size cast = .ok after) :
    after.isFrd = locals.isFrd := by
  obtain ⟨_, read, result⟩ := bind_eq_ok.mp ran
  cases Except.ok.inj result
  exact (readMem_isFrd read :)

/-- A store does. -/
theorem store_isFrd (ran : locals.store host pc addr size data = .ok after) :
    after.isFrd = locals.isFrd := by
  obtain ⟨_, written, result⟩ := bind_eq_ok.mp ran
  cases Except.ok.inj result
  exact writeMem_isFrd written

/-- A conditional store or an atomic update does. -/
theorem update_isFrd {params : Params}
    (ran : locals.update host pc addr size data params = .ok after) :
    after.isFrd = locals.isFrd := by
  obtain ⟨_, written, result⟩ := bind_eq_ok.mp ran
  cases Except.ok.inj result
  exact (writeMem_isFrd written :)

/-- An access to a control register does. -/
theorem csr_isFrd {csrAddr : BitVec 12} {type : CsrOp}
    (ran : locals.csr host pc csrAddr data type = .ok after) : after.isFrd = locals.isFrd := by
  obtain ⟨⟨_ | ret, hart⟩, _, result⟩ := bind_eq_ok.mp ran <;> cases Except.ok.inj result <;> rfl

end Locals

section Switch

variable {host : Host} {m : Machine} {pc nextPc : BitVec 64} {d : Decoded} {locals : Locals}

open Locals in
/-- The switch marks the destination as a floating-point register when it is one. -/
theorem executeOp_isFrd (ran : executeOp host m pc nextPc d = .ok locals) :
    locals.isFrd = true ↔ d.op.destination = some .float := by
  obtain ⟨op, rd, rs1, rs2, imm, csrAddr⟩ := d
  -- The instructions are grouped by the helper that computes them.
  cases op with
  | fmvWX =>
    cases Except.ok.inj ran
    exact ⟨fun _ => rfl, fun _ => rfl⟩
  | flw | fld =>
    obtain ⟨_, read, result⟩ := bind_eq_ok.mp ran
    cases Except.ok.inj result
    exact ⟨fun _ => rfl, fun _ => rfl⟩
  | lb | lh | lw | ld | lbu | lhu | lwu => simp [load_isFrd ran, Op.destination]
  | sb | sh | sw | sd | fsd => simp [store_isFrd ran, Op.destination]
  | fsw =>
    obtain ⟨data, _, stored⟩ := bind_eq_ok.mp ran
    simp [store_isFrd stored, Op.destination]
  | lrD | lrW => simp [loadReserved_isFrd ran, Op.destination]
  | scD | amoAddD | amoSwapD | amoXorD | amoOrD | amoAndD | amoMinD | amoMaxD | amoMinuD
  | amoMaxuD | scW | amoAddW | amoSwapW | amoXorW | amoOrW | amoAndW | amoMinW | amoMaxW
  | amoMinuW | amoMaxuW => simp [update_isFrd ran, Op.destination]
  | csrrw | csrrwi | csrrs | csrrsi | csrrc | csrrci => simp [csr_isFrd ran, Op.destination]
  | beq | bne | blt | bge | bltu | bgeu =>
    cases Except.ok.inj ran
    split <;> simp [Op.destination]
  | sraiw | sraw =>
    obtain ⟨value, _, result⟩ := bind_eq_ok.mp ran
    cases Except.ok.inj result
    simp [Op.destination]
  | uret | ebreak => cases ran
  | _ =>
    cases Except.ok.inj ran
    simp [Op.destination]

/-- The switch writes no register. -/
theorem executeOp_files (ran : executeOp host m pc nextPc d = .ok locals) :
    locals.m.hart.reg = m.hart.reg ∧ locals.m.hart.freg = m.hart.freg := by
  cases executeOp_outcome ran with
  | next kept _ | relative _ kept _ | jalr _ kept _ => exact kept ▸ ⟨rfl, rfl⟩
  | csr type op ret updated _ =>
    obtain ⟨_, _, same⟩ | ⟨old, _, _, same⟩ := csrUpdate_cases updated
    · exact same ▸ ⟨rfl, rfl⟩
    · exact same ▸ ⟨rfl, rfl⟩
  -- Traps and returns change control registers and the mode.
  | except flag cause tval raised =>
    have after : (raiseExcept m.hart pc cause tval).2 = locals.m.hart := congrArg Prod.snd raised
    exact after ▸ (trapEnter_kept m.hart pc _ cause tval).2
  | sret op returned =>
    have after : (trapExitSret m.hart).2 = locals.m.hart := congrArg Prod.snd returned
    exact after ▸ ⟨rfl, rfl⟩
  | mret op returned =>
    have after : (trapExitMret m.hart).2 = locals.m.hart := congrArg Prod.snd returned
    exact after ▸ ⟨rfl, rfl⟩

/-- The operations that no tail should write for complete with what the local held at the start. -/
theorem executeOp_bare (bare : d.op.bare) (breakpoint : d.op ≠ .ebreak) (return_ : d.op ≠ .uret)
    (host : Host) (m : Machine) (pc nextPc : BitVec 64) :
    ∃ locals, executeOp host m pc nextPc d = .ok locals ∧ locals.hasExcept = false ∧
      locals.isFrd = false ∧ locals.rdVal = host.rdVal := by
  obtain ⟨op, rd, rs1, rs2, imm, csrAddr⟩ := d
  cases op with
  | fence | fenceI | ecall | sret | mret | wfi | sfenceVma => exact ⟨_, rfl, rfl, rfl, rfl⟩
  | ebreak => exact absurd rfl breakpoint
  | uret => exact absurd rfl return_
  | _ => cases bare

end Switch

/-! ### The tail -/

section Tail

variable {locals : Locals} {rd : BitVec 5} {retPc : BitVec 64} {after : Machine}

/-- The tail writes one register at most, of the file that the switch has chosen. -/
theorem writeBack_files (written : locals.writeBack rd = .ok (retPc, after)) :
    (∀ r, ¬ (r = rd ∧ r ≠ 0 ∧ locals.isFrd = false) →
      after.hart.reg r = locals.m.hart.reg r) ∧
      ∀ r, ¬ (r = rd ∧ locals.isFrd = true) → after.hart.freg r = locals.m.hart.freg r := by
  -- An exception leaves both files; else the mark of the switch chooses one.
  unfold Locals.writeBack at written
  split at written
  · cases Except.ok.inj written
    exact ⟨fun _ _ => rfl, fun _ _ => rfl⟩
  · split at written
    · rename_i float
      obtain ⟨data, _, result⟩ := bind_eq_ok.mp written
      cases Except.ok.inj result
      exact ⟨fun _ _ => rfl, fun r other => Function.update_of_ne (fun same => other ⟨same, float⟩) ..⟩
    · rename_i integer
      split at written
      · rename_i named
        cases Except.ok.inj written
        refine ⟨fun r other => Function.update_of_ne (fun same => other ?_) .., fun _ _ => rfl⟩
        exact ⟨same, same ▸ named, Bool.not_eq_true _ ▸ integer⟩
      · cases Except.ok.inj written
        exact ⟨fun _ _ => rfl, fun _ _ => rfl⟩

/-- The tail does not look at the local for a floating-point register or register zero. -/
theorem writeBack_rdVal (unused : locals.isFrd = true ∨ rd = 0) (rdVal : BitVec 64) :
    (locals.withRdVal rdVal).writeBack rd = locals.writeBack rd := by
  unfold Locals.writeBack Locals.withRdVal
  split
  · rfl
  · rcases unused with float | zero
    · simp only [float, if_true]
    · -- The integer file has no register zero to write.
      simp only [zero, ne_eq, not_true_eq_false, if_false]

end Tail

/-! ### The words without a destination -/

/-- The words that keep a register field although their operation completes without a result. -/
structure StrayRd (inst : BitVec 32) : Prop where
  bare : Dec32.NoDestination inst
  named : inst.extractLsb 11 7 ≠ 0
  completes : ¬ IsSystem inst 1 ∧ ¬ IsSystem inst 2

section Words

variable {pc nextPc : BitVec 64} {inst : BitVec 32} {d : Decoded}

/-- A word of the two classes is a full word. -/
theorem long_of_noDestination (bare : Dec32.NoDestination inst) : inst &&& 0x3 = 0x3 := by
  have opcode : (inst.extractLsb 6 0).toNat = inst.toNat % 128 := by
    simp [BitVec.extractLsb_toNat]
  rw [long_iff]
  unfold Dec32.NoDestination at bare
  omega

/-- Those words are decoded as operations that complete, with a register that is not zero. -/
theorem decode_stray (stray : StrayRd inst) (decoded : decode pc inst = .ok (nextPc, d)) :
    d.op.bare ∧ d.rd ≠ 0 ∧ d.op ≠ .ebreak ∧ d.op ≠ .uret := by
  -- A word without a destination is one of four bytes, which is decoded as it stands.
  unfold decode at decoded
  rw [if_pos (long_of_noDestination stray.bare)] at decoded
  obtain ⟨long, found, result⟩ := bind_eq_ok.mp decoded
  cases Except.ok.inj result
  obtain ⟨bare, field⟩ := (Dec32.dec32_rd found).1 stray.bare
  obtain ⟨breakpoint, return_⟩ := dec32_uncovered found
  exact ⟨bare, field ▸ stray.named, stray.completes.1 ∘ breakpoint.mp,
    stray.completes.2 ∘ return_.mp⟩

/-- Every other word that completes without a result has a cleared register field. -/
theorem decode_cleared (clear : ¬ StrayRd inst) (decoded : decode pc inst = .ok (nextPc, d))
    (none : d.op.destination = none) (breakpoint : d.op ≠ .ebreak) (return_ : d.op ≠ .uret) :
    d.rd = 0 := by
  unfold decode at decoded
  split at decoded
  · obtain ⟨long, found, result⟩ := bind_eq_ok.mp decoded
    cases Except.ok.inj result
    obtain ⟨kept, cleared⟩ := Dec32.dec32_rd found
    obtain ⟨isBreak, isReturn⟩ := dec32_uncovered found
    by_cases bare : Dec32.NoDestination inst
    · -- A word of the two classes is not stray only if its field is zero.
      by_contra named
      exact clear ⟨bare, (kept bare).2 ▸ named, breakpoint ∘ isBreak.mpr, return_ ∘ isReturn.mpr⟩
    · exact cleared bare none
  · obtain ⟨short, found, result⟩ := bind_eq_ok.mp decoded
    cases Except.ok.inj result
    exact Dec16.dec16_rd found none

end Words

/-! ### The result -/

section Result

variable {pc nextPc : BitVec 64} {inst : BitVec 32} {d : Decoded}

/-- Without a stray field an instruction writes no more than it may. -/
theorem framed_of_not_stray (clear : ¬ StrayRd inst) (decoded : decode pc inst = .ok (nextPc, d))
    (host : Host) (m : Machine) : Framed host m pc nextPc d := by
  intro retPc after ran
  obtain ⟨locals, switched, written⟩ := bind_eq_ok.mp ran
  obtain ⟨reg, freg⟩ := executeOp_files switched
  obtain ⟨integer, float⟩ := writeBack_files written
  have file := executeOp_isFrd switched
  have covered : d.op ≠ .ebreak ∧ d.op ≠ .uret := by
    refine ⟨fun same => ?_, fun same => ?_⟩ <;>
      · rw [executeOp, same] at switched
        cases switched
  have cleared : d.op.destination = none → d.rd = 0 := fun none =>
    decode_cleared clear decoded none covered.1 covered.2
  refine ⟨fun r other => ?_, fun r other => ?_, fun rdVal => ?_⟩
  · refine (integer r fun bad => other ⟨bad.1, bad.2.1, ?_⟩).trans (congrFun reg r)
    -- A register other than zero was written for an operation with a destination in that file.
    cases destination : d.op.destination with
    | none => exact absurd (bad.1.trans (cleared destination)) bad.2.1
    | some chosen =>
      cases chosen with
      | integer => rfl
      | float => exact absurd (file.mpr destination) (by simp [bad.2.2])
  · exact (float r fun bad => other ⟨bad.1, file.mp bad.2⟩).trans (congrFun freg r)
  · by_cases assigned : d.op.destination = some .integer
    · rw [execute, executeOp_assigns assigned]
      exact ran
    · -- What is left in the local is not used by the tail.
      have unused : locals.isFrd = true ∨ d.rd = 0 := by
        cases destination : d.op.destination with
        | none => exact .inr (cleared destination)
        | some chosen =>
          cases chosen with
          | integer => exact absurd destination assigned
          | float => exact .inl (file.mpr destination)
      rw [execute, executeOp_leaves assigned, switched]
      exact (writeBack_rdVal unused rdVal).trans written

/-- With a stray field the tail writes what the unassigned local happens to hold. -/
theorem not_framed_of_stray (stray : StrayRd inst) (decoded : decode pc inst = .ok (nextPc, d))
    (host : Host) (m : Machine) : ¬ Framed host m pc nextPc d := by
  obtain ⟨bare, named, breakpoint, return_⟩ := decode_stray stray decoded
  have leaks : ∀ host, ∃ retPc after, execute host m pc nextPc d = .ok (retPc, after) ∧
      after.hart.reg d.rd = host.rdVal := by
    intro host
    obtain ⟨locals, switched, quiet, integer, held⟩ :=
      executeOp_bare bare breakpoint return_ host m pc nextPc
    have ran : execute host m pc nextPc d = locals.writeBack d.rd := by
      rw [execute, switched]
      rfl
    rw [writeBack_rd quiet integer, if_pos named] at ran
    exact ⟨_, _, ran, (Function.update_self ..).trans held⟩
  intro framed
  obtain ⟨retPc, after, ran, holds⟩ := leaks host
  obtain ⟨otherPc, other, ranOther, holdsOther⟩ := leaks (host.withRdVal (host.rdVal + 1))
  -- Both contents would have to be the same.
  cases Except.ok.inj (ranOther.symm.trans ((framed _ _ ran).computed (host.rdVal + 1)))
  have same : host.rdVal = host.rdVal + 1 := holds.symm.trans holdsOther
  exact absurd same (by simp)

/--
A decoded word leaves all registers but its destination, unless it is one without a destination
that completes and has a register field other than zero.

The result of every other word is computed, whatever the unassigned local held.
-/
theorem framed_iff (decoded : decode pc inst = .ok (nextPc, d)) (host : Host) (m : Machine) :
    Framed host m pc nextPc d ↔ ¬ StrayRd inst :=
  ⟨fun framed stray => not_framed_of_stray stray decoded host m framed,
    fun clear => framed_of_not_stray clear decoded host m⟩

/-- A jump to the following instruction writes its return address and nothing else. -/
theorem framed_iff_jal :
    Framed {} (Machine.boot []) 0x1000 0x1004 ⟨.jal, 1, 0, 4, 4, 0⟩ := by
  have decoded : decode 0x1000 0x004000EF = .ok (0x1004, ⟨.jal, 1, 0, 4, 4, 0⟩) := by decide
  refine (framed_iff decoded _ _).mpr fun stray => absurd stray.bare ?_
  unfold Dec32.NoDestination
  decide

/-- A fence that names register one writes to it what the stack held. -/
theorem fence_writes_register :
    ¬ ∀ pc nextPc inst d, decode pc inst = .ok (nextPc, d) →
      ∀ host m, Framed host m pc nextPc d := by
  intro always
  have stray : StrayRd 0x0000008F :=
    ⟨.inl (by decide), by decide, fun system => absurd system.opcode (by decide),
      fun system => absurd system.opcode (by decide)⟩
  have decoded : decode 0x1000 0x0000008F = .ok (0x1004, ⟨.fence, 1, 0, 0, 0, 0⟩) := by decide
  exact not_framed_of_stray stray decoded {} (Machine.boot []) (always _ _ _ _ decoded _ _)

end Result

end Xemu
