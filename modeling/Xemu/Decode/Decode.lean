import Xemu.Decode.Dec32
import Xemu.Decode.Dec16

/-! The choice between the two decoders, and what both promise about jump and branch offsets. -/

namespace Xemu

/-- The function `decode`: the address of the following instruction, and the operation. -/
def decode (pc : BitVec 64) (inst : BitVec 32) : Except Stop (BitVec 64 × Decoded) := do
  -- Both low bits are set in a full word only, and the length decides where the next one is.
  if inst &&& 0x3 = 0x3 then
    let decoded ← Dec32.dec32 inst
    return (pc + 4, decoded)
  else
    let decoded ← Dec16.dec16 (inst.extractLsb 15 0)
    return (pc + 2, decoded)

namespace Dec32

/-! ### Operations of the instruction classes -/

/-- A branch goes on at an address relative to its own. -/
theorem branchOp_relative {funct3 : BitVec 3} {op : Op} (named : branchOp funct3 = .ok op) :
    op.relative := by
  unfold branchOp at named
  split at named <;> cases named <;> rfl

/-- A load is plain. -/
theorem loadOp_plain {funct3 : BitVec 3} {op : Op} (named : loadOp funct3 = .ok op) :
    op.plain := by
  unfold loadOp at named
  split at named <;> cases named <;> rfl

/-- A store is plain. -/
theorem storeOp_plain {funct3 : BitVec 3} {op : Op} (named : storeOp funct3 = .ok op) :
    op.plain := by
  unfold storeOp at named
  split at named <;> cases named <;> rfl

/-- A floating-point load is plain. -/
theorem loadFpOp_plain {funct3 : BitVec 3} {op : Op} (named : loadFpOp funct3 = .ok op) :
    op.plain := by
  unfold loadFpOp at named
  split at named <;> cases named <;> rfl

/-- A floating-point store is plain. -/
theorem storeFpOp_plain {funct3 : BitVec 3} {op : Op} (named : storeFpOp funct3 = .ok op) :
    op.plain := by
  unfold storeFpOp at named
  split at named <;> cases named <;> rfl

/-- An operation with an immediate is plain. -/
theorem immOp_plain (inst : BitVec 32) (funct3 : BitVec 3) : (immOp inst funct3).plain := by
  unfold immOp
  split
  -- The shifts are told apart by one bit, and both are plain.
  case h_6 => split <;> rfl
  all_goals rfl

/-- So is one on words. -/
theorem immWOp_plain {inst : BitVec 32} {funct3 : BitVec 3} {op : Op} {imm : BitVec 64}
    (named : immWOp inst funct3 = .ok (op, imm)) : op.plain := by
  unfold immWOp at named
  split at named
  case h_3 =>
    rw [← (Prod.mk.inj (Except.ok.inj named)).1]
    split <;> rfl
  all_goals cases named <;> rfl

/-- An operation between registers is plain. -/
theorem regOp_plain (inst : BitVec 32) (funct3 : BitVec 3) (funct7 : BitVec 7) :
    (regOp inst funct3 funct7).plain := by
  unfold regOp
  -- The multiplications and divisions come first.
  split
  · split <;> rfl
  · split
    case h_1 | h_6 => split <;> rfl
    all_goals rfl

/-- So is one on words. -/
theorem regWOp_plain {inst : BitVec 32} {funct3 : BitVec 3} {funct7 : BitVec 7} {op : Op}
    (named : regWOp inst funct3 funct7 = .ok op) : op.plain := by
  -- Every case of the table names a plain operation or none.
  unfold regWOp at named
  split at named
  · split at named <;> cases named <;> rfl
  · split at named
    case h_1 | h_3 =>
      rw [← Except.ok.inj named]
      split <;> rfl
    all_goals cases named <;> rfl

/-- A fence is plain. -/
theorem miscOp_plain {funct3 : BitVec 3} {op : Op} (named : miscOp funct3 = .ok op) :
    op.plain := by
  unfold miscOp at named
  split at named <;> cases named <;> rfl

/-- An atomic operation is plain. -/
theorem amoOp_plain {funct3 : BitVec 3} {funct5 : BitVec 5} {op : Op}
    (named : amoOp funct3 funct5 = .ok op) : op.plain := by
  unfold amoOp at named
  split at named
  case h_12 => cases named
  -- Each remaining code has a doubleword and a word form.
  all_goals
    rw [← Except.ok.inj named]
    split <;> rfl

/-- The floating-point operation is plain. -/
theorem fpOp_plain {funct7 : BitVec 7} {op : Op} (named : fpOp funct7 = .ok op) : op.plain := by
  unfold fpOp at named
  split at named <;> cases named
  rfl

/-- The system instructions without a control register, two of which are not plain. -/
theorem privOp_cases {inst : BitVec 32} {funct7 : BitVec 7} {op : Op}
    (named : privOp inst funct7 = .ok op) :
    op.plain ∨ (funct7.toNat = 0 ∧ (bits inst 24 20).toNat = 1 ∧ op = .ebreak) ∨
      (funct7.toNat = 0 ∧ (bits inst 24 20).toNat = 2 ∧ op = .uret) := by
  -- The cases follow the two fields that select the operation.
  dsimp only [privOp] at named
  split at named
  case h_1 funct =>
    split at named
    case h_1 => cases named; exact .inl rfl
    case h_2 rs2 => cases named; exact .inr (.inl ⟨funct, rs2, rfl⟩)
    case h_3 rs2 => cases named; exact .inr (.inr ⟨funct, rs2, rfl⟩)
    case h_4 => cases named
  case h_2 =>
    split at named
    · cases named
      exact .inl rfl
    · split at named <;> cases named
      exact .inl rfl
  all_goals cases named <;> exact .inl rfl

/-- No system instruction without a control register goes on relative to its own address. -/
theorem privOp_not_relative {inst : BitVec 32} {funct7 : BitVec 7} {op : Op}
    (named : privOp inst funct7 = .ok op) : op.relative = false := by
  rcases privOp_cases named with plain | ⟨_, _, rfl⟩ | ⟨_, _, rfl⟩
  · exact Op.not_relative plain
  · rfl
  · rfl

/-- A system instruction is plain, or it is one without a control register. -/
theorem systemOp_cases {inst : BitVec 32} {funct3 : BitVec 3} {funct7 : BitVec 7} {op : Op}
    {imm : BitVec 64} (named : systemOp inst funct3 funct7 = .ok (op, imm)) :
    op.plain ∨ (funct3.toNat = 0 ∧ privOp inst funct7 = .ok op) := by
  unfold systemOp at named
  split at named
  case h_1 funct =>
    -- The instructions without a control register have a switch of their own.
    obtain ⟨priv, found, result⟩ := bind_eq_ok.mp named
    cases Except.ok.inj result
    exact .inr ⟨funct, found⟩
  all_goals cases named <;> exact .inl rfl

/-- What a 32-bit word decodes to: a relative operation, a system instruction, or a plain one. -/
inductive Class (inst : BitVec 32) (d : Decoded) : Prop where
  | plain (plain : d.op.plain)
  /-- The offset of a jump or branch is even, for its lowest bit is not encoded. -/
  | relative (relative : d.op.relative) (even : d.imm.getLsbD 0 = false)
  | system (opcode : (inst.extractLsb 6 0).toNat = 0x73)
      (funct3 : (inst.extractLsb 14 12).toNat = 0)
      (named : privOp inst (inst.extractLsb 31 25) = .ok d.op)

/-- Every word that is decoded belongs to one of the classes. -/
theorem dec32_class {inst : BitVec 32} {d : Decoded} (decoded : dec32 inst = .ok d) :
    Class inst d := by
  dsimp only [dec32] at decoded
  split at decoded
  case h_1 | h_2 | h_4 =>
    -- Upper immediates and the jump through a register are plain.
    cases Except.ok.inj decoded
    exact .plain rfl
  -- The jump is relative, and its immediate starts at bit one.
  case h_3 =>
    cases Except.ok.inj decoded
    exact .relative rfl (by simp [jImm])
  -- So are the branches.
  case h_5 =>
    obtain ⟨op, named, result⟩ := bind_eq_ok.mp decoded
    cases Except.ok.inj result
    exact .relative (branchOp_relative named) (by simp [bImm])
  case h_6 =>
    obtain ⟨op, named, result⟩ := bind_eq_ok.mp decoded
    cases Except.ok.inj result
    exact .plain (loadOp_plain named)
  case h_7 =>
    obtain ⟨op, named, result⟩ := bind_eq_ok.mp decoded
    cases Except.ok.inj result
    exact .plain (storeOp_plain named)
  case h_8 =>
    obtain ⟨op, named, result⟩ := bind_eq_ok.mp decoded
    cases Except.ok.inj result
    exact .plain (loadFpOp_plain named)
  case h_9 =>
    obtain ⟨op, named, result⟩ := bind_eq_ok.mp decoded
    cases Except.ok.inj result
    exact .plain (storeFpOp_plain named)
  case h_10 =>
    cases Except.ok.inj decoded
    exact .plain (immOp_plain _ _)
  case h_11 =>
    obtain ⟨⟨op, imm⟩, named, result⟩ := bind_eq_ok.mp decoded
    cases Except.ok.inj result
    exact .plain (immWOp_plain named)
  case h_12 =>
    cases Except.ok.inj decoded
    exact .plain (regOp_plain _ _ _)
  case h_13 =>
    obtain ⟨op, named, result⟩ := bind_eq_ok.mp decoded
    cases Except.ok.inj result
    exact .plain (regWOp_plain named)
  case h_14 =>
    obtain ⟨op, named, result⟩ := bind_eq_ok.mp decoded
    cases Except.ok.inj result
    exact .plain (miscOp_plain named)
  -- The system instructions are plain unless they name no control register.
  case h_15 opcode =>
    obtain ⟨⟨op, imm⟩, named, result⟩ := bind_eq_ok.mp decoded
    cases Except.ok.inj result
    exact (systemOp_cases named).elim (fun plain => .plain plain) fun ⟨funct3, priv⟩ =>
      .system opcode funct3 priv
  case h_16 =>
    obtain ⟨op, named, result⟩ := bind_eq_ok.mp decoded
    cases Except.ok.inj result
    exact .plain (amoOp_plain named)
  case h_17 =>
    obtain ⟨op, named, result⟩ := bind_eq_ok.mp decoded
    cases Except.ok.inj result
    exact .plain (fpOp_plain named)
  -- An unknown opcode decodes to nothing.
  case h_18 => cases decoded

end Dec32

namespace Dec16

/-- The cases of quadrant zero are loads, stores and one addition. -/
theorem quadrant0_plain {inst : BitVec 16} {funct3 : BitVec 3} {d : Decoded}
    (decoded : quadrant0 inst funct3 = .ok d) : d.op.plain := by
  unfold quadrant0 at decoded
  split at decoded <;> cases decoded <;> rfl

/-- The arithmetic of quadrant one is plain. -/
theorem arith_plain (inst : BitVec 16) : (arith inst).op.plain := by
  dsimp only [arith]
  split
  case h_4 =>
    split
    case h_1 | h_2 => dsimp only; split <;> rfl
    all_goals rfl
  all_goals rfl

/-- What a 16-bit word decodes to: a relative operation, a breakpoint, or a plain one. -/
inductive Class (inst : BitVec 16) (d : Decoded) : Prop where
  | plain (plain : d.op.plain)
  /-- The offset of a jump or branch is even, for its lowest bit is not encoded. -/
  | relative (relative : d.op.relative) (even : d.imm.getLsbD 0 = false)
  | ebreak (quadrant : (inst.extractLsb 1 0).toNat = 2) (funct3 : (inst.extractLsb 15 13).toNat = 4)
      (set : inst.getLsbD 12) (register : fullReg inst = 0) (op : d.op = .ebreak)

/-- The last three cases of quadrant one are relative, and the others are plain. -/
theorem quadrant1_class (inst : BitVec 16) (funct3 : BitVec 3) :
    Class inst (quadrant1 inst funct3) := by
  dsimp only [quadrant1]
  split
  case h_1 | h_4 => split <;> exact .plain rfl
  case h_2 | h_3 => exact .plain rfl
  case h_5 => exact .plain (arith_plain inst)
  -- The offsets are put together from bit one on.
  case h_6 => exact .relative rfl (by simp [jImm])
  case h_7 | h_8 => exact .relative rfl (by simp [bImm])

/-- The cases of quadrant two are plain but for the breakpoint. -/
theorem quadrant2_class {inst : BitVec 16} {d : Decoded} (quadrant : (inst.extractLsb 1 0).toNat = 2)
    (decoded : quadrant2 inst (inst.extractLsb 15 13) = .ok d) : Class inst d := by
  dsimp only [quadrant2] at decoded
  split at decoded
  case h_5 funct3 =>
    cases Except.ok.inj decoded
    dsimp only [moveOrJump]
    split
    case isTrue set =>
      split
      · split <;> exact .plain rfl
      · -- With the bit set and no first register the word is a breakpoint.
        rename_i register
        exact .ebreak quadrant funct3 set (Decidable.not_not.mp register) rfl
    case isFalse => split <;> exact .plain rfl
  all_goals cases decoded <;> exact .plain rfl

/-- Every 16-bit word that is decoded belongs to one of the classes. -/
theorem dec16_class {inst : BitVec 16} {d : Decoded} (decoded : dec16 inst = .ok d) :
    Class inst d := by
  dsimp only [dec16] at decoded
  split at decoded
  case h_1 => exact .plain (quadrant0_plain decoded)
  case h_2 =>
    cases Except.ok.inj decoded
    exact quadrant1_class inst _
  case h_3 quadrant => exact quadrant2_class quadrant decoded
  -- Both low bits set is no 16-bit word.
  case h_4 => cases decoded

end Dec16

/-- A decoded word is two or four bytes long, and a relative target in it is an even offset. -/
theorem decode_even {pc nextPc : BitVec 64} {inst : BitVec 32} {d : Decoded}
    (decoded : decode pc inst = .ok (nextPc, d)) :
    (nextPc = pc + 2 ∨ nextPc = pc + 4) ∧ (d.op.relative → d.imm.getLsbD 0 = false) := by
  unfold decode at decoded
  split at decoded
  · -- A full word is four bytes long.
    obtain ⟨long, found, result⟩ := bind_eq_ok.mp decoded
    cases Except.ok.inj result
    refine ⟨.inr rfl, fun relative => ?_⟩
    cases Dec32.dec32_class found with
    | plain plain => exact absurd relative (by simp [Op.not_relative plain])
    | relative _ even => exact even
    | system _ _ named => exact absurd relative (by simp [Dec32.privOp_not_relative named])
  · -- Any other word is two bytes long.
    obtain ⟨short, found, result⟩ := bind_eq_ok.mp decoded
    cases Except.ok.inj result
    refine ⟨.inl rfl, fun relative => ?_⟩
    cases Dec16.dec16_class found with
    | plain plain => exact absurd relative (by simp [Op.not_relative plain])
    | relative _ even => exact even
    | ebreak _ _ _ _ op => exact absurd relative (by simp [op, Op.relative])

end Xemu
