import Xemu.Decode.Decode

/-! Where the decoders leave a register field although the operation has no destination. -/

namespace Xemu

/-- The two register files an instruction can write. -/
inductive RegFile where
  | integer
  | float
  deriving DecidableEq, Repr

/-- The register file of the destination that the instruction set gives an operation, if any. -/
def Op.destination : Op → Option RegFile
  | .nop | .beq | .bne | .blt | .bge | .bltu | .bgeu | .sb | .sh | .sw | .sd | .fsw | .fsd => none
  -- The fences and the system instructions without a control register have no destination.
  | .fence | .fenceI | .ecall | .ebreak | .uret | .sret | .mret | .wfi | .sfenceVma => none
  | .flw | .fld | .fmvWX => some .float
  | _ => some .integer

/-- The fences and the system instructions without a control register. -/
def Op.bare : Op → Bool
  | .fence | .fenceI | .ecall | .ebreak | .uret | .sret | .mret | .wfi | .sfenceVma => true
  | _ => false

namespace Dec32

variable {inst : BitVec 32} {funct3 : BitVec 3} {funct5 : BitVec 5} {funct7 : BitVec 7} {op : Op}
  {d : Decoded}

/-! ### Destinations of the instruction classes -/

/-- A load has an integer destination. -/
theorem loadOp_destination (named : loadOp funct3 = .ok op) : op.destination = some .integer := by
  unfold loadOp at named
  split at named <;> cases named <;> rfl

/-- A floating-point load has a floating-point one. -/
theorem loadFpOp_destination (named : loadFpOp funct3 = .ok op) :
    op.destination = some .float := by
  unfold loadFpOp at named
  split at named <;> cases named <;> rfl

/-- An operation with an immediate has an integer destination. -/
theorem immOp_destination (inst : BitVec 32) (funct3 : BitVec 3) :
    (immOp inst funct3).destination = some .integer := by
  unfold immOp
  split
  -- The two right shifts have one destination.
  case h_6 => split <;> rfl
  all_goals rfl

/-- So has one on words. -/
theorem immWOp_destination {imm : BitVec 64} (named : immWOp inst funct3 = .ok (op, imm)) :
    op.destination = some .integer := by
  unfold immWOp at named
  split at named
  case h_3 =>
    rw [← (Prod.mk.inj (Except.ok.inj named)).1]
    split <;> rfl
  all_goals cases named <;> rfl

/-- An operation between registers has an integer destination. -/
theorem regOp_destination (inst : BitVec 32) (funct3 : BitVec 3) (funct7 : BitVec 7) :
    (regOp inst funct3 funct7).destination = some .integer := by
  unfold regOp
  split
  · split <;> rfl
  · split
    case h_1 | h_6 => split <;> rfl
    all_goals rfl

/-- So has one on words. -/
theorem regWOp_destination (named : regWOp inst funct3 funct7 = .ok op) :
    op.destination = some .integer := by
  -- Every case of the table names an operation on integers or none.
  unfold regWOp at named
  split at named
  · split at named <;> cases named <;> rfl
  · split at named
    case h_1 | h_3 =>
      rw [← Except.ok.inj named]
      split <;> rfl
    all_goals cases named <;> rfl

/-- A fence has no registers. -/
theorem miscOp_bare (named : miscOp funct3 = .ok op) : op.bare := by
  unfold miscOp at named
  split at named <;> cases named <;> rfl

/-- An atomic operation has an integer destination. -/
theorem amoOp_destination (named : amoOp funct3 funct5 = .ok op) :
    op.destination = some .integer := by
  unfold amoOp at named
  split at named
  case h_12 => cases named
  -- Both widths return the old content.
  all_goals
    rw [← Except.ok.inj named]
    split <;> rfl

/-- The floating-point operation has a floating-point destination. -/
theorem fpOp_destination (named : fpOp funct7 = .ok op) : op.destination = some .float := by
  unfold fpOp at named
  split at named <;> cases named
  rfl

/-- A system instruction without a control register has no other register either. -/
theorem privOp_bare (named : privOp inst funct7 = .ok op) : op.bare := by
  -- Every name that this switch gives is of an instruction without registers.
  dsimp only [privOp] at named
  split at named
  case h_1 => split at named <;> cases named <;> rfl
  case h_2 =>
    split at named
    · cases named
      rfl
    · split at named <;> cases named
      rfl
  all_goals cases named <;> rfl

/-- A system instruction has a destination exactly when it names a control register. -/
theorem systemOp_destination {imm : BitVec 64}
    (named : systemOp inst funct3 funct7 = .ok (op, imm)) :
    if funct3.toNat = 0 then op.bare else op.destination = some .integer := by
  -- The privileged instructions are those of the first case.
  unfold systemOp at named
  split at named
  case h_1 funct =>
    obtain ⟨priv, found, result⟩ := bind_eq_ok.mp named
    cases Except.ok.inj result
    rw [if_pos funct]
    exact privOp_bare found
  all_goals
    rename_i funct
    cases named <;> rw [if_neg (by omega)] <;> rfl

/-! ### The register field -/

/-- The words of the fences and of the system instructions without a control register. -/
def NoDestination (inst : BitVec 32) : Prop :=
  (inst.extractLsb 6 0).toNat = 0x0F ∨
    ((inst.extractLsb 6 0).toNat = 0x73 ∧ (inst.extractLsb 14 12).toNat = 0)

/-- The decoder leaves those words their register field, and clears it for every other one. -/
theorem dec32_rd (decoded : dec32 inst = .ok d) :
    (NoDestination inst → d.op.bare ∧ d.rd = inst.extractLsb 11 7) ∧
      (¬ NoDestination inst → d.op.destination = none → d.rd = 0) := by
  unfold NoDestination
  dsimp only [dec32] at decoded
  split at decoded
  case h_1 opcode | h_2 opcode | h_3 opcode | h_4 opcode =>
    cases Except.ok.inj decoded
    exact ⟨fun bare => by omega, fun _ none => by cases none⟩
  -- Branches and stores have a cleared field.
  case h_5 opcode | h_7 opcode | h_9 opcode =>
    obtain ⟨op, named, result⟩ := bind_eq_ok.mp decoded
    cases Except.ok.inj result
    exact ⟨fun bare => by omega, fun _ _ => rfl⟩
  case h_6 opcode =>
    obtain ⟨op, named, result⟩ := bind_eq_ok.mp decoded
    cases Except.ok.inj result
    exact ⟨fun bare => by omega, fun _ none => by cases none.symm.trans (loadOp_destination named)⟩
  case h_8 opcode =>
    obtain ⟨op, named, result⟩ := bind_eq_ok.mp decoded
    cases Except.ok.inj result
    exact ⟨fun bare => by omega, fun _ none => by cases none.symm.trans (loadFpOp_destination named)⟩
  case h_10 opcode =>
    cases Except.ok.inj decoded
    exact ⟨fun bare => by omega, fun _ none => by cases none.symm.trans (immOp_destination _ _)⟩
  case h_11 opcode =>
    obtain ⟨⟨op, imm⟩, named, result⟩ := bind_eq_ok.mp decoded
    cases Except.ok.inj result
    exact ⟨fun bare => by omega, fun _ none => by cases none.symm.trans (immWOp_destination named)⟩
  case h_12 opcode =>
    cases Except.ok.inj decoded
    exact ⟨fun bare => by omega, fun _ none => by cases none.symm.trans (regOp_destination _ _ _)⟩
  case h_13 opcode =>
    obtain ⟨op, named, result⟩ := bind_eq_ok.mp decoded
    cases Except.ok.inj result
    exact ⟨fun bare => by omega, fun _ none => by cases none.symm.trans (regWOp_destination named)⟩
  -- The fences keep what the field holds.
  case h_14 opcode =>
    obtain ⟨op, named, result⟩ := bind_eq_ok.mp decoded
    cases Except.ok.inj result
    exact ⟨fun _ => ⟨miscOp_bare named, rfl⟩, fun other => absurd (.inl opcode) other⟩
  -- So do the system instructions, of which those with a control register have a destination.
  case h_15 opcode =>
    obtain ⟨⟨op, imm⟩, named, result⟩ := bind_eq_ok.mp decoded
    cases Except.ok.inj result
    have destination := systemOp_destination named
    split at destination
    · rename_i funct3
      exact ⟨fun _ => ⟨destination, rfl⟩, fun other => absurd (.inr ⟨opcode, funct3⟩) other⟩
    · rename_i funct3
      exact ⟨fun bare => by omega, fun _ none => by cases none.symm.trans destination⟩
  case h_16 opcode =>
    obtain ⟨op, named, result⟩ := bind_eq_ok.mp decoded
    cases Except.ok.inj result
    exact ⟨fun bare => by omega, fun _ none => by cases none.symm.trans (amoOp_destination named)⟩
  case h_17 opcode =>
    obtain ⟨op, named, result⟩ := bind_eq_ok.mp decoded
    cases Except.ok.inj result
    exact ⟨fun bare => by omega, fun _ none => by cases none.symm.trans (fpOp_destination named)⟩
  case h_18 => cases decoded

end Dec32

namespace Dec16

variable {inst : BitVec 16} {d : Decoded}

/-- The arithmetic of quadrant one has an integer destination. -/
theorem arith_destination (inst : BitVec 16) : (arith inst).op.destination = some .integer := by
  dsimp only [arith]
  split
  case h_4 =>
    split
    case h_1 | h_2 => dsimp only; split <;> rfl
    all_goals rfl
  all_goals rfl

/-- In quadrant zero the field stays clear where there is no destination. -/
theorem quadrant0_rd {funct3 : BitVec 3} (decoded : quadrant0 inst funct3 = .ok d)
    (none : d.op.destination = none) : d.rd = 0 := by
  unfold quadrant0 at decoded
  split at decoded
  -- The stores leave the field as it is at the start.
  case h_5 | h_6 | h_7 => cases decoded; rfl
  case h_8 => cases decoded
  all_goals
    cases decoded
    cases none

/-- It does in quadrant one, where the empty operation has register zero in it. -/
theorem quadrant1_rd (inst : BitVec 16) (funct3 : BitVec 3) :
    (quadrant1 inst funct3).op.destination = none → (quadrant1 inst funct3).rd = 0 := by
  dsimp only [quadrant1]
  split
  case h_1 =>
    split
    · exact fun none => by cases none
    · -- The empty operation is the addition to register zero.
      rename_i register
      exact fun _ => Decidable.not_not.mp register
  case h_2 | h_3 => exact fun none => by cases none
  case h_4 => split <;> exact fun none => by cases none
  case h_5 => exact fun none => by cases none.symm.trans (arith_destination inst)
  case h_6 | h_7 | h_8 => exact fun _ => rfl

/-- It does for the moves and jumps of quadrant two. -/
theorem moveOrJump_rd (inst : BitVec 16) :
    (moveOrJump inst).op.destination = none → (moveOrJump inst).rd = 0 := by
  dsimp only [moveOrJump]
  split
  · split
    · split <;> exact fun none => by cases none
    · exact fun _ => rfl
  · split <;> exact fun none => by cases none

/-- The decoder of 16-bit words starts from a cleared field and fills it for a destination only. -/
theorem dec16_rd (decoded : dec16 inst = .ok d) (none : d.op.destination = none) : d.rd = 0 := by
  -- One quadrant after the other.
  dsimp only [dec16] at decoded
  split at decoded
  case h_1 => exact quadrant0_rd decoded none
  case h_2 =>
    cases Except.ok.inj decoded
    exact quadrant1_rd inst _ none
  case h_3 =>
    unfold quadrant2 at decoded
    split at decoded
    case h_5 =>
      cases Except.ok.inj decoded
      exact moveOrJump_rd inst none
    case h_6 | h_7 => cases decoded; rfl
    case h_8 => cases decoded
    all_goals
      cases decoded
      cases none
  case h_4 => cases decoded

end Dec16

end Xemu
