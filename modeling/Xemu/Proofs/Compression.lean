import Xemu.Decode.Compressed
import Xemu.Machine.Program
import Xemu.Proofs.Decoding

/-! Executing a 16-bit word against executing the 32-bit instruction it stands for. -/

namespace Xemu

namespace Dec16

/-! ### Fields and immediates -/

section Fields

variable (inst : BitVec 16)

/-- The short field at the bottom names one of eight registers. -/
theorem lowReg_eq : lowReg inst = Compressed.lowReg inst := by
  have fields : ∀ field : BitVec 3, 8 + field.setWidth 5 = 0b01#2 ++ field := by decide
  exact fields (inst.extractLsb 4 2)

/-- So does the short field above it. -/
theorem highReg_eq : highReg inst = Compressed.highReg inst := by
  have fields : ∀ field : BitVec 3, 8 + field.setWidth 5 = 0b01#2 ++ field := by decide
  exact fields (inst.extractLsb 9 7)

/-- The addend of the stack pointer is put together as specified. -/
theorem nImm_eq : nImm inst = (Compressed.spAddend inst).setWidth 64 := by
  apply BitVec.eq_of_getLsbD_eq
  intro i below
  simp only [nImm, Compressed.spAddend, BitVec.getLsbD_or, BitVec.getLsbD_shiftLeft, getLsbD_bits,
    getLsbD_bit, BitVec.getLsbD_setWidth, BitVec.getLsbD_append, BitVec.getLsbD_extractLsb]
  grind

/-- So is the offset of a word. -/
theorem uImm_eq : uImm inst = (Compressed.wordOffset inst).setWidth 64 := by
  apply BitVec.eq_of_getLsbD_eq
  intro i below
  simp only [uImm, Compressed.wordOffset, BitVec.getLsbD_or, BitVec.getLsbD_shiftLeft,
    getLsbD_bits, getLsbD_bit, BitVec.getLsbD_setWidth, BitVec.getLsbD_append,
    BitVec.getLsbD_extractLsb]
  grind

/-- So is the offset of a doubleword. -/
theorem uImmD_eq : uImmD inst = (Compressed.doubleOffset inst).setWidth 64 := by
  apply BitVec.eq_of_getLsbD_eq
  intro i below
  simp only [uImmD, Compressed.doubleOffset, BitVec.getLsbD_or, BitVec.getLsbD_shiftLeft,
    getLsbD_bits, BitVec.getLsbD_setWidth, BitVec.getLsbD_append, BitVec.getLsbD_extractLsb]
  grind

/-- So is the small number. -/
theorem iImm_eq : iImm inst = (Compressed.small inst).signExtend 64 := by
  apply BitVec.eq_of_getLsbD_eq
  intro i below
  simp only [iImm, Compressed.small, BitVec.getLsbD_or, BitVec.getLsbD_shiftLeft, getLsbD_bits,
    getLsbD_expandBit, BitVec.getLsbD_signExtend, BitVec.msb_eq_getLsbD_last,
    BitVec.getLsbD_append, BitVec.getLsbD_extractLsb]
  grind

/-- So is the adjustment of the stack pointer. -/
theorem dImm_eq : dImm inst = (Compressed.spAdjustment inst).signExtend 64 := by
  apply BitVec.eq_of_getLsbD_eq
  intro i below
  simp only [dImm, Compressed.spAdjustment, BitVec.getLsbD_or, BitVec.getLsbD_shiftLeft,
    getLsbD_bits, getLsbD_bit, getLsbD_expandBit, BitVec.getLsbD_signExtend,
    BitVec.msb_eq_getLsbD_last, BitVec.getLsbD_append, BitVec.getLsbD_extractLsb]
  rcases Nat.lt_or_ge i 6 with low | high <;> grind

/-- So is the amount of a shift. -/
theorem uiImm_eq : uiImm inst = (Compressed.small inst).setWidth 64 := by
  apply BitVec.eq_of_getLsbD_eq
  intro i below
  simp only [uiImm, Compressed.small, BitVec.getLsbD_or, BitVec.getLsbD_shiftLeft, getLsbD_bits,
    getLsbD_bit, BitVec.getLsbD_setWidth, BitVec.getLsbD_append, BitVec.getLsbD_extractLsb]
  grind

/-- So is the offset of a jump. -/
theorem jImm_eq : jImm inst = (Compressed.jumpOffset inst).signExtend 64 := by
  apply BitVec.eq_of_getLsbD_eq
  intro i below
  simp only [jImm, Compressed.jumpOffset, BitVec.getLsbD_or, BitVec.getLsbD_shiftLeft,
    getLsbD_bits, getLsbD_bit, getLsbD_expandBit, BitVec.getLsbD_signExtend,
    BitVec.msb_eq_getLsbD_last, BitVec.getLsbD_append, BitVec.getLsbD_extractLsb]
  rcases Nat.lt_or_ge i 6 with low | high <;> grind

/-- So is the offset of a branch. -/
theorem bImm_eq : bImm inst = (Compressed.branchOffset inst).signExtend 64 := by
  apply BitVec.eq_of_getLsbD_eq
  intro i below
  simp only [bImm, Compressed.branchOffset, BitVec.getLsbD_or, BitVec.getLsbD_shiftLeft,
    getLsbD_bits, getLsbD_bit, getLsbD_expandBit, BitVec.getLsbD_signExtend,
    BitVec.msb_eq_getLsbD_last, BitVec.getLsbD_append, BitVec.getLsbD_extractLsb]
  rcases Nat.lt_or_ge i 6 with low | high <;> grind

/-- So is the offset of a word that is loaded from the stack. -/
theorem lwspImm_eq : lwspImm inst = (Compressed.wordLoadOffset inst).setWidth 64 := by
  apply BitVec.eq_of_getLsbD_eq
  intro i below
  simp only [lwspImm, Compressed.wordLoadOffset, BitVec.getLsbD_or, BitVec.getLsbD_shiftLeft,
    getLsbD_bits, getLsbD_bit, BitVec.getLsbD_setWidth, BitVec.getLsbD_append,
    BitVec.getLsbD_extractLsb]
  grind

/-- So is that of a doubleword. -/
theorem ldspImm_eq : ldspImm inst = (Compressed.doubleLoadOffset inst).setWidth 64 := by
  apply BitVec.eq_of_getLsbD_eq
  intro i below
  simp only [ldspImm, Compressed.doubleLoadOffset, BitVec.getLsbD_or, BitVec.getLsbD_shiftLeft,
    getLsbD_bits, getLsbD_bit, BitVec.getLsbD_setWidth, BitVec.getLsbD_append,
    BitVec.getLsbD_extractLsb]
  grind

/-- So is the offset of a word that is stored to the stack. -/
theorem swspImm_eq : swspImm inst = (Compressed.wordStoreOffset inst).setWidth 64 := by
  apply BitVec.eq_of_getLsbD_eq
  intro i below
  simp only [swspImm, Compressed.wordStoreOffset, BitVec.getLsbD_or, BitVec.getLsbD_shiftLeft,
    getLsbD_bits, BitVec.getLsbD_setWidth, BitVec.getLsbD_append, BitVec.getLsbD_extractLsb]
  grind

/-- So is that of a doubleword. -/
theorem sdspImm_eq : sdspImm inst = (Compressed.doubleStoreOffset inst).setWidth 64 := by
  apply BitVec.eq_of_getLsbD_eq
  intro i below
  simp only [sdspImm, Compressed.doubleStoreOffset, BitVec.getLsbD_or, BitVec.getLsbD_shiftLeft,
    getLsbD_bits, BitVec.getLsbD_setWidth, BitVec.getLsbD_append, BitVec.getLsbD_extractLsb]
  grind

/-- The upper immediate is the small one moved up. -/
theorem upper_eq : iImm inst <<< 12 = (Compressed.upper inst).signExtend 64 := by
  rw [iImm_eq]
  apply BitVec.eq_of_getLsbD_eq
  intro i below
  simp only [Compressed.upper, BitVec.getLsbD_shiftLeft, BitVec.getLsbD_signExtend,
    BitVec.msb_eq_getLsbD_last, BitVec.getLsbD_append]
  grind

end Fields

end Dec16

/-! ### Numbers that fit -/

section Fitting

variable {w width : Nat} (field : BitVec w)

/-- A sign-extended field is a signed number of any larger width. -/
theorem signedBits_signExtend (inside : w ≤ width) :
    SignedBits width (field.signExtend 64) := by
  apply BitVec.eq_of_getLsbD_eq
  intro i below
  simp only [BitVec.getLsbD_signExtend, BitVec.getLsbD_setWidth, BitVec.msb_eq_getLsbD_last]
  grind

/-- A zero-extended field is a signed number of any width in which its sign is clear. -/
theorem signedBits_setWidth (inside : w < width) :
    SignedBits width (field.setWidth 64) := by
  apply BitVec.eq_of_getLsbD_eq
  intro i below
  simp only [BitVec.getLsbD_signExtend, BitVec.getLsbD_setWidth, BitVec.msb_eq_getLsbD_last]
  grind

/-- A zero-extended field is an unsigned number of its width. -/
theorem unsignedBits_setWidth : UnsignedBits w (field.setWidth 64) := by
  apply BitVec.eq_of_getLsbD_eq
  intro i below
  simp only [BitVec.getLsbD_setWidth]
  grind

/-- Nothing is left of a field in the places that it ends with zeros. -/
theorem setWidth_signExtend_append {zeros : Nat} :
    ((field ++ BitVec.ofNat zeros 0).signExtend 64).setWidth zeros = 0 := by
  apply BitVec.eq_of_getLsbD_eq
  intro i below
  simp only [BitVec.getLsbD_signExtend, BitVec.getLsbD_setWidth, BitVec.getLsbD_append]
  grind

end Fitting

/-! ### Execution -/

/-- What an instruction does depends on the operands its format has and on nothing else. -/
theorem execute_carries {op : Op} {format : Format} {o : Operands} {one other : Decoded}
    (standard : op.format = some format) (first : format.Carries op o one)
    (second : format.Carries op o other) (host : Host) (m : Machine) (pc nextPc : BitVec 64) :
    execute host m pc nextPc one = execute host m pc nextPc other := by
  obtain ⟨_, rd, rs1, rs2, imm, csrAddr⟩ := one
  obtain ⟨op, rd', rs1', rs2', imm', csrAddr'⟩ := other
  obtain ⟨rfl, rfl, one1, one2, oneImm, oneCsr⟩ := first
  obtain ⟨rfl, rfl, other1, other2, otherImm, otherCsr⟩ := second
  -- The formats of an operation's group have the operands that its case of the switch reads.
  cases op with
  | nop => cases standard
  | fence | fenceI | ecall | ebreak | uret | sret | mret | wfi | sfenceVma =>
    cases standard
    rfl
  | lui | auipc | jal =>
    cases standard
    cases (oneImm rfl).trans (otherImm rfl).symm
    rfl
  | csrrwi | csrrsi | csrrci =>
    cases standard
    cases (oneImm rfl).trans (otherImm rfl).symm
    cases (oneCsr rfl).trans (otherCsr rfl).symm
    rfl
  | csrrw | csrrs | csrrc =>
    cases standard
    cases (one1 rfl).trans (other1 rfl).symm
    cases (oneCsr rfl).trans (otherCsr rfl).symm
    rfl
  | lrD | lrW | fmvWX =>
    cases standard
    cases (one1 rfl).trans (other1 rfl).symm
    rfl
  | jalr | lb | lh | lw | ld | lbu | lhu | lwu | flw | fld | addi | slti | sltiu | xori | ori | andi
  | slli | srli | srai | addiw | slliw | srliw | sraiw =>
    cases standard
    cases (one1 rfl).trans (other1 rfl).symm
    cases (oneImm rfl).trans (otherImm rfl).symm
    rfl
  | beq | bne | blt | bge | bltu | bgeu | sb | sh | sw | sd | fsw | fsd =>
    cases standard
    cases (one1 rfl).trans (other1 rfl).symm
    cases (one2 rfl).trans (other2 rfl).symm
    cases (oneImm rfl).trans (otherImm rfl).symm
    rfl
  | add | sub | sll | slt | sltu | xor | srl | sra | or | and | addw | subw | sllw | srlw | sraw
  | mul | mulh | mulhsu | mulhu | div | divu | rem | remu | mulw | divw | divuw | remw | remuw
  | amoAddD | amoSwapD | scD | amoXorD | amoOrD | amoAndD | amoMinD | amoMaxD | amoMinuD
  | amoMaxuD | amoAddW | amoSwapW | scW | amoXorW | amoOrW | amoAndW | amoMinW | amoMaxW
  | amoMinuW | amoMaxuW =>
    cases standard
    cases (one1 rfl).trans (other1 rfl).symm
    cases (one2 rfl).trans (other2 rfl).symm
    rfl

/-! ### Decoding -/

/-- What a decoder gives for a word has the effect of an expansion, where it may idle for an addition to zero. -/
def Agrees (e : Compressed.Expansion) (d : Decoded) : Prop :=
  ∃ format, e.op.format = some format ∧ format.Fits e.operands.imm ∧
    (format.Carries e.op e.operands d ∨
      (d.op = .nop ∧ d.rd = 0 ∧ e.op = .addi ∧ e.operands.rd = 0))

namespace Dec16

variable {inst : BitVec 16} {e : Compressed.Expansion} {d : Decoded}

/-- Quadrant zero is decoded as it expands. -/
theorem quadrant0_agrees (expanded : Compressed.quadrant0 inst = some e)
    (decoded : quadrant0 inst (inst.extractLsb 15 13) = .ok d) : Agrees e d := by
  dsimp only [Compressed.quadrant0] at expanded
  unfold quadrant0 at decoded
  generalize (BitVec.extractLsb 15 13 inst).toNat = funct3 at expanded decoded
  split at decoded
  case h_1 =>
    -- The addition to the stack pointer is legal only with an addend.
    cases decoded
    change (if Compressed.spAddend inst = 0 then none else some _) = some e at expanded
    split at expanded
    · cases expanded
    · cases expanded
      exact ⟨_, rfl, signedBits_setWidth _ (by decide), .inl ⟨rfl, lowReg_eq inst, fun _ => rfl,
        without, fun _ => nImm_eq inst, without⟩⟩
  -- The loads of a doubleword differ in the register file alone.
  case h_2 | h_4 =>
    cases decoded
    cases expanded
    exact ⟨_, rfl, signedBits_setWidth _ (by decide), .inl ⟨rfl, lowReg_eq inst,
      fun _ => highReg_eq inst, without, fun _ => uImmD_eq inst, without⟩⟩
  case h_3 =>
    -- The load of a word scales its offset by four.
    cases decoded
    cases expanded
    exact ⟨_, rfl, signedBits_setWidth _ (by decide), .inl ⟨rfl, lowReg_eq inst,
      fun _ => highReg_eq inst, without, fun _ => uImm_eq inst, without⟩⟩
  -- So do the stores of a doubleword, which have no destination.
  case h_5 | h_7 =>
    cases decoded
    cases expanded
    exact ⟨_, rfl, signedBits_setWidth _ (by decide), .inl ⟨rfl, rfl, fun _ => highReg_eq inst,
      fun _ => lowReg_eq inst, fun _ => uImmD_eq inst, without⟩⟩
  case h_6 =>
    -- The store of a word has the offset of the load.
    cases decoded
    cases expanded
    exact ⟨_, rfl, signedBits_setWidth _ (by decide), .inl ⟨rfl, rfl, fun _ => highReg_eq inst,
      fun _ => lowReg_eq inst, fun _ => uImm_eq inst, without⟩⟩
  -- What is left is refused by the decoder.
  case h_8 => cases decoded

/-- A register-register operation in a register of the three-bit fields. -/
theorem arith_reg {op : Op} {funct3 : BitVec 3} {funct7 opcode : BitVec 7}
    (standard : op.format = some (.reg opcode funct3 funct7)) :
    Agrees
      ⟨op, { rd := Compressed.highReg inst, rs1 := Compressed.highReg inst,
             rs2 := Compressed.lowReg inst }⟩
      ⟨op, highReg inst, highReg inst, lowReg inst, 0, 0⟩ :=
  ⟨_, standard, trivial, .inl ⟨rfl, highReg_eq inst, fun _ => highReg_eq inst,
    fun _ => lowReg_eq inst, without, without⟩⟩

/-- A field of two bits has four values. -/
theorem toNat_cases (field : BitVec 2) :
    field.toNat = 0 ∨ field.toNat = 1 ∨ field.toNat = 2 ∨ field.toNat = 3 := by
  have small := field.isLt
  omega

/-- A field of one bit is that bit as a number. -/
theorem toNat_single (index : Nat) :
    (inst.extractLsb index index).toNat = if inst.getLsbD index then 1 else 0 := by
  have number := congrArg BitVec.toNat (bit_eq inst index)
  have small : (inst.extractLsb index index).toNat < 2 := by
    simpa using (inst.extractLsb index index).isLt
  rw [bit, bits, BitVec.toNat_setWidth, Nat.mod_eq_of_lt (by omega)] at number
  rw [number]
  split <;> rfl

/-- So is the arithmetic of quadrant one. -/
theorem arith_agrees (expanded : Compressed.arith inst = some e) : Agrees e (arith inst) := by
  dsimp only [Compressed.arith] at expanded
  dsimp only [arith]
  have kinds := toNat_cases (inst.extractLsb 11 10)
  -- The first three kinds have an immediate, and the last has a second register.
  rcases kinds with kind | kind | kind | kind
  · rw [kind] at expanded ⊢
    cases expanded
    exact ⟨_, rfl, unsignedBits_setWidth _, .inl ⟨rfl, highReg_eq inst, fun _ => highReg_eq inst,
      without, fun _ => uiImm_eq inst, without⟩⟩
  · rw [kind] at expanded ⊢
    cases expanded
    exact ⟨_, rfl, unsignedBits_setWidth _, .inl ⟨rfl, highReg_eq inst, fun _ => highReg_eq inst,
      without, fun _ => uiImm_eq inst, without⟩⟩
  · rw [kind] at expanded ⊢
    cases expanded
    exact ⟨_, rfl, signedBits_signExtend _ (by decide), .inl ⟨rfl, highReg_eq inst,
      fun _ => highReg_eq inst, without, fun _ => iImm_eq inst, without⟩⟩
  · rw [kind] at expanded ⊢
    have functions := toNat_cases (inst.extractLsb 6 5)
    cases set : inst.getLsbD 12 with
    | false =>
      rw [toNat_single, set] at expanded
      -- With the bit clear all four functions are legal.
      rcases functions with function | function | function | function
      all_goals
        rw [function] at expanded ⊢
        cases expanded
        exact arith_reg rfl
    | true =>
      rw [toNat_single, set] at expanded
      rcases functions with function | function | function | function
      · rw [function] at expanded ⊢
        cases expanded
        exact arith_reg rfl
      · rw [function] at expanded ⊢
        cases expanded
        exact arith_reg rfl
      -- Neither of the last two words is legal.
      · rw [function] at expanded
        cases expanded
      · rw [function] at expanded
        cases expanded

/-- So is the rest of quadrant one. -/
theorem quadrant1_agrees (expanded : Compressed.quadrant1 inst = some e) :
    Agrees e (quadrant1 inst (inst.extractLsb 15 13)) := by
  dsimp only [Compressed.quadrant1] at expanded
  dsimp only [quadrant1]
  generalize (BitVec.extractLsb 15 13 inst).toNat = funct3 at expanded ⊢
  split
  case h_1 =>
    cases expanded
    split
    · exact ⟨_, rfl, signedBits_signExtend _ (by decide), .inl ⟨rfl, rfl, fun _ => rfl, without,
        fun _ => iImm_eq inst, without⟩⟩
    · -- An addition to register zero is decoded as the idle operation.
      rename_i zero
      have none := not_not.mp zero
      exact ⟨_, rfl, signedBits_signExtend _ (by decide), .inr ⟨rfl, none, rfl, none⟩⟩
  case h_2 =>
    -- The addition of words is reserved for register zero.
    change (if Compressed.fullReg inst = 0 then none else some _) = some e at expanded
    split at expanded
    · cases expanded
    · cases expanded
      exact ⟨_, rfl, signedBits_signExtend _ (by decide), .inl ⟨rfl, rfl, fun _ => rfl, without,
        fun _ => iImm_eq inst, without⟩⟩
  case h_3 =>
    -- A load immediate is an addition to register zero's content.
    cases expanded
    exact ⟨_, rfl, signedBits_signExtend _ (by decide), .inl ⟨rfl, rfl, fun _ => rfl, without,
      fun _ => iImm_eq inst, without⟩⟩
  case h_4 =>
    -- The stack pointer is adjusted where other registers get an upper immediate.
    change (if Compressed.small inst = 0 then none
      else if Compressed.fullReg inst = 2 then some _ else some _) = some e at expanded
    split at expanded
    · cases expanded
    · split at expanded
      · rename_i named
        have sp : fullReg inst = 2 := named
        cases expanded
        rw [if_pos sp]
        exact ⟨_, rfl, signedBits_signExtend _ (by decide), .inl ⟨rfl, sp, fun _ => rfl, without,
          fun _ => dImm_eq inst, without⟩⟩
      · rename_i named
        have other : ¬ fullReg inst = 2 := named
        cases expanded
        rw [if_neg other]
        exact ⟨_, rfl, ⟨signedBits_signExtend _ (by decide), setWidth_signExtend_append _⟩,
          .inl ⟨rfl, rfl, without, without, fun _ => upper_eq inst, without⟩⟩
  case h_5 => exact arith_agrees expanded
  case h_6 =>
    -- A jump links nothing.
    cases expanded
    exact ⟨_, rfl, ⟨signedBits_signExtend _ (by decide), setWidth_signExtend_append _⟩,
      .inl ⟨rfl, rfl, without, without, fun _ => jImm_eq inst, without⟩⟩
  -- The branches compare with register zero.
  case h_7 =>
    cases expanded
    exact ⟨_, rfl, ⟨signedBits_signExtend _ (by decide), setWidth_signExtend_append _⟩,
      .inl ⟨rfl, rfl, fun _ => highReg_eq inst, fun _ => rfl, fun _ => bImm_eq inst, without⟩⟩
  case h_8 =>
    split at expanded
    case h_8 =>
      cases expanded
      exact ⟨_, rfl, ⟨signedBits_signExtend _ (by decide), setWidth_signExtend_append _⟩,
        .inl ⟨rfl, rfl, fun _ => highReg_eq inst, fun _ => rfl, fun _ => bImm_eq inst, without⟩⟩
    all_goals contradiction

/-- The word is an addition to register zero, which the extension has as a hint. -/
def AddsToZero (inst : BitVec 16) : Prop :=
  inst.extractLsb 1 0 = 2 ∧ inst.extractLsb 15 13 = 4 ∧ inst.getLsbD 12 ∧ fullReg inst = 0 ∧
    fullReg2 inst ≠ 0

instance (inst : BitVec 16) : Decidable (AddsToZero inst) := inferInstanceAs (Decidable (_ ∧ _))

/-- So are the moves and jumps of quadrant two, but for an addition to register zero. -/
theorem moveOrJump_agrees (expanded : Compressed.moveOrJump inst = some e)
    (other : ¬ (inst.getLsbD 12 ∧ fullReg inst = 0 ∧ fullReg2 inst ≠ 0)) :
    Agrees e (moveOrJump inst) := by
  dsimp only [Compressed.moveOrJump] at expanded
  dsimp only [moveOrJump]
  change (if inst.getLsbD 12 then
      if fullReg2 inst ≠ 0 then some _ else if fullReg inst ≠ 0 then some _ else some _
    else if fullReg2 inst ≠ 0 then some _ else if fullReg inst ≠ 0 then some _ else none) = some e
    at expanded
  by_cases set : inst.getLsbD 12
  · -- With the bit set the decoder looks at the first register before the second.
    rw [if_pos set] at expanded ⊢
    by_cases second : fullReg2 inst ≠ 0
    · by_cases first : fullReg inst ≠ 0
      · rw [if_pos second] at expanded
        rw [if_pos first, if_pos second]
        cases expanded
        exact ⟨_, rfl, trivial, .inl ⟨rfl, rfl, fun _ => rfl, fun _ => rfl, without, without⟩⟩
      · exact absurd ⟨set, not_not.mp first, second⟩ other
    · by_cases first : fullReg inst ≠ 0
      · rw [if_neg second, if_pos first] at expanded
        rw [if_pos first, if_neg second]
        cases expanded
        exact ⟨_, rfl, rfl, .inl ⟨rfl, rfl, fun _ => rfl, without, fun _ => rfl, without⟩⟩
      · rw [if_neg second, if_neg first] at expanded
        rw [if_neg first]
        cases expanded
        exact ⟨_, rfl, trivial, .inl ⟨rfl, rfl, without, without, without, without⟩⟩
  · -- With the bit clear a jump through register zero is reserved.
    rw [if_neg set] at expanded ⊢
    by_cases second : fullReg2 inst ≠ 0
    · rw [if_pos second] at expanded ⊢
      cases expanded
      exact ⟨_, rfl, trivial, .inl ⟨rfl, rfl, fun _ => rfl, fun _ => rfl, without, without⟩⟩
    · by_cases first : fullReg inst ≠ 0
      · rw [if_neg second, if_pos first] at expanded
        rw [if_neg second]
        cases expanded
        exact ⟨_, rfl, rfl, .inl ⟨rfl, rfl, fun _ => rfl, without, fun _ => rfl, without⟩⟩
      · rw [if_neg second, if_neg first] at expanded
        cases expanded

/-- So is the rest of quadrant two. -/
theorem quadrant2_agrees (quadrant : inst.extractLsb 1 0 = 2)
    (expanded : Compressed.quadrant2 inst = some e)
    (decoded : quadrant2 inst (inst.extractLsb 15 13) = .ok d) (other : ¬ AddsToZero inst) :
    Agrees e d := by
  by_cases moves : inst.extractLsb 15 13 = 4
  · dsimp only [Compressed.quadrant2] at expanded
    dsimp only [quadrant2] at decoded
    rw [moves] at expanded decoded
    cases decoded
    exact moveOrJump_agrees expanded fun ⟨set, zero, second⟩ =>
      other ⟨quadrant, moves, set, zero, second⟩
  · have code : (inst.extractLsb 15 13).toNat ≠ 4 := fun number =>
      moves (BitVec.eq_of_toNat_eq number)
    dsimp only [Compressed.quadrant2] at expanded
    dsimp only [quadrant2] at decoded
    generalize (BitVec.extractLsb 15 13 inst).toNat = funct3 at expanded decoded code
    split at decoded
    case h_1 =>
      cases decoded
      cases expanded
      exact ⟨_, rfl, unsignedBits_setWidth _, .inl ⟨rfl, rfl, fun _ => rfl, without,
        fun _ => uiImm_eq inst, without⟩⟩
    case h_2 =>
      cases decoded
      cases expanded
      exact ⟨_, rfl, signedBits_setWidth _ (by decide), .inl ⟨rfl, rfl, fun _ => rfl, without,
        fun _ => ldspImm_eq inst, without⟩⟩
    case h_3 =>
      -- The loads from the stack to an integer register are reserved for register zero.
      cases decoded
      change (if fullReg inst = 0 then none else some _) = some e at expanded
      split at expanded
      · cases expanded
      · cases expanded
        exact ⟨_, rfl, signedBits_setWidth _ (by decide), .inl ⟨rfl, rfl, fun _ => rfl, without,
          fun _ => lwspImm_eq inst, without⟩⟩
    case h_4 =>
      cases decoded
      change (if fullReg inst = 0 then none else some _) = some e at expanded
      split at expanded
      · cases expanded
      · cases expanded
        exact ⟨_, rfl, signedBits_setWidth _ (by decide), .inl ⟨rfl, rfl, fun _ => rfl, without,
          fun _ => ldspImm_eq inst, without⟩⟩
    -- The moves and jumps were the other case.
    case h_5 => exact absurd rfl code
    case h_6 =>
      cases decoded
      cases expanded
      exact ⟨_, rfl, signedBits_setWidth _ (by decide), .inl ⟨rfl, rfl, fun _ => rfl,
        fun _ => rfl, fun _ => swspImm_eq inst, without⟩⟩
    case h_7 =>
      cases decoded
      cases expanded
      exact ⟨_, rfl, signedBits_setWidth _ (by decide), .inl ⟨rfl, rfl, fun _ => rfl,
        fun _ => rfl, fun _ => sdspImm_eq inst, without⟩⟩
    case h_8 => cases decoded

/-- A word that is no addition to register zero is decoded to its expansion. -/
theorem dec16_agrees (expanded : Compressed.expand inst = some e) (decoded : dec16 inst = .ok d)
    (other : ¬ AddsToZero inst) : Agrees e d := by
  dsimp only [Compressed.expand] at expanded
  dsimp only [dec16] at decoded
  -- The quadrants are told apart by the two lowest bits.
  rcases toNat_cases (inst.extractLsb 1 0) with quadrant | quadrant | quadrant | quadrant
  · rw [quadrant] at expanded decoded
    exact quadrant0_agrees expanded decoded
  · rw [quadrant] at expanded decoded
    cases decoded
    exact quadrant1_agrees expanded
  · rw [quadrant] at expanded decoded
    exact quadrant2_agrees (BitVec.eq_of_toNat_eq quadrant) expanded decoded other
  · rw [quadrant] at expanded
    cases expanded

end Dec16

/-! ### Effects -/

/-- An operation that would only compute into register zero does nothing but go on. -/
theorem execute_to_zero {d : Decoded} (plain : d.op = .nop ∨ d.op = .addi ∨ d.op = .add)
    (zero : d.rd = 0) (host : Host) (m : Machine) (pc nextPc : BitVec 64) :
    execute host m pc nextPc d = .ok (nextPc, m) := by
  obtain ⟨op, rd, rs1, rs2, imm, csrAddr⟩ := d
  cases zero
  rcases plain with named | named | named
  all_goals
    cases named
    rfl

/--
Executing a decoded word and going on at an address is executing a full word and going on there.

The full word's own next address is four bytes on, which is where only the length of the word comes in.
-/
def SameEffect (host : Host) (m : Machine) (pc nextPc : BitVec 64) (d : Decoded)
    (word : BitVec 32) : Prop :=
  ∃ full, decode pc word = .ok (pc + 4, full) ∧
    execute host m pc nextPc d = execute host m pc nextPc full

/-- What agrees with an expansion has the effect of its encoding. -/
theorem Agrees.sameEffect {e : Compressed.Expansion} {d : Decoded} (agrees : Agrees e d)
    {word : BitVec 32} (encoded : e.encode = some word) (host : Host) (m : Machine)
    (pc nextPc : BitVec 64) : SameEffect host m pc nextPc d word := by
  obtain ⟨format, standard, fits, carries⟩ := agrees
  have encodes : format.encode e.operands = word := by
    simpa [Compressed.Expansion.encode, standard] using encoded
  obtain ⟨full, decoded, carried⟩ := Op.decodes standard e.operands fits pc
  rw [encodes] at decoded
  refine ⟨full, decoded, ?_⟩
  rcases carries with same | ⟨nop, zero, addi, none⟩
  · exact execute_carries standard same carried host m pc nextPc
  · -- The idle operation and an addition to register zero both just go on.
    have destination : full.rd = 0 := by
      rw [carried.rd, none]
      exact ite_self 0
    rw [execute_to_zero (.inl nop) zero,
      execute_to_zero (.inr (.inl (carried.op.trans addi))) destination]

/-- An addition to register zero is decoded as the breakpoint, and stops the emulator. -/
theorem Dec16.AddsToZero.differs {inst : BitVec 16} (adds : Dec16.AddsToZero inst)
    {e : Compressed.Expansion} {d : Decoded} {word : BitVec 32}
    (expanded : Compressed.expand inst = some e) (encoded : e.encode = some word)
    (decoded : Dec16.dec16 inst = .ok d) (host : Host) (m : Machine) (pc nextPc : BitVec 64) :
    ¬ SameEffect host m pc nextPc d word := by
  obtain ⟨quadrant, funct3, set, zero, second⟩ := adds
  rw [Compressed.expand, quadrant] at expanded
  dsimp only [Compressed.quadrant2] at expanded
  rw [Dec16.dec16, quadrant] at decoded
  dsimp only [Dec16.quadrant2] at decoded
  rw [funct3] at expanded decoded
  have addition : Compressed.moveOrJump inst = some
      ⟨.add, { rd := Dec16.fullReg inst, rs1 := Dec16.fullReg inst, rs2 := Dec16.fullReg2 inst }⟩ := by
    dsimp only [Compressed.moveOrJump]
    rw [if_pos set]
    exact if_pos second
  have breakpoint : (Dec16.moveOrJump inst).op = .ebreak := by
    dsimp only [Dec16.moveOrJump]
    rw [if_pos set, if_neg (not_not.mpr zero)]
  cases addition.symm.trans expanded
  cases decoded
  cases encoded
  -- The expansion completes with register zero, while the breakpoint stops the emulator.
  rintro ⟨full, decodes, same⟩
  have standard : Op.format .add = some (.reg 0x33 0 0x00) := rfl
  obtain ⟨other, decodes', carried⟩ := Op.decodes standard
    { rd := Dec16.fullReg inst, rs1 := Dec16.fullReg inst, rs2 := Dec16.fullReg2 inst } trivial pc
  cases Except.ok.inj (decodes.symm.trans decodes')
  have destination : full.rd = 0 := carried.rd.trans zero
  rw [execute_to_zero (.inr (.inr carried.op)) destination, execute, executeOp, breakpoint] at same
  cases same

/--
A legal 16-bit word has the effect of its expansion exactly when it is no addition to register zero.

The address after it, which is also what a jump links, is two bytes on.
-/
theorem compressed_effect_iff {inst : BitVec 32} {pc nextPc : BitVec 64} {d : Decoded}
    {e : Compressed.Expansion} {word : BitVec 32}
    (legal : Compressed.expand (inst.extractLsb 15 0) = some e) (encoded : e.encode = some word)
    (accepted : decode pc inst = .ok (nextPc, d)) (host : Host) (m : Machine) :
    (nextPc = pc + 2 ∧ SameEffect host m pc nextPc d word) ↔
      ¬ Dec16.AddsToZero (inst.extractLsb 15 0) := by
  -- A word with both low bits set has no expansion.
  have short : ¬ inst &&& 0x3 = 0x3 := by
    intro full
    have bits := full_iff.mp full
    have quadrant : ((inst.extractLsb 15 0).extractLsb 1 0).toNat = 3 := by
      rw [BitVec.extractLsb_toNat, BitVec.extractLsb_toNat, Nat.shiftRight_zero,
        Nat.shiftRight_zero]
      change _ % 65536 % 4 = 3
      omega
    rw [Compressed.expand, quadrant] at legal
    cases legal
  rw [decode, if_neg short] at accepted
  obtain ⟨decoded, decodes, result⟩ := bind_eq_ok.mp accepted
  cases Except.ok.inj result
  constructor
  · rintro ⟨_, same⟩ adds
    exact adds.differs legal encoded decodes host m pc (pc + 2) same
  · intro other
    exact ⟨rfl, (Dec16.dec16_agrees legal decodes other).sameEffect encoded host m pc (pc + 2)⟩

/-- The word of `c.addi x10, 1` has the effect of `addi x10, x10, 1`. -/
theorem compressed_effect_iff_addi :
    0x1002#64 = 0x1000 + 2 ∧ SameEffect {} (Machine.boot []) 0x1000 0x1002
      ⟨.addi, 10, 10, 0, 1, 0⟩ 0x00150513 := by
  have legal : Compressed.expand ((0x0505#32).extractLsb 15 0) =
      some ⟨.addi, { rd := 10, rs1 := 10, imm := 1 }⟩ := rfl
  have encoded : Compressed.Expansion.encode ⟨.addi, { rd := 10, rs1 := 10, imm := 1 }⟩ =
      some 0x00150513 := rfl
  have accepted : decode 0x1000 0x0505 = .ok (0x1002, ⟨.addi, 10, 10, 0, 1, 0⟩) := rfl
  exact (compressed_effect_iff legal encoded accepted {} (Machine.boot [])).mpr (by decide)

/-- The word of `c.add x0, x2`, a hint, stops the emulator. -/
theorem hint_stops :
    ¬ ∀ (host : Host) (m : Machine) (inst : BitVec 32) (pc nextPc : BitVec 64) (d : Decoded)
      (e : Compressed.Expansion) (word : BitVec 32),
      Compressed.expand (inst.extractLsb 15 0) = some e → e.encode = some word →
      decode pc inst = .ok (nextPc, d) →
      nextPc = pc + 2 ∧ SameEffect host m pc nextPc d word := by
  intro always
  have adds : Dec16.AddsToZero ((0x900A#32).extractLsb 15 0) := by decide
  have same := (always {} (Machine.boot []) 0x900A 0x1000 0x1002 _ _ _ rfl rfl rfl).2
  exact adds.differs rfl rfl rfl {} (Machine.boot []) 0x1000 0x1002 same

end Xemu
