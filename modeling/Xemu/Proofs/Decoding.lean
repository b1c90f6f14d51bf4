import Mathlib.Data.BitVec
import Xemu.Decode.Decode
import Xemu.Decode.Encoding

/-! Decoding the standard encoding of an instruction gives back its operation and operands. -/

namespace Xemu

/-! ### The columns of a word -/

/-- A cut-out field is known by its places. -/
theorem extractLsb_eq {w high low : Nat} {word : BitVec w} {field : BitVec (high - low + 1)}
    (places : ∀ i, i ≤ high - low → word.getLsbD (low + i) = field.getLsbD i) :
    word.extractLsb high low = field := by
  apply BitVec.eq_of_getLsbD_eq
  intro i below
  have inside : i ≤ high - low := by omega
  rw [BitVec.getLsbD_extractLsb, places i inside]
  simp [below]

section Columns

variable (funct7 : BitVec 7) (rs2 rs1 : BitVec 5) (funct3 : BitVec 3) (rd : BitVec 5)
  (opcode : BitVec 7)

/-- Each place of a word belongs to one column. -/
theorem getLsbD_columns (i : Nat) :
    (columns funct7 rs2 rs1 funct3 rd opcode).getLsbD i =
      if i < 7 then opcode.getLsbD i
      else if i < 12 then rd.getLsbD (i - 7)
      else if i < 15 then funct3.getLsbD (i - 12)
      else if i < 20 then rs1.getLsbD (i - 15)
      else if i < 25 then rs2.getLsbD (i - 20)
      else funct7.getLsbD (i - 25) := by
  simp only [columns, BitVec.getLsbD_append]
  grind

/-- The lowest column is the opcode. -/
@[simp] theorem columns_opcode :
    (columns funct7 rs2 rs1 funct3 rd opcode).extractLsb 6 0 = opcode :=
  extractLsb_eq fun i below => by grind [getLsbD_columns]

/-- The next one is the destination. -/
@[simp] theorem columns_rd :
    (columns funct7 rs2 rs1 funct3 rd opcode).extractLsb 11 7 = rd :=
  extractLsb_eq fun i below => by grind [getLsbD_columns]

/-- The next one is the short function code. -/
@[simp] theorem columns_funct3 :
    (columns funct7 rs2 rs1 funct3 rd opcode).extractLsb 14 12 = funct3 :=
  extractLsb_eq fun i below => by grind [getLsbD_columns]

/-- The next one is the first source. -/
@[simp] theorem columns_rs1 :
    (columns funct7 rs2 rs1 funct3 rd opcode).extractLsb 19 15 = rs1 :=
  extractLsb_eq fun i below => by grind [getLsbD_columns]

/-- The next one is the second source. -/
@[simp] theorem columns_rs2 :
    (columns funct7 rs2 rs1 funct3 rd opcode).extractLsb 24 20 = rs2 :=
  extractLsb_eq fun i below => by grind [getLsbD_columns]

/-- The highest column is the long function code. -/
@[simp] theorem columns_funct7 :
    (columns funct7 rs2 rs1 funct3 rd opcode).extractLsb 31 25 = funct7 :=
  extractLsb_eq fun i below => by grind [getLsbD_columns]

/-- The function code of an atomic operation is the upper part of the highest column. -/
@[simp] theorem columns_funct5 :
    (columns funct7 rs2 rs1 funct3 rd opcode).extractLsb 31 27 = funct7.extractLsb 6 2 :=
  extractLsb_eq fun i below => by grind [getLsbD_columns]

/-- The two highest columns make up twelve bits. -/
@[simp] theorem columns_funct12 (f : BitVec 12) :
    (columns (f.extractLsb 11 5) (f.extractLsb 4 0) rs1 funct3 rd opcode).extractLsb 31 20 = f :=
  extractLsb_eq fun i below => by grind [getLsbD_columns]

end Columns

/-! ### Immediates -/

section Widths

variable {width i : Nat} {imm other : BitVec 64}

/-- A number is the signed one that agrees with it up to the sign and repeats the sign above. -/
theorem SignedBits.eq (signed : SignedBits width imm)
    (low : ∀ i, i < width → other.getLsbD i = imm.getLsbD i)
    (high : ∀ i, width ≤ i → i < 64 → other.getLsbD i = imm.getLsbD (width - 1)) : other = imm := by
  apply BitVec.eq_of_getLsbD_eq
  intro i below
  rcases Nat.lt_or_ge i width with under | above
  · exact low i under
  · -- A place above is a copy of the sign in the extension too.
    rw [high i above below, ← signed, BitVec.getLsbD_signExtend, BitVec.getLsbD_signExtend]
    have sign : width - 1 < 64 := by omega
    by_cases some : width - 1 < width
    · simp [below, sign, Nat.not_lt.mpr above, some, BitVec.msb_eq_getLsbD_last]
    · simp [below, sign, Nat.not_lt.mpr above, some]

/-- A number is the unsigned one that agrees with it in the low places and has nothing above. -/
theorem UnsignedBits.eq (unsigned : UnsignedBits width imm)
    (low : ∀ i, i < width → other.getLsbD i = imm.getLsbD i)
    (high : ∀ i, width ≤ i → other.getLsbD i = false) : other = imm := by
  apply BitVec.eq_of_getLsbD_eq
  intro i below
  rcases Nat.lt_or_ge i width with under | above
  · exact low i under
  · rw [high i above, ← unsigned, BitVec.getLsbD_setWidth, BitVec.getLsbD_setWidth]
    simp [Nat.not_lt.mpr above]

/-- The low places of a number of which nothing is left in a width are clear. -/
theorem getLsbD_of_setWidth_eq_zero (cleared : imm.setWidth width = 0) (under : i < width) :
    imm.getLsbD i = false := by
  have place := congrArg (fun word => word.getLsbD i) cleared
  simpa [BitVec.getLsbD_setWidth, under] using place

end Widths

namespace Dec32

section Immediates

variable {imm : BitVec 64} (funct7 : BitVec 7) (rs2 rs1 : BitVec 5) (funct3 : BitVec 3)
  (rd : BitVec 5) (opcode : BitVec 7)

/-- A signed number of twelve bits comes out of the two highest columns. -/
theorem iImm_columns (fits : SignedBits 12 imm) :
    iImm (columns (imm.extractLsb 11 5) (imm.extractLsb 4 0) rs1 funct3 rd opcode) = imm := by
  -- Each place below the sign is in one of the two columns, and the rest are copies of bit 31.
  refine fits.eq ?_ ?_
  all_goals
    intro i
    simp only [iImm, BitVec.getLsbD_or, BitVec.getLsbD_shiftLeft, getLsbD_expandBit, getLsbD_bits,
      getLsbD_columns, BitVec.getLsbD_extractLsb]
    grind

/-- That of a store comes out of the highest column and the place of the destination. -/
theorem sImm_columns (fits : SignedBits 12 imm) :
    sImm (columns (imm.extractLsb 11 5) rs2 rs1 funct3 (imm.extractLsb 4 0) opcode) = imm := by
  refine fits.eq ?_ ?_
  all_goals
    intro i
    simp only [sImm, BitVec.getLsbD_or, BitVec.getLsbD_shiftLeft, getLsbD_expandBit, getLsbD_bits,
      getLsbD_columns, BitVec.getLsbD_extractLsb]
    grind

/-- The offset of a branch comes out of the same places, bit eleven from the lowest of them. -/
theorem bImm_columns (fits : SignedBits 13 imm) (even : imm.setWidth 1 = 0) :
    bImm (columns (imm.extractLsb 12 12 ++ imm.extractLsb 10 5) rs2 rs1 funct3
      (imm.extractLsb 4 1 ++ imm.extractLsb 11 11) opcode) = imm := by
  have lowest := getLsbD_of_setWidth_eq_zero even (show 0 < 1 by decide)
  -- The place that is not encoded is clear, and bit eleven comes from the lowest column.
  refine fits.eq ?_ ?_
  all_goals
    intro i
    simp only [bImm, BitVec.getLsbD_or, BitVec.getLsbD_shiftLeft, getLsbD_expandBit, getLsbD_bits,
      getLsbD_bit, getLsbD_columns, BitVec.getLsbD_append, BitVec.getLsbD_extractLsb]
    grind

/-- The upper bits of a number come out of the four highest columns. -/
theorem uImm_columns (fits : SignedBits 32 imm) (page : imm.setWidth 12 = 0) :
    uImm (columns (imm.extractLsb 31 25) (imm.extractLsb 24 20) (imm.extractLsb 19 15)
      (imm.extractLsb 14 12) rd opcode) = imm := by
  have lowest := fun i => getLsbD_of_setWidth_eq_zero (i := i) page
  refine fits.eq ?_ ?_
  all_goals
    intro i
    simp only [uImm, BitVec.getLsbD_or, BitVec.getLsbD_shiftLeft, getLsbD_expandBit, getLsbD_bits,
      getLsbD_columns, BitVec.getLsbD_extractLsb]
    grind

/-- The offset of a jump comes out of them in another order. -/
theorem jImm_columns (fits : SignedBits 21 imm) (even : imm.setWidth 1 = 0) :
    jImm (columns (imm.extractLsb 20 20 ++ imm.extractLsb 10 5)
      (imm.extractLsb 4 1 ++ imm.extractLsb 11 11) (imm.extractLsb 19 15) (imm.extractLsb 14 12)
      rd opcode) = imm := by
  have lowest := getLsbD_of_setWidth_eq_zero even (show 0 < 1 by decide)
  -- Of a jump bit eleven comes from the middle of the word.
  refine fits.eq ?_ ?_
  all_goals
    intro i
    simp only [jImm, BitVec.getLsbD_or, BitVec.getLsbD_shiftLeft, getLsbD_expandBit, getLsbD_bits,
      getLsbD_bit, getLsbD_columns, BitVec.getLsbD_append, BitVec.getLsbD_extractLsb]
    grind

/-- The operand of an access to a control register comes out of the first source. -/
theorem cImm_columns (fits : UnsignedBits 5 imm) :
    cImm (columns funct7 rs2 (imm.extractLsb 4 0) funct3 rd opcode) = imm := by
  refine fits.eq ?_ ?_
  all_goals
    intro i
    simp only [cImm, getLsbD_bits, getLsbD_columns, BitVec.getLsbD_extractLsb]
    grind

/-- The amount of a shift comes out of the second source and a bit of the highest column. -/
theorem mImm6_columns (funct6 : BitVec 6) (fits : UnsignedBits 6 imm) :
    mImm6 (columns (funct6 ++ imm.extractLsb 5 5) (imm.extractLsb 4 0) rs1 funct3 rd opcode) =
      imm := by
  refine fits.eq ?_ ?_
  all_goals
    intro i
    -- The sixth bit of the amount is the lowest of the highest column.
    simp only [mImm6, getLsbD_bits, getLsbD_columns, BitVec.getLsbD_append,
      BitVec.getLsbD_extractLsb]
    grind

/-- The amount of a shift of words comes out of the second source. -/
theorem mImm5_columns (fits : UnsignedBits 5 imm) :
    mImm5 (columns funct7 (imm.extractLsb 4 0) rs1 funct3 rd opcode) = imm := by
  refine fits.eq ?_ ?_
  all_goals
    intro i
    simp only [mImm5, getLsbD_bits, getLsbD_columns, BitVec.getLsbD_extractLsb]
    grind

end Immediates
end Dec32

/-! ### Operations -/

namespace Dec32

section Classes

variable {op : Op} {imm : BitVec 64} (funct7 : BitVec 7) (rs2 rs1 : BitVec 5) {funct3 : BitVec 3}
  (rd : BitVec 5)

/-- The upper immediate is decoded. -/
theorem dec32_lui :
    dec32 (columns funct7 rs2 rs1 funct3 rd 0x37#7) =
      .ok ⟨.lui, rd, rs1, rs2, uImm (columns funct7 rs2 rs1 funct3 rd 0x37#7), 0⟩ := by
  simp [dec32]

/-- So is the upper immediate relative to the address. -/
theorem dec32_auipc :
    dec32 (columns funct7 rs2 rs1 funct3 rd 0x17#7) =
      .ok ⟨.auipc, rd, rs1, rs2, uImm (columns funct7 rs2 rs1 funct3 rd 0x17#7), 0⟩ := by
  simp [dec32]

/-- So is the jump. -/
theorem dec32_jal :
    dec32 (columns funct7 rs2 rs1 funct3 rd 0x6F#7) =
      .ok ⟨.jal, rd, rs1, rs2, jImm (columns funct7 rs2 rs1 funct3 rd 0x6F#7), 0⟩ := by
  simp [dec32]

/-- So is the jump through a register. -/
theorem dec32_jalr :
    dec32 (columns funct7 rs2 rs1 funct3 rd 0x67#7) =
      .ok ⟨.jalr, rd, rs1, rs2, iImm (columns funct7 rs2 rs1 funct3 rd 0x67#7), 0⟩ := by
  simp [dec32]

/-- So are the branches, whose destination stays clear. -/
theorem dec32_branch (named : branchOp funct3 = .ok op) :
    dec32 (columns funct7 rs2 rs1 funct3 rd 0x63#7) =
      .ok ⟨op, 0, rs1, rs2, bImm (columns funct7 rs2 rs1 funct3 rd 0x63#7), 0⟩ := by
  simp [dec32, named]

/-- So are the loads. -/
theorem dec32_load (named : loadOp funct3 = .ok op) :
    dec32 (columns funct7 rs2 rs1 funct3 rd 0x03#7) =
      .ok ⟨op, rd, rs1, rs2, iImm (columns funct7 rs2 rs1 funct3 rd 0x03#7), 0⟩ := by
  simp [dec32, named]

/-- So are the stores, whose destination stays clear. -/
theorem dec32_store (named : storeOp funct3 = .ok op) :
    dec32 (columns funct7 rs2 rs1 funct3 rd 0x23#7) =
      .ok ⟨op, 0, rs1, rs2, sImm (columns funct7 rs2 rs1 funct3 rd 0x23#7), 0⟩ := by
  simp [dec32, named]

/-- So are the floating-point loads. -/
theorem dec32_loadFp (named : loadFpOp funct3 = .ok op) :
    dec32 (columns funct7 rs2 rs1 funct3 rd 0x07#7) =
      .ok ⟨op, rd, rs1, rs2, iImm (columns funct7 rs2 rs1 funct3 rd 0x07#7), 0⟩ := by
  simp [dec32, named]

/-- So are the floating-point stores. -/
theorem dec32_storeFp (named : storeFpOp funct3 = .ok op) :
    dec32 (columns funct7 rs2 rs1 funct3 rd 0x27#7) =
      .ok ⟨op, 0, rs1, rs2, sImm (columns funct7 rs2 rs1 funct3 rd 0x27#7), 0⟩ := by
  simp [dec32, named]

/-- So are the operations with an immediate that are no shifts. -/
theorem dec32_imm (plain : ¬ (funct3 = 1#3 ∨ funct3 = 5#3))
    (named : immOp (columns funct7 rs2 rs1 funct3 rd 0x13#7) funct3 = op) :
    dec32 (columns funct7 rs2 rs1 funct3 rd 0x13#7) =
      .ok ⟨op, rd, rs1, rs2, iImm (columns funct7 rs2 rs1 funct3 rd 0x13#7), 0⟩ := by
  simp [dec32, named, plain]

/-- So are the shifts, by six bits of the word. -/
theorem dec32_shift (shift : funct3 = 1#3 ∨ funct3 = 5#3)
    (named : immOp (columns funct7 rs2 rs1 funct3 rd 0x13#7) funct3 = op) :
    dec32 (columns funct7 rs2 rs1 funct3 rd 0x13#7) =
      .ok ⟨op, rd, rs1, rs2, mImm6 (columns funct7 rs2 rs1 funct3 rd 0x13#7), 0⟩ := by
  simp [dec32, named, shift]

/-- So are the operations with an immediate on words. -/
theorem dec32_immW
    (named : immWOp (columns funct7 rs2 rs1 funct3 rd 0x1B#7) funct3 = .ok (op, imm)) :
    dec32 (columns funct7 rs2 rs1 funct3 rd 0x1B#7) = .ok ⟨op, rd, rs1, rs2, imm, 0⟩ := by
  simp [dec32, named]

/-- So are the operations between registers. -/
theorem dec32_reg (named : regOp (columns funct7 rs2 rs1 funct3 rd 0x33#7) funct3 funct7 = op) :
    dec32 (columns funct7 rs2 rs1 funct3 rd 0x33#7) = .ok ⟨op, rd, rs1, rs2, 0, 0⟩ := by
  simp [dec32, named]

/-- So are those on words. -/
theorem dec32_regW
    (named : regWOp (columns funct7 rs2 rs1 funct3 rd 0x3B#7) funct3 funct7 = .ok op) :
    dec32 (columns funct7 rs2 rs1 funct3 rd 0x3B#7) = .ok ⟨op, rd, rs1, rs2, 0, 0⟩ := by
  simp [dec32, named]

/-- So are the fences. -/
theorem dec32_misc (named : miscOp funct3 = .ok op) :
    dec32 (columns funct7 rs2 rs1 funct3 rd 0x0F#7) = .ok ⟨op, rd, rs1, rs2, 0, 0⟩ := by
  simp [dec32, named]

/-- So are the system instructions, with the number of their control register. -/
theorem dec32_system
    (named : systemOp (columns funct7 rs2 rs1 funct3 rd 0x73#7) funct3 funct7 = .ok (op, imm)) :
    dec32 (columns funct7 rs2 rs1 funct3 rd 0x73#7) =
      .ok ⟨op, rd, rs1, rs2, imm, (columns funct7 rs2 rs1 funct3 rd 0x73#7).extractLsb 31 20⟩ := by
  simp [dec32, named]

/-- So are the atomic operations. -/
theorem dec32_amo (named : amoOp funct3 (funct7.extractLsb 6 2) = .ok op) :
    dec32 (columns funct7 rs2 rs1 funct3 rd 0x2F#7) = .ok ⟨op, rd, rs1, rs2, 0, 0⟩ := by
  simp [dec32, named]

/-- So is the floating-point operation. -/
theorem dec32_fp (named : fpOp funct7 = .ok op) :
    dec32 (columns funct7 rs2 rs1 funct3 rd 0x53#7) = .ok ⟨op, rd, rs1, rs2, 0, 0⟩ := by
  simp [dec32, named]

end Classes

end Dec32


/-! ### Formats -/

section Formats

variable {op : Op} {o : Operands} {opcode funct7 : BitVec 7} {funct6 : BitVec 6}
  {funct3 : BitVec 3} {rs2 rs1 rd : BitVec 5} {csrAddr : BitVec 12}

/-- Decoding the encoding of operands in a format gives an operation with these operands. -/
def Format.Decodes (format : Format) (op : Op) (o : Operands) (pc : BitVec 64) : Prop :=
  ∃ d, decode pc (format.encode o) = .ok (pc + 4, d) ∧ format.Carries op o d

/-- The mask that the length of a word is known by keeps its remainder by four. -/
theorem full_iff {inst : BitVec 32} : inst &&& 0x3 = 0x3 ↔ inst.toNat % 4 = 3 := by
  have mask : (inst &&& 0x3).toNat = inst.toNat % 4 := by
    rw [BitVec.toNat_and]
    exact Nat.and_two_pow_sub_one_eq_mod inst.toNat 2
  rw [← BitVec.toNat_inj, mask]
  rfl

/-- Nothing is asked of an output for an operand that a format has not. -/
theorem without {asked : Prop} (has : false = true) : asked := absurd has Bool.false_ne_true

/-- A word whose opcode has both of its low bits set goes to the decoder of full words. -/
theorem decode_columns {d : Decoded} (full : opcode.extractLsb 1 0 = 3)
    (decoded : Dec32.dec32 (columns funct7 rs2 rs1 funct3 rd opcode) = .ok d) (pc : BitVec 64) :
    decode pc (columns funct7 rs2 rs1 funct3 rd opcode) = .ok (pc + 4, d) := by
  have low : columns funct7 rs2 rs1 funct3 rd opcode &&& 0x3 = 0x3 := by
    have field := congrArg BitVec.toNat (columns_opcode funct7 rs2 rs1 funct3 rd opcode)
    have bits := congrArg BitVec.toNat full
    simp only [BitVec.extractLsb_toNat, Nat.shiftRight_zero] at field bits
    -- The opcode is the remainder by a multiple of four.
    rw [full_iff]
    change _ % 128 = _ at field
    change _ % 4 = 3 at bits
    omega
  rw [decode, if_pos low, decoded]
  rfl

open Dec32

/-- The outputs for a format with a signed number of twelve bits in one piece. -/
theorem carries_imm (fits : SignedBits 12 o.imm) :
    (Format.imm opcode funct3).Carries op o ⟨op, o.rd, o.rs1, rs2,
      iImm (columns (o.imm.extractLsb 11 5) (o.imm.extractLsb 4 0) o.rs1 funct3 o.rd opcode),
      csrAddr⟩ :=
  ⟨rfl, rfl, fun _ => rfl, without, fun _ => iImm_columns _ _ _ _ fits, without⟩

/-- The outputs for a store. -/
theorem carries_store (fits : SignedBits 12 o.imm) :
    (Format.store opcode funct3).Carries op o ⟨op, 0, o.rs1, o.rs2,
      sImm (columns (o.imm.extractLsb 11 5) o.rs2 o.rs1 funct3 (o.imm.extractLsb 4 0) opcode),
      csrAddr⟩ :=
  ⟨rfl, rfl, fun _ => rfl, fun _ => rfl, fun _ => sImm_columns _ _ _ _ fits, without⟩

/-- The bit of a word that tells two operations apart is in its highest column. -/
theorem columns_bit : (columns funct7 rs2 rs1 funct3 rd opcode).getLsbD 30 = funct7.getLsbD 5 := by
  rw [getLsbD_columns]
  rfl

/-- A shift is decoded from its encoding, to the right by the bit that tells the two kinds apart. -/
theorem decodes_shift (shift : funct3 = 1#3 ∨ funct3 = 5#3)
    (named : ∀ word : BitVec 32, word.getLsbD 30 = funct6.getLsbD 4 → immOp word funct3 = op)
    (fits : UnsignedBits 6 o.imm) (pc : BitVec 64) :
    (Format.shift funct3 funct6).Decodes op o pc := by
  have bit : (funct6 ++ o.imm.extractLsb 5 5).getLsbD 5 = funct6.getLsbD 4 := by
    rw [BitVec.getLsbD_append]
    rfl
  exact ⟨_, decode_columns rfl (dec32_shift _ _ _ _ shift (named _ (columns_bit.trans bit))) pc,
    ⟨rfl, rfl, fun _ => rfl, without, fun _ => mImm6_columns _ _ _ _ _ fits, without⟩⟩

/-- A shift of words is decoded from its encoding. -/
theorem decodes_shiftW
    (named : ∀ word : BitVec 32, word.getLsbD 30 = funct7.getLsbD 5 →
      immWOp word funct3 = .ok (op, mImm5 word))
    (fits : UnsignedBits 5 o.imm) (pc : BitVec 64) :
    (Format.shiftW funct3 funct7).Decodes op o pc :=
  ⟨_, decode_columns rfl (dec32_immW _ _ _ _ (named _ columns_bit)) pc,
    ⟨rfl, rfl, fun _ => rfl, without, fun _ => mImm5_columns _ _ _ _ _ fits, without⟩⟩

/-- An operation between registers is decoded from its encoding. -/
theorem decodes_reg
    (named : ∀ word : BitVec 32, word.getLsbD 30 = funct7.getLsbD 5 →
      regOp word funct3 funct7 = op) (pc : BitVec 64) :
    (Format.reg 0x33#7 funct3 funct7).Decodes op o pc :=
  ⟨_, decode_columns rfl (dec32_reg _ _ _ _ (named _ columns_bit)) pc,
    ⟨rfl, rfl, fun _ => rfl, fun _ => rfl, without, without⟩⟩

/-- So is one on words. -/
theorem decodes_regW
    (named : ∀ word : BitVec 32, word.getLsbD 30 = funct7.getLsbD 5 →
      regWOp word funct3 funct7 = .ok op) (pc : BitVec 64) :
    (Format.reg 0x3B#7 funct3 funct7).Decodes op o pc :=
  ⟨_, decode_columns rfl (dec32_regW _ _ _ _ (named _ columns_bit)) pc,
    ⟨rfl, rfl, fun _ => rfl, fun _ => rfl, without, without⟩⟩

/-- An atomic operation is decoded from its encoding, whatever its ordering bits are. -/
theorem decodes_amo {funct5 : BitVec 5} (named : amoOp funct3 funct5 = .ok op) (pc : BitVec 64) :
    (Format.amo funct3 funct5).Decodes op o pc := by
  have code : (funct5 ++ o.aq ++ o.rl).extractLsb 6 2 = funct5 :=
    extractLsb_eq fun i below => by grind
  exact ⟨_, decode_columns rfl (dec32_amo _ _ _ _ (by rw [code, named])) pc,
    ⟨rfl, rfl, fun _ => rfl, fun _ => rfl, without, without⟩⟩

/-- So is a load-reserved, which has no second source. -/
theorem decodes_lr (named : amoOp funct3 0x02#5 = .ok op) (pc : BitVec 64) :
    (Format.lr funct3).Decodes op o pc := by
  have code : (0x02#5 ++ o.aq ++ o.rl).extractLsb 6 2 = 0x02#5 :=
    extractLsb_eq fun i below => by grind
  exact ⟨_, decode_columns rfl (dec32_amo _ _ _ _ (by rw [code, named])) pc,
    ⟨rfl, rfl, fun _ => rfl, without, without, without⟩⟩

/-- An access to a control register is decoded from its encoding. -/
theorem decodes_csr (named : ∀ word, systemOp word funct3 (o.csrAddr.extractLsb 11 5) = .ok (op, 0))
    (pc : BitVec 64) : (Format.csr funct3).Decodes op o pc :=
  ⟨_, decode_columns rfl (dec32_system _ _ _ _ (named _)) pc,
    ⟨rfl, rfl, fun _ => rfl, without, without, fun _ => columns_funct12 ..⟩⟩

/-- So is one with its operand in the word. -/
theorem decodes_csrImm
    (named : ∀ word, systemOp word funct3 (o.csrAddr.extractLsb 11 5) = .ok (op, cImm word))
    (fits : UnsignedBits 5 o.imm) (pc : BitVec 64) : (Format.csrImm funct3).Decodes op o pc :=
  ⟨_, decode_columns rfl (dec32_system _ _ _ _ (named _)) pc,
    ⟨rfl, rfl, without, without, fun _ => cImm_columns _ _ _ _ _ fits, fun _ => columns_funct12 ..⟩⟩

/-- A system instruction is decoded from the twelve bits that name it. -/
theorem decodes_system {funct12 : BitVec 12}
    (named : ∀ word : BitVec 32, word.extractLsb 24 20 = funct12.extractLsb 4 0 →
      privOp word (funct12.extractLsb 11 5) = .ok op) (pc : BitVec 64) :
    (Format.system funct12).Decodes op o pc := by
  -- The two fields of the word are the two parts of the twelve bits.
  have priv := named _ (columns_rs2 (funct12.extractLsb 11 5) (funct12.extractLsb 4 0) 0 0 0 0x73)
  have system : systemOp (columns (funct12.extractLsb 11 5) (funct12.extractLsb 4 0) 0 0 0 0x73) 0
      (funct12.extractLsb 11 5) = .ok (op, 0) := by
    change (privOp _ _ >>= _) = _
    rw [priv]
    rfl
  exact ⟨_, decode_columns rfl (dec32_system _ _ _ _ system) pc,
    ⟨rfl, rfl, without, without, without, without⟩⟩

end Formats

open Dec32 in
/-- Every operation is decoded from its standard encoding, in whatever format that is. -/
theorem Op.decodes {op : Op} {format : Format} (standard : op.format = some format)
    (o : Operands) (fits : format.Fits o.imm) (pc : BitVec 64) : format.Decodes op o pc := by
  -- The groups are those of the decoder's own switch.
  cases op with
  | nop => cases standard
  | lui =>
    cases standard
    exact ⟨_, decode_columns rfl (dec32_lui ..) pc,
      ⟨rfl, rfl, without, without, fun _ => uImm_columns _ _ fits.1 fits.2, without⟩⟩
  | auipc =>
    cases standard
    exact ⟨_, decode_columns rfl (dec32_auipc ..) pc,
      ⟨rfl, rfl, without, without, fun _ => uImm_columns _ _ fits.1 fits.2, without⟩⟩
  | jal =>
    cases standard
    exact ⟨_, decode_columns rfl (dec32_jal ..) pc,
      ⟨rfl, rfl, without, without, fun _ => jImm_columns _ _ fits.1 fits.2, without⟩⟩
  | jalr =>
    cases standard
    exact ⟨_, decode_columns rfl (dec32_jalr ..) pc, carries_imm fits⟩
  | beq | bne | blt | bge | bltu | bgeu =>
    cases standard
    exact ⟨_, decode_columns rfl (dec32_branch _ _ _ _ rfl) pc,
      ⟨rfl, rfl, fun _ => rfl, fun _ => rfl, fun _ => bImm_columns _ _ _ _ fits.1 fits.2, without⟩⟩
  | lb | lh | lw | ld | lbu | lhu | lwu =>
    cases standard
    exact ⟨_, decode_columns rfl (dec32_load _ _ _ _ rfl) pc, carries_imm fits⟩
  | sb | sh | sw | sd =>
    cases standard
    exact ⟨_, decode_columns rfl (dec32_store _ _ _ _ rfl) pc, carries_store fits⟩
  | flw | fld =>
    cases standard
    exact ⟨_, decode_columns rfl (dec32_loadFp _ _ _ _ rfl) pc, carries_imm fits⟩
  | fsw | fsd =>
    cases standard
    exact ⟨_, decode_columns rfl (dec32_storeFp _ _ _ _ rfl) pc, carries_store fits⟩
  | addi | slti | sltiu | xori | ori | andi =>
    cases standard
    exact ⟨_, decode_columns rfl (dec32_imm _ _ _ _ (by decide) rfl) pc, carries_imm fits⟩
  | addiw =>
    cases standard
    exact ⟨_, decode_columns rfl (dec32_immW _ _ _ _ rfl) pc, carries_imm fits⟩
  -- The right shifts, subtractions and their word forms are told apart by bit thirty.
  | slli | srli | srai =>
    cases standard
    exact decodes_shift (by decide) (fun word bit => by simp only [immOp, bit]; rfl) fits pc
  | slliw | srliw | sraiw =>
    cases standard
    exact decodes_shiftW (fun word bit => by simp only [immWOp, bit]; rfl) fits pc
  | add | sub | sll | slt | sltu | xor | srl | sra | or | and | mul | mulh | mulhsu | mulhu | div
  | divu | rem | remu =>
    cases standard
    exact decodes_reg (fun word bit => by simp only [regOp, bit]; rfl) pc
  | addw | subw | sllw | srlw | sraw | mulw | divw | divuw | remw | remuw =>
    cases standard
    exact decodes_regW (fun word bit => by simp only [regWOp, bit]; rfl) pc
  | fence | fenceI =>
    cases standard
    exact ⟨_, decode_columns rfl (dec32_misc _ _ _ _ rfl) pc,
      ⟨rfl, rfl, fun _ => rfl, without, without, without⟩⟩
  | amoAddD | amoSwapD | scD | amoXorD | amoOrD | amoAndD | amoMinD | amoMaxD | amoMinuD
  | amoMaxuD | amoAddW | amoSwapW | scW | amoXorW | amoOrW | amoAndW | amoMinW | amoMaxW
  | amoMinuW | amoMaxuW =>
    cases standard
    exact decodes_amo rfl pc
  | lrD | lrW =>
    cases standard
    exact decodes_lr rfl pc
  -- A system instruction has the number of a control register or a function of twelve bits.
  | csrrw | csrrs | csrrc =>
    cases standard
    exact decodes_csr (fun _ => rfl) pc
  | csrrwi | csrrsi | csrrci =>
    cases standard
    exact decodes_csrImm (fun _ => rfl) fits pc
  | ecall | ebreak | uret | sret | wfi | mret =>
    cases standard
    exact decodes_system (fun word second => by simp [privOp, bits, second]) pc
  | sfenceVma =>
    cases standard
    exact ⟨_, decode_columns rfl (dec32_system _ _ _ _ rfl) pc,
      ⟨rfl, rfl, fun _ => rfl, fun _ => rfl, without, without⟩⟩
  | fmvWX =>
    cases standard
    exact ⟨_, decode_columns rfl (dec32_fp _ _ _ _ rfl) pc,
      ⟨rfl, rfl, fun _ => rfl, without, without, without⟩⟩

/--
Decoding the standard encoding of an instruction gives its operation and its operands.

The immediate is one the format can represent, and the outputs for operands it does not have are left open.
-/
theorem decode_encode {op : Op} {format : Format} (standard : op.format = some format)
    (o : Operands) (fits : format.Fits o.imm) (pc : BitVec 64) :
    ∃ d, decode pc (format.encode o) = .ok (pc + 4, d) ∧ format.Carries op o d :=
  Op.decodes standard o fits pc

/-- The word of `addi x1, x2, -3`. -/
theorem decode_encode_addi :
    ∃ d, decode 0x1000 0xFFD10093 = .ok (0x1004, d) ∧
      (Format.imm 0x13 0).Carries .addi { rd := 1, rs1 := 2, imm := -3 } d := by
  have fits : (Format.imm 0x13 0).Fits (-3) := by
    change BitVec.signExtend 64 (BitVec.setWidth 12 (-3)) = _
    decide
  exact decode_encode rfl { rd := 1, rs1 := 2, imm := -3 } fits 0x1000

end Xemu
