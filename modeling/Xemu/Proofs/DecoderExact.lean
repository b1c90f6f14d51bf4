import Xemu.Isa.Legal
import Xemu.Lib.Decides
import Xemu.Proofs.Decoding

/-! Which illegal words the decoders accept, and which legal one they reject. -/

namespace Xemu

/-- A stop of a decoder, which is a panic. -/
def IsPanic (stop : Stop) : Prop := ∃ text, stop = .panic text

/-- A decoder panics instead of returning an operation. -/
def Rejects (comp : Except Stop Decoded) : Prop := ∃ stop, comp = .error stop ∧ IsPanic stop

/-- A decoder returns an operation. -/
def Accepts (comp : Except Stop Decoded) : Prop := ∃ d, comp = .ok d

/-! ### The standard encodings are legal -/

section Encodings

/-- What makes a word legal is the content of its columns. -/
theorem legal_columns (funct7 : BitVec 7) (rs2 rs1 : BitVec 5) (funct3 : BitVec 3) (rd : BitVec 5)
    (opcode : BitVec 7) : legal (columns funct7 rs2 rs1 funct3 rd opcode) =
      legalFields opcode.toNat rd.toNat funct3.toNat rs1.toNat rs2.toNat funct7.toNat := by
  simp only [legal, columns_opcode, columns_funct3, columns_rd, columns_rs1, columns_rs2,
    columns_funct7]

/-- The high part of a column is what remains without the low one. -/
theorem toNat_append_div {w v : Nat} (high : BitVec w) (low : BitVec v) :
    (high ++ low).toNat / 2 ^ v = high.toNat := by
  rw [BitVec.toNat_append, Nat.shiftLeft_eq, Nat.mul_comm, ← Nat.two_pow_add_eq_or_of_lt low.isLt,
    Nat.mul_add_div (Nat.two_pow_pos v), Nat.div_eq_of_lt low.isLt, Nat.add_zero]

/-- The two ordering bits of an atomic instruction stand below its code. -/
theorem toNat_ordering_div (funct5 : BitVec 5) (aq rl : BitVec 1) :
    (funct5 ++ aq ++ rl).toNat / 4 = funct5.toNat := by
  rw [← Nat.div_div_eq_div_mul _ 2 2]
  exact (congrArg (· / 2) (toNat_append_div _ rl)).trans (toNat_append_div funct5 aq)

/-- The standard encoding of an operation is legal, but for the return of user mode. -/
theorem legal_encode {op : Op} {format : Format} (named : op.format = some format)
    (user : op ≠ .uret) (o : Operands) : legal (format.encode o) := by
  cases op with
  | nop => cases named
  | uret => exact absurd rfl user
  -- The ordering bits of an atomic instruction are free, and are cut off the code.
  | lrW | lrD | amoAddD | amoSwapD | scD | amoXorD | amoOrD | amoAndD | amoMinD | amoMaxD
  | amoMinuD | amoMaxuD | amoAddW | amoSwapW | scW | amoXorW | amoOrW | amoAndW | amoMinW
  | amoMaxW | amoMinuW | amoMaxuW =>
    cases named
    rw [Format.encode, legal_columns]
    simp only [legalFields, legalAmo, toNat_ordering_div]
    rfl
  | slli =>
    cases named
    rw [Format.encode, legal_columns]
    exact decide_eq_true (toNat_append_div 0x00#6 _)
  | srli =>
    cases named
    rw [Format.encode, legal_columns]
    exact Bool.or_eq_true_iff.mpr (.inl (decide_eq_true (toNat_append_div 0x00#6 _)))
  | srai =>
    cases named
    rw [Format.encode, legal_columns]
    exact Bool.or_eq_true_iff.mpr (.inr (decide_eq_true (toNat_append_div 0x10#6 _)))
  -- In the other formats all that is looked at is fixed.
  | _ =>
    cases named
    rw [Format.encode, legal_columns]
    rfl

end Encodings

/-! ### The instruction classes -/

namespace Dec32

variable (inst : BitVec 32) (funct3 : BitVec 3) (funct5 : BitVec 5) (funct7 : BitVec 7)

/-- Two numbers of a branch are unused. -/
theorem branchOp_decides :
    Decides (branchOp funct3) IsPanic (funct3.toNat ≠ 2 ∧ funct3.toNat ≠ 3) := by
  -- The six cases leave two numbers of three bits to the default.
  have range := funct3.isLt
  unfold branchOp
  split
  case h_7 => exact .error ⟨_, rfl⟩ (by simp only [imp_false] at *; omega)
  all_goals exact .ok (by omega)

/-- Of the widths of a load only the last is none. -/
theorem loadOp_decides : Decides (loadOp funct3) IsPanic (funct3.toNat ≤ 6) := by
  have range := funct3.isLt
  unfold loadOp
  split
  case h_8 => exact .error ⟨_, rfl⟩ (by simp only [imp_false] at *; omega)
  all_goals exact .ok (by omega)

/-- A store has the four signed widths. -/
theorem storeOp_decides : Decides (storeOp funct3) IsPanic (funct3.toNat ≤ 3) := by
  unfold storeOp
  split
  case h_5 => exact .error ⟨_, rfl⟩ (by simp only [imp_false] at *; omega)
  all_goals exact .ok (by omega)

/-- A floating-point load has two precisions. -/
theorem loadFpOp_decides :
    Decides (loadFpOp funct3) IsPanic (funct3.toNat = 2 ∨ funct3.toNat = 3) := by
  unfold loadFpOp
  split
  case h_3 => exact .error ⟨_, rfl⟩ (by simp only [imp_false] at *; omega)
  all_goals exact .ok (by omega)

/-- A floating-point store has the same two. -/
theorem storeFpOp_decides :
    Decides (storeFpOp funct3) IsPanic (funct3.toNat = 2 ∨ funct3.toNat = 3) := by
  unfold storeFpOp
  split
  case h_3 => exact .error ⟨_, rfl⟩ (by simp only [imp_false] at *; omega)
  all_goals exact .ok (by omega)

/-- Three word operations take an immediate. -/
theorem immWOp_decides : Decides (immWOp inst funct3) IsPanic
    (funct3.toNat = 0 ∨ funct3.toNat = 1 ∨ funct3.toNat = 5) := by
  unfold immWOp
  split
  case h_4 => exact .error ⟨_, rfl⟩ (by simp only [imp_false] at *; omega)
  all_goals exact .ok (by omega)

/-- Of the word operations on registers the additional ones are multiplications and divisions. -/
theorem regWOp_decides : Decides (regWOp inst funct3 funct7) IsPanic
    (if funct7 = 1 then funct3.toNat = 0 ∨ 4 ≤ funct3.toNat
      else funct3.toNat = 0 ∨ funct3.toNat = 1 ∨ funct3.toNat = 5) := by
  have range := funct3.isLt
  -- The test for the additional functions comes before the switch.
  unfold regWOp
  split
  · split
    case h_6 => exact .error ⟨_, rfl⟩ (by simp only [imp_false] at *; omega)
    all_goals exact .ok (by omega)
  · split
    case h_4 => exact .error ⟨_, rfl⟩ (by simp only [imp_false] at *; omega)
    all_goals exact .ok (by omega)

/-- There are two fences. -/
theorem miscOp_decides : Decides (miscOp funct3) IsPanic (funct3.toNat ≤ 1) := by
  unfold miscOp
  split
  case h_3 => exact .error ⟨_, rfl⟩ (by simp only [imp_false] at *; omega)
  all_goals exact .ok (by omega)

/-- The privileged instructions are told by their upper function, and some by a register number. -/
theorem privOp_decides : Decides (privOp inst funct7) IsPanic
    ((funct7.toNat = 0 ∧ (bits inst 24 20).toNat ≤ 2) ∨
      (funct7.toNat = 8 ∧ ((bits inst 24 20).toNat = 2 ∨ (bits inst 24 20).toNat = 5)) ∨
      funct7.toNat = 9 ∨ funct7.toNat = 24) := by
  -- The switch on the upper function is read off case by case.
  dsimp only [privOp]
  split
  case h_1 =>
    split
    case h_4 => exact .error ⟨_, rfl⟩ (by simp only [imp_false] at *; omega)
    all_goals exact .ok (by omega)
  case h_2 =>
    exact .ite (fun _ => .ok (by omega)) fun _ => .ite (fun _ => .ok (by omega)) fun _ =>
      .error ⟨_, rfl⟩ (by omega)
  case h_5 => exact .error ⟨_, rfl⟩ (by simp only [imp_false] at *; omega)
  all_goals exact .ok (by omega)

/-- The atomic operations are told by a function of five bits, which has eleven values. -/
theorem amoOp_decides : Decides (amoOp funct3 funct5) IsPanic
    (funct5.toNat ≤ 4 ∨ (funct5.toNat % 4 = 0 ∧ funct5.toNat ≤ 28)) := by
  -- The cases are the numbers up to four and the multiples of four above.
  have range := funct5.isLt
  unfold amoOp
  split
  case h_12 => exact .error ⟨_, rfl⟩ (by simp only [imp_false] at *; omega)
  all_goals exact .ok (by omega)

/-- The one floating-point operation is a move of a word. -/
theorem fpOp_decides : Decides (fpOp funct7) IsPanic (funct7.toNat = 0x78) := by
  have same : funct7 = 0x78 ↔ funct7.toNat = 0x78 := (BitVec.toNat_inj (y := 0x78)).symm
  exact .ite (fun named => .ok (same.mp named)) fun other => .error ⟨_, rfl⟩ (other ∘ same.mpr)

/-- Of the system instructions only those without a control register have a switch of their own. -/
theorem systemOp_decides : Decides (systemOp inst funct3 funct7) IsPanic
    (funct3.toNat ≠ 4 ∧ (funct3.toNat = 0 →
      (funct7.toNat = 0 ∧ (bits inst 24 20).toNat ≤ 2) ∨
      (funct7.toNat = 8 ∧ ((bits inst 24 20).toNat = 2 ∨ (bits inst 24 20).toNat = 5)) ∨
      funct7.toNat = 9 ∨ funct7.toNat = 24)) := by
  -- The first case hands over to the privileged instructions, and six have a control register.
  have range := funct3.isLt
  unfold systemOp
  split
  case h_1 => exact ((privOp_decides inst funct7).map _).congr (by omega)
  case h_8 => exact .error ⟨_, rfl⟩ (by simp only [imp_false] at *; omega)
  all_goals exact .ok (by omega)

end Dec32

/-! ### Full words -/

/-- The contents of the columns with which the decoder of full words returns an operation. -/
def acceptedFields (opcode funct3 rs2 funct7 : Nat) : Prop :=
  match opcode with
  | 0x37 | 0x17 | 0x6F | 0x67 | 0x13 | 0x33 => True
  | 0x63 => funct3 ≠ 2 ∧ funct3 ≠ 3
  | 0x03 => funct3 ≤ 6
  | 0x23 => funct3 ≤ 3
  | 0x07 | 0x27 => funct3 = 2 ∨ funct3 = 3
  | 0x1B => funct3 = 0 ∨ funct3 = 1 ∨ funct3 = 5
  | 0x3B =>
    if funct7 = 1 then funct3 = 0 ∨ 4 ≤ funct3 else funct3 = 0 ∨ funct3 = 1 ∨ funct3 = 5
  | 0x0F => funct3 ≤ 1
  | 0x73 =>
    funct3 ≠ 4 ∧ (funct3 = 0 → (funct7 = 0 ∧ rs2 ≤ 2) ∨ (funct7 = 8 ∧ (rs2 = 2 ∨ rs2 = 5)) ∨
      funct7 = 9 ∨ funct7 = 24)
  | 0x2F => funct7 / 4 ≤ 4 ∨ (funct7 / 4 % 4 = 0 ∧ funct7 / 4 ≤ 28)
  | 0x53 => funct7 = 0x78
  | _ => False

/--
The contents of the columns that are illegal because of one the decoder does not look at.

The return from a trap of user mode is decoded as well, although the machine has no such traps.
-/
def uncheckedFields (opcode rd funct3 rs1 rs2 funct7 : Nat) : Prop :=
  match opcode with
  | 0x67 => funct3 ≠ 0
  -- The shifts have bits above their amount, and only bit thirty is looked at.
  | 0x13 =>
    (funct3 = 1 ∧ funct7 / 2 ≠ 0) ∨ (funct3 = 5 ∧ funct7 / 2 ≠ 0 ∧ funct7 / 2 ≠ 0x10)
  | 0x1B => (funct3 = 1 ∧ funct7 ≠ 0) ∨ (funct3 = 5 ∧ funct7 ≠ 0 ∧ funct7 ≠ 0x20)
  | 0x33 => funct7 ≠ 0 ∧ funct7 ≠ 1 ∧ ¬ (funct7 = 0x20 ∧ (funct3 = 0 ∨ funct3 = 5))
  | 0x3B =>
    (funct3 = 0 ∨ funct3 = 1 ∨ funct3 = 5) ∧ funct7 ≠ 0 ∧ funct7 ≠ 1 ∧
      ¬ (funct7 = 0x20 ∧ (funct3 = 0 ∨ funct3 = 5))
  -- The registers of the system instructions are looked at only as far as they tell them apart.
  | 0x73 =>
    funct3 = 0 ∧ ((funct7 = 0 ∧ (rs2 = 2 ∨ (rs2 ≤ 1 ∧ (rs1 ≠ 0 ∨ rd ≠ 0)))) ∨
      (funct7 = 8 ∧ (rs2 = 2 ∨ rs2 = 5) ∧ (rs1 ≠ 0 ∨ rd ≠ 0)) ∨ (funct7 = 9 ∧ rd ≠ 0) ∨
      (funct7 = 24 ∧ (rs2 ≠ 2 ∨ rs1 ≠ 0 ∨ rd ≠ 0)))
  -- Every width but the doubleword is taken for a word.
  | 0x2F =>
    (funct7 / 4 ≤ 4 ∨ (funct7 / 4 % 4 = 0 ∧ funct7 / 4 ≤ 28)) ∧
      ((funct3 ≠ 2 ∧ funct3 ≠ 3) ∨ (funct7 / 4 = 2 ∧ rs2 ≠ 0))
  | 0x53 => funct7 = 0x78 ∧ (rs2 ≠ 0 ∨ funct3 ≠ 0)
  | _ => False

/-- The illegal words that are decoded. -/
def Unchecked (inst : BitVec 32) : Prop :=
  uncheckedFields (inst.extractLsb 6 0).toNat (inst.extractLsb 11 7).toNat
    (inst.extractLsb 14 12).toNat (inst.extractLsb 19 15).toNat (inst.extractLsb 24 20).toNat
    (inst.extractLsb 31 25).toNat

/-- What is accepted without being legal is what has an unchecked field. -/
theorem uncheckedFields_iff (opcode rd funct3 rs1 rs2 funct7 : Nat) :
    uncheckedFields opcode rd funct3 rs1 rs2 funct7 ↔
      acceptedFields opcode funct3 rs2 funct7 ∧
        ¬ legalFields opcode rd funct3 rs1 rs2 funct7 := by
  unfold acceptedFields
  split
  -- The move is the only computation in floating point that is accepted at all.
  case h_17 =>
    simp only [uncheckedFields, legalFields]
    by_cases move : funct7 = 0x78
    · simp only [move, legalFp]
      grind
    · simp [move]
  all_goals
    simp only [uncheckedFields, legalFields, legalPriv, legalAmo]
    grind

/-- The decoder of full words accepts exactly those contents of the columns. -/
theorem dec32_decides (inst : BitVec 32) :
    Decides (Dec32.dec32 inst) IsPanic
      (acceptedFields (inst.extractLsb 6 0).toNat (inst.extractLsb 14 12).toNat
        (inst.extractLsb 24 20).toNat (inst.extractLsb 31 25).toNat) := by
  have second : (bits inst 24 20).toNat = (inst.extractLsb 24 20).toNat := by
    rw [bits, BitVec.toNat_setWidth]
    omega
  have fifth : (inst.extractLsb 31 27).toNat = (inst.extractLsb 31 25).toNat / 4 := by
    simp only [BitVec.extractLsb_toNat, Nat.shiftRight_eq_div_pow]
    omega
  dsimp only [Dec32.dec32]
  split
  case h_1 opcode | h_2 opcode | h_3 opcode | h_4 opcode | h_10 opcode | h_12 opcode =>
    rw [opcode]
    exact .ok trivial
  case h_5 opcode =>
    rw [opcode]
    exact (Dec32.branchOp_decides _).map _
  case h_6 opcode =>
    rw [opcode]
    exact (Dec32.loadOp_decides _).map _
  case h_7 opcode =>
    rw [opcode]
    exact (Dec32.storeOp_decides _).map _
  case h_8 opcode =>
    rw [opcode]
    exact (Dec32.loadFpOp_decides _).map _
  case h_9 opcode =>
    rw [opcode]
    exact (Dec32.storeFpOp_decides _).map _
  case h_11 opcode =>
    rw [opcode]
    exact (Dec32.immWOp_decides _ _).map _
  case h_13 opcode =>
    have multiplies : (inst.extractLsb 31 25 : BitVec 7) = 1 ↔ (inst.extractLsb 31 25).toNat = 1 :=
      (BitVec.toNat_inj (y := 1)).symm
    rw [opcode]
    refine ((Dec32.regWOp_decides _ _ _).map _).congr ?_
    simp only [acceptedFields, multiplies]
  case h_14 opcode =>
    rw [opcode]
    exact (Dec32.miscOp_decides _).map _
  -- The switch of the system instructions reads the second register field itself.
  case h_15 opcode =>
    rw [opcode, ← second]
    exact (Dec32.systemOp_decides _ _ _).map _
  case h_16 opcode =>
    refine ((Dec32.amoOp_decides _ _).map _).congr ?_
    rw [opcode, fifth]
    rfl
  case h_17 opcode =>
    rw [opcode]
    exact (Dec32.fpOp_decides _).map _
  case h_18 =>
    refine .error ⟨_, rfl⟩ ?_
    simp only [acceptedFields, not_false_eq_true]

/-- The decoder of full words rejects the illegal ones but for those with an unchecked field. -/
theorem dec32_exact_iff (inst : BitVec 32) :
    (¬ legal inst → Rejects (Dec32.dec32 inst)) ↔ ¬ Unchecked inst := by
  rw [Unchecked, uncheckedFields_iff, Rejects, (dec32_decides inst).stops_iff]
  exact ⟨fun exact bad => exact bad.2 bad.1, fun fine illegal holds => fine ⟨holds, illegal⟩⟩

/-! ### Halves -/

/-- The 16-bit words that are decoded and should not be, or should be decoded and are not. -/
def UncheckedHalf (inst : BitVec 16) : Prop :=
  match (inst.extractLsb 1 0).toNat, (inst.extractLsb 15 13).toNat with
  -- An addition to the stack pointer of nothing is reserved, the word of all zeros included.
  | 0, 0 => Compressed.spAddend inst = 0
  -- So are an addition of words and a load from the stack to register zero.
  | 1, 1 => Compressed.fullReg inst = 0
  | 2, 2 => Compressed.fullReg inst = 0
  | 2, 3 => Compressed.fullReg inst = 0
  | 1, 3 => Compressed.small inst = 0
  -- Two of the register-register operations have no word form.
  | 1, 4 =>
    (inst.extractLsb 11 10).toNat = 3 ∧ (inst.extractLsb 12 12).toNat = 1 ∧
      2 ≤ (inst.extractLsb 6 5).toNat
  -- A jump needs a register.
  | 2, 4 => ¬ inst.getLsbD 12 ∧ Compressed.fullReg inst = 0 ∧ Compressed.fullReg2 inst = 0
  -- The store of a double to the stack is legal, and has no case in the decoder.
  | 2, 5 => True
  | _, _ => False

section Halves

variable (inst : BitVec 16)

/-- One function of the first quadrant has no case. -/
theorem quadrant0_decides (funct3 : BitVec 3) :
    Decides (Dec16.quadrant0 inst funct3) IsPanic (funct3.toNat ≠ 4) := by
  -- Every other number of three bits is a case of the switch.
  have range := funct3.isLt
  unfold Dec16.quadrant0
  split
  case h_8 => exact .error ⟨_, rfl⟩ (by simp only [imp_false] at *; omega)
  all_goals exact .ok (by omega)

/-- One function of the third quadrant has no case. -/
theorem quadrant2_decides (funct3 : BitVec 3) :
    Decides (Dec16.quadrant2 inst funct3) IsPanic (funct3.toNat ≠ 5) := by
  have range := funct3.isLt
  dsimp only [Dec16.quadrant2]
  split
  case h_8 => exact .error ⟨_, rfl⟩ (by simp only [imp_false] at *; omega)
  all_goals exact .ok (by omega)

/-- In the first quadrant that function is illegal, and so is an addition of zero to the stack pointer. -/
theorem quadrant0_isSome : (Compressed.quadrant0 inst).isSome ↔
    (inst.extractLsb 15 13).toNat ≠ 4 ∧
      ((inst.extractLsb 15 13).toNat = 0 → Compressed.spAddend inst ≠ 0) := by
  have range := (inst.extractLsb 15 13).isLt
  dsimp only [Compressed.quadrant0]
  generalize (inst.extractLsb 15 13).toNat = funct3 at *
  split <;> grind

/-- The illegal arithmetic is that of words in two of the four functions. -/
theorem arith_isSome : (Compressed.arith inst).isSome ↔
    ¬ ((inst.extractLsb 11 10).toNat = 3 ∧ (inst.extractLsb 12 12).toNat = 1 ∧
      2 ≤ (inst.extractLsb 6 5).toNat) := by
  have kinds := (inst.extractLsb 11 10).isLt
  have single := (inst.extractLsb 12 12).isLt
  have functions := (inst.extractLsb 6 5).isLt
  dsimp only [Compressed.arith]
  -- What is left depends on the numbers of the three fields only.
  generalize (inst.extractLsb 11 10).toNat = kind, (inst.extractLsb 12 12).toNat = bit,
    (inst.extractLsb 6 5).toNat = function at *
  split
  case h_4 => split <;> grind
  all_goals grind

/-- In the second quadrant an operand that is zero makes two functions illegal. -/
theorem quadrant1_isSome : (Compressed.quadrant1 inst).isSome ↔
    ((inst.extractLsb 15 13).toNat = 1 → Compressed.fullReg inst ≠ 0) ∧
    ((inst.extractLsb 15 13).toNat = 3 → Compressed.small inst ≠ 0) ∧
    ((inst.extractLsb 15 13).toNat = 4 → (Compressed.arith inst).isSome) := by
  -- What is left after the switch is about the number of the function only.
  dsimp only [Compressed.quadrant1]
  generalize (inst.extractLsb 15 13).toNat = funct3 at *
  split <;> grind

/-- A jump to the address in register zero is illegal. -/
theorem moveOrJump_isSome : (Compressed.moveOrJump inst).isSome ↔
    ¬ (¬ inst.getLsbD 12 ∧ Compressed.fullReg inst = 0 ∧ Compressed.fullReg2 inst = 0) := by
  dsimp only [Compressed.moveOrJump]
  split <;> grind

/-- In the third quadrant a load to register zero is illegal. -/
theorem quadrant2_isSome : (Compressed.quadrant2 inst).isSome ↔
    ((inst.extractLsb 15 13).toNat = 2 ∨ (inst.extractLsb 15 13).toNat = 3 →
      Compressed.fullReg inst ≠ 0) ∧
    ((inst.extractLsb 15 13).toNat = 4 → (Compressed.moveOrJump inst).isSome) := by
  dsimp only [Compressed.quadrant2]
  generalize (inst.extractLsb 15 13).toNat = funct3 at *
  split <;> grind

/-- The decoder of halves accepts the legal ones but for those with an unchecked field. -/
theorem dec16_exact_iff :
    (Accepts (Dec16.dec16 inst) ↔ legalHalf inst) ↔ ¬ UncheckedHalf inst := by
  unfold legalHalf Compressed.expand Accepts UncheckedHalf
  dsimp only [Dec16.dec16]
  -- The quadrant is looked at first on both sides.
  split
  case h_1 quadrant =>
    rw [(quadrant0_decides inst _).returns_iff]
    simp only [quadrant, quadrant0_isSome]
    generalize (inst.extractLsb 15 13).toNat = funct3
    split <;> grind
  case h_2 quadrant =>
    simp only [quadrant, quadrant1_isSome, arith_isSome]
    generalize (inst.extractLsb 15 13).toNat = funct3
    split <;> grind
  case h_3 quadrant =>
    rw [(quadrant2_decides inst _).returns_iff]
    simp only [quadrant, quadrant2_isSome, moveOrJump_isSome]
    generalize (inst.extractLsb 15 13).toNat = funct3
    split <;> grind
  -- A word with both low bits set is no half.
  case h_4 =>
    have range := (inst.extractLsb 1 0).isLt
    have quadrant : (inst.extractLsb 1 0).toNat = 3 := by
      simp only [imp_false] at *
      omega
    simp [quadrant]

end Halves

/-! ### The result -/

/--
The decoders are exact on every word but the unchecked ones.

A full word is judged by whether an illegal one is rejected, a half by whether it is accepted just
when it is legal.
-/
theorem decoders_exact_iff (inst : BitVec 32) (half : BitVec 16) :
    ((¬ legal inst → Rejects (Dec32.dec32 inst)) ↔ ¬ Unchecked inst) ∧
      ((Accepts (Dec16.dec16 half) ↔ legalHalf half) ↔ ¬ UncheckedHalf half) :=
  ⟨dec32_exact_iff inst, dec16_exact_iff half⟩

/-- A jump with another `funct3` is decoded, and so is the half of all zeros. -/
theorem zeros_decoded :
    ¬ (∀ inst, ¬ legal inst → Rejects (Dec32.dec32 inst)) ∧
      ¬ ∀ half, Accepts (Dec16.dec16 half) ↔ legalHalf half := by
  -- Each half of the statement fails at one word.
  constructor
  · intro exact
    obtain ⟨stop, rejected, -⟩ := exact 0x00001067 (by decide)
    have decoded : Dec32.dec32 0x00001067 = .ok ⟨.jalr, 0, 0, 0, 0, 0⟩ := rfl
    cases decoded.symm.trans rejected
  · intro exact
    have decoded : Dec16.dec16 0 = .ok ⟨.addi, 8, 2, 0, 0, 0⟩ := rfl
    exact absurd ((exact 0).mp ⟨_, decoded⟩) (by decide)

end Xemu
