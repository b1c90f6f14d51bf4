import Xemu.Isa.Integer
import Xemu.Machine.Compute
import Xemu.Machine.Program
import Xemu.Proofs.Decoding

/-! The base integer instructions compute what the instruction set says, but for one word shift. -/

namespace Xemu

/-! ### The macros -/

/-- The macro `TO_WORD` is the sign extension of the low half. -/
theorem toWord_eq (n : BitVec 64) : toWord n = (n.setWidth 32).signExtend 64 := by
  apply BitVec.eq_of_getLsbD_eq
  intro i below
  simp only [toWord, BitVec.getLsbD_or, BitVec.getLsbD_shiftLeft, getLsbD_expandBit, getLsbD_bits,
    BitVec.getLsbD_signExtend, BitVec.msb_setWidth, BitVec.getLsbD_setWidth]
  by_cases low : i < 32
  · simp [low, below, show i ≤ 31 by omega]
  · -- Above the low half only the copies of the sign bit are left.
    simp [low, below, show ¬ i ≤ 31 by omega, show i - 32 < 64 by omega,
      show i - 32 < 32 by omega]

/-- A word that was widened with its sign is extended as it is. -/
theorem toWord_signExtend (word : BitVec 32) : toWord (word.signExtend 64) = Isa.extend word := by
  -- Cutting the extension down again gives the word it came from.
  rw [toWord_eq]
  exact congrArg Isa.extend (Isa.low_extend word)

/-- So is one that was widened with zeros, for only the low half counts. -/
theorem toWord_setWidth (word : BitVec 32) : toWord (word.setWidth 64) = Isa.extend word := by
  rw [toWord_eq]
  exact congrArg Isa.extend (Isa.low_setWidth word)

/-- Six bits of a register are its number modulo the width of a register. -/
theorem bits_toNat_six (x : BitVec 64) : (bits x 5 0).toNat = x.toNat % 64 := by
  simp [bits]
  omega

/-- Five bits of a register are its number modulo the width of a word. -/
theorem bits_toNat_five (x : BitVec 64) : (bits x 4 0).toNat = x.toNat % 32 := by
  simp [bits]
  omega

/-! ### The switch -/

section Switch

variable {host : Host} {m : Machine} {pc : BitVec 64} {d : Decoded}

/-- A computing case assigns the value that the instruction set gives. -/
theorem setRd_ok {nextPc value result : BitVec 64} (computed : value = result) :
    ({ m, retPc := nextPc, rdVal := host.rdVal } : Locals).setRd value =
      .ok { m, retPc := nextPc, rdVal := result } := by
  rw [computed]
  rfl

/-- A branch that makes the right comparison goes on at the right address. -/
theorem branch_ok {op : Op} {x y imm : BitVec 64} {taken : Bool} (branch : op ≠ .jal)
    (compared : taken = Isa.taken op x y) :
    ({ m, retPc := pc + 4, rdVal := host.rdVal } : Locals).branch (pc + imm) taken =
      .ok { m, retPc := Isa.baseTarget op pc x y imm, rdVal := host.rdVal } := by
  rw [Isa.baseTarget_branch branch, ← compared]
  cases taken <;> rfl

/-- The word shift that keeps the sign is defined for the amounts below its width. -/
theorem sraWord_ok {word : BitVec 32} {amount : BitVec 64} (small : amount.toNat < 32) :
    sraWord word amount = .ok (Isa.extend (word.sshiftRight amount.toNat)) := if_pos small

/-- What the local `rd_val` holds after the case of a base operation. -/
def baseRdVal (host : Host) (m : Machine) (pc : BitVec 64) (d : Decoded) : BitVec 64 :=
  (Isa.baseResult d.op pc (m.hart.reg d.rs1) (m.hart.reg d.rs2) d.imm).getD host.rdVal

/-- Every case of a base operation assigns what the instruction set says, but for long word shifts. -/
theorem executeOp_base (base : Isa.isBase d.op) (amount : d.op = .sraiw → d.imm.toNat < 32)
    (short : d.op = .sraw → (bits (m.hart.reg d.rs2) 5 0).toNat < 32) :
    executeOp host m pc (pc + 4) d = .ok
      { m, retPc := Isa.baseTarget d.op pc (m.hart.reg d.rs1) (m.hart.reg d.rs2) d.imm,
        rdVal := baseRdVal host m pc d } := by
  obtain ⟨op, rd, rs1, rs2, imm, csrAddr⟩ := d
  have next (straight : op ≠ .jal) (never : Isa.taken op (m.hart.reg rs1) (m.hart.reg rs2) = false) :
      Isa.baseTarget op pc (m.hart.reg rs1) (m.hart.reg rs2) imm = pc + 4 :=
    Isa.baseTarget_next straight never
  cases op with
  | jal =>
    simp [executeOp, Locals.jump, baseRdVal, Isa.baseResult, Isa.baseTarget, Isa.add_eq]
  -- The comparisons of C are those of the numbers.
  | beq | bne => exact branch_ok (by simp) (Bool.eq_iff_iff.mpr (by simp [Isa.taken]))
  | blt | bge => exact branch_ok (by simp) (by simp [Isa.taken, BitVec.slt, BitVec.sle])
  | bltu | bgeu => exact branch_ok (by simp) (by simp [Isa.taken, BitVec.lt_def, BitVec.le_def])
  | slt | slti =>
    rw [next (by decide) rfl]
    exact setRd_ok (by simp [baseRdVal, Isa.baseResult, Isa.flag, BitVec.slt])
  | sltu | sltiu =>
    rw [next (by decide) rfl]
    exact setRd_ok (by simp [baseRdVal, Isa.baseResult, Isa.flag, BitVec.lt_def])
  | lui | xori | ori | andi | xor | or | and =>
    rw [next (by decide) rfl]
    exact setRd_ok rfl
  | auipc | addi | add =>
    rw [next (by decide) rfl]
    exact setRd_ok (Isa.add_eq ..).symm
  | sub =>
    rw [next (by decide) rfl]
    exact setRd_ok (Isa.sub_eq ..).symm
  | addiw | addw =>
    rw [next (by decide) rfl]
    exact setRd_ok (by rw [toWord_signExtend, ← Isa.add_eq]; rfl)
  | subw =>
    rw [next (by decide) rfl]
    exact setRd_ok (by rw [toWord_signExtend, ← Isa.sub_eq]; rfl)
  -- The macros cut the amounts to the bits that count.
  | slli | sll =>
    rw [next (by decide) rfl]
    exact setRd_ok (by rw [BitVec.shiftLeft_eq', bits_toNat_six]; exact (Isa.sll_eq ..).symm)
  | srli | srl =>
    rw [next (by decide) rfl]
    exact setRd_ok (by rw [BitVec.ushiftRight_eq', bits_toNat_six]; exact (Isa.srl_eq ..).symm)
  | srai | sra =>
    rw [next (by decide) rfl]
    exact setRd_ok (by rw [bits_toNat_six]; exact (Isa.sra_eq ..).symm)
  | slliw | sllw =>
    rw [next (by decide) rfl]
    exact setRd_ok (by
      rw [toWord_setWidth, BitVec.shiftLeft_eq', bits_toNat_five, ← Isa.sll_eq]
      rfl)
  | srliw | srlw =>
    rw [next (by decide) rfl]
    exact setRd_ok (by
      rw [toWord_setWidth, BitVec.ushiftRight_eq', bits_toNat_five, ← Isa.srl_eq]
      rfl)
  -- Where the sixth bit is clear, six bits of an amount are the five that count.
  | sraiw =>
    rw [next (by decide) rfl]
    have five : imm.toNat < 32 := amount rfl
    have places := bits_toNat_six imm
    have small : (bits imm 5 0).toNat < 32 := by omega
    refine bind_of_ok (sraWord_ok small) (setRd_ok ?_)
    rw [show (bits imm 5 0).toNat = imm.toNat % 32 by omega, ← Isa.sra_eq]
    rfl
  | sraw =>
    rw [next (by decide) rfl]
    have five : (bits (m.hart.reg rs2) 5 0).toNat < 32 := short rfl
    have places := bits_toNat_six (m.hart.reg rs2)
    refine bind_of_ok (sraWord_ok five) (setRd_ok ?_)
    rw [show (bits (m.hart.reg rs2) 5 0).toNat = (m.hart.reg rs2).toNat % 32 by omega,
      ← Isa.sra_eq]
    rfl
  | _ => exact absurd base Bool.false_ne_true

/-- A shift of a base operation goes too far only if it keeps the sign of a word. -/
theorem shifts_defined (amount : d.op = .sraiw → d.imm.toNat < 32)
    -- The two word shifts to the right take six bits, so their amounts are asked for.
    (short : d.op = .sraw → (bits (m.hart.reg d.rs2) 5 0).toNat < 32) :
    ∀ shift ∈ d.shifts m.hart, shift.Defined := by
  obtain ⟨op, rd, rs1, rs2, imm, csrAddr⟩ := d
  -- An amount of six bits is below 64, and one of five bits below 32.
  have six : ∀ x : BitVec 64, (bits x 5 0).toNat < 64 := fun x => by
    have places := bits_toNat_six x
    omega
  have five : ∀ x : BitVec 64, (bits x 4 0).toNat < 32 := fun x => by
    have places := bits_toNat_five x
    omega
  have macros : ∀ shift ∈ bitsShifts 64 5 0, shift.Defined := by decide
  have word : ∀ shift ∈ bitsShifts 64 4 0 ++ toWordShifts, shift.Defined := by decide
  have toWord : ∀ shift ∈ toWordShifts, shift.Defined := by decide
  cases op with
  | slli | srli | srai | sll | srl | sra =>
    exact List.forall_mem_cons.mpr ⟨six _, macros⟩
  | slliw | srliw | sllw | srlw => exact List.forall_mem_cons.mpr ⟨five _, word⟩
  | sraiw =>
    have small : imm.toNat < 32 := amount rfl
    have places := bits_toNat_six imm
    have defined : (bits imm 5 0).toNat < 32 := by omega
    exact List.forall_mem_cons.mpr ⟨defined, macros⟩
  | sraw => exact List.forall_mem_cons.mpr ⟨short rfl, macros⟩
  | addiw | addw | subw => exact toWord
  | _ => simp [Decoded.shifts]

end Switch

/-! ### The whole instruction -/

/-- The machine after a result, if there is one, is written to the destination register. -/
def Machine.writeResult (m : Machine) (rd : BitVec 5) : Option (BitVec 64) → Machine
  | none => m
  | some value => m.writeRd rd value

/--
An instruction of the base set is decoded and executed as the instruction set says.

No shift that the code evaluates on the way is one the C language leaves undefined.
-/
def BaseEffect (host : Host) (m : Machine) (pc : BitVec 64) (op : Op) (format : Format)
    (o : Operands) : Prop :=
  let x := m.hart.reg o.rs1
  let y := m.hart.reg o.rs2
  ∃ d, decode pc (format.encode o) = .ok (pc + 4, d) ∧
    (∀ shift ∈ Dec32.shifts ++ d.shifts m.hart, shift.Defined) ∧
    execute host m pc (pc + 4) d = .ok (Isa.baseTarget op pc x y o.imm,
      m.writeResult o.rd (Isa.baseResult op pc x y o.imm))

/-- Five bits are six of which the last is clear. -/
theorem bits_small_iff (x : BitVec 64) : (bits x 5 0).toNat < 32 ↔ x.getLsbD 5 = false := by
  have place : x.getLsbD 5 = decide (x.toNat / 2 ^ 5 % 2 = 1) :=
    Nat.testBit_eq_decide_div_mod_eq
  rw [bits_toNat_six, place, decide_eq_false_iff_not]
  omega

/-- The operands that a base operation depends on are the ones its format carries. -/
theorem Format.Carries.base {op : Op} {format : Format} {o : Operands} {d : Decoded}
    (carries : format.Carries op o d) (base : Isa.isBase op) (standard : op.format = some format)
    (host : Host) (m : Machine) (pc : BitVec 64) :
    Isa.baseTarget d.op pc (m.hart.reg d.rs1) (m.hart.reg d.rs2) d.imm =
        Isa.baseTarget op pc (m.hart.reg o.rs1) (m.hart.reg o.rs2) o.imm ∧
      m.writeRd d.rd (baseRdVal host m pc d) =
        m.writeResult o.rd
          (Isa.baseResult op pc (m.hart.reg o.rs1) (m.hart.reg o.rs2) o.imm) := by
  obtain ⟨named, rd, rs1, rs2, imm, -⟩ := carries
  rw [baseRdVal, named, rd]
  cases op with
  | lui | auipc =>
    cases standard
    rw [imm rfl, Isa.baseTarget_next (by decide) rfl, Isa.baseTarget_next (by decide) rfl]
    exact ⟨rfl, rfl⟩
  | jal =>
    cases standard
    rw [imm rfl, Isa.baseTarget, Isa.baseTarget, if_pos (.inl rfl), if_pos (.inl rfl)]
    exact ⟨rfl, rfl⟩
  -- A branch has no destination, so nothing is written for it.
  | beq | bne | blt | bge | bltu | bgeu =>
    cases standard
    rw [rs1 rfl, rs2 rfl, imm rfl]
    exact ⟨rfl, rfl⟩
  | addi | slti | sltiu | xori | ori | andi | slli | srli | srai | addiw | slliw | srliw | sraiw =>
    cases standard
    rw [rs1 rfl, imm rfl, Isa.baseTarget_next (by decide) rfl, Isa.baseTarget_next (by decide) rfl]
    exact ⟨rfl, rfl⟩
  | add | sub | sll | slt | sltu | xor | srl | sra | or | and | addw | subw | sllw | srlw | sraw =>
    cases standard
    rw [rs1 rfl, rs2 rfl, Isa.baseTarget_next (by decide) rfl, Isa.baseTarget_next (by decide) rfl]
    exact ⟨rfl, rfl⟩
  | _ => exact absurd base Bool.false_ne_true

section Effect

variable {op : Op} {format : Format} {o : Operands} {host : Host} {m : Machine} {pc : BitVec 64}

/-- A word shift whose amount has its sixth bit set is left undefined by the language. -/
theorem base_effect_only (standard : op.format = some format) (fits : format.Fits o.imm)
    (effect : BaseEffect host m pc op format o) : ¬ (op = .sraw ∧ (m.hart.reg o.rs2).getLsbD 5) := by
  rintro ⟨rfl, set⟩
  obtain ⟨d, decoded, carries⟩ := Op.decodes standard o fits pc
  obtain ⟨_, found, defined, -⟩ := effect
  cases (Prod.mk.inj (Except.ok.inj (found.symm.trans decoded))).2
  -- The amount of this shift is one of those the code evaluates.
  have evaluated : ⟨32, (bits (m.hart.reg d.rs2) 5 0).toNat⟩ ∈ d.shifts m.hart := by
    rw [Decoded.shifts, carries.op]
    exact List.mem_cons_self
  have small := defined _ (List.mem_append_right _ evaluated)
  cases standard
  rw [Shift.Defined, bits_small_iff, carries.rs2 rfl, set] at small
  cases small

/-- Every other instruction of the set has the effect it should have. -/
theorem base_effect_of_short (base : Isa.isBase op) (standard : op.format = some format)
    (fits : format.Fits o.imm) (short : ¬ (op = .sraw ∧ (m.hart.reg o.rs2).getLsbD 5)) :
    BaseEffect host m pc op format o := by
  obtain ⟨d, decoded, carries⟩ := Op.decodes standard o fits pc
  have amount : d.op = .sraiw → d.imm.toNat < 32 := by
    intro named
    obtain rfl := carries.op.symm.trans named
    cases standard
    have five : (o.imm.setWidth 5).setWidth 64 = o.imm := fits
    rw [carries.imm rfl, ← five, BitVec.toNat_setWidth, BitVec.toNat_setWidth]
    omega
  have defined : d.op = .sraw → (bits (m.hart.reg d.rs2) 5 0).toNat < 32 := by
    intro named
    obtain rfl := carries.op.symm.trans named
    cases standard
    rw [bits_small_iff, carries.rs2 rfl]
    exact Bool.eq_false_iff.mpr fun set => short ⟨rfl, set⟩
  -- With amounts that are defined the switch computes what the instruction set says.
  have switched : executeOp host m pc (pc + 4) d = _ :=
    executeOp_base (carries.op ▸ base) amount defined
  have ran := execute_of_locals switched
  obtain ⟨target, result⟩ := carries.base base standard host m pc
  rw [target, result] at ran
  exact ⟨d, decoded, List.forall_mem_append.mpr ⟨by decide, shifts_defined amount defined⟩, ran⟩

end Effect

/--
The base instructions are executed as the instruction set says, but for one word shift.

The exception takes six bits of its amount from a register, of which the sixth is set.
-/
theorem base_effect_iff {op : Op} {format : Format} (base : Isa.isBase op)
    (standard : op.format = some format) (o : Operands) (fits : format.Fits o.imm)
    (host : Host) (m : Machine) (pc : BitVec 64) :
    BaseEffect host m pc op format o ↔ ¬ (op = .sraw ∧ (m.hart.reg o.rs2).getLsbD 5) :=
  ⟨base_effect_only standard fits, base_effect_of_short base standard fits⟩

/-- The word of `addi x1, x2, -3` has its effect when the emulator starts. -/
theorem base_effect_iff_addi :
    BaseEffect {} (Machine.boot []) 0x1000 .addi (.imm 0x13 0) { rd := 1, rs1 := 2, imm := -3 } ↔
      ¬ (Op.addi = .sraw ∧ ((Machine.boot []).hart.reg 0).getLsbD 5) := by
  have fits : (Format.imm 0x13 0).Fits (-3) := by
    change BitVec.signExtend 64 (BitVec.setWidth 12 (-3)) = _
    decide
  exact base_effect_iff rfl rfl { rd := 1, rs1 := 2, imm := -3 } fits {} (Machine.boot []) 0x1000

/-- The word of `sraw x1, x1, x2` has none when the second register holds the width of a word. -/
theorem long_word_shift :
    ¬ BaseEffect {} ((Machine.boot []).writeRd 2 32) 0x1000 .sraw (.reg 0x3B 5 0x20)
      { rd := 1, rs1 := 1, rs2 := 2 } := by
  have fits : (Format.reg 0x3B 5 0x20).Fits 0 := trivial
  exact fun effect => base_effect_only rfl fits effect ⟨rfl, rfl⟩

end Xemu
