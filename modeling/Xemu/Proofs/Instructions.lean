import Xemu.Isa.Machine
import Xemu.Proofs.Compression
import Xemu.Proofs.DecoderExact
import Xemu.Proofs.Divisions
import Xemu.Proofs.Products

/-! The emulator executes single instructions, long and short, as the instruction set does. -/

namespace Xemu

/-! ### Operations on registers -/

section Registers

variable {host : Host} {m : Machine} {pc next : BitVec 64} {d : Decoded}

/-- Where a straight operation goes on is all that depends on the length of its instruction. -/
theorem executeOp_straight (base : Isa.isBase d.op) (straight : d.op.relative = false)
    (next other : BitVec 64) :
    executeOp host m pc next d =
      (executeOp host m pc other d).map fun locals => { locals with retPc := next } := by
  -- Only the two shifts can stop, and that is before the result is made.
  obtain ⟨op, rd, rs1, rs2, imm, csrAddr⟩ := d
  cases op with
  | sraiw =>
    dsimp only [executeOp]
    cases sraWord ((m.hart.reg rs1).setWidth 32) (bits imm 5 0) <;> rfl
  | sraw =>
    dsimp only [executeOp]
    cases sraWord ((m.hart.reg rs1).setWidth 32) (bits (m.hart.reg rs2) 5 0) <;> rfl
  | lui | auipc | addi | slti | sltiu | xori | ori | andi | slli | srli | srai | add | sub | sll
  | slt | sltu | xor | srl | sra | or | and | addiw | slliw | srliw | addw | subw | sllw | srlw => rfl
  | jal | beq | bne | blt | bge | bltu | bgeu => cases straight
  | _ => exact absurd base Bool.false_ne_true

/-- A branch that makes the right comparison goes on where the instruction set says. -/
theorem branch_goes_on {op : Op} {x y imm : BitVec 64} {taken : Bool}
    (branch : op ≠ .jal ∧ op ≠ .jalr) (compared : taken = Isa.taken op x y) :
    ({ m, retPc := next, rdVal := host.rdVal } : Locals).branch (pc + imm) taken =
      .ok { m, retPc := Isa.target op pc next x y imm, rdVal := host.rdVal } := by
  rw [Isa.target, if_neg branch.2]
  simp only [branch.1, false_or, ← compared]
  cases taken <;> rfl

/-- A straight operation computes its result from the base set and goes on behind itself. -/
theorem Isa.straight_eq {op : Op} (base : Isa.isBase op) (straight : op.relative = false)
    (pc next x y imm : BitVec 64) :
    Isa.result op pc next x y imm = Isa.baseResult op pc x y imm ∧
      Isa.target op pc next x y imm = next := by
  cases op with
  | jal | beq | bne | blt | bge | bltu | bgeu => cases straight
  | lui | auipc | addi | slti | sltiu | xori | ori | andi | slli | srli | srai | add | sub | sll
  | slt | sltu | xor | srl | sra | or | and | addiw | slliw | srliw | sraiw | addw | subw | sllw
  | srlw | sraw => exact ⟨rfl, if_neg (by decide)⟩
  | _ => exact absurd base Bool.false_ne_true

/-- The base operations, in an instruction of any length. -/
theorem executeOp_base_any (base : Isa.isBase d.op) (amount : d.op = .sraiw → d.imm.toNat < 32)
    (short : d.op = .sraw → (bits (m.hart.reg d.rs2) 5 0).toNat < 32) :
    executeOp host m pc next d = .ok
      { m, retPc := Isa.target d.op pc next (m.hart.reg d.rs1) (m.hart.reg d.rs2) d.imm
        rdVal := (Isa.result d.op pc next (m.hart.reg d.rs1) (m.hart.reg d.rs2) d.imm).getD
          host.rdVal } := by
  cases straight : d.op.relative with
  | false =>
    obtain ⟨result, target⟩ := Isa.straight_eq base straight pc next (m.hart.reg d.rs1)
      (m.hart.reg d.rs2) d.imm
    rw [executeOp_straight base straight next (pc + 4), executeOp_base base amount short, result,
      target]
    rfl
  | true =>
    obtain ⟨op, rd, rs1, rs2, imm, csrAddr⟩ := d
    cases op with
    | jal => exact congrArg Except.ok (by simp [Isa.target, Isa.result])
    -- The comparisons of C are those of the numbers.
    | beq | bne => exact branch_goes_on (by simp) (Bool.eq_iff_iff.mpr (by simp [Isa.taken]))
    | blt | bge => exact branch_goes_on (by simp) (by simp [Isa.taken, BitVec.slt, BitVec.sle])
    | bltu | bgeu =>
      exact branch_goes_on (by simp) (by simp [Isa.taken, BitVec.lt_def, BitVec.le_def])
    | _ => cases straight

end Registers

/-! ### Decoded instructions -/

/-- The outputs of a decoder for an operation, with the operands its format has. -/
def Decoded.of (op : Op) (o : Operands) : Decoded :=
  { op, rd := if op.format.any Format.hasRd then o.rd else 0
    rs1 := o.rs1, rs2 := o.rs2, imm := o.imm, csrAddr := o.csrAddr }

/-- These outputs carry the operands. -/
theorem Decoded.of_carries {op : Op} {format : Format} (standard : op.format = some format)
    (o : Operands) : format.Carries op o (.of op o) :=
  ⟨rfl, by rw [Decoded.of, standard]; rfl, fun _ => rfl, fun _ => rfl, fun _ => rfl, fun _ => rfl⟩

/-- The only legal half that the decoder has no case for is a store of a floating-point register. -/
theorem accepts_of_expand {inst : BitVec 16} {e : Compressed.Expansion}
    (expanded : Compressed.expand inst = some e) (integer : e.op ≠ .fsd) :
    Accepts (Dec16.dec16 inst) := by
  rw [Compressed.expand] at expanded
  dsimp only [Dec16.dec16]
  rcases Dec16.toNat_cases (inst.extractLsb 1 0) with quadrant | quadrant | quadrant | quadrant <;>
    simp only [quadrant] at expanded ⊢
  · have some := (quadrant0_isSome inst).mp (Option.isSome_of_eq_some expanded)
    exact (quadrant0_decides inst _).returns_iff.mpr (by omega)
  · exact ⟨_, rfl⟩
  · refine (quadrant2_decides inst _).returns_iff.mpr fun stack => integer ?_
    rw [Compressed.quadrant2, stack] at expanded
    cases expanded
    rfl
  · cases expanded

/-- A word that begins with an instruction is decoded to something that executes as it. -/
theorem decode_encodes {word : BitVec 32} {op : Op} {o : Operands} {length : BitVec 64}
    (encodes : Isa.Encodes word op o length) (integer : op ≠ .fsd)
    (other : ¬ Dec16.AddsToZero (word.setWidth 16)) (pc : BitVec 64) :
    (∃ format, op.format = some format ∧ format.Fits o.imm) ∧
      ∃ d, decode pc word = .ok (pc + length, d) ∧ ∀ host m next,
        execute host m pc next d = execute host m pc next (.of op o) := by
  cases encodes with
  | full standard fits encoded =>
    obtain ⟨d, decoded, carries⟩ := Op.decodes standard o fits pc
    subst encoded
    exact ⟨⟨_, standard, fits⟩, d, decoded, fun host m next =>
      execute_carries standard carries (Decoded.of_carries standard o) host m pc next⟩
  | half expanded =>
    -- The low half of the word is the compressed instruction.
    have low : word.extractLsb 15 0 = word.setWidth 16 := by
      apply BitVec.eq_of_getLsbD_eq
      intro i below
      simp [below]
    -- It is not a full word, since a full one lies in the fourth quadrant, which expands to nothing.
    have short : ¬ word &&& 0x3 = 0x3 := by
      intro full
      have bits := full_iff.mp full
      have quadrant : ((word.setWidth 16).extractLsb 1 0).toNat = 3 := by
        rw [BitVec.extractLsb_toNat, BitVec.toNat_setWidth, Nat.shiftRight_zero]
        change word.toNat % 65536 % 4 = 3
        omega
      rw [Compressed.expand, quadrant] at expanded
      cases expanded
    obtain ⟨d, decoded⟩ := accepts_of_expand expanded integer
    obtain ⟨format, standard, fits, same⟩ := Dec16.dec16_agrees expanded decoded other
    refine ⟨⟨format, standard, fits⟩, d, ?_, fun host m next => ?_⟩
    · rw [decode, if_neg short, low, decoded]
      rfl
    · rcases same with carries | ⟨nop, zero, addi, none⟩
      · exact execute_carries standard carries (Decoded.of_carries standard o) host m pc next
      · -- The idle operation and an addition to register zero both just go on.
        have destination : (Decoded.of op o).rd = 0 := by
          have unnamed : o.rd = 0 := none
          rw [Decoded.of, unnamed]
          exact ite_self 0
        rw [execute_to_zero (.inl nop) zero, execute_to_zero (.inr (.inl addi)) destination]

/-! ### Executed instructions -/

/-- Operands for which the emulator's operation is the one of the instruction set. -/
structure Isa.Regular (op : Op) (x y imm : BitVec 64) : Prop where
  /-- The one word shift that takes six bits of a register takes five. -/
  short : ¬ (op = .sraw ∧ y.getLsbD 5)
  /-- A jump through a register does not have to clear the lowest bit. -/
  even : op = .jalr → (x + imm).getLsbD 0 = false
  product : ProductRight op x y
  division : DivisionRight op x y

section Executed

variable {host : Host} {m : Machine} {pc next : BitVec 64} {op : Op} {o : Operands}

/-- Clearing the lowest bit of an even number changes nothing. -/
theorem clear_lowest {x : BitVec 64} (even : x.getLsbD 0 = false) : x &&& ~~~1 = x := by
  apply BitVec.eq_of_getLsbD_eq
  intro i below
  have mask : (~~~1#64).getLsbD i = decide (i ≠ 0) := by
    rw [BitVec.getLsbD_not, BitVec.getLsbD_one]
    simp [below]
  change (x &&& ~~~1#64).getLsbD i = _
  rw [BitVec.getLsbD_and, mask]
  rcases Nat.eq_zero_or_pos i with rfl | some
  · rw [even]
    rfl
  · simp [show i ≠ 0 by omega]

/-- A base operation writes its result to its destination, if it has one. -/
theorem writeRd_base (base : Isa.isBase op) (x y value : BitVec 64) :
    m.writeRd (Decoded.of op o).rd ((Isa.result op pc next x y o.imm).getD value) =
      m.writeResult o.rd (Isa.result op pc next x y o.imm) := by
  cases op with
  -- A branch has no destination, so nothing is written for it.
  | beq | bne | blt | bge | bltu | bgeu => rfl
  | lui | auipc | jal | addi | slti | sltiu | xori | ori | andi | slli | srli | srai | add | sub
  | sll | slt | sltu | xor | srl | sra | or | and | addiw | slliw | srliw | sraiw | addw | subw
  | sllw | srlw | sraw => rfl
  | _ => exact absurd base Bool.false_ne_true

/-- A multiplication or a division writes its result and goes on behind itself. -/
theorem product_or_division {x y value : BitVec 64}
    (kind : Isa.product op x y = some value ∨ Isa.division op x y = some value) :
    (Decoded.of op o).rd = o.rd ∧ Isa.result op pc next x y o.imm = some value ∧
      Isa.target op pc next x y o.imm = next := by
  cases op with
  | mul | mulh | mulhsu | mulhu | mulw =>
    rcases kind with product | division
    · exact ⟨rfl, product, rfl⟩
    · cases division
  | div | divu | rem | remu | divw | divuw | remw | remuw =>
    rcases kind with product | division
    · cases product
    · exact ⟨rfl, division, rfl⟩
  | _ => rcases kind with product | division <;> contradiction

/-- Whether an operation multiplies or divides does not depend on the operands. -/
theorem arithmetic_isSome (x y : BitVec 64) :
    (Isa.product op x y).isSome = (Isa.product op 0 0).isSome ∧
      (Isa.division op x y).isSome = (Isa.division op 0 0).isSome := by
  cases op <;> exact ⟨rfl, rfl⟩

/-- An operation on registers does what the instruction set says of regular operands. -/
theorem execute_compute {format : Format} (known : Isa.onRegisters op)
    (standard : op.format = some format) (fits : format.Fits o.imm)
    (regular : Isa.Regular op (m.hart.reg o.rs1) (m.hart.reg o.rs2) o.imm) :
    execute host m pc next (.of op o) =
      .ok (Isa.target op pc next (m.hart.reg o.rs1) (m.hart.reg o.rs2) o.imm,
        m.writeResult o.rd
          (Isa.result op pc next (m.hart.reg o.rs1) (m.hart.reg o.rs2) o.imm)) := by
  simp only [Isa.onRegisters, Bool.or_eq_true, decide_eq_true_eq] at known
  -- The operations of the switch, the indirect jump, the products and the divisions.
  rcases known with ((base | rfl) | product) | division
  · -- The format leaves five bits of the amount of a word shift.
    have amount : op = .sraiw → o.imm.toNat < 32 := by
      rintro rfl
      cases standard
      have five : (o.imm.setWidth 5).setWidth 64 = o.imm := fits
      rw [← five, BitVec.toNat_setWidth, BitVec.toNat_setWidth]
      omega
    have short : op = .sraw → (bits (m.hart.reg o.rs2) 5 0).toNat < 32 := by
      intro named
      rw [bits_small_iff]
      exact Bool.eq_false_iff.mpr fun set => regular.short ⟨named, set⟩
    have switched := @executeOp_base_any host m pc next (.of op o) base amount short
    rw [execute_of_locals switched]
    exact congrArg (fun after => Except.ok (_, after)) (writeRd_base base ..)
  · -- The sum is even already.
    rw [Isa.target, if_pos rfl, clear_lowest (regular.even rfl)]
    exact execute_of_locals rfl
  · obtain ⟨value, multiplies⟩ := Option.isSome_iff_exists.mp
      ((arithmetic_isSome (m.hart.reg o.rs1) (m.hart.reg o.rs2)).1.trans product)
    obtain ⟨rd, result, target⟩ := @product_or_division pc next op o _ _ _ (.inl multiplies)
    have given := (givenProduct_iff multiplies).mpr regular.product
    have ran := @computes_product host m pc next _ (.of op o) multiplies (Decoded.of op o).rd
    rw [result, target, given, ← rd]
    exact ran
  · obtain ⟨value, divides⟩ := Option.isSome_iff_exists.mp
      ((arithmetic_isSome (m.hart.reg o.rs1) (m.hart.reg o.rs2)).2.trans division)
    obtain ⟨rd, result, target⟩ := @product_or_division pc next op o _ _ _ (.inr divides)
    have given := (givenDivision_iff divides).mpr regular.division
    have ran := (@computes_division host m pc next _ (.of op o) divides).1 (Decoded.of op o).rd
    rw [result, target, given, ← rd]
    exact ran

end Executed

end Xemu
