import Xemu.Proofs.Products

/-! The divisions, of which two do not extend the result of a division by zero. -/

namespace Xemu

namespace Isa

/-! ### Overflow -/

section Overflow

variable {w : Nat} {x y : BitVec w}

/-- The most negative number divided by minus one is itself, for its negation wraps around. -/
theorem div_overflow (overflows : QuotientOverflows x y) (nonzero : y ≠ 0) : div x y = x := by
  obtain ⟨rfl, rfl⟩ := overflows
  rw [div_eq nonzero, ← BitVec.neg_one_eq_allOnes]
  exact BitVec.intMin_sdiv_neg_one

/-- It leaves no remainder. -/
theorem rem_overflow (overflows : QuotientOverflows x y) (nonzero : y ≠ 0) : rem x y = 0 := by
  obtain ⟨rfl, rfl⟩ := overflows
  rcases Nat.eq_zero_or_pos w with rfl | some
  · exact absurd BitVec.of_length_zero nonzero
  · rw [rem, if_neg nonzero, BitVec.toInt_allOnes, if_pos some]
    simp

end Overflow

end Isa

/-! ### The cases of the code -/

section Cases

variable {w : Nat} {x y least : BitVec w} {compute : BitVec w → BitVec w → BitVec w}
  {first overflow : BitVec 64} {rest : Except Stop (BitVec 64)}

/-- The second test of a signed case is for the quotient that does not fit. -/
theorem overflows_iff (minimum : least = BitVec.intMin w) :
    y = -1 ∧ x = least ↔ QuotientOverflows x y := by
  rw [QuotientOverflows, minimum, ← BitVec.neg_one_eq_allOnes]
  exact and_comm

/-- After its two tests a signed case divides where C defines it. -/
theorem signed_defined (cast : BitVec w → BitVec 64) (minimum : least = BitVec.intMin w)
    (divides : ∀ q, cDivide true compute x y = .ok q → rest = .ok (cast q)) :
    (if y = 0 then .ok first else if y = -1 ∧ x = least then .ok overflow else rest) =
      .ok (if y = 0 then first else if y = -1 ∧ x = least then overflow
        else cast (compute x y)) := by
  split
  · rfl
  -- Past both tests neither case that C leaves undefined is left.
  · rename_i some
    split
    · rfl
    · rename_i fits
      have within : ¬ (true = true ∧ QuotientOverflows x y) :=
        fun both => fits ((overflows_iff minimum).mpr both.2)
      exact divides _ ((if_neg some).trans (if_neg within))

/-- So does an unsigned case after its only test. -/
theorem unsigned_defined (cast : BitVec w → BitVec 64)
    (divides : ∀ q, cDivide false compute x y = .ok q → rest = .ok (cast q)) :
    (if y = 0 then .ok first else rest) = .ok (if y = 0 then first else cast (compute x y)) := by
  split
  · rfl
  · rename_i some
    have within : ¬ (false = true ∧ QuotientOverflows x y) := fun both => Bool.false_ne_true both.1
    exact divides _ ((if_neg some).trans (if_neg within))

/-- A signed case is right when its two exceptions are. -/
theorem signed_value (cast : BitVec w → BitVec 64) (spec : BitVec w → BitVec w → BitVec w)
    (minimum : least = BitVec.intMin w) (zero : y = 0 → first = cast (spec x y))
    (exceeds : y ≠ 0 → QuotientOverflows x y → overflow = cast (spec x y))
    (same : y ≠ 0 → spec x y = compute x y) :
    (if y = 0 then first else if y = -1 ∧ x = least then overflow else cast (compute x y)) =
      cast (spec x y) := by
  -- The order of the tests is that of the source: the zero first, then the overflow.
  split
  · rename_i none
    exact zero none
  · rename_i some
    split
    · rename_i large
      exact exceeds some ((overflows_iff minimum).mp large)
    · rw [same some]

/-- An unsigned case is right but for the value it gives to a division by zero. -/
theorem unsigned_value (cast : BitVec w → BitVec 64) (spec : BitVec w → BitVec w → BitVec w)
    (same : y ≠ 0 → spec x y = compute x y) :
    (if y = 0 then first else cast (compute x y)) = (if y = 0 then first else cast (spec x y)) := by
  split
  · rfl
  · rename_i some
    rw [same some]

end Cases

/-- What the code assigns in the case of a division, where the right result is known. -/
def givenDivision (op : Op) (x y result : BitVec 64) : BitVec 64 :=
  match op with
  | .divuw => if Isa.low y = 0 then 0xFFFFFFFF else result
  | .remuw => if Isa.low y = 0 then (Isa.low x).setWidth 64 else result
  | _ => result

section Divisions

variable {host : Host} {m : Machine} {pc nextPc result : BitVec 64} {d : Decoded}

/-- A case that assigns the value of a checked division computes it. -/
theorem computes_of_checked {value given : BitVec 64} {checked : Except Stop (BitVec 64)}
    (switched : ∀ rd, executeOp host m pc nextPc { d with rd } =
      ({ m, retPc := nextPc, rdVal := host.rdVal } : Locals).setRd value)
    (defined : checked = .ok value) (right : value = given) :
    Computes host m pc nextPc d given ∧ checked = .ok given := by
  subst right
  exact ⟨computes_of_setRd switched, defined⟩

/-- Every division computes the right result but for two cases, and divides where C defines it. -/
theorem computes_division
    (divides : Isa.division d.op (m.hart.reg d.rs1) (m.hart.reg d.rs2) = some result) :
    Computes host m pc nextPc d
        (givenDivision d.op (m.hart.reg d.rs1) (m.hart.reg d.rs2) result) ∧
      divisionCase d.op (m.hart.reg d.rs1) (m.hart.reg d.rs2) =
        .ok (givenDivision d.op (m.hart.reg d.rs1) (m.hart.reg d.rs2) result) := by
  obtain ⟨op, rd, rs1, rs2, imm, csrAddr⟩ := d
  have least : (1 <<< 63 : BitVec 64) = BitVec.intMin 64 := by decide
  have leastWord : (1 <<< 31 : BitVec 32) = BitVec.intMin 32 := by decide
  let signs (q : BitVec 32) : BitVec 64 := toWord (q.signExtend 64)
  let zeros (q : BitVec 32) : BitVec 64 := toWord (q.setWidth 64)
  cases op with
  | div =>
    cases Option.some.inj divides
    refine computes_of_checked (fun _ => rfl) (signed_defined id least fun q done => done) ?_
    exact signed_value id Isa.div least (fun none => (if_pos none).symm)
      (fun some large => least.trans (large.1.symm.trans (Isa.div_overflow large some).symm))
      Isa.div_eq
  | rem =>
    cases Option.some.inj divides
    refine computes_of_checked (fun _ => rfl) (signed_defined id least fun q done => done) ?_
    exact signed_value id Isa.rem least (fun none => (if_pos none).symm)
      (fun some large => (Isa.rem_overflow large some).symm) Isa.rem_eq
  | divu =>
    cases Option.some.inj divides
    refine computes_of_checked (fun _ => rfl) (unsigned_defined id fun q done => done) ?_
    refine (unsigned_value id Isa.divu Isa.divu_eq).trans ?_
    exact ite_eq_right_iff.mpr fun none => (if_pos none).symm
  | remu =>
    cases Option.some.inj divides
    refine computes_of_checked (fun _ => rfl) (unsigned_defined id fun q done => done) ?_
    refine (unsigned_value id Isa.remu Isa.remu_eq).trans ?_
    exact ite_eq_right_iff.mpr fun none => (if_pos none).symm
  -- The word forms divide the low halves, and widen the result by hand.
  | divw =>
    cases Option.some.inj divides
    refine computes_of_checked (fun _ => rfl)
      (signed_defined signs leastWord fun q done => bind_of_ok done rfl) ?_
    refine (signed_value signs Isa.div leastWord (fun none => ?_) (fun some large => ?_)
      Isa.div_eq).trans (toWord_signExtend _)
    · refine .trans ?_ (toWord_signExtend _).symm
      rw [Isa.div, if_pos none]
      rfl
    · refine .trans ?_ (toWord_signExtend _).symm
      rw [Isa.div_overflow large some, large.1, leastWord]
      rfl
  | remw =>
    cases Option.some.inj divides
    refine computes_of_checked (fun _ => rfl)
      (signed_defined signs leastWord fun q done => bind_of_ok done rfl) ?_
    refine (signed_value signs Isa.rem leastWord (fun none => ?_) (fun some large => ?_)
      Isa.rem_eq).trans (toWord_signExtend _)
    · refine .trans ?_ (toWord_signExtend _).symm
      rw [Isa.rem, if_pos none]
      rfl
    · refine .trans ?_ (toWord_signExtend _).symm
      rw [Isa.rem_overflow large some]
      rfl
  | divuw =>
    cases Option.some.inj divides
    refine computes_of_checked (fun _ => rfl)
      (unsigned_defined zeros fun q done => bind_of_ok done rfl) ?_
    refine (unsigned_value zeros Isa.divu Isa.divu_eq).trans ?_
    rw [show zeros _ = _ from toWord_setWidth _]
    rfl
  | remuw =>
    cases Option.some.inj divides
    refine computes_of_checked (fun _ => rfl)
      (unsigned_defined zeros fun q done => bind_of_ok done rfl) ?_
    refine (unsigned_value zeros Isa.remu Isa.remu_eq).trans ?_
    rw [show zeros _ = _ from toWord_setWidth _]
    rfl
  | _ => cases divides

/-! ### The instructions -/

/-- The operands for which the code of a division is right. -/
def DivisionRight (op : Op) (x y : BitVec 64) : Prop :=
  match op with
  | .divuw => Isa.low y ≠ 0
  | .remuw => Isa.low y ≠ 0 ∨ (Isa.low x).msb = false
  | _ => True

/-- The code of a division gives the right result for these operands only. -/
theorem givenDivision_iff {op : Op} {x y : BitVec 64}
    (divides : Isa.division op x y = some result) :
    result = givenDivision op x y result ↔ DivisionRight op x y := by
  -- Only the two unsigned word instructions have a result that the code does not extend.
  cases op with
  | divuw =>
    cases Option.some.inj divides
    by_cases none : Isa.low y = 0
    · refine iff_of_false ?_ fun some => some none
      rw [givenDivision, if_pos none, Isa.divu, if_pos none]
      decide
    · exact iff_of_true (if_neg none).symm none
  | remuw =>
    cases Option.some.inj divides
    by_cases none : Isa.low y = 0
    · rw [givenDivision, if_pos none, Isa.remu, if_pos none, Isa.extend_eq_setWidth_iff]
      exact ⟨.inr, fun holds => holds.resolve_left fun some => some none⟩
    · exact iff_of_true (if_neg none).symm (.inl none)
  | div | divu | rem | remu | divw | remw => exact iff_of_true rfl trivial
  | _ => cases divides

/-- The operations of a form are divisions. -/
theorem division_of_form {form : Isa.DivisionForm} {op : Op}
    (of : op = form.quotient ∨ op = form.remainder) (x y : BitVec 64) :
    ∃ result, Isa.division op x y = some result := by
  obtain ⟨sign, word⟩ := form
  rcases of with rfl | rfl <;> cases sign <;> cases word <;> exact ⟨_, rfl⟩

/-- The results of a word form are extensions of words. -/
theorem division_extended {form : Isa.DivisionForm} {op : Op} {x y : BitVec 64}
    (of : op = form.quotient ∨ op = form.remainder) (word : form.word)
    (divides : Isa.division op x y = some result) : result = Isa.extend (Isa.low result) := by
  obtain ⟨sign, word⟩ := form
  cases word
  rcases of with rfl | rfl <;> cases sign <;> cases Option.some.inj divides <;>
    exact (congrArg Isa.extend (Isa.low_extend _)).symm

/-- Where the code does not extend the result, its low half is right all the same. -/
theorem low_given {op : Op} {x y : BitVec 64} (divides : Isa.division op x y = some result) :
    Isa.low (givenDivision op x y result) = Isa.low result := by
  -- The missing extension concerns the high half only.
  cases op with
  | divuw =>
    cases Option.some.inj divides
    rw [givenDivision]
    split
    · rename_i none
      rw [Isa.low_extend, Isa.divu, if_pos none]
      decide
    · rfl
  | remuw =>
    cases Option.some.inj divides
    rw [givenDivision]
    split
    · rename_i none
      rw [Isa.low_extend, Isa.remu, if_pos none, Isa.low_setWidth]
    · rfl
  | _ => rfl

/-- Quotient and remainder make up the dividend, in words even if they are not extended. -/
theorem splits_given {form : Isa.DivisionForm} {x y quotient remainder : BitVec 64}
    (first : Isa.division form.quotient x y = some quotient)
    (second : Isa.division form.remainder x y = some remainder) :
    form.Splits x y (givenDivision form.quotient x y quotient)
      (givenDivision form.remainder x y remainder) := by
  have lowFirst := low_given first
  have lowSecond := low_given second
  obtain ⟨sign, word⟩ := form
  cases word with
  | false =>
    cases sign with
    | signed =>
      cases Option.some.inj first
      cases Option.some.inj second
      exact Isa.div_rem x y
    | unsigned =>
      cases Option.some.inj first
      cases Option.some.inj second
      exact Isa.divu_remu x y
  | true =>
    -- Only the low halves of the two results matter.
    rw [Isa.DivisionForm.Splits, if_pos rfl, lowFirst, lowSecond]
    cases sign with
    | signed =>
      cases Option.some.inj first
      cases Option.some.inj second
      rw [Isa.low_extend, Isa.low_extend]
      exact Isa.div_rem (Isa.low x) (Isa.low y)
    | unsigned =>
      cases Option.some.inj first
      cases Option.some.inj second
      rw [Isa.low_extend, Isa.low_extend]
      exact Isa.divu_remu (Isa.low x) (Isa.low y)

/-- A division is defined in C, and the results of its form make up the dividend. -/
def DividesSafely (host : Host) (m : Machine) (pc nextPc : BitVec 64) (d : Decoded)
    (form : Isa.DivisionForm) : Prop :=
  let x := m.hart.reg d.rs1
  let y := m.hart.reg d.rs2
  (∃ value, divisionCase d.op x y = .ok value ∧ Computes host m pc nextPc d value) ∧
    ∃ quotient remainder, Computes host m pc nextPc { d with op := form.quotient } quotient ∧
      Computes host m pc nextPc { d with op := form.remainder } remainder ∧
      form.Splits x y quotient remainder

/-- A division gives the right result, and that of a word form is the extension of a word. -/
def DividesRight (host : Host) (m : Machine) (pc nextPc : BitVec 64) (d : Decoded)
    (form : Isa.DivisionForm) : Prop :=
  ∃ value, Computes host m pc nextPc d value ∧
    Isa.division d.op (m.hart.reg d.rs1) (m.hart.reg d.rs2) = some value ∧
    (form.word → value = Isa.extend (Isa.low value))

/--
A division never leaves what C defines, and is right but for two unsigned word cases.

These are the quotient by zero, and the remainder by zero of a dividend with its highest bit set.
-/
theorem divisions_iff {form : Isa.DivisionForm}
    (of : d.op = form.quotient ∨ d.op = form.remainder) :
    DividesSafely host m pc nextPc d form ∧
      (DividesRight host m pc nextPc d form ↔
        DivisionRight d.op (m.hart.reg d.rs1) (m.hart.reg d.rs2)) := by
  obtain ⟨result, divides⟩ := division_of_form of (m.hart.reg d.rs1) (m.hart.reg d.rs2)
  have given : Computes host m pc nextPc d _ ∧ _ := computes_division divides
  have right := givenDivision_iff divides
  constructor
  -- The quotient and the remainder come from one pair of operands, whichever was asked for.
  · have quotients : form.quotient = form.quotient ∨ form.quotient = form.remainder := .inl rfl
    have remainders : form.remainder = form.quotient ∨ form.remainder = form.remainder := .inr rfl
    obtain ⟨quotient, first⟩ := division_of_form quotients (m.hart.reg d.rs1) (m.hart.reg d.rs2)
    obtain ⟨remainder, second⟩ := division_of_form remainders (m.hart.reg d.rs1) (m.hart.reg d.rs2)
    have divided : Computes host m pc nextPc { d with op := form.quotient } _ ∧ _ :=
      computes_division first
    have reduced : Computes host m pc nextPc { d with op := form.remainder } _ ∧ _ :=
      computes_division second
    exact ⟨⟨_, given.2, given.1⟩, _, _, divided.1, reduced.1, splits_given first second⟩
  constructor
  · rintro ⟨value, computes, same, -⟩
    cases same.symm.trans divides
    exact right.mp (computes.unique given.1)
  · intro holds
    rw [← right.mpr holds] at given
    exact ⟨result, given.1, divides, fun word => division_extended of word divides⟩

end Divisions

/-- A signed quotient is right whatever its operands, here the lowest number by minus one. -/
theorem divisions_iff_signed :
    let m := ((Machine.boot []).writeRd 2 (BitVec.intMin 64)).writeRd 3 (-1)
    let d : Decoded := { op := .div, rd := 1, rs1 := 2, rs2 := 3, imm := 0, csrAddr := 0 }
    DividesSafely {} m 0x1000 0x1004 d ⟨.signed, false⟩ ∧
      DividesRight {} m 0x1000 0x1004 d ⟨.signed, false⟩ := by
  intro m d
  -- The quotient does not fit, and is the dividend again.
  obtain ⟨safely, right⟩ := @divisions_iff {} m 0x1000 0x1004 d ⟨.signed, false⟩ (.inl rfl)
  exact ⟨safely, right.mpr trivial⟩

/-- The quotient of a word by zero is not extended, so a hart that just started gets another one. -/
theorem divuw_by_zero :
    ¬ DividesRight {} (Machine.boot []) 0x1000 0x1004
      { op := .divuw, rd := 1, rs1 := 2, rs2 := 3, imm := 0, csrAddr := 0 } ⟨.unsigned, true⟩ := by
  rintro ⟨value, computes, divides, -⟩
  cases Option.some.inj divides
  have given : Computes {} (Machine.boot []) 0x1000 0x1004 _ _ ∧ _ := computes_division divides
  exact absurd (computes.unique given.1) (by decide)

end Xemu
