import Mathlib.Tactic.Ring
import Xemu.Proofs.Arithmetic

/-! The multiplications, of which two read both factors as unsigned numbers. -/

namespace Xemu

/-! ### The code's high half -/

/-- The high half of the code is the one of the product of the unsigned readings. -/
theorem mulHigh_eq (x y : BitVec 64) :
    mulHigh x y = BitVec.ofInt 64 (((x.toNat : Int) * y.toNat) / 2 ^ 64) := by
  -- The product of two words fits in the wide one, so neither reduction loses a digit.
  have small : x.toNat * y.toNat < 2 ^ 128 := by
    have bound := Nat.mul_lt_mul_of_lt_of_lt x.isLt y.isLt
    omega
  apply BitVec.eq_of_toNat_eq
  simp only [mulHigh, BitVec.toNat_setWidth, BitVec.toNat_ushiftRight, BitVec.toNat_mul,
    BitVec.toNat_ofInt, Nat.shiftRight_eq_div_pow]
  rw [Nat.mod_eq_of_lt (by omega : x.toNat < 2 ^ 128),
    Nat.mod_eq_of_lt (by omega : y.toNat < 2 ^ 128), Nat.mod_eq_of_lt small]
  norm_cast

/-- A content that is counted or not, as a number. -/
theorem ofInt_counted (counted : Bool) (x : BitVec 64) :
    BitVec.ofInt 64 ((if counted then 1 else 0) * x.toNat) = if counted then x else 0 := by
  cases counted <;> simp

/-- Each negative reading takes the other factor away from the high half. -/
theorem high_eq (first second : Isa.Sign) (x y : BitVec 64) :
    BitVec.ofInt 64 ((first.value x * second.value y) / 2 ^ 64) =
      mulHigh x y - ((if first.negative x then y else 0) +
        (if second.negative y then x else 0)) := by
  -- The product of the unsigned readings is off by multiples of the power that is divided by.
  have split : first.value x * second.value y = (x.toNat : Int) * y.toNat + 2 ^ 64 *
      (2 ^ 64 * ((if first.negative x then 1 else 0) * (if second.negative y then 1 else 0)) -
        ((if first.negative x then 1 else 0) * y.toNat +
          (if second.negative y then 1 else 0) * x.toNat)) := by
    rw [first.value_eq, second.value_eq]
    ring
  have whole (n : Int) : BitVec.ofInt 64 (2 ^ 64 * n) = 0 := by
    rw [BitVec.ofInt_mul]
    simp
  rw [split, Int.add_mul_ediv_left _ _ (by decide), BitVec.ofInt_add, ← mulHigh_eq,
    Int.sub_eq_add_neg, BitVec.ofInt_add, whole, BitVec.ofInt_neg, BitVec.ofInt_add,
    ofInt_counted, ofInt_counted]
  simp [BitVec.sub_eq_add_neg]

/-- The high half of the code is right when the two corrections cancel. -/
theorem high_iff (first second : Isa.Sign) (x y : BitVec 64) :
    BitVec.ofInt 64 ((first.value x * second.value y) / 2 ^ 64) = mulHigh x y ↔
      (if first.negative x then y else 0) + (if second.negative y then x else 0) = 0 := by
  rw [high_eq]
  generalize (if first.negative x then y else 0) + (if second.negative y then x else 0) = taken
  bv_omega

/-- The corrections of two signed factors cancel for few pairs with a negative factor. -/
theorem signed_cancel_iff (x y : BitVec 64) :
    (if x.msb then y else 0) + (if y.msb then x else 0) = 0 ↔
      (x.msb = false ∧ y.msb = false) ∨ x = 0 ∨ y = 0 ∨
        (x = BitVec.intMin 64 ∧ y = BitVec.intMin 64) := by
  have nonzero {z : BitVec 64} (negative : z.msb = true) : z ≠ 0#64 := by
    rintro rfl
    cases negative
  have greater {z : BitVec 64} (positive : z.msb = false) : z ≠ BitVec.intMin 64 := by
    rintro rfl
    cases positive
  cases first : x.msb with
  | false =>
    -- What is taken away, if anything, is the factor that is not negative.
    cases second : y.msb with
    | false => simp
    | true => simp [nonzero second, greater first]
  | true =>
    cases second : y.msb with
    | false => simp [nonzero first, greater second]
    | true =>
      -- Two negative factors are at least half the range each, so their sum is too large or all of it.
      have least : (BitVec.intMin 64).toNat = 2 ^ 63 := by decide
      have large {z : BitVec 64} (negative : z.msb = true) : 2 ^ 63 ≤ z.toNat := by
        simpa [BitVec.msb_eq_decide] using negative
      have below := large first
      have under := large second
      simp only [if_true]
      constructor
      · intro cancel
        exact .inr (.inr (.inr ⟨by bv_omega, by bv_omega⟩))
      · rintro (⟨impossible, -⟩ | zero | zero | ⟨rfl, rfl⟩)
        · cases impossible
        · exact absurd zero (nonzero first)
        · exact absurd zero (nonzero second)
        · decide

/-! ### The instructions -/

/-- What the code assigns in the case of a multiplication. -/
def givenProduct (op : Op) (x y : BitVec 64) : BitVec 64 :=
  match op with
  | .mul => x * y
  | .mulw => Isa.extend (Isa.low x * Isa.low y)
  | _ => mulHigh x y

section Multiplications

variable {host : Host} {m : Machine} {pc nextPc result : BitVec 64} {d : Decoded}

/-- Every multiplication computes what its case assigns. -/
theorem computes_product
    (multiplies : Isa.product d.op (m.hart.reg d.rs1) (m.hart.reg d.rs2) = some result) :
    Computes host m pc nextPc d (givenProduct d.op (m.hart.reg d.rs1) (m.hart.reg d.rs2)) := by
  obtain ⟨op, rd, rs1, rs2, imm, csrAddr⟩ := d
  cases op with
  | mul | mulh | mulhsu | mulhu => exact computes_of_setRd fun rd => setRd_ok rfl
  | mulw => exact computes_of_setRd fun rd => setRd_ok (toWord_signExtend _)
  | _ => cases multiplies

/-- The operands for which the code of a multiplication is right. -/
def ProductRight (op : Op) (x y : BitVec 64) : Prop :=
  match op with
  | .mulh => (x.msb = false ∧ y.msb = false) ∨ x = 0 ∨ y = 0 ∨
      (x = BitVec.intMin 64 ∧ y = BitVec.intMin 64)
  | .mulhsu => x.msb = false ∨ y = 0
  | _ => True

/-- The code of a multiplication gives the right half of the product for these operands only. -/
theorem givenProduct_iff {op : Op} {x y : BitVec 64} (multiplies : Isa.product op x y = some result) :
    result = givenProduct op x y ↔ ProductRight op x y := by
  -- The low halves agree for all readings; the high halves go by the signs.
  cases op with
  | mul =>
    cases Option.some.inj multiplies
    rw [BitVec.ofInt_mul, BitVec.ofInt_toInt, BitVec.ofInt_toInt]
    exact iff_of_true rfl trivial
  | mulw =>
    cases Option.some.inj multiplies
    rw [BitVec.ofInt_mul, BitVec.ofInt_toInt, BitVec.ofInt_toInt]
    exact iff_of_true rfl trivial
  | mulh =>
    cases Option.some.inj multiplies
    refine (high_iff .signed .signed x y).trans ?_
    rw [show Isa.Sign.signed.negative x = x.msb by simp [Isa.Sign.negative],
      show Isa.Sign.signed.negative y = y.msb by simp [Isa.Sign.negative]]
    exact signed_cancel_iff x y
  | mulhsu =>
    cases Option.some.inj multiplies
    refine (high_iff .signed .unsigned x y).trans ?_
    cases negative : x.msb <;> simp [Isa.Sign.negative, ProductRight, negative]
  | mulhu =>
    cases Option.some.inj multiplies
    exact (high_iff .unsigned .unsigned x y).trans
      (iff_of_true (by simp [Isa.Sign.negative]) trivial)
  | _ => cases multiplies

/-- The two halves that the code computes make up the exact product of the factors as read. -/
def Joins (host : Host) (m : Machine) (pc nextPc : BitVec 64) (d : Decoded)
    (signs : Isa.Sign × Isa.Sign) : Prop :=
  ∃ high low, Computes host m pc nextPc d high ∧ Computes host m pc nextPc { d with op := .mul } low ∧
    high ++ low = Isa.exactProduct signs (m.hart.reg d.rs1) (m.hart.reg d.rs2)

/-- The high half that a product should have, and the half that all readings share, join to it. -/
theorem exactProduct_eq {op : Op} {signs : Isa.Sign × Isa.Sign} {x y : BitVec 64}
    (multiplies : Isa.product op x y = some result) (high : Isa.factors op = some signs) :
    Isa.exactProduct signs x y = result ++ (x * y) := by
  -- Both readings of a word are congruent, so the low half does not depend on them.
  have shared (sign : Isa.Sign) (z : BitVec 64) : BitVec.ofInt 64 (sign.value z) = z := by
    cases sign with
    | signed => exact BitVec.ofInt_toInt
    | unsigned => simp [Isa.Sign.value]
  have low : x * y = BitVec.ofInt 64 (signs.1.value x * signs.2.value y) := by
    rw [BitVec.ofInt_mul, shared, shared]
  have value : result = BitVec.ofInt 64 ((signs.1.value x * signs.2.value y) / 2 ^ 64) := by
    cases op with
    | mulh | mulhsu | mulhu =>
      cases high
      exact (Option.some.inj multiplies).symm
    | _ => cases high
  rw [value, low, Isa.halves_join, Isa.exactProduct]

/--
A multiplication is right exactly for the operands whose unsigned product has the right high half.

The same operands are those for which the high and the low half join to the exact product.
-/
theorem products_iff
    (multiplies : Isa.product d.op (m.hart.reg d.rs1) (m.hart.reg d.rs2) = some result) :
    (Computes host m pc nextPc d result ↔
        ProductRight d.op (m.hart.reg d.rs1) (m.hart.reg d.rs2)) ∧
      ∀ signs, Isa.factors d.op = some signs →
        (Joins host m pc nextPc d signs ↔
          ProductRight d.op (m.hart.reg d.rs1) (m.hart.reg d.rs2)) := by
  have given : Computes host m pc nextPc d _ := computes_product multiplies
  have right := givenProduct_iff multiplies
  refine ⟨⟨fun computes => right.mp (computes.unique given), fun holds => ?_⟩,
    fun signs high => ?_⟩
  · rw [right.mpr holds]
    exact given
  · have shared : Computes host m pc nextPc { d with op := .mul } _ := computes_product rfl
    have exact := exactProduct_eq multiplies high
    constructor
    · rintro ⟨upper, lower, computes, multiplied, joined⟩
      -- Both halves are determined, and the low one is right for every reading.
      rw [computes.unique given, multiplied.unique shared, exact] at joined
      exact right.mp ((BitVec.append_left_inj _).mp joined).symm
    · intro holds
      refine ⟨_, _, given, shared, ?_⟩
      rw [exact, right.mpr holds]
      rfl

end Multiplications

/-- The product of `mulhu` is right whatever its factors, here two with their highest bits set. -/
theorem products_iff_unsigned :
    let m := ((Machine.boot []).writeRd 2 (-1)).writeRd 3 (-2)
    let d : Decoded := { op := .mulhu, rd := 1, rs1 := 2, rs2 := 3, imm := 0, csrAddr := 0 }
    Computes {} m 0x1000 0x1004 d (-3) ∧ Joins {} m 0x1000 0x1004 d (.unsigned, .unsigned) := by
  intro m d
  have multiplies : Isa.product d.op (m.hart.reg d.rs1) (m.hart.reg d.rs2) = some (-3) := by decide
  -- The condition is on the signed readings only, and there are none.
  obtain ⟨computes, joins⟩ := @products_iff {} m 0x1000 0x1004 (-3) d multiplies
  exact ⟨computes.mpr trivial, (joins _ rfl).mpr trivial⟩

/-- The high half of minus one times one is all ones, and the code gives zero. -/
theorem mulh_negative_factor :
    let m := ((Machine.boot []).writeRd 2 (-1)).writeRd 3 1
    let d : Decoded := { op := .mulh, rd := 1, rs1 := 2, rs2 := 3, imm := 0, csrAddr := 0 }
    Isa.product .mulh (m.hart.reg 2) (m.hart.reg 3) = some (-1) ∧
      ¬ Computes {} m 0x1000 0x1004 d (-1) := by
  intro m d
  refine ⟨by decide, fun computes => ?_⟩
  have given : Computes {} m 0x1000 0x1004 d _ := computes_product rfl
  have differ : -1 ≠ givenProduct .mulh (m.hart.reg 2) (m.hart.reg 3) := by decide
  exact differ (computes.unique given)

end Xemu
