import Xemu.Isa.Integer

/-! What the atomic memory operations do to the word they update. -/

namespace Xemu.Isa

/-- The updates that an atomic memory operation can make. -/
inductive Atomic where
  | swap
  | add
  | xor
  | and
  | or
  | min
  | max
  | minu
  | maxu
  deriving DecidableEq

/-- The word that takes the place of the old one. -/
def Atomic.apply (kind : Atomic) {w : Nat} (old operand : BitVec w) : BitVec w :=
  match kind with
  | .swap => operand
  | .add => Isa.add old operand
  | .xor => old ^^^ operand
  | .and => old &&& operand
  | .or => old ||| operand
  -- Of two equal numbers it does not matter which one is kept.
  | .min => if old.toInt ≤ operand.toInt then old else operand
  | .max => if operand.toInt ≤ old.toInt then old else operand
  | .minu => if old.toNat ≤ operand.toNat then old else operand
  | .maxu => if operand.toNat ≤ old.toNat then old else operand

/-- The update that an operation makes, and of how many bytes. -/
def atomic : Op → Option (Atomic × Nat)
  | .amoSwapW => some (.swap, 4)
  | .amoAddW => some (.add, 4)
  | .amoXorW => some (.xor, 4)
  | .amoAndW => some (.and, 4)
  | .amoOrW => some (.or, 4)
  | .amoMinW => some (.min, 4)
  | .amoMaxW => some (.max, 4)
  | .amoMinuW => some (.minu, 4)
  | .amoMaxuW => some (.maxu, 4)
  | .amoSwapD => some (.swap, 8)
  | .amoAddD => some (.add, 8)
  | .amoXorD => some (.xor, 8)
  | .amoAndD => some (.and, 8)
  | .amoOrD => some (.or, 8)
  | .amoMinD => some (.min, 8)
  | .amoMaxD => some (.max, 8)
  | .amoMinuD => some (.minu, 8)
  | .amoMaxuD => some (.maxu, 8)
  | _ => none

end Xemu.Isa
