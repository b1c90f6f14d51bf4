import Mathlib.Order.Basic

/-! Rounding a number up to a multiple of another. -/

namespace Rounding

/-- The least multiple of a positive number that is not below another number. -/
def up (n m : Nat) : Nat := (n + m - 1) / m * m

variable {n k m : Nat}

/-- What is rounded up is a multiple. -/
theorem up_mod : up n m % m = 0 := Nat.mul_mod_left _ _

/-- Rounding up adds what is missing to the next multiple. -/
theorem up_eq (pos : 0 < m) : up n m = if n % m = 0 then n else n + (m - n % m) := by
  -- The number is its quotient and its remainder, and only the latter is rounded.
  have split : n + m - 1 = m * (n / m) + (n % m + m - 1) := by
    have whole := Nat.div_add_mod n m
    omega
  have quotient : up n m = n / m * m + (n % m + m - 1) / m * m := by
    rw [up, split, Nat.mul_add_div pos, Nat.add_mul]
  have whole : n / m * m + n % m = n := Nat.div_add_mod' n m
  have below := Nat.mod_lt n pos
  rw [quotient]
  split_ifs with zero
  · -- A multiple is rounded to itself.
    have none : (m - 1) / m = 0 := Nat.div_eq_of_lt (Nat.sub_lt pos Nat.one_pos)
    rw [zero, Nat.zero_add, none, Nat.zero_mul, Nat.add_zero]
    rwa [zero, Nat.add_zero] at whole
  · -- Any other number is rounded to the multiple after it.
    have less : n % m - 1 < m := by omega
    have one : (n % m + m - 1) / m = 1 := by
      rw [show n % m + m - 1 = (n % m - 1) + m by omega, Nat.add_div_right _ pos,
        Nat.div_eq_of_lt less]
    rw [one, Nat.one_mul]
    omega

/-- Rounding up does not make a number smaller. -/
theorem le_up (pos : 0 < m) : n ≤ up n m := by
  rw [up_eq pos]
  split <;> omega

/-- No multiple lies between a number and what it is rounded up to. -/
theorem up_least (pos : 0 < m) (multiple : k % m = 0) (above : n ≤ k) : up n m ≤ k := by
  -- The quotient of what is rounded is at most that of the multiple.
  rw [up, ← Nat.div_add_mod' k m, multiple, Nat.add_zero]
  refine Nat.mul_le_mul_right m (Nat.lt_succ_iff.mp ((Nat.div_lt_iff_lt_mul pos).mpr ?_))
  have whole : k / m * m = k := by
    have sum := Nat.div_add_mod' k m
    omega
  rw [Nat.succ_mul, whole]
  omega

/-- A multiple that is less than one whole above a number is what that is rounded up to. -/
theorem eq_up (pos : 0 < m) (multiple : k % m = 0) (above : n ≤ k) (near : k < n + m) :
    k = up n m := by
  refine Nat.le_antisymm ?_ (up_least pos multiple above)
  -- Both are multiples, so one that is greater is greater by a whole.
  by_contra less
  obtain ⟨i, lower⟩ := Nat.dvd_of_mod_eq_zero (up_mod (n := n) (m := m))
  obtain ⟨j, higher⟩ := Nat.dvd_of_mod_eq_zero multiple
  have reached := le_up (n := n) pos
  rw [Nat.not_le, lower, higher] at less
  have next : m * (i + 1) ≤ m * j := Nat.mul_le_mul_left m (Nat.lt_of_mul_lt_mul_left less)
  rw [Nat.mul_add, Nat.mul_one, ← higher, ← lower] at next
  omega

/-- Two numbers are rounded up to the same multiple when the larger one is not above it. -/
theorem up_eq_up (pos : 0 < m) (le : n ≤ k) : up n m = up k m ↔ k ≤ up n m := by
  constructor
  · intro same
    rw [same]
    exact le_up pos
  · intro below
    exact Nat.le_antisymm (up_least pos up_mod (Nat.le_trans le (le_up pos)))
      (up_least pos up_mod below)

/-- There is so much room before the next multiple exactly when the remainder leaves it. -/
theorem add_le_up (pos : 0 < m) (some : 0 < k) : n + k ≤ up n m ↔ 0 < n % m ∧ n % m + k ≤ m := by
  have below := Nat.mod_lt n pos
  rw [up_eq pos]
  split <;> omega

end Rounding
