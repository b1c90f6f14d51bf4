import Mathlib.Data.Set.Finite.Lemmas
import Mathlib.Order.Bounds.Basic

/-! Choosing the best of a set by a key, and what taking the least of a part of it chooses. -/

namespace Selection

variable {ι κ : Type*} [LinearOrder ι] [LinearOrder κ]

/-- An element of the greatest key, and the least such element. -/
structure Best (key : ι → κ) (eligible : Set ι) (i : ι) : Prop where
  mem : i ∈ eligible
  greatest : ∀ j ∈ eligible, key j ≤ key i
  lowest : ∀ j ∈ eligible, key j = key i → i ≤ j

/-- A choice is right when it is the best element, or nothing if there is none. -/
def Right (key : ι → κ) (eligible : Set ι) : Option ι → Prop
  | none => eligible = ∅
  | some i => Best key eligible i

/-- The choice of the least element, or of nothing if there is none. -/
def Least (offered : Set ι) : Option ι → Prop
  | none => offered = ∅
  | some i => IsLeast offered i

section Choice

variable {key : ι → κ} {eligible offered : Set ι} {choice : Option ι}

/-- There is only one best element. -/
theorem Best.unique {i j : ι} (one : Best key eligible i) (other : Best key eligible j) : i = j := by
  -- Each has a key that is no less, so the keys are equal and the order decides.
  have equal : key i = key j :=
    le_antisymm (other.greatest i one.mem) (one.greatest j other.mem)
  exact le_antisymm (one.lowest j other.mem equal.symm) (other.lowest i one.mem equal)

/-- A finite set with an element has a best one. -/
theorem exists_best [Finite ι] (key : ι → κ) (inhabited : eligible.Nonempty) :
    ∃ i, Best key eligible i := by
  -- First the greatest key is found, and then the least element that has it.
  obtain ⟨top, topMem, greatest⟩ := Set.exists_max_image eligible key eligible.toFinite inhabited
  obtain ⟨i, ⟨mem, equal⟩, lowest⟩ :=
    Set.exists_min_image {j ∈ eligible | key j = key top} id (Set.toFinite _) ⟨top, topMem, rfl⟩
  refine ⟨i, mem, fun j member => ?_, fun j member same => lowest j ⟨member, same.trans equal⟩⟩
  rw [equal]
  exact greatest j member

/-- Taking the least offered element is right exactly when the best element is that one. -/
theorem Least.right_iff [Finite ι] (subset : offered ⊆ eligible) (least : Least offered choice) :
    Right key eligible choice ↔ ∀ i, Best key eligible i → IsLeast offered i := by
  constructor
  · intro right i best
    cases choice with
    | none =>
      -- Nothing is eligible, so nothing is the best.
      rw [Right] at right
      exact absurd best.mem (right ▸ Set.notMem_empty i)
    | some chosen => exact Best.unique right best ▸ least
  · intro offers
    cases choice with
    | none =>
      -- The best element would have been offered.
      rw [Right, ← Set.not_nonempty_iff_eq_empty]
      intro inhabited
      obtain ⟨i, best⟩ := exists_best key inhabited
      have member := (offers i best).1
      rw [Least] at least
      exact absurd member (least ▸ Set.notMem_empty i)
    | some chosen =>
      -- The best element is the least offered one, and so is the chosen one.
      obtain ⟨i, best⟩ := exists_best key ⟨chosen, subset least.1⟩
      rw [IsLeast.unique least (offers i best)]
      exact best

end Choice

end Selection
