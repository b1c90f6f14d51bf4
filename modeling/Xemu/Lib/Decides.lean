import Mathlib.Logic.Basic

/-! Computations whose success is decided by a proposition. -/

universe u v

variable {α β : Type u} {Stop : Type v}

/-- A computation returns a value if a proposition holds, and else stops in a certain way. -/
structure Decides (comp : Except Stop α) (rejects : Stop → Prop) (accepts : Prop) : Prop where
  returns : accepts → ∃ value, comp = .ok value
  stops : ¬ accepts → ∃ stop, comp = .error stop ∧ rejects stop

namespace Decides

variable {comp : Except Stop α} {rejects : Stop → Prop} {accepts : Prop}

/-- A value is returned where the proposition holds. -/
theorem ok {value : α} (holds : accepts) : Decides (.ok value : Except Stop α) rejects accepts :=
  ⟨fun _ => ⟨value, rfl⟩, fun fails => absurd holds fails⟩

/-- A computation stops where the proposition fails. -/
theorem error {stop : Stop} (kind : rejects stop) (fails : ¬ accepts) :
    Decides (.error stop : Except Stop α) rejects accepts :=
  ⟨fun holds => absurd holds fails, fun _ => ⟨stop, rfl, kind⟩⟩

/-- What is made of a value does not matter for whether there is one. -/
theorem map (decides : Decides comp rejects accepts) (make : α → β) :
    Decides (comp >>= fun value => .ok (make value)) rejects accepts := by
  constructor
  · intro holds
    obtain ⟨value, rfl⟩ := decides.returns holds
    exact ⟨make value, rfl⟩
  · intro fails
    obtain ⟨stop, rfl, kind⟩ := decides.stops fails
    exact ⟨stop, rfl, kind⟩

/-- A choice is decided by what decides its two sides. -/
theorem ite {cond : Prop} [Decidable cond] {other : Except Stop α}
    (yes : cond → Decides comp rejects accepts) (no : ¬ cond → Decides other rejects accepts) :
    Decides (if cond then comp else other) rejects accepts := by
  by_cases holds : cond
  · rw [if_pos holds]
    exact yes holds
  · rw [if_neg holds]
    exact no holds

/-- Equivalent propositions decide the same computations. -/
theorem congr {other : Prop} (decides : Decides comp rejects accepts) (same : other ↔ accepts) :
    Decides comp rejects other :=
  ⟨decides.returns ∘ same.mp, fun fails => decides.stops (fails ∘ same.mpr)⟩

/-- A value is returned exactly where the proposition holds. -/
theorem returns_iff (decides : Decides comp rejects accepts) :
    (∃ value, comp = .ok value) ↔ accepts := by
  refine ⟨fun returned => ?_, decides.returns⟩
  obtain ⟨value, rfl⟩ := returned
  by_cases holds : accepts
  · exact holds
  · obtain ⟨stop, impossible, -⟩ := decides.stops holds
    cases impossible

/-- The computation stops in that way exactly where the proposition fails. -/
theorem stops_iff (decides : Decides comp rejects accepts) :
    (∃ stop, comp = .error stop ∧ rejects stop) ↔ ¬ accepts := by
  refine ⟨fun stopped holds => ?_, decides.stops⟩
  obtain ⟨stop, rfl, -⟩ := stopped
  obtain ⟨value, impossible⟩ := decides.returns holds
  cases impossible

end Decides
