import Mathlib.Logic.Basic

/-! Pairs of computations that end alike. -/

universe u v

variable {α β γ δ : Type u} {Stop : Type v}

/-- Two computations stop with the same error, or both complete, with related results. -/
inductive Coupled (rel : α → β → Prop) : Except Stop α → Except Stop β → Prop where
  | ok {one : α} {other : β} (related : rel one other) : Coupled rel (.ok one) (.ok other)
  | error (stop : Stop) : Coupled rel (.error stop) (.error stop)

namespace Coupled

variable {rel : α → β → Prop} {one : Except Stop α} {other : Except Stop β}

/-- A computation is coupled with itself when every result is related to itself. -/
theorem refl {rel : α → α → Prop} (same : ∀ result, rel result result) (comp : Except Stop α) :
    Coupled rel comp comp := by
  cases comp with
  | error stop => exact .error stop
  | ok result => exact .ok (same result)

/-- Sequences are coupled when their first parts are, and so are the second parts behind them. -/
theorem bind {last : γ → δ → Prop} {next : α → Except Stop γ} {after : β → Except Stop δ}
    (first : Coupled rel one other)
    (second : ∀ a b, rel a b → Coupled last (next a) (after b)) :
    Coupled last (one >>= next) (other >>= after) := by
  -- Either both first parts stop, or both hand a result on.
  cases first with
  | error stop => exact .error stop
  | ok related => exact second _ _ related

/-- Choices by equivalent conditions are coupled when both of their sides are. -/
theorem ite {cond same : Prop} [Decidable cond] [Decidable same] (iff : cond ↔ same)
    {no : Except Stop α} {alsoNo : Except Stop β} (yes : Coupled rel one other)
    (otherwise : Coupled rel no alsoNo) :
    Coupled rel (if cond then one else no) (if same then other else alsoNo) := by
  by_cases holds : cond
  · rw [if_pos holds, if_pos (iff.mp holds)]
    exact yes
  · rw [if_neg holds, if_neg (iff.not.mp holds)]
    exact otherwise

/-- Coupled computations have the same image under functions that agree on related results. -/
theorem map_eq {f : α → γ} {g : β → γ} (coupled : Coupled rel one other)
    (agree : ∀ a b, rel a b → f a = g b) : one.map f = other.map g := by
  cases coupled with
  | error stop => rfl
  | ok related => exact congrArg Except.ok (agree _ _ related)

end Coupled
