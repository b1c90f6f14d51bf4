import Mathlib.Data.List.Count
import Xemu.Lib.Runs
import Xemu.Lib.Triples

/-! Systems in which a program takes its steps between events that it does not notice. -/

namespace Runs

open Triples

variable {Event State Stop : Type*} {Program : Type*}

/--
A system simulates a program step by step.

Some of its events are turns of the program, which take the step that the program takes, and the other ones are stutters.
-/
structure Simulates (next : Event → State → Except Stop State) (turn : Event → Bool)
    (step : Program → Program → Prop) (rel : State → Program → Prop) : Prop where
  advances : ∀ event state one other, turn event → rel state one → step one other →
    ∃ after, next event state = .ok after ∧ rel after other
  stutters : ∀ event state one, turn event = false → rel state one →
    ∃ after, next event state = .ok after ∧ rel after one

variable {next : Event → State → Except Stop State} {turn : Event → Bool}
  {step : Program → Program → Prop} {rel : State → Program → Prop}

/-- With as many turns as the program has steps the system completes in the program's last state. -/
theorem Simulates.run (simulates : Simulates next turn step rel) {state : State}
    {first last : Program} {count : Nat} (related : rel state first)
    (steps : Steps step count first last) {events : List Event}
    (turns : events.countP turn = count) :
    ∃ final, run next state events = .ok final ∧ rel final last := by
  induction events generalizing state first count with
  | nil =>
    cases turns
    cases steps
    exact ⟨state, rfl, related⟩
  | cons event rest ih =>
    by_cases own : turn event
    · -- A turn takes the first of the steps that are left.
      rw [List.countP_cons_of_pos own] at turns
      subst turns
      obtain _ | ⟨taken, others⟩ := steps
      obtain ⟨after, stepped, kept⟩ := simulates.advances event state first _ own related taken
      obtain ⟨final, ran, reached⟩ := ih kept others rfl
      exact ⟨final, (run_cons_ok stepped rest).trans ran, reached⟩
    · rw [List.countP_cons_of_neg own] at turns
      have foreign : turn event = false := Bool.eq_false_iff.mpr own
      obtain ⟨after, stepped, kept⟩ := simulates.stutters event state first foreign related
      obtain ⟨final, ran, reached⟩ := ih kept steps turns
      exact ⟨final, (run_cons_ok stepped rest).trans ran, reached⟩

end Runs
