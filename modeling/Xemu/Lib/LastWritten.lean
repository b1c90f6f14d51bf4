import Xemu.Lib.Runs

/-! Stores in which a read after a run finds what the last write of the run put there. -/

namespace Runs

variable {Event State Stop Key Value : Type*}

/-- What the last event that writes a key writes there, if any event does. -/
def lastWritten (written : Event → Key → Option Value) : List Event → Key → Option Value
  | [], _ => none
  | event :: rest, key =>
    -- A later event takes precedence.
    (lastWritten written rest key).or (written event key)

variable {written : Event → Key → Option Value}

/-- If each step changes what it writes and nothing else, a run leaves what was written last. -/
theorem run_lastWritten {next : Event → State → Except Stop State}
    {cond : Event → State → Prop} (inv : State → Prop) (stored : Key → Prop)
    (view : State → Key → Value)
    (step : ∀ event state after, inv state → cond event state → next event state = .ok after →
      inv after ∧ ∀ key, stored key → view after key = (written event key).getD (view state key))
    {state final : State} {events : List Event} (start : inv state)
    (along : Along next cond state events) (ran : run next state events = .ok final) :
    inv final ∧ ∀ key, stored key →
      view final key = (lastWritten written events key).getD (view state key) := by
  induction events generalizing state with
  | nil =>
    cases Except.ok.inj ran
    exact ⟨start, fun key _ => rfl⟩
  | cons event rest ih =>
    obtain ⟨after, stepped, remaining⟩ := run_cons_inv ran
    obtain ⟨kept, changed⟩ := step event state after start along.1 stepped
    obtain ⟨holds, later⟩ := ih kept (along.2 after stepped) remaining
    refine ⟨holds, fun key inside => ?_⟩
    -- What the rest of the run leaves alone is what the first step left.
    rw [later key inside, changed key inside, lastWritten]
    cases lastWritten written rest key <;> rfl

end Runs
