import Mathlib.Init

/-! Total correctness of programs whose meaning is a step relation, stated by triples. -/

namespace Triples

variable {State : Type*}

/-- A run of so many steps from one state to another. -/
inductive Steps (step : State → State → Prop) : Nat → State → State → Prop where
  | refl (state : State) : Steps step 0 state state
  | head {count : Nat} {first second last : State} (taken : step first second)
    (rest : Steps step count second last) : Steps step (count + 1) first last

/-- Some run from the state ends with the property. -/
def Reaches (step : State → State → Prop) (state : State) (post : State → Prop) : Prop :=
  ∃ count last, Steps step count state last ∧ post last

/-- From every state with the first property some run ends with the second. -/
def Triple (step : State → State → Prop) (pre post : State → Prop) : Prop :=
  ∀ state, pre state → Reaches step state post

variable {step other : State → State → Prop} {state first second last : State}
  {pre mid post : State → Prop}

/-! ### Runs -/

/-- A run goes on where another one ended. -/
theorem Steps.append {count more : Nat} (earlier : Steps step count first second)
    (later : Steps step more second last) : Steps step (count + more) first last := by
  induction earlier with
  | refl _ =>
    rw [Nat.zero_add]
    exact later
  | head taken _ ih =>
    rw [Nat.add_right_comm]
    exact .head taken (ih later)

/-! ### Reaching a property -/

/-- A state with the property is reached without a step. -/
theorem Reaches.here (holds : post state) : Reaches step state post :=
  ⟨0, state, .refl state, holds⟩

/-- What is reached after one step is reached. -/
theorem Reaches.head (taken : step first second) (rest : Reaches step second post) :
    Reaches step first post := by
  obtain ⟨count, last, run, holds⟩ := rest
  exact ⟨count + 1, last, .head taken run, holds⟩

/-- What is reached from wherever a run leads is reached. -/
theorem Reaches.bind (reached : Reaches step state mid) (rest : Triple step mid post) :
    Reaches step state post := by
  obtain ⟨count, middle, earlier, holds⟩ := reached
  obtain ⟨more, last, later, done⟩ := rest middle holds
  exact ⟨count + more, last, earlier.append later, done⟩

/-- A weaker property is reached as well. -/
theorem Reaches.mono (reached : Reaches step state mid) (weaker : ∀ last, mid last → post last) :
    Reaches step state post :=
  reached.bind fun last holds => .here (weaker last holds)

/-- What one program reaches another one does, if runs of it make up every step of the first. -/
theorem Reaches.refine (inv : State → Prop)
    (preserved : ∀ state after, inv state → step state after → inv after)
    (implements : ∀ state after, inv state → step state after →
      Reaches other state fun last => last = after)
    (reached : Reaches step state post) (start : inv state) : Reaches other state post := by
  obtain ⟨count, last, run, holds⟩ := reached
  induction run with
  | refl state => exact .here holds
  | head taken _ ih =>
    refine (implements _ _ start taken).bind fun after same => ?_
    subst same
    exact ih (preserved _ _ start taken) holds

/-! ### Rules -/

/-- The rule of sequential composition. -/
theorem Triple.seq (one : Triple step pre mid) (two : Triple step mid post) : Triple step pre post :=
  fun state holds => (one state holds).bind two

/--
The rule of loops that test at their end.

The body leaves the loop with the postcondition or keeps the invariant, and then a measure has gone down.
-/
theorem Triple.loop {inv : State → Prop} (measure : State → Nat)
    (body : ∀ bound, Triple step (fun state => inv state ∧ measure state = bound)
      fun state => post state ∨ inv state ∧ measure state < bound) : Triple step inv post := by
  intro state holds
  induction size : measure state using Nat.strongRecOn generalizing state with
  | ind bound ih =>
    -- A body that did not leave the loop begins it again with a smaller measure.
    refine (body bound state ⟨holds, size⟩).bind fun middle ended => ?_
    rcases ended with done | ⟨again, less⟩
    · exact .here done
    · exact ih (measure middle) less middle again rfl

end Triples
