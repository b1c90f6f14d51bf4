import Mathlib.Data.List.Basic

/-! Runs of a system whose every step either yields the next state or stops with an error. -/

namespace Runs

variable {Event State Stop : Type*}

/-- The state after a list of events, or the error of the first step that stops. -/
def run (next : Event → State → Except Stop State) : State → List Event → Except Stop State
  | state, [] => .ok state
  | state, event :: rest =>
    -- A stopped step ends the run, so later events are never looked at.
    match next event state with
    | .error stop => .error stop
    | .ok after => run next after rest

/-- Every step of a run starts in a state that meets a condition on its event and state. -/
def Along (next : Event → State → Except Stop State) (cond : Event → State → Prop) :
    State → List Event → Prop
  | _, [] => True
  | state, event :: rest =>
    -- The condition is asked of the state before the step, never of the state it yields.
    cond event state ∧ ∀ after, next event state = .ok after → Along next cond after rest

/-- A state that some run from a starting state reaches. -/
def Reachable (next : Event → State → Except Stop State) (start : State → Prop) (state : State) :
    Prop :=
  ∃ first events, start first ∧ run next first events = .ok state

variable {next : Event → State → Except Stop State}

@[simp] theorem run_nil (state : State) : run next state [] = .ok state := rfl

/-- A run that starts with a successful step is the run of the remaining events. -/
theorem run_cons_ok {state after : State} {event : Event} (stepped : next event state = .ok after)
    (rest : List Event) : run next state (event :: rest) = run next after rest := by
  simp [run, stepped]

/-- The first step of a completed run succeeded, and the remaining events completed from there. -/
theorem run_cons_inv {state final : State} {event : Event} {rest : List Event}
    (ran : run next state (event :: rest) = .ok final) :
    ∃ after, next event state = .ok after ∧ run next after rest = .ok final := by
  -- A failing first step would have been the result of the whole run.
  simp only [run] at ran
  cases stepped : next event state with
  | error stop => simp [stepped] at ran
  | ok after => exact ⟨after, rfl, by simpa [stepped] using ran⟩

/-- Running two lists of events in turn is running them as one list. -/
theorem run_append {state middle : State} {before : List Event}
    (ran : run next state before = .ok middle) (later : List Event) :
    run next state (before ++ later) = run next middle later := by
  induction before generalizing state with
  -- The first list is run event by event, so the state it starts in varies.
  | nil =>
    simp only [run_nil, Except.ok.injEq] at ran
    simp [ran]
  | cons event rest ih =>
    obtain ⟨after, stepped, remaining⟩ := run_cons_inv ran
    simpa [run, stepped] using ih remaining

/-- A property that every permitted step preserves holds after every run of permitted steps. -/
theorem run_induction_along {cond : Event → State → Prop} (inv : State → Prop)
    (preserved : ∀ event state after, inv state → cond event state →
      next event state = .ok after → inv after)
    {state final : State} {events : List Event} (start : inv state)
    (along : Along next cond state events) (ran : run next state events = .ok final) :
    inv final := by
  induction events generalizing state with
  -- The invariant moves along the run, from each state to the next.
  | nil =>
    simp only [run_nil, Except.ok.injEq] at ran
    exact ran ▸ start
  | cons event rest ih =>
    obtain ⟨after, stepped, remaining⟩ := run_cons_inv ran
    exact ih (preserved event state after start along.1 stepped) (along.2 after stepped) remaining

/-- A run whose first step is permitted, and whose rest is one along the condition, is one too. -/
theorem Along.cons {cond : Event → State → Prop} {state after : State} {event : Event}
    {rest : List Event} (asked : cond event state) (stepped : next event state = .ok after)
    (later : Along next cond after rest) : Along next cond state (event :: rest) := by
  -- There is one state after the step, so what is asked of every such state is asked of it.
  refine ⟨asked, fun other reached => ?_⟩
  cases Except.ok.inj (stepped.symm.trans reached)
  exact later

/-- A run along a condition is one along what the condition gives where an invariant holds. -/
theorem Along.of_invariant {cond gives : Event → State → Prop} (inv : State → Prop)
    (preserved : ∀ event state after, inv state → cond event state →
      next event state = .ok after → inv after)
    (yields : ∀ event state, inv state → cond event state → gives event state) {state : State}
    {events : List Event} (start : inv state) (along : Along next cond state events) :
    Along next gives state events := by
  induction events generalizing state with
  | nil => trivial
  | cons event rest ih =>
    -- The invariant moves on with the step, so that it holds where the rest starts.
    exact ⟨yields event state start along.1, fun after stepped =>
      ih (preserved event state after start along.1 stepped) (along.2 after stepped)⟩

/-- A run is along one condition as along another that says the same where an invariant holds. -/
theorem along_iff_of_invariant {cond other : Event → State → Prop} (inv : State → Prop)
    (preserved : ∀ event state after, inv state → next event state = .ok after → inv after)
    (agree : ∀ event state, inv state → (cond event state ↔ other event state)) {state : State}
    {events : List Event} (start : inv state) :
    Along next cond state events ↔ Along next other state events := by
  -- The invariant holds along the run whichever of the two is asked of it.
  constructor
  · intro along
    exact along.of_invariant inv
      (fun event state after holds _ => preserved event state after holds)
      (fun event state holds => (agree event state holds).mp) start
  · intro along
    exact along.of_invariant inv
      (fun event state after holds _ => preserved event state after holds)
      (fun event state holds => (agree event state holds).mpr) start

/-- A completed run is along one condition as along another that says the same of its steps. -/
theorem along_iff_of_run {cond other : Event → State → Prop} (inv : State → Prop)
    (agree : ∀ event state after, inv state → next event state = .ok after →
      (cond event state ↔ other event state))
    (preserved : ∀ event state after, inv state → cond event state →
      next event state = .ok after → inv after) {state final : State} {events : List Event}
    (start : inv state) (ran : run next state events = .ok final) :
    Along next cond state events ↔ Along next other state events := by
  induction events generalizing state with
  | nil => exact Iff.rfl
  | cons event rest ih =>
    obtain ⟨after, stepped, remaining⟩ := run_cons_inv ran
    have same := agree event state after start stepped
    constructor
    · intro along
      have later := ih (preserved event state after start along.1 stepped) remaining
      exact .cons (same.mp along.1) stepped (later.mp (along.2 after stepped))
    · intro along
      -- The conditions are the same here, so the invariant moves on from either.
      have asked := same.mpr along.1
      have later := ih (preserved event state after start asked stepped) remaining
      exact .cons asked stepped (later.mpr (along.2 after stepped))

/-- A run along a condition under which no step stops completes. -/
theorem Along.completes {cond : Event → State → Prop} (inv : State → Prop)
    (steps : ∀ event state, inv state → cond event state →
      ∃ after, next event state = .ok after ∧ inv after) {state : State} {events : List Event}
    (start : inv state) (along : Along next cond state events) :
    ∃ final, run next state events = .ok final ∧ inv final := by
  induction events generalizing state with
  | nil => exact ⟨state, rfl, start⟩
  | cons event rest ih =>
    obtain ⟨after, stepped, kept⟩ := steps event state start along.1
    obtain ⟨final, ran, holds⟩ := ih kept (along.2 after stepped)
    exact ⟨final, (run_cons_ok stepped rest).trans ran, holds⟩

/-- A run along a condition is one along every weaker condition. -/
theorem Along.mono {cond weaker : Event → State → Prop}
    (weakens : ∀ event state, cond event state → weaker event state) {state : State}
    {events : List Event} (along : Along next cond state events) :
    Along next weaker state events :=
  along.of_invariant (fun _ => True) (fun _ _ _ _ _ _ => trivial)
    (fun event state _ => weakens event state) trivial

/-- A run whose events all meet a condition is one along it, whatever states it goes through. -/
theorem along_of_forall {cond : Event → Prop} {events : List Event}
    (all : ∀ event ∈ events, cond event) (state : State) :
    Along next (fun event _ => cond event) state events := by
  induction events generalizing state with
  | nil => trivial
  | cons event rest ih =>
    exact ⟨all event List.mem_cons_self,
      fun after _ => ih (fun later member => all later (List.mem_cons_of_mem _ member)) after⟩

/-- A run along two conditions is one along both of them together. -/
theorem Along.and {cond other : Event → State → Prop} {state : State} {events : List Event}
    (one : Along next cond state events) (two : Along next other state events) :
    Along next (fun event state => cond event state ∧ other event state) state events := by
  induction events generalizing state with
  | nil => trivial
  | cons event rest ih =>
    exact ⟨⟨one.1, two.1⟩, fun after stepped => ih (one.2 after stepped) (two.2 after stepped)⟩

/-- A test of every state that a run takes a step from. -/
def testAlong (next : Event → State → Except Stop State) (test : State → Bool) :
    State → List Event → Bool
  | _, [] => true
  | state, event :: rest =>
    -- A step that stops ends the run, and no later one starts.
    test state && (next event state).toOption.all fun after => testAlong next test after rest

/-- What a test promises of a state is a condition that a run tested to succeed is along. -/
theorem along_of_testAlong {cond : State → Prop} (test : State → Bool)
    (sound : ∀ state, test state → cond state) {state : State} {events : List Event}
    (tested : testAlong next test state events) :
    Along next (fun _ state => cond state) state events := by
  induction events generalizing state with
  | nil => trivial
  | cons event rest ih =>
    obtain ⟨here, later⟩ := Bool.and_eq_true_iff.mp tested
    refine ⟨sound state here, fun after stepped => ih ?_⟩
    rw [stepped] at later
    exact later

/-- The first part of a run along a condition is a run along it too. -/
theorem Along.take {cond : Event → State → Prop} {first : State} {earlier later : List Event}
    (along : Along next cond first (earlier ++ later)) : Along next cond first earlier := by
  induction earlier generalizing first with
  | nil => trivial
  | cons event rest ih => exact ⟨along.1, fun after stepped => ih (along.2 after stepped)⟩

/-- What follows the first part of a run along a condition is a run along it too. -/
theorem Along.drop {cond : Event → State → Prop} {first middle : State}
    {earlier later : List Event} (along : Along next cond first (earlier ++ later))
    (ran : run next first earlier = .ok middle) : Along next cond middle later := by
  induction earlier generalizing first with
  | nil =>
    cases Except.ok.inj ran
    exact along
  | cons event rest ih =>
    -- The first step is the same in both, so the condition can be followed through it.
    obtain ⟨after, stepped, remaining⟩ := run_cons_inv ran
    exact ih (along.2 after stepped) remaining

/-- A run in which nothing is asked of the steps is a run along the trivial condition. -/
theorem along_true (state : State) (events : List Event) :
    Along next (fun _ _ => True) state events :=
  along_of_forall (fun _ _ => trivial) state

/-- A property that every step preserves holds after every run. -/
theorem run_induction (inv : State → Prop)
    (preserved : ∀ event state after, inv state → next event state = .ok after → inv after)
    {state final : State} {events : List Event} (start : inv state)
    (ran : run next state events = .ok final) : inv final :=
  run_induction_along inv (fun event state after holds _ => preserved event state after holds)
    start (along_true state events) ran

/--
A fact that no step of a run takes back holds after the run if it held before or some step set it.

What a step sets may depend on an invariant of the states it starts from.
-/
theorem run_latched {cond : Event → State → Prop} {inv holds : State → Prop}
    {sets : Event → State → Prop}
    (preserved : ∀ event state after, inv state → next event state = .ok after → inv after)
    (latch : ∀ event state after, inv state → cond event state → next event state = .ok after →
      (holds after ↔ holds state ∨ sets event state))
    {first final : State} {events : List Event} (start : inv first)
    (along : Along next cond first events) (ran : run next first events = .ok final) :
    holds final ↔ holds first ∨ ∃ earlier event later middle, events = earlier ++ event :: later ∧
      run next first earlier = .ok middle ∧ sets event middle := by
  induction events generalizing first with
  | nil =>
    cases Except.ok.inj ran
    refine ⟨.inl, fun before => before.elim id ?_⟩
    rintro ⟨earlier, event, later, _, split, _⟩
    simp at split
  | cons event rest ih =>
    obtain ⟨after, stepped, remaining⟩ := run_cons_inv ran
    have step := latch event first after start along.1 stepped
    rw [ih (preserved event first after start stepped) (along.2 after stepped) remaining, step,
      or_assoc]
    refine or_congr_right ⟨?_, ?_⟩
    · -- The step that set the fact is the first one, or it comes later.
      rintro (now | ⟨earlier, event', later, middle, rfl, reached, set⟩)
      · exact ⟨[], event, rest, first, rfl, rfl, now⟩
      · exact ⟨event :: earlier, event', later, middle, rfl,
          (run_cons_ok stepped earlier).trans reached, set⟩
    · rintro ⟨earlier, event', later, middle, split, reached, set⟩
      cases earlier with
      | nil =>
        cases split
        cases Except.ok.inj reached
        exact .inl set
      | cons head earlier =>
        cases split
        rw [run_cons_ok stepped] at reached
        exact .inr ⟨earlier, event', later, middle, rfl, reached, set⟩

/-- A property of the starting states that every step preserves holds of every reachable state. -/
theorem reachable_induction {start : State → Prop} (inv : State → Prop)
    (initially : ∀ state, start state → inv state)
    (preserved : ∀ event state after, inv state → next event state = .ok after → inv after)
    {state : State} (reached : Reachable next start state) : inv state := by
  obtain ⟨first, events, started, ran⟩ := reached
  exact run_induction inv preserved (initially first started) ran

/-- One more step from a reachable state reaches another one. -/
theorem Reachable.step {start : State → Prop} {state after : State} {event : Event}
    (reached : Reachable next start state) (stepped : next event state = .ok after) :
    Reachable next start after := by
  -- The event is put after those that reached the state.
  obtain ⟨first, events, started, ran⟩ := reached
  exact ⟨first, events ++ [event], started, by rw [run_append ran, run_cons_ok stepped, run_nil]⟩

end Runs
