import Xemu.Machine.Outcome

/-! Machines that run a short program from the ROM, for following single runs of the emulator. -/

namespace Xemu

/-- A ROM that holds a list of instruction words. -/
def romOf (words : List (BitVec 32)) : Buffer :=
  { bytes := fun addr => (words.getD (addr.toNat / 4) 0 >>> (8 * (addr.toNat % 4))).setWidth 8
    size := 4 * words.length }

/-- The machine as it enters the main loop with a program in its ROM and nothing on its disk. -/
def Machine.boot (words : List (BitVec 32)) : Machine :=
  Machine.reset (romOf words) (.zeroed 0x100) (.zeroed 0)

/-- So many turns of the main loop, with no step of a device in between. -/
def turns (count : Nat) : List Event := List.replicate count (.hart {})

/-- A test that succeeds on the last two states of a run holds of a reached state and its step. -/
theorem reached_step_of_test (words : List (BitVec 32)) (count : Nat)
    (test : Machine → Machine → Bool)
    (tested : (Runs.run Machine.next (Machine.boot words) (turns count) >>= fun m =>
      (m.step {}).map (test m)) = .ok true) :
    ∃ m after, Runs.run Machine.next (Machine.boot words) (turns count) = .ok m ∧ m.Reached ∧
      m.step {} = .ok after ∧ test m after := by
  obtain ⟨m, ran, last⟩ := bind_eq_ok.mp tested
  have reached : m.Reached := ⟨_, _, ⟨_, _, _, rfl⟩, ran⟩
  -- The test ran on the step, so the step did not stop.
  cases stepped : m.step {} with
  | error stop =>
    rw [stepped] at last
    cases last
  | ok after =>
    rw [stepped] at last
    exact ⟨m, after, ran, reached, stepped, Except.ok.inj last⟩

/-- The state and the instruction a turn takes to `execute`, or nothing when it takes a trap. -/
def Machine.findReady (host : Host) (m : Machine) :
    Except Stop (Option (Machine × BitVec 64 × Decoded)) := do
  let (vector, polled) ← m.handleInterrupt m.hart.pc
  if vector ≠ 0 then return none
  let (vector, inst, ready) ← polled.fetch host
  if vector ≠ 0 then return none
  let (nextPc, d) ← decode ready.hart.pc inst
  return some (ready, nextPc, d)

/-- A turn is ready for an instruction exactly when that is what the function finds. -/
theorem Machine.findReady_eq_some {host : Host} {m ready : Machine} {nextPc : BitVec 64}
    {d : Decoded} :
    m.findReady host = .ok (some (ready, nextPc, d)) ↔ m.Ready host ready nextPc d := by
  constructor
  -- Neither an interrupt nor a fault came in between, as there is an instruction.
  · intro found
    obtain ⟨⟨vector, polled⟩, handled, rest⟩ := bind_eq_ok.mp found
    by_cases zero : vector = 0
    · subst zero
      obtain ⟨⟨vector, inst, fetched⟩, read, rest⟩ := bind_eq_ok.mp rest
      by_cases zero : vector = 0
      · subst zero
        obtain ⟨⟨next, decoded⟩, decodes, result⟩ := bind_eq_ok.mp rest
        cases Except.ok.inj result
        exact ⟨polled, inst, handled, read, decodes⟩
      · simp only [ne_eq, zero, not_false_eq_true, if_true, pure_eq_ok, Except.ok.injEq,
          reduceCtorEq] at rest
    · simp only [ne_eq, zero, not_false_eq_true, if_true, pure_eq_ok, Except.ok.injEq,
          reduceCtorEq] at rest
  · rintro ⟨polled, inst, handled, fetched, decoded⟩
    simp [Machine.findReady, handled, fetched, decoded]

/-- A test of that instruction that succeeds is one of an instruction a turn is ready for. -/
theorem Machine.ready_of_test {host : Host} {m : Machine}
    {test : Machine × BitVec 64 × Decoded → Bool}
    (tested : (m.findReady host).toOption.join.any test) :
    ∃ ready nextPc d, m.Ready host ready nextPc d ∧ test (ready, nextPc, d) := by
  -- A test that succeeds was given an instruction.
  cases found : m.findReady host with
  | error stop =>
    rw [found] at tested
    cases tested
  | ok reaches =>
    rw [found] at tested
    obtain _ | ⟨ready, nextPc, d⟩ := reaches
    · cases tested
    · exact ⟨ready, nextPc, d, Machine.findReady_eq_some.mp found, tested⟩

/-- A test of whatever instruction there is holds of the one that a turn is ready for. -/
theorem Machine.Ready.passes {host : Host} {m ready : Machine} {nextPc : BitVec 64} {d : Decoded}
    {test : Machine × BitVec 64 × Decoded → Bool} (started : m.Ready host ready nextPc d)
    (tested : (m.findReady host).toOption.join.all test) : test (ready, nextPc, d) := by
  rw [Machine.findReady_eq_some.mpr started] at tested
  exact tested

/-- A test of every state that one of so many turns starts in. -/
def testTurns (test : Machine → Bool) : Nat → Machine → Bool
  | 0, _ => true
  | count + 1, m =>
    -- A turn that stops ends the run, and no later one starts.
    test m && (m.step {}).toOption.all (testTurns test count)

/-- What a test promises of a state is a condition that turns tested to succeed run along. -/
theorem along_of_test {cond : Event → Machine → Prop} (test : Machine → Bool)
    (sound : ∀ m, test m → cond (.hart {}) m) {count : Nat} {m : Machine}
    (tested : testTurns test count m) : Runs.Along Machine.next cond m (turns count) := by
  -- The induction is on the turns that are left, from whatever state they start.
  induction count generalizing m with
  | zero => trivial
  | succ count ih =>
    obtain ⟨here, later⟩ := Bool.and_eq_true_iff.mp tested
    refine ⟨sound m here, fun after stepped => ih ?_⟩
    have turned : m.step {} = .ok after := stepped
    rw [turned] at later
    exact later

/-- What comes before one of so many turns is fewer turns. -/
theorem turns_split {count : Nat} {host : Host} {earlier between : List Event}
    (split : turns count = earlier ++ .hart host :: between) :
    earlier.length < count ∧ earlier = turns earlier.length ∧ host = {} := by
  obtain ⟨total, first, rest⟩ := List.replicate_eq_append_iff.mp split
  rw [List.length_cons] at total
  have turn : Event.hart host = .hart {} := List.eq_of_mem_replicate (rest ▸ List.mem_cons_self)
  exact ⟨by omega, first, Event.hart.inj turn⟩

end Xemu
