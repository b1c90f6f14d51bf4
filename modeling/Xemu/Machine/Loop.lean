import Xemu.Machine.Outcome

/-! The loop of `main` one call at a time, which shows the states inside a turn. -/

namespace Xemu

/-- Where `main` stands in its loop: before the interrupt check, the fetch, or the decoding. -/
inductive Point where
  | poll
  | fetch
  | perform (inst : BitVec 32)

/-- The emulator between two calls of the loop. -/
structure Loop where
  point : Point
  machine : Machine

namespace Loop

/-- One part of a turn of the loop of `main`: the interrupt check, the fetch, or the instruction. -/
def advance (host : Host) (loop : Loop) : Except Stop Loop :=
  let m := loop.machine
  match loop.point with
  | .poll => do
    if m.hart.pc < 0x1000 then throw (.panic "main: bad pc 0x%lx\n")
    let (nextPc, m) ← m.handleInterrupt m.hart.pc
    -- A check that returns an address starts the next turn there.
    if nextPc ≠ 0 then return ⟨.poll, m.setPc nextPc⟩
    return ⟨.fetch, m⟩
  | .fetch => do
    let (nextPc, inst, m) ← m.fetch host
    if nextPc ≠ 0 then return ⟨.poll, m.setPc nextPc⟩
    return ⟨.perform inst, m⟩
  | .perform inst => return ⟨.poll, ← m.perform host inst⟩

/-- The effect of one event, where the threads of the devices may run inside a turn too. -/
def next (event : Event) (loop : Loop) : Except Stop Loop :=
  match event with
  | .hart host => loop.advance host
  | event => return ⟨loop.point, ← loop.machine.next event⟩

/-- A step of a device's thread leaves the loop where it stands. -/
theorem next_device {event : Event} (device : ∀ host, event ≠ .hart host) (loop : Loop) :
    next event loop = (do return ⟨loop.point, ← loop.machine.next event⟩) := by
  cases event with
  | hart host => exact absurd rfl (device host)
  | timer _ | input _ | blkTake | blkServe _ => rfl

section Parts

variable {host : Host} {m after : Machine} {vector : BitVec 64} {inst : BitVec 32}

/-- The interrupt check that starts a turn is not reached below the ROM. -/
theorem above_of_poll {loop : Loop} (polled : advance host ⟨.poll, m⟩ = .ok loop) :
    ¬ m.hart.pc < 0x1000 := by
  intro below
  dsimp only [advance] at polled
  rw [if_pos below] at polled
  cases polled

/-- An interrupt check that completes ends the turn at the address it returns, or returns zero. -/
theorem next_poll (above : ¬ m.hart.pc < 0x1000)
    (handled : m.handleInterrupt m.hart.pc = .ok (vector, after)) :
    next (.hart host) ⟨.poll, m⟩ =
      .ok (if vector ≠ 0 then ⟨.poll, after.setPc vector⟩ else ⟨.fetch, after⟩) := by
  simp only [next, advance, if_neg above, handled, ok_bind, pure_eq_ok]
  split <;> rfl

/-- So does a fetch, which otherwise hands on the word it read. -/
theorem next_fetch (fetched : m.fetch host = .ok (vector, inst, after)) :
    next (.hart host) ⟨.fetch, m⟩ =
      .ok (if vector ≠ 0 then ⟨.poll, after.setPc vector⟩ else ⟨.perform inst, after⟩) := by
  simp only [next, advance, fetched, ok_bind, pure_eq_ok]
  split <;> rfl

/-- An instruction that completes ends the turn. -/
theorem next_perform (performed : m.perform host inst = .ok after) :
    next (.hart host) ⟨.perform inst, m⟩ = .ok ⟨.poll, after⟩ := by
  simp only [next, advance, performed, ok_bind, pure_eq_ok]

/-- A whole turn is one, two or three of its parts. -/
theorem run_turn (stepped : m.step host = .ok after) :
    ∃ parts, Runs.run next ⟨.poll, m⟩ parts = .ok ⟨.poll, after⟩ := by
  have above := step_above stepped
  rw [Machine.step, if_neg above] at stepped
  obtain ⟨⟨vector, polled⟩, handled, rest⟩ := bind_eq_ok.mp stepped
  have poll : next (.hart host) _ = _ := next_poll above handled
  by_cases zero : vector ≠ 0
  · simp only [if_pos zero, pure_eq_ok, Except.ok.injEq] at rest poll
    exact ⟨[.hart host], by rw [Runs.run_cons_ok poll, rest, Runs.run_nil]⟩
  · simp only [if_neg zero] at rest poll
    obtain ⟨⟨vector, inst, ready⟩, fetched, rest⟩ := bind_eq_ok.mp rest
    have fetch := next_fetch fetched
    by_cases zero : vector ≠ 0
    · -- The fetch raised a fault, and the turn ended in its handler.
      simp only [if_pos zero, pure_eq_ok, Except.ok.injEq] at rest fetch
      exact ⟨[.hart host, .hart host], by
        rw [Runs.run_cons_ok poll, Runs.run_cons_ok fetch, rest, Runs.run_nil]⟩
    · simp only [if_neg zero] at rest fetch
      have perform := next_perform rest
      exact ⟨[.hart host, .hart host, .hart host], by
        rw [Runs.run_cons_ok poll, Runs.run_cons_ok fetch, Runs.run_cons_ok perform, Runs.run_nil]⟩

end Parts

/-- A run turn by turn is one part by part, so what holds of every such run holds of it. -/
theorem run_turns {m after : Machine} {events : List Event}
    (ran : Runs.run Machine.next m events = .ok after) :
    ∃ parts, Runs.run next ⟨.poll, m⟩ parts = .ok ⟨.poll, after⟩ := by
  induction events generalizing m with
  | nil =>
    cases Except.ok.inj ran
    exact ⟨[], rfl⟩
  | cons event rest ih =>
    obtain ⟨middle, stepped, remaining⟩ := Runs.run_cons_inv ran
    obtain ⟨later, finished⟩ := ih remaining
    -- A turn is split into its parts, and a step of a device stays one step.
    suffices ∃ parts, Runs.run next ⟨.poll, m⟩ parts = .ok ⟨.poll, middle⟩ by
      obtain ⟨parts, reached⟩ := this
      exact ⟨parts ++ later, by rw [Runs.run_append reached, finished]⟩
    by_cases turn : ∃ host, event = .hart host
    · obtain ⟨host, rfl⟩ := turn
      exact run_turn stepped
    · have moved := next_device (not_exists.mp turn) ⟨.poll, m⟩
      rw [stepped] at moved
      exact ⟨[event], Runs.run_cons_ok moved []⟩

end Loop

end Xemu
