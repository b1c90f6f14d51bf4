import Xemu.Lib.Runs
import Xemu.Device.Clint

/-! The timer line never rises early, and no deadline is lost between the guest and the thread. -/

namespace Xemu

/-! ### The clock -/

/-- The real-time counter is the clock in its own unit, and no bit of it is lost. -/
theorem toNat_cpuReadRtc (host : Host) :
    (cpuReadRtc host).toNat = host.clock.toNat * 10000000 / 1000000000 := by
  have bound := host.clock.isLt
  -- The product of a doubleword and a constant below 2^24 fits in 128 bits.
  have product : host.clock.toNat * 10000000 < 2 ^ 128 := by omega
  have widened : host.clock.toNat < 2 ^ 128 := by omega
  -- The quotient is no larger than the clock itself.
  have quotient : host.clock.toNat * 10000000 / 1000000000 < 2 ^ 64 := by omega
  have frequency : ((10000000 : BitVec 32).setWidth 128).toNat = 10000000 := rfl
  have second : ((1000000000 : BitVec 32).setWidth 128).toNat = 1000000000 := rfl
  rw [cpuReadRtc, muldiv64, BitVec.toNat_setWidth, BitVec.toNat_udiv, BitVec.toNat_mul, frequency,
    second, BitVec.toNat_setWidth, Nat.mod_eq_of_lt widened, Nat.mod_eq_of_lt product,
    Nat.mod_eq_of_lt quotient]

/-- A later clock gives a later reading of the counter. -/
theorem cpuReadRtc_mono {earlier later : Host} (passed : earlier.clock ≤ later.clock) :
    cpuReadRtc earlier ≤ cpuReadRtc later := by
  rw [BitVec.le_def, toNat_cpuReadRtc, toNat_cpuReadRtc]
  exact Nat.div_le_div_right (Nat.mul_le_mul_right _ passed)

/-! ### The guest and the thread -/

/-- The interruptor, the clock, and whether the guest has programmed a deadline yet. -/
structure Timer where
  clint : Clint := {}
  clock : BitVec 64 := 0
  written : Bool := false

/-- What happens to the timer next: a critical section of one of the two threads, or time passes. -/
inductive TimerEvent where
  /-- The guest stores to a register of the interruptor. -/
  | store (addr data : BitVec 64)
  /-- The thread `_routine` wakes up and runs until it waits again or has fired. -/
  | wake
  /-- The clock moves on. -/
  | tick (clock : BitVec 64)

namespace Timer

/-- What a critical section takes from the host: the clock as it stands. -/
def host (timer : Timer) : Host := { clock := timer.clock }

/-- The effect of one event. -/
def next (event : TimerEvent) (timer : Timer) : Except Stop Timer :=
  match event with
  | .store addr data => do
    let clint ← timer.clint.write timer.host addr data
    return { timer with clint, written := timer.written || addr = 0x4000 }
  | .wake => .ok { timer with clint := timer.clint.routine timer.host }
  | .tick clock => .ok { timer with clock }

/-- The clock never goes back. -/
def Monotone (event : TimerEvent) (timer : Timer) : Prop :=
  match event with
  | .tick clock => timer.clock ≤ clock
  | _ => True

/-- What holds of the two flags and the deadline whenever nobody holds the mutex. -/
structure Consistent (timer : Timer) : Prop where
  /-- The line is raised only after the deadline. -/
  due : timer.clint.timerIntr → timer.clint.mtimecmp ≤ cpuReadRtc timer.host
  /-- A deadline that was programmed has fired or is being waited for. -/
  kept : timer.written → timer.clint.timerIntr ∨ timer.clint.timerRunning

/-- A store of the guest leaves the flags consistent with the deadline it programs. -/
theorem Consistent.store {timer after : Timer} {addr data : BitVec 64}
    (before : timer.Consistent) (stored : next (.store addr data) timer = .ok after) :
    after.Consistent := by
  obtain ⟨clint, wrote, result⟩ := bind_eq_ok.mp stored
  cases Except.ok.inj result
  unfold Clint.write at wrote
  split at wrote
  · -- The software line has nothing to do with the timer.
    cases Except.ok.inj wrote
    rename_i software
    refine ⟨before.due, fun programmed => before.kept ?_⟩
    subst software
    simpa using programmed
  · split at wrote
    · split at wrote
      · -- A deadline in the past raises the line at once.
        cases Except.ok.inj wrote
        rename_i passed
        exact ⟨fun _ => BitVec.le_of_lt passed, fun _ => .inl rfl⟩
      · -- Any other is handed to the thread, with the line down.
        cases Except.ok.inj wrote
        exact ⟨fun raised => absurd raised Bool.false_ne_true, fun _ => .inr rfl⟩
    · cases wrote

/-- A critical section of the thread raises the line only when the deadline has passed. -/
theorem Consistent.wake {timer after : Timer} (before : timer.Consistent)
    (woke : next .wake timer = .ok after) : after.Consistent := by
  cases Except.ok.inj woke
  unfold Clint.routine
  split
  · -- In its first loop the thread goes back to sleep.
    exact ⟨before.due, before.kept⟩
  · split
    · -- Before the deadline it goes on waiting, and touches neither flag.
      exact ⟨before.due, before.kept⟩
    · rename_i passed
      exact ⟨fun _ => BitVec.not_lt.mp passed, fun _ => .inl rfl⟩

/-- Time that passes makes no deadline a future one. -/
theorem Consistent.tick {timer after : Timer} {clock : BitVec 64} (before : timer.Consistent)
    (forward : timer.clock ≤ clock) (ticked : next (.tick clock) timer = .ok after) :
    after.Consistent := by
  cases Except.ok.inj ticked
  exact ⟨fun raised => BitVec.le_trans (before.due raised)
    (@cpuReadRtc_mono timer.host { clock } forward), before.kept⟩

/-- Every event keeps the flags consistent with the deadline. -/
theorem Consistent.next {event : TimerEvent} {timer after : Timer} (before : timer.Consistent)
    (forward : Monotone event timer) (stepped : Timer.next event timer = .ok after) :
    after.Consistent := by
  cases event with
  | store addr data => exact before.store stepped
  | wake => exact before.wake stepped
  | tick clock => exact before.tick forward stepped

/-- Once the deadline has passed, the line is up when the thread has woken the next time. -/
theorem Consistent.fires {timer : Timer} (consistent : timer.Consistent)
    (programmed : timer.written) (passed : timer.clint.mtimecmp ≤ cpuReadRtc timer.host) :
    (timer.clint.routine timer.host).timerIntr := by
  unfold Clint.routine
  split
  · -- A thread in its first loop finds nothing to wait for, so the line is up already.
    rename_i idle
    rcases consistent.kept programmed with raised | running
    · exact raised
    · simp [running] at idle
  · rw [if_neg (BitVec.not_lt.mpr passed)]

end Timer

/--
In every run along a monotone clock, the timer line and its thread agree with the deadline.

The line is up only once the deadline has been reached, and from the first programming on it is up or
the thread is running, so that the thread's next turn after the deadline finds or raises it.
-/
theorem timer_consistent {clock : BitVec 64} {events : List TimerEvent} {final : Timer}
    (forward : Runs.Along Timer.next Timer.Monotone { clock } events)
    (ran : Runs.run Timer.next { clock } events = .ok final) :
    (final.clint.timerIntr → final.clint.mtimecmp ≤ cpuReadRtc final.host) ∧
      (final.written → final.clint.timerIntr ∨ final.clint.timerRunning) ∧
      (final.written → final.clint.mtimecmp ≤ cpuReadRtc final.host →
        (final.clint.routine final.host).timerIntr) := by
  -- At the start the line is down and nothing has been programmed.
  have begins : Timer.Consistent { clock } :=
    ⟨fun raised => absurd raised Bool.false_ne_true,
      fun programmed => absurd programmed Bool.false_ne_true⟩
  have holds : final.Consistent :=
    Runs.run_induction_along Timer.Consistent
      (fun _ _ _ before asked stepped => before.next asked stepped) begins forward ran
  exact ⟨holds.due, holds.kept, holds.fires⟩

/-- A deadline is moved forwards while the thread waits for it, then reached, and fires. -/
theorem timer_consistent_moved :
    ∃ final, Runs.run Timer.next { clock := 500 } [.store 0x4000 10, .wake, .store 0x4000 20,
      .tick 1500, .wake, .tick 2000, .wake] = .ok final ∧
      final.clint.timerIntr ∧ final.clint.mtimecmp ≤ cpuReadRtc final.host := by
  -- The clock is asked at the two ticks, where it goes on from 500 to 1500 and to 2000.
  have forward : Runs.Along Timer.next Timer.Monotone { clock := 500 } [.store 0x4000 10, .wake,
      .store 0x4000 20, .tick 1500, .wake, .tick 2000, .wake] :=
    .cons trivial rfl (.cons trivial rfl (.cons trivial rfl
      (.cons (show (500#64) ≤ 1500 by decide) rfl (.cons trivial rfl
        (.cons (show (1500#64) ≤ 2000 by decide) rfl (.cons trivial rfl trivial))))))
  exact ⟨⟨⟨false, true, false, 20, false⟩, 2000, true⟩, rfl, rfl,
    (timer_consistent forward rfl).1 rfl⟩

end Xemu
