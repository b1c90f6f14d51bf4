import Xemu.Hart.Trap

/-! The core-local interruptor: a software line, a timer line, and the thread that raises it. -/

namespace Xemu

/-- The state of `clint.c`: its two lines, the fields of `clint_t`, and where its thread waits. -/
structure Clint where
  /-- The line `_software_intr`. -/
  softwareIntr : Bool := false
  /-- The line `_timer_intr`. -/
  timerIntr : Bool := false
  /-- The field `timer_running`. -/
  timerRunning : Bool := false
  /-- The field `mtimecmp`. -/
  mtimecmp : BitVec 64 := 0
  /-- Whether the thread has left its first wait loop and waits for the deadline. -/
  armed : Bool := false
  deriving DecidableEq, Repr

namespace Clint

/-- The function `clint_interrupt`. -/
def interrupt (clint : Clint) : IntrType :=
  -- The timer is asked first and hides the software line while it is due.
  if clint.timerIntr then .timer
  else if clint.softwareIntr then .software
  else .none

/-- The function `clint_read`, which implements no register. -/
def read (_ : BitVec 64) : Except Stop (BitVec 64) :=
  .error (.panic "clint_read: need to be implemented! [0x%lx]: (%u)\n")

/-- The function `clint_write`. -/
def write (host : Host) (clint : Clint) (addr data : BitVec 64) : Except Stop Clint :=
  if addr = 0x0000 then .ok { clint with softwareIntr := data != 0 }
  else if addr = 0x4000 then
    -- A deadline that has passed fires at once and leaves the thread waiting as it was.
    if cpuReadRtc host > data then .ok { clint with timerIntr := true, mtimecmp := data }
    else .ok { clint with timerIntr := false, mtimecmp := data, timerRunning := true }
  else .error (.panic "clint_write: need to be implemented! [0x%lx]: 0x%lx (%u)\n")

/-- One critical section of the thread `_routine`, from waking up to waiting or firing. -/
def routine (host : Host) (clint : Clint) : Clint :=
  -- Once past the first loop the thread looks at the deadline only.
  if !clint.armed && !clint.timerRunning then clint
  -- Before the deadline the thread goes on waiting for it, and after it the line is raised.
  else if cpuReadRtc host < clint.mtimecmp then { clint with armed := true }
  else { clint with timerIntr := true, timerRunning := false, armed := false }

end Clint

end Xemu
