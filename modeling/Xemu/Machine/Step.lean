import Xemu.Lib.Runs
import Xemu.Machine.Execute

/-! The main loop: the interrupt check, the fetch, one instruction, and the device threads. -/

namespace Xemu

/-! ### Interrupts -/

/-- The part of `handle_interrupt` that follows once the pending class is known. -/
def Hart.takeInterrupt (hart : Hart) (pc : BitVec 64) (type : IntrType) : BitVec 64 × Hart :=
  let nextPriv := intrNextPriv hart type
  if nextPriv = sMode then
    -- The global bit of the target is tested in whatever mode the hart is.
    if bit (hart.csr sstatus) bitSiePos ≠ 0 ∧ hart.csr sie &&& intrBitFlag type sMode ≠ 0 then
      let hart := hart.setCsr sip (hart.csr sip ||| intrBitFlag type sMode)
      trapEnter hart pc nextPriv (intrCause type nextPriv) 0
    else (0, hart)
  else
    if bit (hart.csr mstatus) bitMiePos ≠ 0 ∧ hart.csr mie &&& intrBitFlag type mMode ≠ 0 then
      let hart := hart.setCsr mip (hart.csr mip ||| intrBitFlag type mMode)
      trapEnter hart pc nextPriv (intrCause type nextPriv) 0
    else (0, hart)

namespace Machine

/-- The part of `handle_interrupt` that finds the pending class, polling the two controllers. -/
def pendingType (m : Machine) : Except Stop (IntrType × Machine) := do
  let (eid, plic) ← m.bus.plic.interrupt (intrNextPriv m.hart .external = sMode)
  let m := { m with bus.plic := plic }
  -- The local interruptor is asked only when the platform one has nothing.
  return (if eid ≠ 0 then .external else m.bus.clint.interrupt, m)

/-- The function `handle_interrupt`, which returns zero where it takes no trap. -/
def handleInterrupt (m : Machine) (pc : BitVec 64) : Except Stop (BitVec 64 × Machine) := do
  let (type, m) ← m.pendingType
  -- With nothing pending the turn goes on.
  if type = .none then return (0, m)
  let (retPc, hart) := m.hart.takeInterrupt pc type
  return (retPc, { m with hart })

/-! ### Fetch -/

/-- The call of `raise_except` in `fetch`, with the instruction word `main` started from. -/
def fetchFault (m : Machine) (tval : BitVec 64) : BitVec 64 × BitVec 32 × Machine :=
  let (retPc, hart) := raiseExcept m.hart m.hart.pc causeInstPageFault tval
  (retPc, 0, { m with hart })

/-- The function `fetch`: zero or the handler's address, the instruction word, and the machine. -/
def fetch (host : Host) (m : Machine) : Except Stop (BitVec 64 × BitVec 32 × Machine) := do
  let pc := m.hart.pc
  if (pc + 2) &&& 0xFFF ≠ 0 then
    let (inst, bus) ← m.asRead host pc 4 .none
    let m := { m with bus }
    match inst with
    | none => return m.fetchFault pc
    | some inst => return (0, inst.setWidth 32, m)
  else
    -- Only an instruction that starts two bytes before the end of a page is read in halves.
    let (lo, bus) ← m.asRead host pc 2 .none
    let m := { m with bus }
    match lo with
    | none => return m.fetchFault pc
    | some lo =>
      let (hi, bus) ← m.asRead host (pc + 2) 2 .none
      let m := { m with bus }
      match hi with
      | none => return m.fetchFault (pc + 2)
      | some hi => return (0, (hi.setWidth 32 <<< 16) ||| lo.setWidth 32, m)

/-! ### One turn of the loop -/

/-- An assignment to the global `_pc`. -/
def setPc (m : Machine) (pc : BitVec 64) : Machine := { m with hart.pc := pc }

/-- The part of the loop after a fetch that returned zero: decode and execute. -/
def perform (host : Host) (m : Machine) (inst : BitVec 32) : Except Stop Machine := do
  let (nextPc, d) ← decode m.hart.pc inst
  let (retPc, m) ← execute host m m.hart.pc nextPc d
  return m.setPc retPc

/-- One turn of the loop of `main`. -/
def step (host : Host) (m : Machine) : Except Stop Machine := do
  -- The loop refuses an address below the ROM.
  if m.hart.pc < 0x1000 then throw (.panic "main: bad pc 0x%lx\n")
  let (nextPc, m) ← m.handleInterrupt m.hart.pc
  -- A handler at address zero looks like no interrupt, and the turn goes on inside the trap.
  if nextPc ≠ 0 then return m.setPc nextPc
  let (nextPc, inst, m) ← m.fetch host
  if nextPc ≠ 0 then return m.setPc nextPc
  m.perform host inst

end Machine

/-! ### Runs -/

/-- What happens next in the emulator: a turn of the main loop, or a step of a device's thread. -/
inductive Event where
  /-- One turn of the loop of `main`. -/
  | hart (host : Host)
  /-- The thread of the local interruptor wakes up. -/
  | timer (host : Host)
  /-- The thread of the serial port receives a byte. -/
  | input (byte : BitVec 8)
  /-- The thread of the block device takes the request it was handed. -/
  | blkTake
  /-- The thread of the block device serves the request it took. -/
  | blkServe (host : Host)

namespace Machine

/-- The effect of one event. -/
def next (event : Event) (m : Machine) : Except Stop Machine :=
  match event with
  | .hart host => m.step host
  | .timer host => .ok { m with bus.clint := m.bus.clint.routine host }
  | .input byte => do
    let (uart, plic) ← m.bus.uart.routine m.bus.plic byte
    return { m with bus.uart := uart, bus.plic := plic }
  | .blkTake => .ok { m with bus := m.bus.workerTake }
  | .blkServe host => do
    let bus ← m.bus.workerServe host (Bus.nestedWriter host host.fuel)
    return { m with bus }

/-- The states of all runs from the state in which `main` enters its loop. -/
def Reached (m : Machine) : Prop := Runs.Reachable next IsReset m

end Machine

end Xemu
