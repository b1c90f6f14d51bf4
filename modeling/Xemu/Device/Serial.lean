import Xemu.Device.UartSteps

/-! The serial port with its interrupt controller, and what happens to it one event after another. -/

namespace Xemu

/-- The serial port, the interrupt controller, and the bytes that went in and came out so far. -/
structure Serial where
  uart : Uart
  plic : Plic := {}
  /-- What `getch` returned to the reader thread, in order. -/
  arrived : List (BitVec 8) := []
  /-- What the guest read from the receive buffer while the status said it was full, in order. -/
  taken : List (BitVec 8) := []

/-- What happens to the serial port next, each access and each turn of the thread as a whole. -/
inductive SerialEvent where
  /-- The host has a byte for the reader thread. -/
  | input (byte : BitVec 8)
  /-- The guest reads a register. -/
  | read (addr : BitVec 64)
  /-- The guest writes a register. -/
  | write (addr data : BitVec 64) (size : Nat)
  /-- The rest of the machine does something to the interrupt controller. -/
  | other (plic : Plic)

namespace Serial

/-- The port as `main` sets it up. -/
def initial : Serial := { uart := .init 0xa }

/-- The status says that the receive buffer is full. -/
def ready (serial : Serial) : Bool := serial.uart.lsr &&& Uart.lsrDr != 0

/-- The effect of one event. -/
def next (event : SerialEvent) (serial : Serial) : Except Stop Serial :=
  match event with
  | .input byte => do
    let (uart, plic) ← serial.uart.routine serial.plic byte
    -- A thread that has left its loop asks the host for no byte.
    let arrived := if serial.uart.reading then serial.arrived ++ [byte] else serial.arrived
    return { serial with uart, plic, arrived }
  | .read addr => do
    let (data, uart, plic) ← serial.uart.read serial.plic addr
    let taken := if addr = 0 && serial.ready then serial.taken ++ [data.setWidth 8]
      else serial.taken
    return { serial with uart, plic, taken }
  | .write addr data size => do
    let (uart, plic) ← serial.uart.write serial.plic addr data size
    return { serial with uart, plic }
  | .other plic => .ok { serial with plic }

end Serial

end Xemu
