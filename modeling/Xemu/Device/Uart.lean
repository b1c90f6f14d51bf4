import Xemu.Device.Plic

/-! The serial port: its register file, its interrupt identification, and its reader thread. -/

namespace Xemu

/-- The fields of `uart_t`, the bytes printed so far, and whether the reader thread still runs. -/
structure Uart where
  irqNum : BitVec 32
  rbr : BitVec 8 := 0
  ier : BitVec 8 := 0
  iir : BitVec 8 := 0
  lcr : BitVec 8 := 0
  mcr : BitVec 8 := 0
  lsr : BitVec 8 := 0
  msr : BitVec 8 := 0
  scr : BitVec 8 := 0
  divider : BitVec 16 := 0
  thrPending : Bool := false
  /-- What `putchar` was called with, the latest byte first. -/
  printed : List (BitVec 8) := []
  /-- Whether `_routine` has not yet been left. -/
  reading : Bool := true
  deriving DecidableEq, Repr

namespace Uart

def lsrTemt : BitVec 8 := 0x40
def lsrThre : BitVec 8 := 0x20
def lsrBi : BitVec 8 := 0x10
def lsrDr : BitVec 8 := 0x01
def lcrDlab : BitVec 8 := 0x80
def ierMsi : BitVec 8 := 0x08
def ierRlsi : BitVec 8 := 0x04
def ierThri : BitVec 8 := 0x02
def ierRdi : BitVec 8 := 0x01
def iirMsi : BitVec 8 := 0x00
def iirThri : BitVec 8 := 0x02
def iirRdi : BitVec 8 := 0x04
def iirRlsi : BitVec 8 := 0x06
def iirNoInt : BitVec 8 := 0x01
def iirId : BitVec 8 := 0x06

/-- The state `uart_init` leaves. -/
def init (irqNum : BitVec 32) : Uart := { irqNum, lsr := lsrThre ||| lsrTemt }

/-- The signal sent at the end of a register access unless no interrupt is identified. -/
def signalUnlessNone (uart : Uart) (plic : Plic) : Except Stop Plic :=
  if uart.iir ≠ iirNoInt then plic.signal uart.irqNum else .ok plic

/-- The function `uart_read`. -/
def read (uart : Uart) (plic : Plic) (addr : BitVec 64) :
    Except Stop (BitVec 64 × Uart × Plic) :=
  match addr.toNat with
  | 0 => do
    let uart := { uart with lsr := uart.lsr &&& ~~~(lsrDr ||| lsrBi) }
    -- Taking the byte leaves only the transmitter to be reported.
    let uart := { uart with iir := if uart.ier &&& ierThri ≠ 0 then iirThri else iirNoInt }
    let plic ← uart.signalUnlessNone plic
    return (uart.rbr.setWidth 64, uart, plic)
  | 1 => .ok (uart.ier.setWidth 64, uart, plic)
  | 2 =>
    let ret := uart.iir
    -- Reading the register acknowledges a transmitter interrupt and no other.
    if ret &&& iirId = iirThri then
      .ok (ret.setWidth 64, { uart with thrPending := false, iir := iirNoInt }, plic)
    else .ok (ret.setWidth 64, uart, plic)
  | 3 => .ok (uart.lcr.setWidth 64, uart, plic)
  | 5 => .ok (uart.lsr.setWidth 64, uart, plic)
  | 6 => .ok (uart.msr.setWidth 64, uart, plic)
  | 7 => .ok (uart.scr.setWidth 64, uart, plic)
  | _ => .error (.panic "uart_read: [0x%lx]\n")

/-- The interrupt identified after a change of the enable register. -/
def identify (uart : Uart) : BitVec 8 :=
  -- The conditions are tried in the order of their priority.
  if uart.ier &&& ierRlsi ≠ 0 then iirRlsi
  else if uart.ier &&& ierRdi ≠ 0 ∧ uart.lsr &&& lsrDr ≠ 0 then iirRdi
  else if uart.ier &&& ierThri ≠ 0 ∧ uart.thrPending then iirThri
  else if uart.ier &&& ierMsi ≠ 0 then iirMsi
  else iirNoInt

/-- The write of the enable register while the divisor latch is closed. -/
def writeIer (uart : Uart) (plic : Plic) (data : BitVec 64) : Except Stop (Uart × Plic) :=
  -- Only the four enable bits count as a change.
  let changed := (uart.ier.setWidth 64 ^^^ data) &&& 0x0f ≠ 0
  let uart := { uart with ier := data.setWidth 8 }
  if changed then do
    -- Enabling the transmitter interrupt raises it, for the transmitter is always empty.
    let uart := if uart.ier &&& ierThri ≠ 0 then { uart with thrPending := true } else uart
    let uart := { uart with iir := uart.identify }
    let plic ← uart.signalUnlessNone plic
    return (uart, plic)
  else .ok (uart, plic)

/-- The function `uart_write`. -/
def write (uart : Uart) (plic : Plic) (addr data : BitVec 64) (size : Nat) :
    Except Stop (Uart × Plic) :=
  if size ≠ 1 then .error (.panic "uart_write: bad size %d\n")
  else
    match addr.toNat with
    | 0 =>
      -- With the latch open the register is the low half of the divisor.
      if uart.lcr &&& lcrDlab ≠ 0 then
        let divider := (uart.divider &&& 0xFF00) ||| (data.setWidth 16 &&& 0xFF)
        .ok ({ uart with divider }, plic)
      else
        .ok ({ uart with thrPending := false, printed := data.setWidth 8 :: uart.printed }, plic)
    | 1 =>
      -- With the latch open the register is the high half of the divisor.
      if uart.lcr &&& lcrDlab ≠ 0 then
        let divider := ((data.setWidth 16 &&& 0xFF) <<< 8) ||| (uart.divider &&& 0x00FF)
        .ok ({ uart with divider }, plic)
      else uart.writeIer plic data
    | 2 => .ok ({ uart with iir := data.setWidth 8 }, plic)
    | 3 => .ok ({ uart with lcr := data.setWidth 8 }, plic)
    | 4 => .ok ({ uart with mcr := data.setWidth 8 }, plic)
    | 6 => .ok ({ uart with msr := data.setWidth 8 }, plic)
    | 7 => .ok ({ uart with scr := data.setWidth 8 }, plic)
    | _ => .error (.panic "uart_write: [0x%lx]: 0x%lx\n")

/-- One turn of the thread `_routine`, for the byte `getch` returned. -/
def routine (uart : Uart) (plic : Plic) (byte : BitVec 8) : Except Stop (Uart × Plic) :=
  if !uart.reading then .ok (uart, plic)
  else
    let uart := { uart with rbr := byte }
    -- A control-C leaves the loop after it was stored.
    if byte = 3 then .ok ({ uart with reading := false }, plic)
    else
      -- The byte is announced in the status, and by an interrupt if that is enabled.
      let uart := { uart with lsr := uart.lsr ||| lsrDr }
      if uart.ier &&& ierRdi ≠ 0 then do
        let uart := { uart with iir := iirRdi }
        let plic ← plic.signal uart.irqNum
        return (uart, plic)
      else .ok (uart, plic)

end Uart

end Xemu
