import Xemu.Device.Uart

/-! What an access to the serial port, or a turn of its reader thread, can do to it. -/

namespace Xemu.Uart

/-- The port after its receive buffer was read. -/
def taken (uart : Uart) : Uart :=
  { uart with
    lsr := uart.lsr &&& ~~~(lsrDr ||| lsrBi)
    iir := if uart.ier &&& ierThri ≠ 0 then iirThri else iirNoInt }

/-- The port after the interrupt of its transmitter was acknowledged. -/
def acknowledged (uart : Uart) : Uart := { uart with thrPending := false, iir := iirNoInt }

/-- The port after a byte was printed. -/
def transmitted (uart : Uart) (byte : BitVec 8) : Uart :=
  { uart with thrPending := false, printed := byte :: uart.printed }

/-- The port with its enable register written, before it identifies an interrupt. -/
def enabling (uart : Uart) (data : BitVec 64) : Uart :=
  { uart with
    ier := data.setWidth 8
    thrPending := (data.setWidth 8 : BitVec 8) &&& ierThri != 0 || uart.thrPending }

/-- The port after a change of its enable register. -/
def reidentified (uart : Uart) (data : BitVec 64) : Uart :=
  { uart.enabling data with iir := (uart.enabling data).identify }

/-- The port after a byte was stored and announced in its status. -/
def stored (uart : Uart) (byte : BitVec 8) : Uart :=
  { uart with rbr := byte, lsr := uart.lsr ||| lsrDr }

/-! ### Statements -/

/-- The statements of a read of the receive buffer that follow the load of the status. -/
def clearStatus (uart : Uart) (plic : Plic) (lsr : BitVec 8) : Except Stop (Uart × Plic) := do
  let uart := { uart with lsr := lsr &&& ~~~(lsrDr ||| lsrBi) }
  let uart := { uart with iir := if uart.ier &&& ierThri ≠ 0 then iirThri else iirNoInt }
  let plic ← uart.signalUnlessNone plic
  return (uart, plic)

/-- A read of the receive buffer loads the status, stores it without its bit, and loads the buffer. -/
theorem read_statements (uart : Uart) (plic : Plic) :
    uart.read plic 0 = (uart.clearStatus plic uart.lsr).map fun cleared =>
      (cleared.1.rbr.setWidth 64, cleared.1, cleared.2) := by
  change (uart.taken.signalUnlessNone plic >>= fun plic =>
    .ok (uart.taken.rbr.setWidth 64, uart.taken, plic)) =
    (uart.taken.signalUnlessNone plic >>= fun plic => .ok (uart.taken, plic)).map _
  -- The signal is the only part that can stop.
  cases uart.taken.signalUnlessNone plic <;> rfl

/-- The statement with which the thread stores a byte, and its test whether to go on. -/
def storeByte (uart : Uart) (byte : BitVec 8) : Uart :=
  { uart with rbr := byte, reading := uart.reading && byte != 3 }

/-- The statements of the thread that follow its load of the status. -/
def announce (uart : Uart) (plic : Plic) (lsr : BitVec 8) : Except Stop (Uart × Plic) :=
  let uart := { uart with lsr := lsr ||| lsrDr }
  if uart.ier &&& ierRdi ≠ 0 then do
    let uart := { uart with iir := iirRdi }
    let plic ← plic.signal uart.irqNum
    return (uart, plic)
  else .ok (uart, plic)

/-- A turn of the thread stores the byte, loads the status, and stores it with its bit. -/
theorem routine_statements (uart : Uart) (plic : Plic) (byte : BitVec 8) :
    uart.routine plic byte =
      if uart.reading then
        if byte = 3 then .ok (uart.storeByte byte, plic)
        else (uart.storeByte byte).announce plic uart.lsr
      else .ok (uart, plic) := by
  unfold routine storeByte announce
  cases running : uart.reading with
  | false => rfl
  | true =>
    by_cases control : byte = 3
    · subst control
      rfl
    · -- A byte that does not end the thread leaves it running.
      have more : (byte != 3) = true := bne_iff_ne.mpr control
      simp only [more, if_neg control, Bool.true_and, Bool.not_true, Bool.false_eq_true, if_false,
        if_true]

/-! ### The steps -/

/-- What a read that returns does to the port and to the interrupt controller. -/
inductive ReadStep (uart : Uart) (plic : Plic) (addr data : BitVec 64) : Uart → Plic → Prop where
  /-- The receive buffer is taken, and the transmitter reported if that is enabled. -/
  | buffer {controller : Plic} (place : addr = 0) (value : data = uart.rbr.setWidth 64)
    (signalled : uart.taken.signalUnlessNone plic = .ok controller) :
    ReadStep uart plic addr data uart.taken controller
  /-- The identification shows the transmitter, whose interrupt is acknowledged. -/
  | acknowledge (place : addr = 2) (shown : uart.iir &&& iirId = iirThri) :
    ReadStep uart plic addr data uart.acknowledged plic
  /-- Any other read has no effect. -/
  | other (place : addr ≠ 0) (unshown : addr = 2 → uart.iir &&& iirId ≠ iirThri) :
    ReadStep uart plic addr data uart plic

/-- What a write that returns does to the port and to the interrupt controller. -/
inductive WriteStep (uart : Uart) (plic : Plic) (addr data : BitVec 64) : Uart → Plic → Prop where
  /-- With the latch open one of the first two registers is half of the divisor. -/
  | divisor (place : addr = 0 ∨ addr = 1) (latch : uart.lcr &&& lcrDlab ≠ 0)
    (divider : BitVec 16) : WriteStep uart plic addr data { uart with divider } plic
  /-- Otherwise the first one prints. -/
  | transmit (place : addr = 0) (closed : uart.lcr &&& lcrDlab = 0) :
    WriteStep uart plic addr data (uart.transmitted (data.setWidth 8)) plic
  /-- A change of the enable bits looks for an interrupt to identify. -/
  | enable {controller : Plic} (place : addr = 1) (closed : uart.lcr &&& lcrDlab = 0)
    (changed : (uart.ier.setWidth 64 ^^^ data) &&& 0x0f ≠ 0)
    (signalled : (uart.reidentified data).signalUnlessNone plic = .ok controller) :
    WriteStep uart plic addr data (uart.reidentified data) controller
  /-- A write that leaves the enable bits as they are does not. -/
  | same (place : addr = 1) (closed : uart.lcr &&& lcrDlab = 0)
    (unchanged : (uart.ier.setWidth 64 ^^^ data) &&& 0x0f = 0) :
    WriteStep uart plic addr data { uart with ier := data.setWidth 8 } plic
  /-- A write for the control of the buffers lands in the identification. -/
  | identification (place : addr = 2) :
    WriteStep uart plic addr data { uart with iir := data.setWidth 8 } plic
  /-- The line control register is stored. -/
  | lineControl (place : addr = 3) :
    WriteStep uart plic addr data { uart with lcr := data.setWidth 8 } plic
  /-- The modem control register is stored. -/
  | modemControl (place : addr = 4) :
    WriteStep uart plic addr data { uart with mcr := data.setWidth 8 } plic
  /-- So is the modem status. -/
  | modemStatus (place : addr = 6) :
    WriteStep uart plic addr data { uart with msr := data.setWidth 8 } plic
  /-- So is the scratch register. -/
  | scratch (place : addr = 7) :
    WriteStep uart plic addr data { uart with scr := data.setWidth 8 } plic

/-- What a turn of the reader thread does to the port and to the interrupt controller. -/
inductive RoutineStep (uart : Uart) (plic : Plic) (byte : BitVec 8) : Uart → Plic → Prop where
  /-- The thread has ended. -/
  | ended (left : uart.reading = false) : RoutineStep uart plic byte uart plic
  /-- A control-C is stored and ends the thread. -/
  | control (reading : uart.reading = true) (last : byte = 3) :
    RoutineStep uart plic byte { uart with rbr := byte, reading := false } plic
  /-- With its interrupt enabled a byte is reported. -/
  | report {controller : Plic} (reading : uart.reading = true) (more : byte ≠ 3)
    (enabled : uart.ier &&& ierRdi ≠ 0) (signalled : plic.signal uart.irqNum = .ok controller) :
    RoutineStep uart plic byte { uart.stored byte with iir := iirRdi } controller
  /-- Otherwise it is only announced. -/
  | store (reading : uart.reading = true) (more : byte ≠ 3) (disabled : uart.ier &&& ierRdi = 0) :
    RoutineStep uart plic byte (uart.stored byte) plic

section Steps

variable {uart after : Uart} {plic controller : Plic} {addr data : BitVec 64}

/-- An address is known by its number. -/
theorem addr_eq {index : Nat} (number : addr.toNat = index) : addr = BitVec.ofNat 64 index := by
  rw [← number, BitVec.ofNat_toNat, BitVec.setWidth_eq]

/-- A read that returns is one of the steps. -/
theorem read_step (read : uart.read plic addr = .ok (data, after, controller)) :
    uart.ReadStep plic addr data after controller := by
  -- The registers are told apart by the number of the address.
  unfold Uart.read at read
  split at read
  case h_1 number =>
    obtain ⟨controller, signalled, result⟩ := bind_eq_ok.mp read
    cases Except.ok.inj result
    exact .buffer (addr_eq number) rfl signalled
  case h_3 number =>
    dsimp only at read
    have here := addr_eq number
    split at read
    · cases Except.ok.inj read
      exact .acknowledge here ‹_›
    · cases Except.ok.inj read
      exact .other (by rw [here]; decide) fun _ => ‹_›
  case h_8 => cases read
  all_goals
    rename_i number
    cases Except.ok.inj read
    have here := addr_eq number
    exact .other (by rw [here]; decide) fun impossible => absurd (here.symm.trans impossible) (by decide)

/-- A write of the enable register that returns is one of two steps. -/
theorem writeIer_step (place : addr = 1) (closed : uart.lcr &&& lcrDlab = 0)
    (written : uart.writeIer plic data = .ok (after, controller)) :
    uart.WriteStep plic addr data after controller := by
  unfold writeIer at written
  dsimp only at written
  split at written
  · rename_i changed
    obtain ⟨controller, signalled, result⟩ := bind_eq_ok.mp written
    cases Except.ok.inj result
    -- Whichever way the transmitter's bit is set, the port is the one that was named.
    have port : (if (data.setWidth 8 : BitVec 8) &&& ierThri ≠ 0
        then { uart with ier := data.setWidth 8, thrPending := true }
        else { uart with ier := data.setWidth 8 }) = uart.enabling data := by
      unfold enabling
      split
      · rename_i bit
        rw [bne_iff_ne.mpr bit, Bool.true_or]
      · rename_i bit
        rw [not_not.mp bit]
        rfl
    rw [port] at signalled ⊢
    exact .enable place closed changed signalled
  · cases Except.ok.inj written
    exact .same place closed (not_not.mp ‹_›)

/-- A write that returns is one of the steps, and one byte wide. -/
theorem write_step {size : Nat} (written : uart.write plic addr data size = .ok (after, controller)) :
    size = 1 ∧ uart.WriteStep plic addr data after controller := by
  -- The cases are the registers, of which the first two lie behind the divisor latch.
  unfold Uart.write at written
  split at written
  · cases written
  · refine ⟨not_not.mp ‹_›, ?_⟩
    split at written
    case h_1 number =>
      have here := addr_eq number
      dsimp only at written
      split at written
      · cases Except.ok.inj written
        exact .divisor (.inl here) ‹_› _
      · cases Except.ok.inj written
        exact .transmit here (not_not.mp ‹_›)
    case h_2 number =>
      have here := addr_eq number
      dsimp only at written
      split at written
      · cases Except.ok.inj written
        exact .divisor (.inr here) ‹_› _
      · exact writeIer_step here (not_not.mp ‹_›) written
    case h_3 number =>
      cases Except.ok.inj written
      exact .identification (addr_eq number)
    case h_4 number =>
      cases Except.ok.inj written
      exact .lineControl (addr_eq number)
    case h_5 number =>
      cases Except.ok.inj written
      exact .modemControl (addr_eq number)
    case h_6 number =>
      cases Except.ok.inj written
      exact .modemStatus (addr_eq number)
    case h_7 number =>
      cases Except.ok.inj written
      exact .scratch (addr_eq number)
    case h_8 => cases written

/-- A turn of the reader thread that returns is one of the steps. -/
theorem routine_step {byte : BitVec 8} (turned : uart.routine plic byte = .ok (after, controller)) :
    uart.RoutineStep plic byte after controller := by
  -- The thread looks at its own end, at the control-C, and at the enable bit, in this order.
  unfold routine at turned
  split at turned
  · rename_i left
    cases Except.ok.inj turned
    exact .ended (by simpa using left)
  · rename_i stays
    have reading : uart.reading = true := by simpa using stays
    dsimp only at turned
    split at turned
    · cases Except.ok.inj turned
      exact .control reading ‹_›
    · split at turned
      · obtain ⟨controller, signalled, result⟩ := bind_eq_ok.mp turned
        cases Except.ok.inj result
        exact .report reading ‹_› ‹_› signalled
      · cases Except.ok.inj turned
        exact .store reading ‹_› (not_not.mp ‹_›)

end Steps

end Xemu.Uart
