import Xemu.Device.Source
import Xemu.Device.UartSteps
import Xemu.Machine.Accesses

/-! Only numbers of sources are ever pending in the interrupt controller. -/

namespace Xemu

/-- The interrupt numbers of the devices are those of sources, and only such numbers are pending. -/
structure Bus.SourcesNumbered (bus : Bus) : Prop where
  plic : bus.plic.Numbered
  uart : bus.uart.irqNum.toNat < 128
  blk : bus.blk.vdev.irqNum.toNat < 128

/-- What the serial port does to the controller is at most a signal of its own number. -/
theorem Uart.signalUnlessNone_numbered {uart : Uart} {plic : Plic} (numbered : plic.Numbered)
    (source : uart.irqNum.toNat < 128) :
    Ensures (uart.signalUnlessNone plic) Plic.Numbered :=
  .ite (fun _ => numbered.signal source) fun _ => .ok numbered

/-- A register read of the serial port keeps its number and signals no other. -/
theorem Uart.read_numbered {uart : Uart} {plic : Plic} (numbered : plic.Numbered)
    (source : uart.irqNum.toNat < 128) (addr : BitVec 64) :
    Ensures (uart.read plic addr) fun result =>
      result.2.2.Numbered ∧ result.2.1.irqNum = uart.irqNum := by
  rintro ⟨data, after, controller⟩ read
  -- Only the receive buffer sends a signal.
  cases Uart.read_step read with
  | buffer _ _ signalled =>
    have kept : uart.taken.irqNum.toNat < 128 := source
    exact ⟨Uart.signalUnlessNone_numbered numbered kept _ signalled, rfl⟩
  | acknowledge _ _ | other _ _ => exact ⟨numbered, rfl⟩

/-- A register write of the serial port keeps its number and signals no other. -/
theorem Uart.write_numbered {uart : Uart} {plic : Plic} (numbered : plic.Numbered)
    (source : uart.irqNum.toNat < 128) (addr data : BitVec 64) (size : Nat) :
    Ensures (uart.write plic addr data size) fun result =>
      result.2.Numbered ∧ result.1.irqNum = uart.irqNum := by
  rintro ⟨after, controller⟩ written
  cases (Uart.write_step written).2 with
  | enable _ _ _ signalled =>
    -- The new enable bits decide which interrupt is identified, not which number is signalled.
    have kept : (uart.reidentified data).irqNum.toNat < 128 := source
    exact ⟨Uart.signalUnlessNone_numbered numbered kept _ signalled, rfl⟩
  | divisor _ _ _ | transmit _ _ | same _ _ _ | identification _ | lineControl _ | modemControl _
  | modemStatus _ | scratch _ => exact ⟨numbered, rfl⟩

/-- The thread of the serial port keeps its number and signals no other. -/
theorem Uart.routine_numbered {uart : Uart} {plic : Plic} (numbered : plic.Numbered)
    (source : uart.irqNum.toNat < 128) (byte : BitVec 8) :
    Ensures (uart.routine plic byte) fun result =>
      result.2.Numbered ∧ result.1.irqNum = uart.irqNum := by
  rintro ⟨after, controller⟩ turned
  cases Uart.routine_step turned with
  | report _ _ _ signalled => exact ⟨numbered.signal source _ signalled, rfl⟩
  | ended _ | control _ _ | store _ _ _ => exact ⟨numbered, rfl⟩

/-- A poll changes a claim register at most. -/
theorem Plic.interrupt_pending {plic : Plic} (supervisor : Bool) :
    Ensures (plic.interrupt supervisor) fun result => result.2.pending = plic.pending := by
  refine .andThen fun found => ?_
  cases found with
  | none => exact .ok rfl
  | some id => exact .ok (by dsimp only; split <;> rfl)

/-- No event makes anything but numbers of sources pending. -/
theorem sourcesNumbered_invariant : Machine.Invariant Bus.SourcesNumbered where
  read host bus device addr size params holds := by
    cases device with
    | dummy => exact .error
    -- Reads of these devices do not reach the controller.
    | rtc | pciHost | clint | rom | flash | ram | virtio =>
      exact .andThen fun _ => .ok ⟨holds.plic, holds.uart, holds.blk⟩
    | plic => exact .bind (holds.plic.read addr) fun _ read => .ok ⟨read, holds.uart, holds.blk⟩
    | uart =>
      exact .bind (Uart.read_numbered holds.plic holds.uart addr) fun result read =>
        .ok ⟨read.1, read.2 ▸ holds.uart, holds.blk⟩
  write host write fuel bus device addr data size params other holds := by
    cases device with
    | dummy | rom => exact .error
    -- Writes of these devices do not reach the controller.
    | rtc | pciHost | clint | flash | ram =>
      exact .andThen fun _ => .ok ⟨holds.plic, holds.uart, holds.blk⟩
    | plic =>
      exact .bind (Plic.write_kept addr data) fun plic kept =>
        .ok ⟨holds.plic.congr kept.1, holds.uart, holds.blk⟩
    | uart =>
      exact .bind (Uart.write_numbered holds.plic holds.uart addr data size) fun result written =>
        .ok ⟨written.1, written.2 ▸ holds.uart, holds.blk⟩
    | virtio slot => exact absurd rfl (other slot)
  blk bus blk same holds := ⟨holds.plic, holds.uart, same.irqNum ▸ holds.blk⟩
  signal bus holds := fun plic sent => ⟨holds.plic.signal holds.blk plic sent, holds.uart, holds.blk⟩
  poll bus supervisor holds := fun result polled =>
    ⟨holds.plic.congr (Plic.interrupt_pending supervisor result polled), holds.uart, holds.blk⟩
  timer host bus holds := ⟨holds.plic, holds.uart, holds.blk⟩
  input bus byte holds := fun result received =>
    have kept := Uart.routine_numbered holds.plic holds.uart byte result received
    ⟨kept.1, kept.2 ▸ holds.uart, holds.blk⟩

/-- In every reachable state only numbers of sources are pending. -/
theorem Machine.Reached.numbered {m : Machine} (reached : m.Reached) : m.bus.plic.Numbered := by
  refine (sourcesNumbered_invariant.reached (fun rom flash disk => ?_) reached).plic
  -- Nothing is pending at reset, and the two devices have the numbers ten and one.
  exact ⟨⟨rfl, (by decide : Plic.bitOf (fun _ => 0) 0 = false)⟩,
    (by decide : (0xa#32).toNat < 128), (by decide : (1#32).toNat < 128)⟩

end Xemu
