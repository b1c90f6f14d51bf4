import Xemu.Device.Clint
import Xemu.Device.Platform
import Xemu.Device.Uart
import Xemu.Device.Virtio
import Xemu.Lib.Ensures

/-! The stops the devices end in, five kinds of which are told apart from all others. -/

namespace Xemu

namespace Stop

/-- The panic of the `default` case of `execute`. -/
def badOp : Stop := .panic "execute: bad op (%s) at: %x\n"

/-- The panic of the `default` case of `trap_exit`. -/
def badExit : Stop := .panic "trap_exit: bad op(0x%x)\n"

/-- A look into the backend of a virtio slot that has none. -/
def noBackend : Stop := .undefined "member of a NULL backend"

/-- A ring index computed modulo a queue size of zero. -/
def zeroModulus : Stop := .undefined "remainder of a division by zero"

/-- A look behind the configuration record of a virtio device. -/
def outsideRecord : Stop := .undefined "index outside the configuration record"

/-- The stops that are none of the five. -/
structure Ordinary (stop : Stop) : Prop where
  op : stop ≠ badOp
  exit : stop ≠ badExit
  backend : stop ≠ noBackend
  modulus : stop ≠ zeroModulus
  record : stop ≠ outsideRecord

/-- A panic is ordinary by its text. -/
@[simp] theorem ordinary_panic {text : String} :
    (Stop.panic text).Ordinary ↔
      text ≠ "execute: bad op (%s) at: %x\n" ∧ text ≠ "trap_exit: bad op(0x%x)\n" := by
  constructor
  · intro ordinary
    exact ⟨fun same => ordinary.op (congrArg _ same), fun same => ordinary.exit (congrArg _ same)⟩
  · rintro ⟨op, exit⟩
    refine ⟨fun same => op ?_, fun same => exit ?_, ?_, ?_, ?_⟩
    -- The other three stops are no panics.
    · exact Stop.panic.inj same
    · exact Stop.panic.inj same
    all_goals exact fun same => Stop.noConfusion same

/-- Undefined behaviour is ordinary by what it is. -/
@[simp] theorem ordinary_undefined {what : String} :
    (Stop.undefined what).Ordinary ↔
      what ≠ "member of a NULL backend" ∧ what ≠ "remainder of a division by zero" ∧
        what ≠ "index outside the configuration record" := by
  constructor
  · intro ordinary
    exact ⟨fun same => ordinary.backend (congrArg _ same),
      fun same => ordinary.modulus (congrArg _ same), fun same => ordinary.record (congrArg _ same)⟩
  · rintro ⟨backend, modulus, record⟩
    refine ⟨?_, ?_, fun same => backend ?_, fun same => modulus ?_, fun same => record ?_⟩
    · exact fun same => Stop.noConfusion same
    · exact fun same => Stop.noConfusion same
    -- The other two stops are panics.
    all_goals exact Stop.undefined.inj same

/-- A lock that is taken twice is ordinary. -/
@[simp] theorem ordinary_deadlock : Stop.deadlock.Ordinary := by
  constructor <;> exact fun same => Stop.noConfusion same

/-- So is work without an end. -/
@[simp] theorem ordinary_fuel : Stop.fuel.Ordinary := by
  constructor <;> exact fun same => Stop.noConfusion same

end Stop

/-- A computation whose stops are ordinary ones. -/
abbrev Orderly {α : Type} (comp : Except Stop α) : Prop := Ends comp (fun _ => True) Stop.Ordinary

section Devices

variable (host : Host) (addr data : BitVec 64) (size : Nat) (params : Params)

/-! ### Memories -/

/-- A read outside a buffer is undefined in its own way. -/
theorem Buffer.read_orderly (buffer : Buffer) : Orderly (buffer.read addr size) :=
  .ite (fun _ => .ok trivial) fun _ => .error (by simp)

/-- So is a write. -/
theorem Buffer.write_orderly (buffer : Buffer) : Orderly (buffer.write addr size data) :=
  .ite (fun _ => .ok trivial) fun _ => .error (by simp)

/-- A store to RAM reads and writes the buffer. -/
theorem ramWrite_orderly (ram : Buffer) : Orderly (ramWrite ram addr data size params) := by
  -- A store-conditional skips the read of the old value.
  refine .ite (fun _ => .bind (ram.read_orderly _ _) fun ret _ => ?_) fun _ =>
    .bind (.ok trivial) fun ret (_ : True) => ?_
  all_goals exact .bind (ram.write_orderly _ _ _) fun ram _ => .ok trivial

/-- A load from ROM is checked before it reads. -/
theorem romRead_orderly (rom : Buffer) : Orderly (romRead rom addr size) :=
  .ite (fun _ => .error (by simp)) fun _ =>
    .ite (fun _ => rom.read_orderly _ _) fun _ => .error (by simp)

/-- An address of the flash is checked against its size. -/
theorem flashPtr_orderly (flash : Buffer) : Orderly (flashPtr flash addr size) :=
  .ite (fun _ => .error (by simp)) fun _ => .ok trivial

/-- A load from the flash gives zero outside of it, and panics across a page. -/
theorem flashRead_orderly (flash : Buffer) : Orderly (flashRead flash addr size) := by
  refine .bind (flashPtr_orderly addr size flash) fun inside _ => ?_
  refine .ite (fun _ => .ok trivial) fun _ => .ite (fun _ => .error (by simp)) fun _ => ?_
  exact .ite (fun _ => flash.read_orderly _ _) fun _ => .error (by simp)

/-- A store to the flash is one inside a page of it, or a panic. -/
theorem flashWrite_orderly (flash : Buffer) : Orderly (flashWrite flash addr data size params) := by
  refine .bind (flashPtr_orderly addr size flash) fun inside _ => ?_
  refine .ite (fun _ => .error (by simp)) fun _ => .ite (fun _ => ?_) fun _ => .error (by simp)
  -- The old value is read before the new one is written.
  exact .bind (flash.read_orderly _ _) fun ret _ =>
    .bind (flash.write_orderly _ _ _) fun flash _ => .ok trivial

/-! ### Interrupt controllers -/

/-- A pending bit is changed, refused, or outside the words. -/
theorem Plic.updatePending_orderly (plic : Plic) {refused : String}
    (ordinary : (Stop.panic refused).Ordinary) (id : BitVec 32) (change : BitVec 32 → BitVec 32) :
    Orderly (plic.updatePending refused id change) := by
  unfold Plic.updatePending
  -- Zero is refused in the words of the caller.
  refine .ite (fun _ => .error ordinary) fun _ => ?_
  split
  · exact .ok trivial
  · exact .error (by simp)

/-- A signal changes a pending bit. -/
theorem Plic.signal_orderly (plic : Plic) (id : BitVec 32) : Orderly (plic.signal id) :=
  plic.updatePending_orderly (by simp) id _

/-- A load from the interrupt controller is one of an enable word or of a claim register. -/
theorem Plic.read_orderly (plic : Plic) : Orderly (plic.read addr) := by
  unfold Plic.read
  refine .ite (fun _ => .error (by simp)) fun _ => ?_
  split
  · exact .ok trivial
  · -- The two claim registers clear the pending bit of the source they return.
    refine .ite (fun _ => .ite (fun _ => .error (by simp)) fun _ => ?_) fun _ =>
      .ite (fun _ => .ite (fun _ => .ok trivial) fun _ => ?_) fun _ => .error (by simp)
    all_goals exact .bind (plic.updatePending_orderly (by simp) _ _) fun plic _ => .ok trivial

/-- A store to it goes through the registers in the order in which the source tests them. -/
theorem Plic.write_orderly (plic : Plic) : Orderly (plic.write addr data) := by
  unfold Plic.write
  refine .ite (fun _ => .error (by simp)) fun _ => .ite (fun _ => ?_) fun _ => ?_
  · split
    · exact .ok trivial
    · exact .error (by simp)
  · -- The enable words come next, and then the thresholds and the two completions.
    split
    · exact .ok trivial
    · split
      · exact .ok trivial
      · refine .ite (fun _ => .ok trivial) fun _ => .ite (fun _ => .ok trivial) fun _ => ?_
        refine .ite (fun _ => ?_) fun _ => .ite (fun _ => ?_) fun _ => .error (by simp)
        all_goals exact .ite (fun _ => .error (by simp)) fun _ => .ok trivial

/-- A store to the local interruptor is a line, a comparison or a panic. -/
theorem Clint.write_orderly (clint : Clint) : Orderly (clint.write host addr data) := by
  refine .ite (fun _ => .ok trivial) fun _ => .ite (fun _ => ?_) fun _ => .error (by simp)
  exact .ite (fun _ => .ok trivial) fun _ => .ok trivial

/-! ### Serial port -/

/-- The serial port signals what it has to tell. -/
theorem Uart.signalUnlessNone_orderly (uart : Uart) (plic : Plic) :
    Orderly (uart.signalUnlessNone plic) :=
  .ite (fun _ => plic.signal_orderly _) fun _ => .ok trivial

/-- A load from the serial port stops at most for its address. -/
theorem Uart.read_orderly (uart : Uart) (plic : Plic) : Orderly (uart.read plic addr) := by
  unfold Uart.read
  split
  -- Taking a byte may signal an interrupt, and no other register does.
  case h_1 => exact .bind (Uart.signalUnlessNone_orderly _ _) fun plic _ => .ok trivial
  case h_3 => exact .ite (fun _ => .ok trivial) fun _ => .ok trivial
  case h_8 => exact .error (by simp)
  all_goals exact .ok trivial

/-- A write of its enable register may signal at once. -/
theorem Uart.writeIer_orderly (uart : Uart) (plic : Plic) : Orderly (uart.writeIer plic data) := by
  refine .ite (fun _ => ?_) fun _ => .ok trivial
  exact .bind (Uart.signalUnlessNone_orderly _ _) fun plic _ => .ok trivial

/-- A store to it stops for its size or its address. -/
theorem Uart.write_orderly (uart : Uart) (plic : Plic) :
    Orderly (uart.write plic addr data size) := by
  refine .ite (fun _ => .error (by simp)) fun _ => ?_
  -- The first two registers are others while the divisor latch is open.
  split
  case h_1 => exact .ite (fun _ => .ok trivial) fun _ => .ok trivial
  case h_2 => exact .ite (fun _ => .ok trivial) fun _ => uart.writeIer_orderly _ _
  case h_8 => exact .error (by simp)
  all_goals exact .ok trivial

/-! ### Clock and host bridge -/

/-- A load from the clock stops at most for its address. -/
theorem Rtc.read_orderly (rtc : Rtc) : Orderly (rtc.read host addr) := by
  unfold Rtc.read
  split
  case h_6 => exact .error (by simp)
  all_goals exact .ok trivial

/-- So does one from the host bridge. -/
theorem PciHost.read_orderly (pciHost : PciHost) : Orderly (pciHost.read addr size) := by
  -- Other functions and buses are absent, and of the bridge itself some registers are known.
  refine .ite (fun _ => .ok trivial) fun _ => .ite (fun _ => .ok trivial) fun _ => ?_
  split
  case h_12 => exact .error (by simp)
  all_goals exact .ok trivial

/-- A store to the host bridge does nothing or panics. -/
theorem PciHost.write_orderly (pciHost : PciHost) : Orderly (pciHost.write addr data) :=
  .ite (fun _ => .ok trivial) fun _ => .ite (fun _ => .ok trivial) fun _ => .error (by simp)

/-! ### Virtio registers -/

/-- A stop of a write to a register of a slot that may have no backend. -/
def SlotStop (stop : Stop) : Prop := stop.Ordinary ∨ stop = .noBackend

/-- A stop of a read, which finds no backend as a word, and leaves the record as a byte. -/
def ReadStop (size : Nat) (stop : Stop) : Prop :=
  stop.Ordinary ∨ size = 4 ∧ stop = .noBackend ∨ size = 1 ∧ stop = .outsideRecord

/-- A ring is set up from a page, or refused for its alignment. -/
theorem vringInit_orderly (vring : Vring) (pfn : BitVec 64) (pageShift : BitVec 32) :
    Orderly (vringInit vring pfn pageShift) :=
  .ite (fun _ => .error (by simp)) fun _ => .ok trivial

/-- A read of the registers or of the record stops as reads of its size do. -/
theorem VirtioDev.mmioRead_ends (vdev : Option VirtioDev) :
    Ends (mmioRead vdev addr size) (fun _ => True) (ReadStop size) := by
  refine .ite (fun _ => ?_) fun _ => ?_
  · refine .ite (fun _ => .error (.inl (by simp))) fun single => ?_
    cases vdev with
    | none => exact .error (.inl (by simp))
    | some vdev =>
      refine .ite (fun _ => ?_) fun _ => .error (.inr (.inr ⟨not_not.mp single, rfl⟩))
      exact (vdev.config.read_orderly _ _).mono (fun _ holds => holds) fun _ => .inl
  · refine .ite (fun _ => .error (.inl (by simp))) fun word => ?_
    -- Among the registers of a word four are read from the backend.
    split
    all_goals first
      | exact .ok trivial
      | exact .error (.inr (.inl ⟨not_not.mp word, rfl⟩))
      | exact .error (.inl (by simp))

/-- A write to a register of a device stops for its address, or for the page of a ring. -/
theorem VirtioDev.mmioWrite_orderly (vdev : VirtioDev) : Orderly (vdev.mmioWrite addr data) := by
  unfold VirtioDev.mmioWrite
  dsimp only
  split
  case h_6 =>
    -- Only a page number for the ring is checked.
    exact .ite (fun _ => .bind (vringInit_orderly _ _ _) fun vring _ => .ok trivial) fun _ =>
      .ok trivial
  case h_11 => exact .error (by simp)
  all_goals exact .ok trivial

/-- Without a backend a write to a register looks into it, or panics for its address. -/
theorem VirtioDev.mmioWriteMissing_ends :
    Ends (mmioWriteMissing addr data) (fun _ => True) SlotStop := by
  -- One register looks into it only when the data is small.
  unfold mmioWriteMissing
  split
  case h_1 => exact .ite (fun _ => .error (.inr rfl)) fun _ => .ok trivial
  case h_12 => exact .error (.inl (by simp))
  all_goals exact .error (.inr rfl)

end Devices

end Xemu
