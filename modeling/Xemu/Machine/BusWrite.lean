import Xemu.Machine.Queue

/-! Writes to the physical address space. -/

namespace Xemu.Bus

/--
The `write_op` of a device.

The writer stands for `as_write_nommu` itself, which a notified virtio device calls on guest memory.
-/
def deviceWrite (host : Host) (write : Writer) (fuel : Nat) (bus : Bus) (device : DeviceId)
    (addr data : BitVec 64) (size : Nat) (params : Params) : Except Stop (BitVec 64 × Bus) :=
  match device with
  -- The read-only memory keeps the handler every address space starts with.
  | .dummy | .rom => .error (.panic "as_write_dummy: bad addr(0x%llx)\n")
  | .rtc => do
    let rtc ← bus.rtc.write
    return (0, { bus with rtc })
  | .pciHost => do
    let pciHost ← bus.pciHost.write addr data
    return (0, { bus with pciHost })
  | .plic => do
    let plic ← bus.plic.write addr data
    return (0, { bus with plic })
  | .clint => do
    let clint ← bus.clint.write host addr data
    return (0, { bus with clint })
  | .flash => do
    let (ret, flash) ← flashWrite bus.flash addr data size params
    return (ret, { bus with flash })
  -- The RAM returns the old value, or the zero of a store-conditional.
  | .ram => do
    let (ret, ram) ← ramWrite bus.ram addr data size params
    return (ret, { bus with ram })
  | .uart => do
    let (uart, plic) ← bus.uart.write bus.plic addr data size
    return (0, { bus with uart, plic })
  | .virtio slot => do
    let bus ← mmioWrite host write fuel bus slot addr data size
    return (0, bus)

/-- The loop of `as_write_nommu` over the children of the root. -/
def writeFrom (host : Host) (write : Writer) (fuel : Nat) (bus : Bus) (addr data : BitVec 64)
    (size : Nat) (params : Params) : List AddressSpace → Except Stop (BitVec 64 × Bus)
  | [] => bus.deviceWrite host write fuel .dummy addr data size params
  | child :: sibling =>
    -- As for a read, the first byte decides.
    if child.contains addr then
      bus.deviceWrite host write fuel child.device (addr - child.start) data size params
    else writeFrom host write fuel bus addr data size params sibling

/-- The body of `as_write_nommu`, with the writer its devices call. -/
def asWriteNommuWith (host : Host) (write : Writer) (fuel : Nat) (bus : Bus) (addr : BitVec 64)
    (size : Nat) (data : BitVec 64) (params : Params) : Except Stop (BitVec 64 × Bus) :=
  if !validSize size then .error (.panic "as_write_nommu: bad size %d\n")
  else writeFrom host write fuel bus addr data size params AddressSpace.rootChildren

/-- The writer of a notified device that itself may still cause so much nested work. -/
def nestedWriter (host : Host) : Nat → Writer
  | 0 => fun _ _ _ _ => .error .fuel
  -- A store of the device is an ordinary store, and may reach a device again.
  | fuel + 1 => fun bus addr size data => do
    let (_, bus) ← asWriteNommuWith host (nestedWriter host fuel) fuel bus addr size data .none
    return bus

/-- The function `as_write_nommu` on the root: the value returned, and the devices after it. -/
def asWriteNommu (host : Host) (bus : Bus) (addr : BitVec 64) (size : Nat) (data : BitVec 64)
    (params : Params) : Except Stop (BitVec 64 × Bus) :=
  asWriteNommuWith host (nestedWriter host host.fuel) host.fuel bus addr size data params

/-- The write loop ends at the device the address selects. -/
theorem writeFrom_route (host : Host) (write : Writer) (fuel : Nat) (bus : Bus)
    (addr data : BitVec 64) (size : Nat) (params : Params) (children : List AddressSpace) :
    writeFrom host write fuel bus addr data size params children =
      bus.deviceWrite host write fuel (AddressSpace.route children addr).1
        (AddressSpace.route children addr).2 data size params := by
  induction children with
  | nil => rfl
  | cons child sibling ih =>
    -- Either this child takes the access, or both loops go on to the same siblings.
    by_cases inside : child.contains addr
    · simp [writeFrom, AddressSpace.route, inside]
    · simp [writeFrom, AddressSpace.route, inside, ih]

end Xemu.Bus
