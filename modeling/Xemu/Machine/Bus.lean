import Xemu.Device.Clint
import Xemu.Device.Uart
import Xemu.Device.Platform
import Xemu.Device.Virtio

/-! The physical address space: its regions, the devices behind them, and reads. -/

namespace Xemu

/-- The devices `main` registers under the root, and the root's own handlers. -/
inductive DeviceId where
  | dummy
  | rtc
  | pciHost
  | plic
  | clint
  | rom
  | flash
  | ram
  | uart
  | virtio (slot : Fin 8)
  deriving DecidableEq, Repr

/-- The bounds of an `address_space` and the device its handlers belong to. -/
structure AddressSpace where
  start : BitVec 64
  last : BitVec 64
  device : DeviceId
  deriving DecidableEq, Repr

namespace AddressSpace

/-- The bounds test of the two dispatch loops. -/
def contains (region : AddressSpace) (addr : BitVec 64) : Bool :=
  region.start ≤ addr && addr ≤ region.last

/-- The function `register_address_space`, which puts the new child in front of its siblings. -/
def register (children : List AddressSpace) (child : AddressSpace) : List AddressSpace :=
  child :: children

/-- The region of one virtio slot. -/
def virtioSlot (slot : Fin 8) : AddressSpace :=
  let base := BitVec.ofNat 64 (slot.val * 0x1000)
  ⟨0x10001000 + base, 0x10001FFF + base, .virtio slot⟩

/-- The regions in the order in which `main` registers them. -/
def registered : List AddressSpace :=
  -- The bounds come from the calls of the init functions in `main`.
  [⟨0x101000, 0x101FFF, .rtc⟩, ⟨0x30000000, 0x3FFFFFFF, .pciHost⟩, ⟨0x0C000000, 0x0C20FFFF, .plic⟩,
    ⟨0x02000000, 0x0200FFFF, .clint⟩, ⟨0x1000, 0xFFFFF, .rom⟩, ⟨0x20000000, 0x23FFFFFF, .flash⟩,
    ⟨0x80000000, 0xFFFFFFFF, .ram⟩, ⟨0x10000000, 0x100000FF, .uart⟩] ++
    (List.finRange 8).map virtioSlot

/-- The children of the root after `main` has registered them. -/
def rootChildren : List AddressSpace := registered.foldl register []

/-- The device an address selects among the children of the root, and the offset in its region. -/
def route : List AddressSpace → BitVec 64 → DeviceId × BitVec 64
  | [], addr => (.dummy, addr)
  | child :: sibling, addr =>
    -- The first child in list order that contains the address takes the access.
    if child.contains addr then (child.device, addr - child.start) else route sibling addr

end AddressSpace

/-- The states of all devices. -/
structure Bus where
  rtc : Rtc := {}
  pciHost : PciHost := {}
  plic : Plic := {}
  clint : Clint := {}
  rom : Buffer
  flash : Buffer
  ram : Buffer
  uart : Uart
  blk : VirtioBlk

namespace Bus

/-- The virtio slot of the block device, which is the first one. -/
abbrev blkSlot : Fin 8 := 0

/-- The backend of a virtio slot, which only the first one has. -/
def backend (bus : Bus) (slot : Fin 8) : Option VirtioDev :=
  if slot = blkSlot then some bus.blk.vdev else none

/-- The `read_op` of a device. -/
def deviceRead (host : Host) (bus : Bus) (device : DeviceId) (addr : BitVec 64) (size : Nat)
    (params : Params) : Except Stop (BitVec 64 × Bus) :=
  match device with
  -- The handler of the root itself, for an address no child contains.
  | .dummy => .error (.panic "as_read_dummy: bad addr(0x%llx) priv(%u)!\n")
  | .rtc => do
    let (ret, rtc) ← bus.rtc.read host addr
    return (ret, { bus with rtc })
  | .pciHost => do return (← bus.pciHost.read addr size, bus)
  | .plic => do
    let (ret, plic) ← bus.plic.read addr
    return (ret, { bus with plic })
  | .clint => do return (← Clint.read addr, bus)
  | .rom => do return (← romRead bus.rom addr size, bus)
  | .flash => do return (← flashRead bus.flash addr size, bus)
  | .ram => do return (← ramRead bus.ram addr size params, bus)
  -- Reading a register of the serial port may signal its interrupt.
  | .uart => do
    let (ret, uart, plic) ← bus.uart.read bus.plic addr
    return (ret, { bus with uart, plic })
  | .virtio slot => do return (← VirtioDev.mmioRead (bus.backend slot) addr size, bus)

/-- The sizes the bus admits. -/
def validSize (size : Nat) : Bool := size == 1 || size == 2 || size == 4 || size == 8

/--
The loop of `as_read_nommu` over the children of the root.

A child has no children of its own, so the call on it goes straight to its handler.
-/
def readFrom (host : Host) (bus : Bus) (addr : BitVec 64) (size : Nat) (params : Params) :
    List AddressSpace → Except Stop (BitVec 64 × Bus)
  | [] => bus.deviceRead host .dummy addr size params
  | child :: sibling =>
    -- An access belongs to the child with its first byte, however far it reaches.
    if child.contains addr then
      bus.deviceRead host child.device (addr - child.start) size params
    else readFrom host bus addr size params sibling

/-- The function `as_read_nommu` on the root. -/
def asReadNommu (host : Host) (bus : Bus) (addr : BitVec 64) (size : Nat) (params : Params) :
    Except Stop (BitVec 64 × Bus) :=
  if !validSize size then .error (.panic "as_read_nommu: bad size %d\n")
  else readFrom host bus addr size params AddressSpace.rootChildren

/-- The read loop ends at the device the address selects. -/
theorem readFrom_route (host : Host) (bus : Bus) (addr : BitVec 64) (size : Nat) (params : Params)
    (children : List AddressSpace) :
    readFrom host bus addr size params children =
      bus.deviceRead host (AddressSpace.route children addr).1
        (AddressSpace.route children addr).2 size params := by
  induction children with
  | nil => rfl
  | cons child sibling ih =>
    -- Either this child takes the access, or both loops go on to the same siblings.
    by_cases inside : child.contains addr
    · simp [readFrom, AddressSpace.route, inside]
    · simp [readFrom, AddressSpace.route, inside, ih]

end Bus

end Xemu
