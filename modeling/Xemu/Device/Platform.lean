import Xemu.Util

/-! The real-time clock and the PCI host bridge. -/

namespace Xemu

/-! ### Real-time clock -/

/-- The fields of `rtc_t`. -/
structure Rtc where
  timeHigh : BitVec 32 := 0
  alarmNext : BitVec 64 := 0
  alarmRunning : BitVec 32 := 0
  deriving DecidableEq, Repr

namespace Rtc

/-- The function `rtc_read`, in which reading the low word latches the high one. -/
def read (host : Host) (rtc : Rtc) (addr : BitVec 64) : Except Stop (BitVec 64 × Rtc) :=
  match addr.toNat with
  | 0x00 =>
    let dword := host.realtime
    .ok (dword &&& 0xFFFFFFFF, { rtc with timeHigh := (dword >>> 32).setWidth 32 })
  | 0x04 => .ok (rtc.timeHigh.setWidth 64, rtc)
  | 0x08 => .ok (rtc.alarmNext &&& 0xFFFFFFFF, rtc)
  | 0x0c => .ok (rtc.alarmNext >>> 32, rtc)
  | 0x18 => .ok (rtc.alarmRunning.setWidth 64, rtc)
  | _ => .error (.panic "rtc_read: need to be implemented! 0x%lx, %lu\n")

/-- The function `rtc_write`, which implements no register. -/
def write (_ : Rtc) : Except Stop Rtc :=
  .error (.panic "rtc_write: need to be implemented! [0x%lx]: 0x%lx (%lu)\n")

end Rtc

/-! ### PCI host bridge -/

/-- The fields of `pci_host_t` that its handlers use. -/
structure PciHost where
  command : BitVec 16 := 0
  status : BitVec 16 := 0
  deriving DecidableEq, Repr

namespace PciHost

/-- The offsets of the six base address registers. -/
def isBaseAddress (addr : BitVec 64) : Bool :=
  addr ∈ [(0x10 : BitVec 64), 0x14, 0x18, 0x1c, 0x20, 0x24]

/-- The function `pci_host_read`. -/
def read (pciHost : PciHost) (addr : BitVec 64) (size : Nat) : Except Stop (BitVec 64) :=
  -- Behind the configuration space of the bridge there is no other device.
  if addr ≥ 256 then .ok (-1)
  -- The bridge has no memory of its own, so its base addresses are zero.
  else if isBaseAddress addr then .ok 0
  else
    match addr.toNat with
    | 0x00 => .ok (if size = 4 then 0x1b36 ||| (0x0008 <<< 16) else 0x1b36)
    | 0x02 => .ok 0x0008
    | 0x04 => .ok (pciHost.command.setWidth 64)
    | 0x06 => .ok (pciHost.status.setWidth 64)
    | 0x08 => .ok (if size = 4 then 0x0600 <<< 16 else 0)
    | 0x0a => .ok 0x0600
    | 0x0e => .ok 0
    | 0x2c => .ok 0x1af4
    | 0x2e => .ok 0x1100
    | 0x30 => .ok 0
    | 0x3d => .ok 0
    | _ => .error (.panic "pci_host_read: need to be implemented! [0x%lx]: (%lu)\n")

/-- The function `pci_host_write`. -/
def write (pciHost : PciHost) (addr data : BitVec 64) : Except Stop PciHost :=
  if addr = 0x04 then .ok { pciHost with command := data.setWidth 16 }
  -- A write to an unimplemented base address is ignored.
  else if isBaseAddress addr ∨ addr = 0x30 then .ok pciHost
  else .error (.panic "pci_host_write: need to be implemented! [0x%lx]: 0x%lx (%u)\n")

end PciHost

end Xemu
