import Xemu.Device.Memory

/-! The virtio transport: queue and device state, ring layout, and register access. -/

namespace Xemu

/-- The fields of `vring_t`. -/
structure Vring where
  num : BitVec 32 := 0
  align : BitVec 32 := 0
  desc : BitVec 64 := 0
  avail : BitVec 64 := 0
  used : BitVec 64 := 0
  deriving DecidableEq, Repr

/-- The fields of `vqueue_t`. -/
structure Vqueue where
  vring : Vring := {}
  lastAvailIdx : BitVec 16 := 0
  usedIdx : BitVec 16 := 0
  deriving DecidableEq, Repr

/-- The fields of `iovec_t`. -/
structure IoVec where
  base : BitVec 64
  len : BitVec 64
  flags : BitVec 32
  deriving DecidableEq, Repr

/-- The fields of `vq_request_t`, whose `num` is the length of its list of segments. -/
structure VqRequest where
  index : BitVec 32
  inLen : BitVec 32
  iov : List IoVec
  deriving DecidableEq, Repr

/-- The fields of `vring_desc_t`. -/
structure VringDesc where
  addr : BitVec 64
  len : BitVec 32
  flags : BitVec 16
  next : BitVec 16
  deriving DecidableEq, Repr

/-- The fields of `virtio_dev_t` that its handlers use. -/
structure VirtioDev where
  id : BitVec 32
  irqNum : BitVec 32
  isr : BitVec 8 := 0
  hostFeaturesSel : Bool := false
  guestFeatures : BitVec 64 := 0
  guestFeaturesSel : Bool := false
  guestPageShift : BitVec 32 := 0
  queueSel : BitVec 16 := 0
  status : BitVec 8 := 0
  vq : Vqueue := {}
  config : Buffer

/-! ### Ring layout -/

/-- The function `vring_align` on the macro `ALIGN_UP`. -/
def vringAlign (addr align : BitVec 64) : BitVec 64 :=
  (addr + align - 1) / align * align

/-- The function `vring_init`. -/
def vringInit (vring : Vring) (pfn : BitVec 64) (pageShift : BitVec 32) : Except Stop Vring :=
  let desc := pfn <<< pageShift.toNat
  -- The guest must have set up the ring before it gives its page.
  if vring.num = 0 ∨ desc = 0 ∨ vring.align = 0 then .error (.panic "vring_init: not yet setup\n")
  else
    -- The available ring follows the descriptors, and the used ring follows that, aligned.
    let avail := desc + vring.num.setWidth 64 * 16
    let used := vringAlign (avail + (4 + 2 * vring.num.setWidth 64)) (vring.align.setWidth 64)
    .ok { vring with desc, avail, used }

/-! ### Features -/

def virtioRingFEventIdx : BitVec 64 := 0x20000000
def virtioFVersion1 : BitVec 64 := 0x100000000
def virtioFAnyLayout : BitVec 64 := 0x08000000

/-- The constant `VIRTIO_COMMON_FEATURES`. -/
def virtioCommonFeatures : BitVec 64 := 0x01000000 ||| virtioFAnyLayout ||| 0x10000000 |||
  virtioRingFEventIdx

/-- The constant `VIRTIO_BLK_FEATURES`. -/
def virtioBlkFeatures : BitVec 64 :=
  0x4 ||| 0x10 ||| 0x40 ||| 0x200 ||| 0x400 ||| 0x800 ||| 0x2000 ||| 0x4000

/-- The function `virtio_blk_get_features`. -/
def virtioBlkGetFeatures : BitVec 64 :=
  let features := virtioCommonFeatures
  -- Without the modern version the free layout is dropped, and raw commands are offered.
  let features :=
    if features &&& virtioFVersion1 = 0 then (features &&& ~~~virtioFAnyLayout) ||| 0x80
    else features
  features ||| virtioBlkFeatures

/-! ### Registers -/

/-- The function `ctz32`. -/
def ctz32 (val : BitVec 32) : BitVec 32 :=
  BitVec.ofNat 32 (((List.range 32).find? fun i => val.getLsbD i).getD 32)

namespace VirtioDev

/-- The function `virtio_mmio_read`, for a slot with or without a backend. -/
def mmioRead (vdev : Option VirtioDev) (addr : BitVec 64) (size : Nat) :
    Except Stop (BitVec 64) :=
  let missing : Except Stop (BitVec 64) := .error (.undefined "member of a NULL backend")
  -- Behind the registers lies the configuration record, read byte by byte.
  if addr ≥ 0x100 then
    if size ≠ 1 then .error (.panic "virtio_mmio_read: bad size %ld\n")
    else
      match vdev with
      | none => .error (.panic "virtio_mmio_read: NO backend\n")
      | some vdev =>
        -- The index into the array of the record is not checked.
        if (addr - 0x100).toNat < vdev.config.size then vdev.config.read (addr - 0x100) 1
        else .error (.undefined "index outside the configuration record")
  else if size ≠ 4 then .error (.panic "virtio_mmio_read: bad size %ld\n")
  else
    -- A slot without a backend still identifies itself, as a device of no kind.
    match addr.toNat, vdev with
    | 0x000, _ => .ok 0x74726976
    | 0x004, _ => .ok 1
    | 0x008, none => .ok 0
    | 0x008, some vdev => .ok (vdev.id.setWidth 64)
    | 0x00c, _ => .ok 0x554D4558
    | 0x010, some vdev => .ok (if vdev.hostFeaturesSel then 0 else virtioBlkGetFeatures)
    | 0x034, _ => .ok 1024
    | 0x040, some vdev => .ok (vdev.vq.vring.desc >>> vdev.guestPageShift.toNat)
    | 0x060, some vdev => .ok (vdev.isr.setWidth 64)
    | 0x070, some vdev => .ok (vdev.status.setWidth 64)
    -- The device looks into a backend that is not there.
    | 0x010, none | 0x040, none | 0x060, none | 0x070, none => missing
    | _, _ => .error (.panic "virtio_mmio_read: bad reg addr 0x%lx\n")

/-- The offset of the register whose write makes the device look at its queue. -/
def queueNotify : BitVec 64 := 0x050

/-- The cases of `virtio_mmio_write` that only change the device's own fields. -/
def mmioWrite (vdev : VirtioDev) (addr data : BitVec 64) : Except Stop VirtioDev :=
  let vring := vdev.vq.vring
  match addr.toNat with
  | 0x014 => .ok { vdev with hostFeaturesSel := data != 0 }
  | 0x020 => .ok (if vdev.guestFeaturesSel then vdev else { vdev with guestFeatures := data })
  | 0x024 => .ok { vdev with guestFeaturesSel := data != 0 }
  | 0x028 =>
    let shift := ctz32 (data.setWidth 32)
    .ok { vdev with guestPageShift := if shift > 31 then 0 else shift }
  | 0x030 => .ok (if data < 1024 then { vdev with queueSel := data.setWidth 16 } else vdev)
  -- A page number sets up the ring, and zero takes it down.
  | 0x040 =>
    if data ≠ 0 then do
      let vring ← vringInit vring data vdev.guestPageShift
      return { vdev with vq.vring := vring }
    else .ok { vdev with vq.vring.desc := 0 }
  | 0x038 => .ok { vdev with vq.vring.num := data.setWidth 32 }
  | 0x03c => .ok { vdev with vq.vring.align := data.setWidth 32 }
  -- Writing a bit acknowledges it.
  | 0x064 => .ok { vdev with isr := vdev.isr &&& (~~~data).setWidth 8 }
  | 0x070 => .ok { vdev with status := (data &&& 0xFF).setWidth 8 }
  | _ => .error (.panic "virtio_mmio_write: bad reg addr 0x%lx\n")

/-- What `virtio_mmio_write` does in a slot without a backend. -/
def mmioWriteMissing (addr data : BitVec 64) : Except Stop Unit :=
  match addr.toNat with
  -- The one register whose case tests the data before it looks into the backend.
  | 0x030 => if data < 1024 then .error (.undefined "member of a NULL backend") else .ok ()
  | 0x014 | 0x020 | 0x024 | 0x028 | 0x040 | 0x038 | 0x03c | 0x050 | 0x064 | 0x070 =>
    .error (.undefined "member of a NULL backend")
  | _ => .error (.panic "virtio_mmio_write: bad reg addr 0x%lx\n")

end VirtioDev

/-! ### Block device -/

/-- What the thread `_routine` of the block device is doing. -/
inductive Worker where
  /-- It waits for a request in `_req`. -/
  | idle
  /-- It took a request and has not served it yet. -/
  | holding (req : VqRequest)
  /-- It is inside `_do_request`. -/
  | busy
  deriving DecidableEq, Repr

/-- The fields of `virtio_blk_t`, the local of its thread, and the disk file. -/
structure VirtioBlk where
  vdev : VirtioDev
  req : Option VqRequest := none
  worker : Worker := .idle
  disk : Buffer

namespace VirtioBlk

/-- The packed configuration record `virtio_blk_init_config` copies into `config`. -/
def initConfig (size : Nat) : Buffer :=
  let put (bytes : BitVec 64 → BitVec 8) (offset : BitVec 64) (count : Nat) (data : BitVec 64) :=
    LittleEndian.store bytes offset count data
  let bytes := put (fun _ => 0) 0 8 (BitVec.ofNat 64 size >>> 9)
  -- The maximal number of segments, the block size, and the writeback mode.
  let bytes := put bytes 12 4 254
  let bytes := put bytes 20 4 512
  let bytes := put bytes 32 1 1
  -- The limits of discard and write-zeroes requests.
  let bytes := put bytes 36 4 0x3FFFFF
  let bytes := put bytes 40 4 1
  let bytes := put bytes 44 4 1
  let bytes := put bytes 48 4 0x3FFFFF
  { bytes, size := 256 }

/-- The state `virtio_blk_init` leaves. -/
def init (disk : Buffer) (irqNum : BitVec 32) : VirtioBlk :=
  { vdev := { id := 2, irqNum, config := initConfig disk.size }, disk }

end VirtioBlk

end Xemu
