import Xemu.Machine.Bus

/-! The virtio queue in guest memory and the requests of the block device. -/

namespace Xemu.Bus

/-! ### Blobs and records in memory -/

/-- The bytes of a word, lowest first. -/
def wordBytes (data : BitVec 64) (count : Nat) : List (BitVec 8) :=
  (List.range count).map fun index => (data >>> (8 * index)).setWidth 8

/-- The word that lies at an offset in a list of bytes. -/
def bytesWord (bytes : List (BitVec 8)) (offset : BitVec 64) (count : Nat) : BitVec 64 :=
  LittleEndian.load 64 (fun at_ => bytes.getD at_.toNat 0) offset count

/-- A loop of `as_read_blob`, which reads equal chunks until none is left. -/
def readChunks (host : Host) (chunk : Nat) : Nat → Bus → BitVec 64 →
    Except Stop (List (BitVec 8) × Bus)
  | 0, bus, _ => .ok ([], bus)
  | left + 1, bus, addr => do
    let (data, bus) ← bus.asReadNommu host addr chunk .none
    let (rest, bus) ← readChunks host chunk left bus (addr + BitVec.ofNat 64 chunk)
    return (wordBytes data chunk ++ rest, bus)

/-- The function `as_read_blob`: doublewords first, and the remaining bytes one by one. -/
def asReadBlob (host : Host) (bus : Bus) (addr : BitVec 64) (size : Nat) :
    Except Stop (List (BitVec 8) × Bus) :=
  if addr.toNat % 8 ≠ 0 then .error (.panic "as_read_blob: not align to 8\n")
  else do
    -- Both loops advance the same pointer, so the bytes come out in order.
    let (front, bus) ← readChunks host 8 (size / 8) bus addr
    let (back, bus) ← readChunks host 1 (size % 8) bus (addr + BitVec.ofNat 64 (size / 8 * 8))
    return (front ++ back, bus)

/-- A write of the low bytes of a word to a physical address, whose result is not used. -/
abbrev Writer := Bus → BitVec 64 → Nat → BitVec 64 → Except Stop Bus

/-- A loop of `as_write_blob`, which writes equal chunks until none is left. -/
def writeChunks (write : Writer) (chunk : Nat) : Nat → Bus → BitVec 64 → List (BitVec 8) →
    Except Stop Bus
  | 0, bus, _, _ => .ok bus
  | left + 1, bus, addr, data => do
    let bus ← write bus addr chunk (bytesWord data 0 chunk)
    writeChunks write chunk left bus (addr + BitVec.ofNat 64 chunk) (data.drop chunk)

/-- The function `as_write_blob`. -/
def asWriteBlob (write : Writer) (bus : Bus) (addr : BitVec 64) (data : List (BitVec 8)) :
    Except Stop Bus :=
  if addr.toNat % 8 ≠ 0 then .error (.panic "as_write_blob: addr 0x%lx not align to 8\n")
  else do
    let size := data.length
    let bus ← writeChunks write 8 (size / 8) bus addr data
    writeChunks write 1 (size % 8) bus (addr + BitVec.ofNat 64 (size / 8 * 8))
      (data.drop (size / 8 * 8))

/-! ### Popping a request -/

/-- The descriptor `vring_desc_t` in sixteen bytes of memory. -/
def descOf (bytes : List (BitVec 8)) : VringDesc :=
  { addr := bytesWord bytes 0 8, len := (bytesWord bytes 8 4).setWidth 32,
    flags := (bytesWord bytes 12 2).setWidth 16, next := (bytesWord bytes 14 2).setWidth 16 }

/-- The segment a descriptor of an indirect table stands for. -/
def ioVecOf (desc : VringDesc) : IoVec :=
  { base := desc.addr, len := desc.len.setWidth 64,
    flags := if desc.flags &&& 0x2 ≠ 0 then 0x2 else 0x1 }

/--
The loop of `vring_desc_read_indirect`, with the room left in its local array.

The segments found so far are kept latest first.
-/
def readIndirectFrom (host : Host) (addr : BitVec 64) : Nat → Bus → BitVec 64 → List IoVec →
    BitVec 32 → Except Stop (List IoVec × BitVec 32 × Bus)
  | 0, bus, offset, _, _ => do
    -- The descriptor is read before its segment is stored past the end of the array.
    let _ ← bus.asReadBlob host (addr + offset) 16
    throw (.undefined "index outside the local segments")
  | room + 1, bus, offset, iov, inLen => do
    let (bytes, bus) ← bus.asReadBlob host (addr + offset) 16
    let desc := descOf bytes
    let iov := ioVecOf desc :: iov
    let inLen := if desc.flags &&& 0x2 ≠ 0 then inLen + desc.len else inLen
    -- Without the chaining flag this descriptor is the last one.
    if desc.flags &&& 0x1 = 0 then return (iov.reverse, inLen, bus)
    -- The next index is not checked against the table, so a chain may leave it or return into it.
    readIndirectFrom host addr room bus (desc.next.setWidth 64 * 16) iov inLen

/-- The function `vring_desc_read_indirect`. -/
def vringDescReadIndirect (host : Host) (bus : Bus) (head : BitVec 32) (addr : BitVec 64)
    (len : BitVec 32) : Except Stop (VqRequest × Bus) := do
  if len = 0 ∨ len.toNat % 16 ≠ 0 then throw (.panic "bad size %u for indirect table\n")
  let (iov, inLen, bus) ← readIndirectFrom host addr 1024 bus 0 [] 0
  return ({ index := head, inLen, iov }, bus)

/-- The function `vqueue_get_head`, for the index it is called with. -/
def vqueueGetHead (host : Host) (bus : Bus) (idx : BitVec 16) : Except Stop (BitVec 32 × Bus) := do
  let vring := bus.blk.vdev.vq.vring
  if vring.num = 0 then throw (.undefined "remainder of a division by zero")
  -- The index runs on past the ring, and its remainder is the slot.
  let slot := idx.setWidth 32 % vring.num
  let (head, bus) ← bus.asReadNommu host (vring.avail + (4 + 2 * slot.setWidth 64)) 2 .none
  let head := (head.setWidth 16).setWidth 32
  if head ≥ vring.num then throw (.panic "bad index %u\n")
  return (head, bus)

/-- The function `vqueue_pop`: the next request of the driver, if there is one. -/
def vqueuePop (host : Host) (write : Writer) (bus : Bus) :
    Except Stop (Option VqRequest × Bus) := do
  let (idx, bus) ← bus.asReadNommu host (bus.blk.vdev.vq.vring.avail + 2) 2 .none
  -- The driver has put nothing new into the available ring.
  if idx.setWidth 16 = bus.blk.vdev.vq.lastAvailIdx then return (none, bus)
  let last := bus.blk.vdev.vq.lastAvailIdx
  -- The index is advanced before the slot is read.
  let bus := { bus with blk.vdev.vq.lastAvailIdx := last + 1 }
  let (head, bus) ← bus.vqueueGetHead host last
  let vq := bus.blk.vdev.vq
  -- With event indices the driver is told from where on it should notify again.
  let bus ←
    if bus.blk.vdev.guestFeatures &&& virtioRingFEventIdx ≠ 0 then
      write bus (vq.vring.used + (4 + 8 * vq.vring.num.setWidth 64)) 2
        (vq.lastAvailIdx.setWidth 64)
    else .ok bus
  let (bytes, bus) ← bus.asReadBlob host
    (bus.blk.vdev.vq.vring.desc + head.setWidth 64 * 16) 16
  let desc := descOf bytes
  if desc.flags &&& 0x4 ≠ 0 then
    let (req, bus) ← bus.vringDescReadIndirect host head desc.addr desc.len
    return (some req, bus)
  else throw (.panic "vqueue_pop: now only support indirect desc table!\n")

/-! ### Serving a request -/

/-- The function `vring_used_write`. -/
def vringUsedWrite (write : Writer) (bus : Bus) (req : VqRequest) : Except Stop Bus := do
  let vq := bus.blk.vdev.vq
  if vq.vring.num = 0 then throw (.undefined "remainder of a division by zero")
  let idx := vq.usedIdx.setWidth 32 % vq.vring.num
  let pa := vq.vring.used + (4 + 8 * idx.setWidth 64)
  -- The element is written in two halves, and the index behind it makes it visible.
  let bus ← write bus pa 4 (req.index.setWidth 64)
  let bus ← write bus (pa + 4) 4 (req.inLen.setWidth 64)
  let usedIdx := bus.blk.vdev.vq.usedIdx + 1
  let bus := { bus with blk.vdev.vq.usedIdx := usedIdx }
  write bus (bus.blk.vdev.vq.vring.used + 2) 2 (usedIdx.setWidth 64)

/-- The function `_complete`. -/
def complete (write : Writer) (bus : Bus) (req : VqRequest) : Except Stop Bus := do
  -- The last segment is the one byte of the status.
  let status := (req.iov.getLast?.map (·.base)).getD 0
  let bus ← write bus status 1 0
  let bus ← vringUsedWrite write bus req
  let bus := { bus with blk.vdev.isr := bus.blk.vdev.isr ||| 0x1 }
  let plic ← bus.plic.signal bus.blk.vdev.irqNum
  return { bus with plic }

/-- The position `fseek` is asked for, which it refuses when it is negative. -/
def seekSector (sector : BitVec 64) : Option Nat :=
  let offset := sector * 512
  if offset.msb then none else some offset.toNat

/-- An `fread` of as many bytes as asked, which fails when the file ends before them. -/
def fileRead (disk : Buffer) (pos len : Nat) : Option (List (BitVec 8)) :=
  if len = 0 ∨ pos + len ≤ disk.size then
    some ((List.range len).map fun index => disk.bytes (BitVec.ofNat 64 (pos + index)))
  else none

/-- An `fwrite`, which extends the file with zeros up to a position past its end. -/
def fileWrite (disk : Buffer) (pos : Nat) (data : List (BitVec 8)) : Buffer :=
  if data.length = 0 then disk
  else
    { size := max disk.size (pos + data.length)
      bytes := fun at_ =>
        if pos ≤ at_.toNat ∧ at_.toNat < pos + data.length then data.getD (at_.toNat - pos) 0
        else if at_.toNat < disk.size then disk.bytes at_ else 0 }

/-- The loop of `_handle_read` over the data segments. -/
def readSegments (write : Writer) : List IoVec → Nat → Bus → Except Stop Bus
  | [], _, bus => .ok bus
  | segment :: rest, pos, bus =>
    match fileRead bus.blk.disk pos segment.len.toNat with
    -- The file ends inside the segment.
    | none => .error (.panic "_handle_read: cannot read file %s\n")
    | some data => do
      let bus ← asWriteBlob write bus segment.base data
      readSegments write rest (pos + segment.len.toNat) bus

/-- The function `_handle_read`. -/
def handleRead (write : Writer) (bus : Bus) (req : VqRequest) (sector : BitVec 64) :
    Except Stop Bus := do
  if req.iov.length < 3 then throw (.panic "_handle_read: bad request number %d\n")
  match seekSector sector with
  | none => throw (.panic "_handle_read: cannot seek sector(%u) of file %s\n")
  | some pos =>
    -- The first segment is the header and the last one the status.
    let bus ← readSegments write (req.iov.tail.dropLast) pos bus
    complete write bus req

/-- The function `_handle_write`, which takes exactly one data segment. -/
def handleWrite (host : Host) (write : Writer) (bus : Bus) (req : VqRequest)
    (sector : BitVec 64) : Except Stop Bus :=
  match req.iov with
  | [_, segment, _] => do
    -- The data is read before the file position is checked.
    let (data, bus) ← bus.asReadBlob host segment.base segment.len.toNat
    match seekSector sector with
    | none => throw (.panic "_handle_write: cannot seek sector(%u) of file %s\n")
    | some pos => complete write { bus with blk.disk := fileWrite bus.blk.disk pos data } req
  | _ => .error (.panic "_handle_write: bad request number %d\n")

/-- The function `_handle_flush`. -/
def handleFlush (write : Writer) (bus : Bus) (req : VqRequest) : Except Stop Bus :=
  if req.iov.length ≠ 2 then .error (.panic "_handle_flush: bad request number %d\n")
  else complete write bus req

/-- The function `_do_request`. -/
def doRequest (host : Host) (write : Writer) (bus : Bus) (req : VqRequest) : Except Stop Bus := do
  match req.iov.head? with
  | none => throw (.undefined "index outside the segments")
  | some header =>
    if header.len ≠ 16 ∨ header.flags &&& 0x1 = 0 then throw (.panic "_do_request: bad out header\n")
    let (bytes, bus) ← bus.asReadBlob host header.base 16
    -- The header holds the type, an unused word, and the sector.
    let type : BitVec 32 := (bytesWord bytes 0 4).setWidth 32
    let sector := bytesWord bytes 8 8
    -- The direction and the barrier flag do not count for the kind of request.
    match (type &&& ~~~(0x1 ||| 0x80000000)).toNat with
    | 0 =>
      if type &&& 0x1 ≠ 0 then handleWrite host write bus req sector
      else handleRead write bus req sector
    | 4 => handleFlush write bus req
    | _ => throw (.panic "_do_request: bad out type (%u)\n")

/-! ### The hand-over between the two threads -/

/-- The thread `_routine` takes the request out of `_req`. -/
def workerTake (bus : Bus) : Bus :=
  match bus.blk.worker, bus.blk.req with
  -- Taking the request frees the slot for the next one.
  | .idle, some req => { bus with blk.worker := .holding req, blk.req := none }
  | _, _ => bus

/-- The thread `_routine` serves the request it took. -/
def workerServe (host : Host) (write : Writer) (bus : Bus) : Except Stop Bus :=
  match bus.blk.worker with
  | .holding req => do
    -- While it is inside the request the thread is busy, which a nested notification may find.
    let bus ← doRequest host write { bus with blk.worker := .busy } req
    return { bus with blk.worker := .idle }
  | _ => .ok bus

/--
The function `virtio_blk_handle_request`.

While `_req` is taken it waits, and what must happen before it goes on is that the thread serves what it holds and takes the next request.
-/
def handleRequest (host : Host) (write : Writer) (bus : Bus) (req : VqRequest) :
    Except Stop Bus := do
  if bus.blk.req.isNone then return { bus with blk.req := some req }
  -- A thread that is inside a request and waits here waits for itself.
  if bus.blk.worker = .busy then throw .deadlock
  let bus ← workerServe host write bus
  let bus := bus.workerTake
  return { bus with blk.req := some req }

/-- The loop of `virtio_mmio_write` for a queue notification, up to a number of requests. -/
def notifyLoop (host : Host) (write : Writer) : Nat → Bus → Except Stop Bus
  | 0, _ => .error .fuel
  | left + 1, bus => do
    match ← vqueuePop host write bus with
    -- The loop ends when the queue is empty.
    | (none, bus) => return bus
    | (some req, bus) =>
      let bus ← handleRequest host write bus req
      notifyLoop host write left bus

/-- The function `virtio_mmio_write` for one slot. -/
def mmioWrite (host : Host) (write : Writer) (fuel : Nat) (bus : Bus) (slot : Fin 8)
    (addr data : BitVec 64) (size : Nat) : Except Stop Bus := do
  if size ≠ 4 then throw (.panic "virtio_mmio_write: bad size %ld\n")
  -- Only the first slot has a backend.
  if slot.val ≠ 0 then
    VirtioDev.mmioWriteMissing addr data
    return bus
  if addr = VirtioDev.queueNotify then notifyLoop host write fuel bus
  else
    let vdev ← bus.blk.vdev.mmioWrite addr data
    return { bus with blk.vdev := vdev }

end Xemu.Bus
