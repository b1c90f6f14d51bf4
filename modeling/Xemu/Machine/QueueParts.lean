import Xemu.Machine.Queue

/-! The functions of the queue, cut where another thread may come in between. -/

namespace Xemu.Bus

/-! ### Popping -/

/-- The function `virtio_queue_empty`. -/
def virtioQueueEmpty (host : Host) (bus : Bus) : Except Stop (Bool × Bus) := do
  let (idx, bus) ← bus.asReadNommu host (bus.blk.vdev.vq.vring.avail + 2) 2 .none
  return (idx.setWidth 16 == bus.blk.vdev.vq.lastAvailIdx, bus)

/-- The end of `vqueue_pop`, for the head of a chain. -/
def chainRequest (host : Host) (bus : Bus) (head : BitVec 32) : Except Stop (VqRequest × Bus) := do
  let (bytes, bus) ← bus.asReadBlob host
    (bus.blk.vdev.vq.vring.desc + head.setWidth 64 * 16) 16
  let desc := descOf bytes
  if desc.flags &&& 0x4 ≠ 0 then bus.vringDescReadIndirect host head desc.addr desc.len
  else throw (.panic "vqueue_pop: now only support indirect desc table!\n")

/-- What `vqueue_pop` does with a queue that is not empty. -/
def vqueueTake (host : Host) (write : Writer) (bus : Bus) : Except Stop (VqRequest × Bus) := do
  let last := bus.blk.vdev.vq.lastAvailIdx
  let bus := { bus with blk.vdev.vq.lastAvailIdx := last + 1 }
  let (head, bus) ← bus.vqueueGetHead host last
  let vq := bus.blk.vdev.vq
  let bus ←
    if bus.blk.vdev.guestFeatures &&& virtioRingFEventIdx ≠ 0 then
      write bus (vq.vring.used + (4 + 8 * vq.vring.num.setWidth 64)) 2
        (vq.lastAvailIdx.setWidth 64)
    else .ok bus
  bus.chainRequest host head

variable {host : Host} {write : Writer} {bus : Bus} {req : VqRequest}

/-- A request is popped by a look at the queue, and then out of it. -/
theorem vqueuePop_parts : bus.vqueuePop host write = (do
    let (empty, bus) ← bus.virtioQueueEmpty host
    if empty then return (none, bus)
    let (req, bus) ← bus.vqueueTake host write
    return (some req, bus)) := by
  -- The end is the same for every head, whether the event index was written before it or not.
  have chain (bus : Bus) (head : BitVec 32) : (do
      let (bytes, bus) ← bus.asReadBlob host
        (bus.blk.vdev.vq.vring.desc + head.setWidth 64 * 16) 16
      if (descOf bytes).flags &&& 0x4 ≠ 0 then
        let (req, bus) ← bus.vringDescReadIndirect host head (descOf bytes).addr (descOf bytes).len
        return (some req, bus)
      else throw (.panic "vqueue_pop: now only support indirect desc table!\n")) =
      (do
        let (req, bus) ← bus.chainRequest host head
        return (some req, bus)) := by
    unfold chainRequest
    simp only [bind_assoc]
    refine bind_congr fun read => ?_
    split <;> rfl
  unfold vqueuePop virtioQueueEmpty
  simp only [bind_assoc, pure_bind]
  refine bind_congr fun ⟨idx, bus⟩ => ?_
  by_cases same : idx.setWidth 16 = bus.blk.vdev.vq.lastAvailIdx
  · simp [same]
  · simp only [same, beq_iff_eq, if_false]
    unfold vqueueTake
    simp only [bind_assoc]
    refine bind_congr fun ⟨head, bus⟩ => ?_
    dsimp only
    split
    · simp only [bind_assoc]
      refine bind_congr fun bus => ?_
      exact chain bus head
    · exact chain bus head

/-! ### Serving -/

/-- What `_handle_read` does before `_complete`. -/
def readData (write : Writer) (bus : Bus) (req : VqRequest) (sector : BitVec 64) :
    Except Stop Bus := do
  if req.iov.length < 3 then throw (.panic "_handle_read: bad request number %d\n")
  match seekSector sector with
  | none => throw (.panic "_handle_read: cannot seek sector(%u) of file %s\n")
  | some pos => readSegments write (req.iov.tail.dropLast) pos bus

/-- What `_handle_write` does before `_complete`. -/
def writeData (host : Host) (bus : Bus) (req : VqRequest) (sector : BitVec 64) :
    Except Stop Bus :=
  match req.iov with
  | [_, segment, _] => do
    let (data, bus) ← bus.asReadBlob host segment.base segment.len.toNat
    match seekSector sector with
    | none => throw (.panic "_handle_write: cannot seek sector(%u) of file %s\n")
    | some pos => return { bus with blk.disk := fileWrite bus.blk.disk pos data }
  | _ => .error (.panic "_handle_write: bad request number %d\n")

/-- What `_handle_flush` does before `_complete`. -/
def flushData (bus : Bus) (req : VqRequest) : Except Stop Bus :=
  if req.iov.length ≠ 2 then .error (.panic "_handle_flush: bad request number %d\n")
  else .ok bus

/-- What `_do_request` does before `_complete`. -/
def requestData (host : Host) (write : Writer) (bus : Bus) (req : VqRequest) :
    Except Stop Bus := do
  match req.iov.head? with
  | none => throw (.undefined "index outside the segments")
  | some header =>
    if header.len ≠ 16 ∨ header.flags &&& 0x1 = 0 then throw (.panic "_do_request: bad out header\n")
    let (bytes, bus) ← bus.asReadBlob host header.base 16
    let type : BitVec 32 := (bytesWord bytes 0 4).setWidth 32
    let sector := bytesWord bytes 8 8
    match (type &&& ~~~(0x1 ||| 0x80000000)).toNat with
    | 0 =>
      if type &&& 0x1 ≠ 0 then writeData host bus req sector else readData write bus req sector
    | 4 => flushData bus req
    | _ => throw (.panic "_do_request: bad out type (%u)\n")

/-- A read moves its data, and then it is completed. -/
theorem handleRead_parts (sector : BitVec 64) : handleRead write bus req sector =
    readData write bus req sector >>= fun bus => complete write bus req := by
  unfold handleRead readData
  cases seekSector sector <;> (dsimp only; split <;> rfl)

/-- So does a write. -/
theorem handleWrite_parts (sector : BitVec 64) : handleWrite host write bus req sector =
    writeData host bus req sector >>= fun bus => complete write bus req := by
  unfold handleWrite writeData
  rcases req.iov with _ | ⟨header, _ | ⟨segment, _ | ⟨status, _ | ⟨fourth, rest⟩⟩⟩⟩
  -- Only three segments make a write.
  case cons.cons.cons.nil =>
    simp only [bind_assoc]
    refine bind_congr fun read => ?_
    cases seekSector sector <;> rfl
  all_goals rfl

/-- A flush has no data, and is completed as they are. -/
theorem handleFlush_parts : handleFlush write bus req =
    flushData bus req >>= fun bus => complete write bus req := by
  unfold handleFlush flushData
  split <;> rfl

/-- The data of a request is moved, and then the request is completed. -/
theorem doRequest_parts : doRequest host write bus req =
    requestData host write bus req >>= fun bus => complete write bus req := by
  unfold doRequest requestData
  cases req.iov.head? with
  | none => rfl
  | some header =>
    dsimp only
    split
    · rfl
    · cases bus.asReadBlob host header.base 16 with
      | error stop => rfl
      | ok read =>
        obtain ⟨bytes, bus⟩ := read
        simp only [ok_bind, handleRead_parts, handleWrite_parts, handleFlush_parts]
        generalize (BitVec.setWidth 32 (bytesWord bytes 0 4) &&& ~~~(1 ||| 2147483648)).toNat = kind
        -- The kind decides for both sides alike.
        rcases kind with _ | _ | _ | _ | _ | other
        case zero =>
          by_cases output : BitVec.setWidth 32 (bytesWord bytes 0 4) &&& 1 ≠ 0
          · simp only [if_pos output]
          · simp only [if_neg output]
        all_goals rfl

/-- The status byte of a request, which `_complete` writes first. -/
def writeStatus (write : Writer) (bus : Bus) (req : VqRequest) : Except Stop Bus :=
  write bus ((req.iov.getLast?.map (·.base)).getD 0) 1 0

/-- The address of the element that `vring_used_write` is going to write. -/
def nextElement (bus : Bus) : Except Stop (BitVec 64) := do
  let vq := bus.blk.vdev.vq
  if vq.vring.num = 0 then throw (.undefined "remainder of a division by zero")
  let idx := vq.usedIdx.setWidth 32 % vq.vring.num
  return vq.vring.used + (4 + 8 * idx.setWidth 64)

/-- What `_complete` does once the element is written. -/
def publish (write : Writer) (bus : Bus) : Except Stop Bus := do
  let usedIdx := bus.blk.vdev.vq.usedIdx + 1
  let bus := { bus with blk.vdev.vq.usedIdx := usedIdx }
  let bus ← write bus (bus.blk.vdev.vq.vring.used + 2) 2 (usedIdx.setWidth 64)
  let bus := { bus with blk.vdev.isr := bus.blk.vdev.isr ||| 0x1 }
  let plic ← bus.plic.signal bus.blk.vdev.irqNum
  return { bus with plic }

/-- A request is completed by its status, the two halves of its element, and their index. -/
theorem complete_parts : complete write bus req = (do
    let bus ← writeStatus write bus req
    let addr ← bus.nextElement
    let bus ← write bus addr 4 (req.index.setWidth 64)
    let bus ← write bus (addr + 4) 4 (req.inLen.setWidth 64)
    publish write bus) := by
  -- The place of the element is the step that stops at a queue without a size.
  unfold complete vringUsedWrite writeStatus nextElement publish
  refine bind_congr fun bus => ?_
  dsimp only
  split
  · rfl
  · simp only [bind_assoc, pure_bind]

end Xemu.Bus
