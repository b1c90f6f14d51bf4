import Xemu.Machine.Chain
import Xemu.Proofs.Disk

/-! Which of the requests that the block device invites a driver to send it serves. -/

namespace Xemu

/-! ### What a driver may send -/

/-- The kinds of requests that the features of the block device allow. -/
inductive BlkKind where
  | read
  | write
  | flush
  | discard
  | writeZeroes
  deriving DecidableEq, Repr

/-- The most data segments that the configuration of a disk of some size has for the driver. -/
def segMax (size : Nat) : Nat :=
  (LittleEndian.load 64 (VirtioBlk.initConfig size).bytes 12 4).toNat

/-- The configuration allows 254 of them. -/
theorem segMax_eq (size : Nat) : segMax size = 254 := by
  have apart : ∀ {mem : BitVec 64 → BitVec 8} {data : BitVec 64} (offset : BitVec 64) (count : Nat),
      16 ≤ offset.toNat → offset.toNat + count ≤ 256 →
        LittleEndian.load 64 (LittleEndian.store mem offset count data) 12 4 =
          LittleEndian.load 64 mem 12 4 := by
    intro mem data offset count behind last
    exact LittleEndian.load_store_apart (by decide) (by omega) (.inl behind)
  unfold segMax VirtioBlk.initConfig
  dsimp only
  -- The other fields lie behind this one, and the capacity before it.
  rw [apart 48 4 (by decide) (by decide), apart 44 4 (by decide) (by decide),
    apart 40 4 (by decide) (by decide), apart 36 4 (by decide) (by decide),
    apart 32 1 (by decide) (by decide), apart 20 4 (by decide) (by decide),
    LittleEndian.load_store_same (by decide)]
  rfl

namespace BlkKind

/-- The type in the header of a request. -/
def type : BlkKind → BitVec 32
  | .read => 0
  | .write => 1
  | .flush => 4
  | .discard => 11
  | .writeZeroes => 13

/-- The data segments that a request to a disk of some size may have. -/
def Allows (kind : BlkKind) (size : Nat) (data : List IoVec) : Prop :=
  match kind with
  -- The device fills the segments of a read and reads those of a write.
  | .read => 0 < data.length ∧ data.length ≤ segMax size ∧ ∀ segment ∈ data, segment.flags = 2
  | .write => 0 < data.length ∧ data.length ≤ segMax size ∧ ∀ segment ∈ data, segment.flags = 1
  | .flush => data = []
  -- One record says which sectors are meant.
  | .discard | .writeZeroes => ∃ record, data = [record] ∧ record.len = 16 ∧ record.flags = 1

/-- The place of the disk that a request is about, and its length. -/
def span (kind : BlkKind) (mem : BitVec 64 → BitVec 8) (header : IoVec) (data : List IoVec) :
    Nat × Nat :=
  match kind, data with
  | .read, _ | .write, _ =>
    (512 * (Bus.bytesWord (Bytes.get mem header.base 16) 8 8).toNat, Bus.total data)
  | .discard, record :: _ | .writeZeroes, record :: _ =>
    (512 * (Bus.bytesWord (Bytes.get mem record.base 16) 0 8).toNat,
      512 * (Bus.bytesWord (Bytes.get mem record.base 16) 8 4).toNat)
  | _, _ => (0, 0)

/-- What `_do_request` calls for a request of a kind. -/
def handle (kind : BlkKind) (host : Host) (write : Bus.Writer) (bus : Bus) (req : VqRequest)
    (sector : BitVec 64) : Except Stop Bus :=
  match kind with
  | .read => Bus.handleRead write bus req sector
  | .write => Bus.handleWrite host write bus req sector
  | .flush => Bus.handleFlush write bus req
  | .discard | .writeZeroes => .error (.panic "_do_request: bad out type (%u)\n")

section Dispatch

variable {kind : BlkKind} {host : Host} {write : Bus.Writer} {bus : Bus} {req : VqRequest}
  {header : IoVec} {rest : List IoVec}

/-- The device reads the header and goes by its type. -/
theorem doRequest_eq (whole : bus.ram.size = ramSize) (shape : req.iov = header :: rest)
    (out : header.len = 16 ∧ header.flags = 1) (aligned : header.base.toNat % 8 = 0)
    (placed : InMemory header.base 16)
    (type : (Bus.bytesWord (Bytes.get bus.memory header.base 16) 0 4).setWidth 32 = kind.type) :
    Bus.doRequest host write bus req = kind.handle host write bus req
      (Bus.bytesWord (Bytes.get bus.memory header.base 16) 8 8) := by
  have read := Bus.asReadBlob_memory whole host aligned placed
  -- A header of sixteen bytes the device may read passes the assertions.
  have accepted : ¬ (header.len ≠ 16 ∨ header.flags &&& 0x1 = 0) := by
    rw [out.1, out.2]
    decide
  rw [Bus.doRequest, shape]
  simp only [List.head?_cons, if_neg accepted]
  rw [read]
  simp only [ok_bind, type]
  cases kind <;> rfl

/-- A header that is not aligned stops the device. -/
theorem doRequest_unaligned (shape : req.iov = header :: rest)
    (unaligned : header.base.toNat % 8 ≠ 0) : ∃ stop, Bus.doRequest host write bus req = .error stop := by
  rw [Bus.doRequest, shape]
  simp only [List.head?_cons]
  split
  · exact ⟨_, rfl⟩
  · rw [Bus.asReadBlob, if_pos unaligned]
    exact ⟨_, rfl⟩

/-- A read that completes found all its segments aligned. -/
theorem readSegments_aligned {segments : List IoVec} {pos : Nat} {after : Bus}
    (done : Bus.readSegments write segments pos bus = .ok after) :
    ∀ segment ∈ segments, segment.base.toNat % 8 = 0 := by
  -- Every segment is stored with the check of the blob, whatever the file gives.
  induction segments generalizing pos bus with
  | nil => simp
  | cons segment rest ih =>
    rw [Bus.readSegments] at done
    cases read : Bus.fileRead bus.blk.disk pos segment.len.toNat with
    | none =>
      rw [read] at done
      cases done
    | some data =>
      rw [read] at done
      obtain ⟨middle, stored, remaining⟩ := bind_eq_ok.mp done
      refine List.forall_mem_cons.mpr ⟨?_, ih remaining⟩
      by_contra unaligned
      rw [Bus.asWriteBlob, if_pos unaligned] at stored
      cases stored

/-- What the device completes is a read, a flush or a write of one segment, and its data is aligned. -/
theorem handle_ok {sector : BitVec 64} {after : Bus} {data : List IoVec} {status : IoVec}
    (shape : req.iov = header :: (data ++ [status]))
    (done : kind.handle host write bus req sector = .ok after) :
    (kind = .flush ∨ ∀ segment ∈ data, segment.base.toNat % 8 = 0) ∧
      (kind = .read ∨ kind = .flush ∨ kind = .write ∧ data.length = 1) := by
  cases kind with
  | discard | writeZeroes => cases done
  | flush => exact ⟨.inl rfl, .inr (.inl rfl)⟩
  | read =>
    refine ⟨.inr ?_, .inl rfl⟩
    rw [handle, Bus.handleRead] at done
    by_cases few : req.iov.length < 3
    · rw [if_pos few] at done
      cases done
    · rw [if_neg few] at done
      dsimp only at done
      cases position : Bus.seekSector sector with
      | none =>
        rw [position] at done
        cases done
      | some pos =>
        rw [position] at done
        obtain ⟨filled, read, completed⟩ := bind_eq_ok.mp done
        rw [shape, List.tail_cons, List.dropLast_concat] at read
        exact readSegments_aligned read
  | write =>
    rw [handle, Bus.handleWrite, shape] at done
    -- The switch on the segments has a case for one of data alone.
    obtain _ | ⟨segment, _ | ⟨second, _ | ⟨third, more⟩⟩⟩ := data
    · cases done
    · refine ⟨.inr fun other member => ?_, .inr (.inr ⟨rfl, rfl⟩)⟩
      rw [List.mem_singleton.mp member]
      by_contra unaligned
      rw [List.singleton_append] at done
      dsimp only at done
      rw [Bus.asReadBlob, if_pos unaligned] at done
      cases done
    · cases done
    · cases done

end Dispatch

end BlkKind

/-- A request that a driver may send, as the next one in guest memory. -/
structure DriverRequest where
  /-- What the device takes from outside the emulator. -/
  host : Host
  /-- The queue work a store may do is enough for the device's own stores. -/
  fuel : 0 < host.fuel
  /-- The machine. -/
  bus : Bus
  /-- The address of the indirect table. -/
  table : BitVec 64
  /-- The number of its entries. -/
  entries : Nat
  /-- The descriptors of the request. -/
  chain : List VringDesc
  /-- The chain lies in the table, which the next head of the available ring stands for. -/
  posted : bus.Posted table entries chain
  /-- The segment of the header. -/
  header : IoVec
  /-- The segments of the data. -/
  data : List IoVec
  /-- The segment of the status. -/
  status : IoVec
  /-- The three kinds of segments come in this order. -/
  shape : chain.map Bus.ioVecOf = header :: (data ++ [status])
  /-- The header is sixteen bytes for the device to read. -/
  headerOut : header.len = 16 ∧ header.flags = 1
  /-- The status is one byte for the device to write. -/
  statusIn : status.len = 1 ∧ status.flags = 2
  /-- The segments lie in RAM. -/
  placed : ∀ segment ∈ header :: (data ++ [status]), InMemory segment.base segment.len.toNat
  /-- No two segments meet. -/
  apart : (header :: (data ++ [status])).Pairwise fun one other =>
    Apart one.base one.len.toNat other.base other.len.toNat
  /-- No segment meets the used ring. -/
  ring : ∀ segment ∈ header :: (data ++ [status]), Apart segment.base segment.len.toNat
    bus.blk.vdev.vq.vring.used (bus.blk.vdev.vq.vring.usedSize + 2)
  /-- The disk file has a size. -/
  small : bus.blk.disk.size < 2 ^ 63
  /-- The kind of the request. -/
  kind : BlkKind
  /-- The header asks for that kind. -/
  type : (Bus.bytesWord (Bytes.get bus.memory header.base 16) 0 4).setWidth 32 = kind.type
  /-- The data segments are some that the kind allows. -/
  allowed : kind.Allows bus.blk.disk.size data
  /-- The request is about a part of the disk. -/
  inside : (kind.span bus.memory header data).1 + (kind.span bus.memory header data).2 ≤
    advertised bus.blk.disk.size

namespace DriverRequest

variable (r : DriverRequest)

/-- The position on the disk that the request is about. -/
def start : Nat := (r.kind.span r.bus.memory r.header r.data).1

/-- The number of bytes that the request is about. -/
def length : Nat := (r.kind.span r.bus.memory r.header r.data).2

/-- The bytes of the disk outside the request are as before, and so is its size. -/
def KeepsRest (after : Bus) : Prop :=
  after.blk.disk.size = r.bus.blk.disk.size ∧ ∀ at_ : BitVec 64, at_.toNat < r.bus.blk.disk.size →
    at_.toNat < r.start ∨ r.start + r.length ≤ at_.toNat →
      after.blk.disk.bytes at_ = r.bus.blk.disk.bytes at_

/-- The bytes of a data segment stand for successive bytes of the disk, from the start of the request on. -/
def Moved (mem : BitVec 64 → BitVec 8) (disk : Buffer) : Prop :=
  ∀ front segment back, r.data = front ++ segment :: back → ∀ index < segment.len.toNat,
    mem (segment.base + BitVec.ofNat 64 index) =
      disk.bytes (BitVec.ofNat 64 (r.start + Bus.total front + index))

/-- The device has done what the request is for. -/
def Acts (after : Bus) : Prop :=
  match r.kind with
  | .read => after.blk.disk = r.bus.blk.disk ∧ r.Moved after.memory r.bus.blk.disk
  | .write => r.KeepsRest after ∧ r.Moved r.bus.memory after.blk.disk
  | .flush => after.blk.disk = r.bus.blk.disk
  -- What is discarded may read as anything.
  | .discard => r.KeepsRest after
  | .writeZeroes => r.KeepsRest after ∧ ∀ at_ : BitVec 64,
    r.start ≤ at_.toNat → at_.toNat < r.start + r.length → after.blk.disk.bytes at_ = 0

/-- The device pops the request and serves it, acts on its data, and answers in status and ring. -/
def Served : Prop :=
  ∃ req popped after,
    r.bus.vqueuePop r.host (Bus.nestedWriter r.host r.host.fuel) = .ok (some req, popped) ∧
    Bus.doRequest r.host (Bus.nestedWriter r.host r.host.fuel) popped req = .ok after ∧
    r.Acts after ∧
    after.memory r.status.base = 0 ∧
    after.usedEntry r.bus.blk.vdev.vq.usedIdx =
      (r.bus.availHead r.bus.blk.vdev.vq.lastAvailIdx, Bus.addIn 0 r.chain) ∧
    after.usedRingIdx = r.bus.blk.vdev.vq.usedIdx + 1

/-- The requests that the code has a case for: reads, flushes and short writes, all of them aligned. -/
structure Handled : Prop where
  table : r.table.toNat % 8 = 0
  header : r.header.base.toNat % 8 = 0
  data : ∀ segment ∈ r.data, segment.base.toNat % 8 = 0
  kind : r.kind = .read ∨ r.kind = .flush ∨ r.kind = .write ∧ r.data.length = 1

/-! ### The request as the device pops it -/

/-- The request that the device pops. -/
def req : VqRequest :=
  { index := r.bus.availHead r.bus.blk.vdev.vq.lastAvailIdx
    inLen := Bus.addIn 0 r.chain
    iov := r.chain.map Bus.ioVecOf }

variable {r}

/-- The writer of the device reaches RAM. -/
theorem plain (r : DriverRequest) : (Bus.nestedWriter r.host r.host.fuel).Plain :=
  Bus.nestedWriter_plain r.host r.fuel

/-- The chain of a request that the device offers to serve is short enough for it. -/
theorem room (r : DriverRequest) : r.chain.length ≤ 1024 := by
  have length := congrArg List.length r.shape
  simp only [List.length_map, List.length_cons, List.length_append, List.length_nil] at length
  have allowed := r.allowed
  -- The announced limit on the segments leaves two descriptors for header and status.
  have few : r.data.length ≤ 254 := by
    cases kind : r.kind with
    | read | write =>
      rw [kind, BlkKind.Allows, segMax_eq] at allowed
      exact allowed.2.1
    | flush =>
      rw [kind, BlkKind.Allows] at allowed
      rw [allowed]
      decide
    | discard | writeZeroes =>
      rw [kind, BlkKind.Allows] at allowed
      obtain ⟨record, single, _⟩ := allowed
      simp [single]
  omega

/-- What is told to the driver leaves every segment as it was. -/
theorem popped_segment {segment : IoVec}
    (member : segment ∈ r.header :: (r.data ++ [r.status])) {index : Nat}
    (inside : index < segment.len.toNat) :
    r.bus.popped.memory (segment.base + BitVec.ofNat 64 index) =
      r.bus.memory (segment.base + BitVec.ofNat 64 index) := by
  rw [Bus.popped, Bus.memory_setMemory]
  exact Bus.toldMemory_outside ((r.ring _ member).outside (r.placed _ member) r.posted.event inside)

/-- The header lies in RAM. -/
theorem headerPlaced (r : DriverRequest) : InMemory r.header.base 16 := by
  have placed := r.placed r.header List.mem_cons_self
  rw [r.headerOut.1] at placed
  exact placed

/-- The status is among the segments. -/
theorem status_mem (r : DriverRequest) : r.status ∈ r.header :: (r.data ++ [r.status]) := by simp

/-- The status byte lies in RAM. -/
theorem statusPlaced (r : DriverRequest) : InMemory r.status.base 1 := by
  have placed := r.placed r.status r.status_mem
  rw [r.statusIn.1] at placed
  exact placed

/-- The device finds the header as the driver left it. -/
theorem popped_header (r : DriverRequest) :
    Bytes.get r.bus.popped.memory r.header.base 16 = Bytes.get r.bus.memory r.header.base 16 := by
  refine List.map_congr_left fun index listed => popped_segment List.mem_cons_self ?_
  rw [r.headerOut.1]
  exact List.mem_range.mp listed

/-- The segments of the popped request. -/
theorem shape_req (r : DriverRequest) : r.req.iov = r.header :: (r.data ++ [r.status]) := r.shape

/-- The device pops the request where its table is aligned. -/
theorem pops (r : DriverRequest) (table : r.table.toNat % 8 = 0) :
    r.bus.vqueuePop r.host (Bus.nestedWriter r.host r.host.fuel) =
      .ok (some r.req, r.bus.popped) :=
  Bus.vqueuePop_posted r.plain r.posted r.room table

/-- The device goes by the kind of the request where its header is aligned. -/
theorem serves (r : DriverRequest) (header : r.header.base.toNat % 8 = 0) :
    Bus.doRequest r.host (Bus.nestedWriter r.host r.host.fuel) r.bus.popped r.req =
      r.kind.handle r.host (Bus.nestedWriter r.host r.host.fuel) r.bus.popped r.req
        (Bus.bytesWord (Bytes.get r.bus.memory r.header.base 16) 8 8) := by
  rw [BlkKind.doRequest_eq r.posted.toReady.popped.whole r.shape_req r.headerOut header
    r.headerPlaced (by rw [popped_header]; exact r.type), popped_header]

/-- What the device completes of the requests it is offered is handled. -/
theorem Served.handled (served : r.Served) : r.Handled := by
  obtain ⟨req, popped, after, pop, done, -⟩ := served
  -- Each misalignment stops the device where it meets it: at the table, then at the header.
  have table : r.table.toNat % 8 = 0 := by
    by_contra unaligned
    obtain ⟨stop, failed⟩ := Bus.vqueuePop_unaligned r.plain r.posted unaligned r.host
    rw [failed] at pop
    cases pop
  rw [r.pops table] at pop
  cases Except.ok.inj pop
  have header : r.header.base.toNat % 8 = 0 := by
    by_contra unaligned
    obtain ⟨stop, failed⟩ := BlkKind.doRequest_unaligned r.shape_req unaligned
    rw [failed] at done
    cases done
  rw [r.serves header] at done
  obtain ⟨data, kind⟩ := BlkKind.handle_ok r.shape_req done
  refine ⟨table, header, data.elim (fun flush => ?_) id, kind⟩
  have allowed := r.allowed
  rw [flush, BlkKind.Allows] at allowed
  simp [allowed]

/-! ### The answer -/

/-- The last segment of the popped request is that of its status. -/
theorem last_req (r : DriverRequest) : r.req.iov.getLast? = some r.status := by
  rw [r.shape_req, ← List.cons_append, List.getLast?_concat]

/-- A segment has no byte in common with the used ring. -/
theorem ring_outside {segment : IoVec} (member : segment ∈ r.header :: (r.data ++ [r.status]))
    {index : Nat} (inside : index < segment.len.toNat) :
    r.bus.blk.vdev.vq.vring.usedSize ≤
      (segment.base + BitVec.ofNat 64 index - r.bus.blk.vdev.vq.vring.used).toNat := by
  have outside := (r.ring _ member).outside (r.placed _ member) r.posted.event inside
  omega

/-- Serving a request leaves its answer in the status byte and in the used ring. -/
theorem answer {after : Bus} (done : Bus.doRequest r.host
      (Bus.nestedWriter r.host r.host.fuel) r.bus.popped r.req = .ok after) :
    after.memory r.status.base = 0 ∧
      after.usedEntry r.bus.blk.vdev.vq.usedIdx =
        (r.bus.availHead r.bus.blk.vdev.vq.lastAvailIdx, Bus.addIn 0 r.chain) ∧
      after.usedRingIdx = r.bus.blk.vdev.vq.usedIdx + 1 := by
  have narrow : ∀ vdev size count, count ≠ 4 → Bus.WritesSize (Bus.Settled vdev size)
      Stop.Ordinary (Bus.nestedWriter r.host r.host.fuel) count :=
    fun _ _ _ other => Bus.nestedWriter_narrow other r.host.fuel
  have ready := r.posted.toReady.popped.toServes
  have ended := Bus.doRequest_ended r.plain narrow ready r.host r.req after done
  refine ⟨?_, ended.entry, ended.idx⟩
  obtain ⟨last, settled, completed⟩ := Bus.doRequest_settled narrow r.host r.req after done
  obtain ⟨plic, result⟩ :=
    Bus.complete_memory r.plain (ready.settled settled) r.last_req r.statusPlaced
  rw [result] at completed
  cases Except.ok.inj completed
  -- The status byte is none of the used ring's, so what is left there is the zero.
  rw [Bus.memory_setMemory]
  refine Bus.completed_status (ready.settled settled).some r.req ?_
  have outside := ring_outside r.status_mem (show 0 < r.status.len.toNat by rw [r.statusIn.1]; decide)
  have base : r.status.base + BitVec.ofNat 64 0 = r.status.base := BitVec.add_zero _
  rw [base] at outside
  rw [settled.vdev]
  exact outside

/-! ### The data -/

section Data

variable (header : r.header.base.toNat % 8 = 0)
  (data : ∀ segment ∈ r.data, segment.base.toNat % 8 = 0)

/-- A read or a write as one that the disk is asked for. -/
def block (kind : r.kind = .read ∨ r.kind = .write) : BlockRequest where
  host := r.host
  fuel := r.fuel
  bus := r.bus.popped
  serves := r.posted.toReady.popped.toServes
  req := r.req
  header := r.header
  data := r.data
  status := r.status
  shape := r.shape_req
  headerOut := by
    rw [r.headerOut.1, r.headerOut.2]
    decide
  headerPlaced := ⟨header, r.headerPlaced⟩
  dataPlaced := fun segment member => ⟨data segment member, r.placed segment (by simp [member])⟩
  statusPlaced := r.statusPlaced
  kind := by
    rw [popped_header, r.type]
    rcases kind with kind | kind <;> rw [kind] <;> decide

variable (kind : r.kind = .read ∨ r.kind = .write)

/-- It is about the same part of the disk. -/
theorem block_span :
    (r.block header data kind).start = r.start ∧ (r.block header data kind).length = r.length := by
  have span : r.kind.span r.bus.memory r.header r.data =
      (512 * (Bus.bytesWord (Bytes.get r.bus.memory r.header.base 16) 8 8).toNat,
        Bus.total r.data) := by
    -- Reads and writes take their sector from the same place of the header.
    rcases kind with kind | kind <;> rw [kind] <;> rfl
  constructor
  · rw [BlockRequest.start, BlockRequest.sector, start, span]
    change 512 * (Bus.bytesWord (Bytes.get r.bus.popped.memory r.header.base 16) 8 8).toNat = _
    rw [popped_header]
  · rw [length, span]
    rfl

/-- It is a write if the driver asked for one. -/
theorem block_isWrite : (r.block header data kind).isWrite ↔ r.kind = .write := by
  have type : (r.block header data kind).type = r.kind.type := by
    change (Bus.bytesWord (Bytes.get r.bus.popped.memory r.header.base 16) 0 4).setWidth 32 = _
    rw [popped_header, r.type]
  rw [BlockRequest.isWrite, type]
  rcases kind with kind | kind <;> rw [kind] <;> decide

/-- It lies within the capacity. -/
theorem block_within : (r.block header data kind).Within (advertised r.bus.blk.disk.size) := by
  obtain ⟨start, length⟩ := block_span header data kind
  rw [BlockRequest.Within, start, length]
  exact r.inside

/-- The disk does what it is asked for. -/
theorem block_obeyed : (r.block header data kind).Obeyed (advertised r.bus.blk.disk.size)
    r.bus.blk.disk := by
  exact (BlockRequest.obeyed_iff (advertised_le r.small) r.small).mpr fun _ _ _ =>
    .inl (block_within header data kind)

end Data

/-- A data segment meets neither a later one nor the status. -/
theorem data_apart {front back : List IoVec} {segment : IoVec}
    (split : r.data = front ++ segment :: back) {index : Nat} (inside : index < segment.len.toNat) :
    (∀ later ∈ back, later.len.toNat ≤
      (segment.base + BitVec.ofNat 64 index - later.base).toNat) ∧
      segment.base + BitVec.ofNat 64 index ≠ r.status.base := by
  have apart := r.apart
  have placed := r.placed
  rw [split] at apart placed
  simp only [List.append_assoc, List.cons_append, List.pairwise_cons, List.pairwise_append] at apart
  -- Of the buffers that are apart two by two, those that come after the segment.
  obtain ⟨_, _, ⟨latter, _⟩, _⟩ := apart
  have here := placed segment (by simp)
  refine ⟨fun later member => ?_, fun same => ?_⟩
  · exact (latter later (by simp [member])).outside here (placed later (by simp [member])) inside
  · have status := (latter r.status (by simp)).outside here (placed r.status (by simp)) inside
    rw [same, r.statusIn.1, BitVec.sub_self] at status
    exact absurd status (by decide)

/-- A flush is ended at once. -/
theorem acts_flush (header : r.header.base.toNat % 8 = 0) (kind : r.kind = .flush) :
    ∃ after, Bus.doRequest r.host (Bus.nestedWriter r.host r.host.fuel) r.bus.popped r.req =
      .ok after ∧ r.Acts after := by
  have none : r.data = [] := by
    have allowed := r.allowed
    rw [kind] at allowed
    exact allowed
  have two : r.req.iov.length = 2 := by
    rw [r.shape_req, none]
    rfl
  -- All that is left is the status byte and the used ring.
  obtain ⟨plic, result⟩ :=
    Bus.complete_memory r.plain r.posted.toReady.popped.toServes r.last_req r.statusPlaced
  rw [r.serves header, kind, BlkKind.handle, Bus.handleFlush, if_neg (not_not.mpr two), result]
  refine ⟨_, rfl, ?_⟩
  rw [Acts, kind]
  rfl

/-- A read fills its segments. -/
theorem acts_read (header : r.header.base.toNat % 8 = 0)
    (data : ∀ segment ∈ r.data, segment.base.toNat % 8 = 0) (kind : r.kind = .read) :
    ∃ after, Bus.doRequest r.host (Bus.nestedWriter r.host r.host.fuel) r.bus.popped r.req =
      .ok after ∧ r.Acts after := by
  have some : r.data ≠ [] := by
    have allowed := r.allowed
    rw [kind] at allowed
    exact List.length_pos_iff.mp allowed.1
  have read : ¬ (r.block header data (.inl kind)).isWrite := by
    rw [block_isWrite, kind]
    decide
  obtain ⟨after, done, file, -, -, -, filled⟩ := (block_obeyed header data (.inl kind)).read read
    some (block_within header data (.inl kind))
  refine ⟨after, done, ?_⟩
  rw [Acts, kind]
  refine ⟨file, fun front segment back split index inside => ?_⟩
  -- No later segment, nor the answer, overwrites what this one got.
  have apart := data_apart split inside
  have member : segment ∈ r.header :: (r.data ++ [r.status]) := by simp [split]
  rw [filled front segment back split index inside apart.1 ⟨apart.2, ring_outside member inside⟩,
    (block_span header data (.inl kind)).1]

/-- A write of one segment stores it. -/
theorem acts_write (header : r.header.base.toNat % 8 = 0)
    (data : ∀ segment ∈ r.data, segment.base.toNat % 8 = 0) (kind : r.kind = .write)
    (single : r.data.length = 1) :
    ∃ after, Bus.doRequest r.host (Bus.nestedWriter r.host r.host.fuel) r.bus.popped r.req =
      .ok after ∧ r.Acts after := by
  -- A write of one segment is a request of the disk, which obeys it.
  obtain ⟨segment, one⟩ := List.length_eq_one_iff.mp single
  have span := block_span header data (.inr kind)
  obtain ⟨after, done, size, bytes⟩ := (block_obeyed header data (.inr kind)).write
    ((block_isWrite header data (.inr kind)).mpr kind) segment one
    (block_within header data (.inr kind))
  rw [span.1, span.2] at bytes
  have length : r.length = segment.len.toNat := by
    rw [← span.2, BlockRequest.length]
    change Bus.total r.data = _
    simp [one, Bus.total]
  refine ⟨after, done, ?_⟩
  rw [Acts, kind]
  refine ⟨⟨size, fun at_ below outside => ?_⟩, fun front other back split index inside => ?_⟩
  · rw [bytes at_ below, if_neg (by omega)]
  · -- The one segment is the first, and what it has is stored from the start on.
    rw [one] at split
    cases front with
    | cons first rest => simp at split
    | nil =>
      cases split
      have within_ : r.start + r.length ≤ r.bus.blk.disk.size :=
        r.inside.trans (advertised_le r.small)
      have small := r.small
      have place : (BitVec.ofNat 64 (r.start + index)).toNat = r.start + index := by
        rw [BitVec.toNat_ofNat, Nat.mod_eq_of_lt (by omega)]
      have total : Bus.total [] = 0 := rfl
      rw [total, Nat.add_zero, bytes _ (by omega), if_pos (by omega), place, Nat.add_sub_cancel_left]
      exact (popped_segment (by simp [one]) inside).symm

/-- What is handled is done. -/
theorem Handled.acts (handled : r.Handled) :
    ∃ after, Bus.doRequest r.host (Bus.nestedWriter r.host r.host.fuel) r.bus.popped r.req =
      .ok after ∧ r.Acts after := by
  rcases handled.kind with kind | kind | ⟨kind, single⟩
  · exact acts_read handled.header handled.data kind
  · exact acts_flush handled.header kind
  · exact acts_write handled.header handled.data kind single

/-- What is handled is served. -/
theorem Handled.served (handled : r.Handled) : r.Served := by
  obtain ⟨after, done, acts⟩ := handled.acts
  exact ⟨r.req, r.bus.popped, after, r.pops handled.table, done, acts, answer done⟩

end DriverRequest

/--
Of the requests it offers to serve the device serves exactly those it has a case for.

A write of several segments, a discard and a write of zeros stop the emulator, and so does a segment that is not aligned.
-/
theorem request_served_iff (r : DriverRequest) : r.Served ↔ r.Handled :=
  ⟨DriverRequest.Served.handled, DriverRequest.Handled.served⟩

/-- A memory with so many bytes of each word at its offset, and zeros elsewhere. -/
def imageOf (words : List (BitVec 64 × Nat × BitVec 64)) : BitVec 64 → BitVec 8 :=
  words.foldl (fun mem word => LittleEndian.store mem word.1 word.2.1 word.2.2) fun _ => 0

/-- The memory of a driver that writes or reads the first two sectors of a disk in two segments. -/
def twoSegmentImage (write : Bool) : BitVec 64 → BitVec 8 :=
  let flags : BitVec 64 := if write then 1 else 3
  imageOf [(0x1000, 8, 0x80003000), (0x1008, 4, 64), (0x100c, 2, 4), (0x1082, 2, 1),
    (0x3000, 8, 0x80004000), (0x3008, 4, 16), (0x300c, 2, 1), (0x300e, 2, 1),
    (0x3010, 8, 0x80005000), (0x3018, 4, 512), (0x301c, 2, flags), (0x301e, 2, 2),
    (0x3020, 8, 0x80006000), (0x3028, 4, 512), (0x302c, 2, flags), (0x302e, 2, 3),
    (0x3030, 8, 0x80007000), (0x3038, 4, 1), (0x303c, 2, 2), (0x4000, 4, if write then 1 else 0)]

/-- The machine of that driver, with a queue of eight slots. -/
def twoSegmentBus (write : Bool) : Bus where
  rom := .zeroed 0
  flash := .zeroed 0
  ram := { bytes := twoSegmentImage write, size := ramSize }
  uart := .init 0xa
  blk :=
    { vdev :=
        { id := 2
          irqNum := 1
          vq.vring := ⟨8, 4096, 0x80001000, 0x80001080, 0x80002000⟩
          config := VirtioBlk.initConfig 1024 }
      disk := .zeroed 1024 }

/-- The segments of that driver: a header, two sectors of data, and a status. -/
def twoSegmentIov (write : Bool) : IoVec × List IoVec × IoVec :=
  let flags := if write then 1 else 2
  (⟨0x80004000, 16, 1⟩, [⟨0x80005000, 512, flags⟩, ⟨0x80006000, 512, flags⟩], ⟨0x80007000, 1, 2⟩)

/-- The chain of that driver, one descriptor behind the other. -/
def twoSegmentChain (write : Bool) : List VringDesc :=
  [0, 1, 2, 3].map (Bus.descAt (twoSegmentBus write).memory 0x80003000)

section TwoSegments

variable (write : Bool)

/-- The driver has written the chain into its table. -/
theorem twoSegment_chained :
    Bus.Chained (twoSegmentBus write).memory 0x80003000 4 0 (twoSegmentChain write) := by
  cases write
  all_goals
    exact .step (by decide) (by decide +kernel) (by decide +kernel : _ = 1) <|
      .step (by decide) (by decide +kernel) (by decide +kernel : _ = 2) <|
      .step (by decide) (by decide +kernel) (by decide +kernel : _ = 3) <|
      .last (by decide) (by decide +kernel)

/-- The driver has put the chain into the available ring. -/
theorem twoSegment_posted :
    (twoSegmentBus write).Posted 0x80003000 4 (twoSegmentChain write) where
  whole := rfl
  some := by cases write <;> decide
  used := by cases write <;> decide
  irq := by cases write <;> decide
  avail := by cases write <;> decide
  desc := by cases write <;> decide
  event := by cases write <;> decide
  new := by cases write <;> decide +kernel
  head := by cases write <;> decide +kernel
  indirect := by cases write <;> decide +kernel
  base := by cases write <;> decide +kernel
  len := by cases write <;> decide +kernel
  small := by decide
  placed := by decide
  chained := twoSegment_chained write
  apart := by cases write <;> decide

/-- The segments of the chain are those of the driver. -/
theorem twoSegment_shape : (twoSegmentChain write).map Bus.ioVecOf =
    (twoSegmentIov write).1 :: ((twoSegmentIov write).2.1 ++ [(twoSegmentIov write).2.2]) := by
  cases write <;> decide +kernel

/-- The segments lie in RAM, meet neither each other nor the used ring. -/
theorem twoSegment_apart :
    let segments :=
      (twoSegmentIov write).1 :: ((twoSegmentIov write).2.1 ++ [(twoSegmentIov write).2.2])
    let vring := (twoSegmentBus write).blk.vdev.vq.vring
    (∀ segment ∈ segments, InMemory segment.base segment.len.toNat) ∧
      (segments.Pairwise fun one other =>
        Apart one.base one.len.toNat other.base other.len.toNat) ∧
      ∀ segment ∈ segments,
        Apart segment.base segment.len.toNat vring.used (vring.usedSize + 2) := by
  cases write <;> decide

/-- What that driver asks for. -/
def twoSegmentKind : BlkKind := if write then .write else .read

/-- The header asks for the two sectors that the disk has. -/
theorem twoSegment_header :
    (Bus.bytesWord (Bytes.get (twoSegmentBus write).memory (twoSegmentIov write).1.base 16) 0 4).setWidth
        32 = (twoSegmentKind write).type ∧
      ((twoSegmentKind write).span (twoSegmentBus write).memory (twoSegmentIov write).1
          (twoSegmentIov write).2.1).1 +
        ((twoSegmentKind write).span (twoSegmentBus write).memory (twoSegmentIov write).1
          (twoSegmentIov write).2.1).2 ≤ advertised (twoSegmentBus write).blk.disk.size := by
  have capacity : advertised (twoSegmentBus write).blk.disk.size = 1024 :=
    advertised_eq (by decide : 1024 < 2 ^ 64)
  rw [capacity]
  cases write <;> decide +kernel

/-- The configuration allows a transfer of two segments. -/
theorem twoSegment_allowed :
    (twoSegmentKind write).Allows (twoSegmentBus write).blk.disk.size (twoSegmentIov write).2.1 := by
  cases write
  all_goals exact ⟨by decide, by rw [segMax_eq]; decide, by decide⟩

end TwoSegments

/-- The request of that driver. -/
def twoSegmentRequest (write : Bool) : DriverRequest where
  host := { fuel := 1 }
  fuel := Nat.one_pos
  bus := twoSegmentBus write
  table := 0x80003000
  entries := 4
  chain := twoSegmentChain write
  posted := twoSegment_posted write
  header := (twoSegmentIov write).1
  data := (twoSegmentIov write).2.1
  status := (twoSegmentIov write).2.2
  shape := twoSegment_shape write
  headerOut := ⟨rfl, rfl⟩
  statusIn := ⟨rfl, rfl⟩
  placed := (twoSegment_apart write).1
  apart := (twoSegment_apart write).2.1
  ring := (twoSegment_apart write).2.2
  small := by cases write <;> decide
  kind := twoSegmentKind write
  type := (twoSegment_header write).1
  allowed := twoSegment_allowed write
  inside := (twoSegment_header write).2

/-- A read of two segments is served. -/
theorem two_segment_read_served : (twoSegmentRequest false).Served :=
  (request_served_iff _).mpr
    { table := by decide
      header := by decide
      data := by decide
      kind := .inl rfl }

/-- A write of two segments is not served. -/
theorem two_segment_write_stops : ¬ ∀ r : DriverRequest, r.Served := by
  intro always
  have handled := (always (twoSegmentRequest true)).handled
  rcases handled.kind with kind | kind | ⟨_, single⟩
  · cases kind
  · cases kind
  · cases single

end Xemu
