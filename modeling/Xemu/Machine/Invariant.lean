import Xemu.Device.Stops
import Xemu.Machine.BusWrite
import Xemu.Machine.QueueParts

/-! Properties of the devices that every access of the bus preserves. -/

namespace Xemu

/-- The fields that `virtio_blk_init` alone assigns are those of another state of the device. -/
structure VirtioDev.SameInit (after before : VirtioDev) : Prop where
  id : after.id = before.id
  irqNum : after.irqNum = before.irqNum
  config : after.config = before.config

namespace Bus

/--
A property of the devices that no device breaks on its own.

The block device's queue work is left out: it consists of the accesses and the changes named here.
-/
structure Invariant (inv : Bus → Prop) : Prop where
  /-- Reading a device preserves it. -/
  read : ∀ host bus device addr size params, inv bus →
    Ensures (bus.deviceRead host device addr size params) fun result => inv result.2
  /-- Writing a device other than the block device preserves it. -/
  write : ∀ host (write : Writer) fuel bus device addr data size params,
    (∀ slot, device ≠ .virtio slot) → inv bus →
    Ensures (bus.deviceWrite host write fuel device addr data size params)
      fun result => inv result.2
  /-- It looks at nothing of the block device but what never changes. -/
  blk : ∀ (bus : Bus) (blk : VirtioBlk), blk.vdev.SameInit bus.blk.vdev → inv bus →
    inv { bus with blk }
  /-- The interrupt of the block device preserves it. -/
  signal : ∀ bus, inv bus →
    Ensures (bus.plic.signal bus.blk.vdev.irqNum) fun plic => inv { bus with plic }

namespace Invariant

variable {inv : Bus → Prop} {host : Host} {write : Writer}

/-- A read through the bus is a read of one device. -/
theorem asReadNommu (kept : Invariant inv) {bus : Bus} (holds : inv bus) (addr : BitVec 64)
    (size : Nat) (params : Params) :
    Ensures (bus.asReadNommu host addr size params) fun result => inv result.2 := by
  unfold Bus.asReadNommu
  refine .ite (fun _ => .error) fun _ => ?_
  -- Whatever the address, the loop ends at the handler of one device.
  rw [readFrom_route]
  exact kept.read _ _ _ _ _ _ holds

end Invariant

/-! ### Stops of the bus -/

/-- Reading a device other than a virtio slot stops with an ordinary stop. -/
theorem deviceRead_orderly {device : DeviceId} (other : ∀ slot, device ≠ .virtio slot)
    (host : Host) (bus : Bus) (addr : BitVec 64) (size : Nat) (params : Params) :
    Orderly (bus.deviceRead host device addr size params) := by
  -- Every device but the slots has a lemma of its own.
  cases device with
  | dummy => exact .error (by simp)
  | rtc => exact .bind (bus.rtc.read_orderly host addr) fun result _ => .ok trivial
  | pciHost => exact .bind (bus.pciHost.read_orderly addr size) fun result _ => .ok trivial
  | plic => exact .bind (bus.plic.read_orderly addr) fun result _ => .ok trivial
  | clint => exact .error (by simp)
  | rom => exact .bind (romRead_orderly addr size bus.rom) fun result _ => .ok trivial
  | flash => exact .bind (flashRead_orderly addr size bus.flash) fun result _ => .ok trivial
  | ram => exact .bind (bus.ram.read_orderly addr size) fun result _ => .ok trivial
  | uart => exact .bind (bus.uart.read_orderly addr bus.plic) fun result _ => .ok trivial
  | virtio slot => exact absurd rfl (other slot)

/-- A read of a device stops as the reads of a virtio slot do, or as every device may. -/
theorem deviceRead_ends (host : Host) (bus : Bus) (device : DeviceId) (addr : BitVec 64)
    (size : Nat) (params : Params) :
    Ends (bus.deviceRead host device addr size params) (fun _ => True) (ReadStop size) := by
  cases device with
  | virtio slot =>
    -- A slot is the one device whose handler may look where nothing is.
    exact .bind (VirtioDev.mmioRead_ends addr size (bus.backend slot)) fun result _ => .ok trivial
  | dummy | rtc | pciHost | plic | clint | rom | flash | ram | uart =>
    exact (deviceRead_orderly (by simp) _ _ _ _ _).mono (fun _ holds => holds) fun _ => .inl

/-- A read through the bus stops as a read of a device does. -/
theorem asReadNommu_ends (host : Host) (bus : Bus) (addr : BitVec 64) (size : Nat)
    (params : Params) :
    Ends (bus.asReadNommu host addr size params) (fun _ => True) (ReadStop size) := by
  refine .ite (fun _ => .error (.inl (by simp))) fun _ => ?_
  rw [readFrom_route]
  exact deviceRead_ends _ _ _ _ _ _

/-- Only a read of a word may find a slot without a backend, and only one of a byte its record. -/
theorem asReadNommu_orderly {size : Nat} (narrow : size ≠ 4) (several : size ≠ 1) (host : Host)
    (bus : Bus) (addr : BitVec 64) (params : Params) :
    Orderly (bus.asReadNommu host addr size params) :=
  (asReadNommu_ends host bus addr size params).mono (fun _ holds => holds) fun _ admitted =>
    admitted.resolve_right fun missing => missing.elim (fun word => narrow word.1) fun byte =>
      several byte.1

/-- Writing a device other than a virtio slot stops with an ordinary stop. -/
theorem deviceWrite_orderly {device : DeviceId} (other : ∀ slot, device ≠ .virtio slot)
    (host : Host) (write : Writer) (fuel : Nat) (bus : Bus) (addr data : BitVec 64) (size : Nat)
    (params : Params) :
    Orderly (bus.deviceWrite host write fuel device addr data size params) := by
  -- Every device but the virtio slots has a lemma of its own.
  cases device with
  | dummy | rom | rtc => exact .error (by simp)
  | pciHost => exact .bind (bus.pciHost.write_orderly addr data) fun result _ => .ok trivial
  | plic => exact .bind (bus.plic.write_orderly addr data) fun result _ => .ok trivial
  | clint => exact .bind (bus.clint.write_orderly host addr data) fun result _ => .ok trivial
  | flash =>
    exact .bind (flashWrite_orderly addr data size params bus.flash) fun result _ => .ok trivial
  | ram => exact .bind (ramWrite_orderly addr data size params bus.ram) fun result _ => .ok trivial
  | uart => exact .bind (bus.uart.write_orderly addr data size bus.plic) fun result _ => .ok trivial
  | virtio slot => exact absurd rfl (other slot)

/-! ### Reads of the queue -/

/-- The reads of the queue, none of them of a word, preserve a property and stop as told. -/
structure Reads (host : Host) (inv : Bus → Prop) (stops : Stop → Prop) : Prop where
  ordinary : ∀ stop : Stop, stop.Ordinary → stops stop
  kept : ∀ bus addr size params, inv bus →
    Ensures (bus.asReadNommu host addr size params) fun result => inv result.2

namespace Reads

variable {inv : Bus → Prop} {stops : Stop → Prop} {host : Host}

/-- A read that is not of a word, and of a byte only where leaving the record is a stop as told. -/
theorem asReadNommu (reads : Reads host inv stops) {size : Nat} (narrow : size ≠ 4)
    (record : size = 1 → stops .outsideRecord) {bus : Bus} (holds : inv bus) (addr : BitVec 64)
    (params : Params) :
    Ends (bus.asReadNommu host addr size params) (fun result => inv result.2) stops := by
  refine ⟨reads.kept _ _ _ _ holds, fun stop stopped => ?_⟩
  rcases (asReadNommu_ends host bus addr size params).stopped stop stopped with
    ordinary | ⟨word, _⟩ | ⟨byte, rfl⟩
  · exact reads.ordinary stop ordinary
  · exact absurd word narrow
  · exact record byte

/-- The chunks of a blob are reads one after the other. -/
theorem readChunks (reads : Reads host inv stops) {chunk : Nat} (narrow : chunk ≠ 4) (left : Nat)
    (record : chunk = 1 → 0 < left → stops .outsideRecord) {bus : Bus} (holds : inv bus)
    (addr : BitVec 64) :
    Ends (Bus.readChunks host chunk left bus addr) (fun result => inv result.2) stops := by
  induction left generalizing bus addr with
  -- Every chunk is a read of its own, at an address further on.
  | zero => exact .ok holds
  | succ left ih =>
    have byte : chunk = 1 → stops .outsideRecord := fun single => record single (by omega)
    refine .bind (reads.asReadNommu narrow byte holds _ _) fun read after => ?_
    exact .bind (ih (fun single _ => byte single) after _) fun rest last => .ok last

/-- A blob of whole doublewords is read without single bytes. -/
theorem asReadBlob (reads : Reads host inv stops) {bus : Bus} (holds : inv bus) (addr : BitVec 64)
    {size : Nat} (record : size % 8 ≠ 0 → stops .outsideRecord) :
    Ends (bus.asReadBlob host addr size) (fun result => inv result.2) stops := by
  refine .ite (fun _ => .error (reads.ordinary _ (by simp))) fun _ => ?_
  refine .bind (reads.readChunks (by decide) _ (by omega) holds _) fun front after => ?_
  exact .bind (reads.readChunks (by decide) _ (fun _ some => record (by omega)) after _)
    fun back last => .ok last

/-- A walk over a table of descriptors reads each of them whole. -/
theorem readIndirectFrom (reads : Reads host inv stops) (addr : BitVec 64) (room : Nat) {bus : Bus}
    (holds : inv bus) (offset : BitVec 64) (iov : List IoVec) (inLen : BitVec 32) :
    Ends (Bus.readIndirectFrom host addr room bus offset iov inLen)
      (fun result => inv result.2.2) stops := by
  induction room generalizing bus offset iov inLen with
  -- A full array stops the walk, but only after one more read.
  | zero =>
    exact .bind (reads.asReadBlob holds _ (by omega)) fun bytes after =>
      .error (reads.ordinary _ (by simp))
  | succ room ih =>
    refine .bind (reads.asReadBlob holds _ (by omega)) fun bytes after => ?_
    -- Either this descriptor ends the chain, or the walk goes on at the next one.
    exact .ite (fun _ => .ok after) fun _ => ih after _ _ _

/-- So does the walk that a descriptor begins. -/
theorem vringDescReadIndirect (reads : Reads host inv stops) {bus : Bus} (holds : inv bus)
    (head : BitVec 32) (addr : BitVec 64) (len : BitVec 32) :
    Ends (bus.vringDescReadIndirect host head addr len) (fun result => inv result.2) stops := by
  refine .ite (fun _ => .error (reads.ordinary _ (by simp))) fun _ => ?_
  exact .bind (reads.readIndirectFrom addr _ holds _ _ _) fun table after => .ok after

/-- The look for a head divides by the queue size, and then it reads. -/
theorem vqueueGetHead (reads : Reads host inv stops) {bus : Bus} (holds : inv bus)
    (divides : bus.blk.vdev.vq.vring.num = 0 → stops .zeroModulus) (idx : BitVec 16) :
    Ends (bus.vqueueGetHead host idx) (fun result => inv result.2) stops := by
  refine .ite (fun zero => .error (divides zero)) fun _ => ?_
  refine .bind (reads.asReadNommu (by decide) (by omega) holds _ _) fun head after => ?_
  exact .ite (fun _ => .error (reads.ordinary _ (by simp))) fun _ => .ok after

end Reads

/-! ### Writes of blobs -/

/-- A writer that preserves a property and stops as told, where it writes so many bytes. -/
def WritesSize (inv : Bus → Prop) (stops : Stop → Prop) (write : Writer) (size : Nat) : Prop :=
  ∀ bus addr data, inv bus → Ends (write bus addr size data) inv stops

section Blobs

variable {inv : Bus → Prop} {stops : Stop → Prop} {write : Writer}

/-- The chunks of a blob are writes one after the other. -/
theorem WritesSize.writeChunks {chunk : Nat} (writes : WritesSize inv stops write chunk)
    (left : Nat) {bus : Bus} (holds : inv bus) (addr : BitVec 64) (data : List (BitVec 8)) :
    Ends (Bus.writeChunks write chunk left bus addr data) inv stops := by
  induction left generalizing bus addr data with
  -- Every chunk is a write of its own, at an address further on.
  | zero => exact .ok holds
  | succ left ih => exact .bind (writes _ _ _ holds) fun bus after => ih after _ _

/-- The writers of blobs, which are written in doublewords and bytes. -/
structure WritesBlobs (inv : Bus → Prop) (stops : Stop → Prop) (write : Writer) : Prop where
  ordinary : ∀ stop : Stop, stop.Ordinary → stops stop
  doubles : WritesSize inv stops write 8
  bytes : WritesSize inv stops write 1

/-- A blob is written in doublewords, and its end in bytes. -/
theorem WritesBlobs.asWriteBlob (writes : WritesBlobs inv stops write) {bus : Bus}
    (holds : inv bus) (addr : BitVec 64) (data : List (BitVec 8)) :
    Ends (Bus.asWriteBlob write bus addr data) inv stops := by
  refine .ite (fun _ => .error (writes.ordinary _ (by simp))) fun _ => ?_
  exact .bind (writes.doubles.writeChunks _ holds _ _) fun bus after =>
    writes.bytes.writeChunks _ after _ _

/-- The segments of a read are filled one after the other. -/
theorem WritesBlobs.readSegments (writes : WritesBlobs inv stops write) (segments : List IoVec)
    (pos : Nat) {bus : Bus} (holds : inv bus) :
    Ends (Bus.readSegments write segments pos bus) inv stops := by
  induction segments generalizing pos bus with
  | nil => exact .ok holds
  | cons segment rest ih =>
    rw [Bus.readSegments]
    -- A segment past the end of the file stops the emulator.
    cases fileRead bus.blk.disk pos segment.len.toNat with
    | none => exact .error (writes.ordinary _ (by simp))
    | some data => exact .bind (writes.asWriteBlob holds _ _) fun bus after => ih _ after

end Blobs

/-! ### Queue work -/

/--
What the queue work of the block device, its stores of words left out, relies on.

It preserves a property and stops as told.
-/
structure NarrowWork (host : Host) (inv : Bus → Prop) (stops : Stop → Prop) (write : Writer) :
    Prop extends Reads host inv stops where
  narrow : ∀ size, size ≠ 4 → WritesSize inv stops write size
  /-- The work leaves the ring where it is, and the two threads where they are. -/
  blk : ∀ (bus : Bus) (blk : VirtioBlk), blk.vdev.vq.vring = bus.blk.vdev.vq.vring →
    blk.worker = bus.blk.worker → blk.vdev.SameInit bus.blk.vdev → inv bus → inv { bus with blk }
  signal : ∀ bus, inv bus →
    Ensures (bus.plic.signal bus.blk.vdev.irqNum) fun plic => inv { bus with plic }

/-- What all queue work relies on, the two halves of an element of the used ring included. -/
structure QueueWork (host : Host) (inv : Bus → Prop) (stops : Stop → Prop) (write : Writer) :
    Prop extends NarrowWork host inv stops write where
  halves : WritesSize inv stops write 4
  /-- The threads go on without a change of the device. -/
  thread : ∀ (bus : Bus) (blk : VirtioBlk), blk.vdev = bus.blk.vdev → inv bus → inv { bus with blk }
  divides : ∀ bus, inv bus → bus.blk.vdev.vq.vring.num = 0 → stops .zeroModulus
  /-- The data that is written to the disk may be read byte by byte. -/
  record : stops .outsideRecord

/-- Taking a request moves it from the slot into the local of the thread. -/
theorem workerTake_keeps {inv : Bus → Prop} {bus : Bus}
    (kept : ∀ blk : VirtioBlk, blk.vdev = bus.blk.vdev → inv { bus with blk }) (holds : inv bus) :
    inv bus.workerTake := by
  unfold Bus.workerTake
  split
  · exact kept _ rfl
  · exact holds

section Work

variable {host : Host} {inv : Bus → Prop} {stops : Stop → Prop} {write : Writer}

namespace NarrowWork

/-- Blobs are written without words. -/
theorem writesBlobs (work : NarrowWork host inv stops write) : WritesBlobs inv stops write :=
  ⟨work.ordinary, work.narrow 8 (by decide), work.narrow 1 (by decide)⟩

/-- The look at the queue is one read. -/
theorem virtioQueueEmpty (work : NarrowWork host inv stops write) {bus : Bus} (holds : inv bus) :
    Ends (bus.virtioQueueEmpty host) (fun result => inv result.2) stops :=
  .bind (work.asReadNommu (by decide) (by omega) holds _ _) fun read after => .ok after

/-- A chain is read from its head to the end of its table. -/
theorem chainRequest (work : NarrowWork host inv stops write) {bus : Bus} (holds : inv bus)
    (head : BitVec 32) : Ends (bus.chainRequest host head) (fun result => inv result.2) stops := by
  refine .bind (work.asReadBlob holds _ (by omega)) fun read after => ?_
  refine .ite (fun _ => ?_) fun _ => .error (work.ordinary _ (by simp))
  exact work.vringDescReadIndirect after _ _ _

/-- Taking a request out of the queue divides by the queue size at its start. -/
theorem vqueueTake (work : NarrowWork host inv stops write) {bus : Bus} (holds : inv bus)
    (divides : bus.blk.vdev.vq.vring.num = 0 → stops .zeroModulus) :
    Ends (bus.vqueueTake host write) (fun result => inv result.2) stops := by
  -- Counting the index on is a change of the block device alone.
  have counted := work.blk bus { bus.blk with
    vdev.vq.lastAvailIdx := bus.blk.vdev.vq.lastAvailIdx + 1 } rfl rfl ⟨rfl, rfl, rfl⟩ holds
  refine .bind (work.vqueueGetHead counted divides _) fun ⟨head, bus⟩ taken => ?_
  -- What follows the write of the event index is the same with and without it.
  refine .optional (fun _ => work.narrow 2 (by decide) _ _ _ taken) taken fun bus written => ?_
  exact work.chainRequest written head

/-- The data of a read go from the file to the segments. -/
theorem readData (work : NarrowWork host inv stops write) {bus : Bus} (holds : inv bus)
    (req : VqRequest) (sector : BitVec 64) :
    Ends (Bus.readData write bus req sector) inv stops := by
  refine .ite (fun _ => .error (work.ordinary _ (by simp))) fun _ => ?_
  cases seekSector sector with
  | none => exact .error (work.ordinary _ (by simp))
  | some pos => exact work.writesBlobs.readSegments _ pos holds

/-- The data of a write go from the segment to the file. -/
theorem writeData (work : NarrowWork host inv stops write) (record : stops .outsideRecord)
    {bus : Bus} (holds : inv bus) (req : VqRequest) (sector : BitVec 64) :
    Ends (Bus.writeData host bus req sector) inv stops := by
  unfold Bus.writeData
  split
  · refine .bind (work.asReadBlob holds _ fun _ => record) fun ⟨data, bus⟩ after => ?_
    cases seekSector sector with
    | none => exact .error (work.ordinary _ (by simp))
    | some pos =>
      -- The file belongs to the block device.
      exact .ok (work.blk bus { bus.blk with disk := fileWrite bus.blk.disk pos data } rfl rfl
        ⟨rfl, rfl, rfl⟩ after)
  · exact .error (work.ordinary _ (by simp))

/-- A flush moves no data. -/
theorem flushData (work : NarrowWork host inv stops write) {bus : Bus} (holds : inv bus)
    (req : VqRequest) : Ends (bus.flushData req) inv stops :=
  .ite (fun _ => .error (work.ordinary _ (by simp))) fun _ => .ok holds

/-- The data of a request are moved as its header says. -/
theorem requestData (work : NarrowWork host inv stops write) (record : stops .outsideRecord)
    {bus : Bus} (holds : inv bus) (req : VqRequest) :
    Ends (Bus.requestData host write bus req) inv stops := by
  unfold Bus.requestData
  cases req.iov.head? with
  | none => exact .error (work.ordinary _ (by simp))
  | some header =>
    refine .ite (fun _ => .error (work.ordinary _ (by simp))) fun _ => ?_
    refine .bind (work.asReadBlob holds _ (by omega)) fun read after => ?_
    dsimp only
    -- The type chooses between a write, a read and a flush.
    split
    · exact .ite (fun _ => work.writeData record after req _) fun _ => work.readData after req _
    · exact work.flushData after req
    · exact .error (work.ordinary _ (by simp))

/-- The status is one byte. -/
theorem writeStatus (work : NarrowWork host inv stops write) {bus : Bus} (holds : inv bus)
    (req : VqRequest) : Ends (Bus.writeStatus write bus req) inv stops :=
  work.narrow 1 (by decide) _ _ _ holds

/-- The index of the used ring is written, and then the interrupt is sent. -/
theorem publish (work : NarrowWork host inv stops write) {bus : Bus} (holds : inv bus) :
    Ends (Bus.publish write bus) inv stops := by
  -- The index is counted on before it is written behind the element.
  refine .bind (work.narrow 2 (by decide) _ _ _ (work.blk _ _ rfl rfl ⟨rfl, rfl, rfl⟩ holds))
    fun bus used => ?_
  have asked :=
    work.blk _ { bus.blk with vdev.isr := bus.blk.vdev.isr ||| 0x1 } rfl rfl ⟨rfl, rfl, rfl⟩ used
  have signalled : Ends (bus.plic.signal bus.blk.vdev.irqNum)
      (fun plic => inv { bus with
        blk := { bus.blk with vdev.isr := bus.blk.vdev.isr ||| 0x1 }, plic }) stops :=
    ⟨work.signal _ asked, fun stop stopped =>
      work.ordinary stop ((bus.plic.signal_orderly _).stopped stop stopped)⟩
  exact .bind signalled fun plic last => .ok last

end NarrowWork

namespace QueueWork

/-- A pop is a look at the queue and, if it is not empty, the removal of a request. -/
theorem vqueuePop (work : QueueWork host inv stops write) {bus : Bus} (holds : inv bus) :
    Ends (bus.vqueuePop host write) (fun result => inv result.2) stops := by
  rw [vqueuePop_parts]
  refine .bind (work.virtioQueueEmpty holds) fun ⟨empty, bus⟩ after => ?_
  refine .ite (fun _ => .ok after) fun _ => ?_
  exact .bind (work.vqueueTake after (work.divides _ after)) fun popped last => .ok last

/-- The element lies anywhere, unless there is no queue size to look for it with. -/
theorem nextElement (work : QueueWork host inv stops write) {bus : Bus} (holds : inv bus) :
    Ends bus.nextElement (fun _ => True) stops :=
  .ite (fun zero => .error (work.divides _ holds zero)) fun _ => .ok trivial

/-- A request is completed by its status, its element and their index. -/
theorem complete (work : QueueWork host inv stops write) {bus : Bus} (holds : inv bus)
    (req : VqRequest) : Ends (Bus.complete write bus req) inv stops := by
  rw [complete_parts]
  refine .bind (work.writeStatus holds req) fun bus status => ?_
  refine .bind (work.nextElement status) fun addr _ => ?_
  refine .bind (work.halves _ _ _ status) fun bus index => ?_
  refine .bind (work.halves _ _ _ index) fun bus length => ?_
  -- The status and the element are in memory when the interrupt is sent.
  exact work.publish length

/-- A request is served by its data and its completion. -/
theorem doRequest (work : QueueWork host inv stops write) {bus : Bus} (holds : inv bus)
    (req : VqRequest) : Ends (Bus.doRequest host write bus req) inv stops := by
  rw [doRequest_parts]
  exact .bind (work.requestData work.record holds req) fun bus after => work.complete after req

/-- The thread serves the request that it holds. -/
theorem workerServe (work : QueueWork host inv stops write) {bus : Bus} (holds : inv bus) :
    Ends (Bus.workerServe host write bus) inv stops := by
  unfold Bus.workerServe
  split
  · -- Before and after the request only the state of the thread changes.
    have begun := work.thread bus { bus.blk with worker := .busy } rfl holds
    exact .bind (work.doRequest begun _) fun bus after =>
      .ok (work.thread bus { bus.blk with worker := .idle } rfl after)
  · exact .ok holds

/-- A request is handed over, after those before it where the slot is taken. -/
theorem handleRequest (work : QueueWork host inv stops write) {bus : Bus} (holds : inv bus)
    (req : VqRequest) : Ends (Bus.handleRequest host write bus req) inv stops := by
  refine .ite (fun _ => .ok (work.thread _ _ rfl holds)) fun _ => ?_
  refine .ite (fun _ => .error (work.ordinary _ (by simp))) fun _ => ?_
  -- While the slot is taken the thread serves what it holds and takes what is there.
  exact .bind (work.workerServe holds) fun bus after =>
    .ok (work.thread _ _ rfl (workerTake_keeps (fun blk same => work.thread _ blk same after) after))

/-- A notification takes every request that there is out of the queue. -/
theorem notifyLoop (work : QueueWork host inv stops write) (left : Nat) {bus : Bus}
    (holds : inv bus) : Ends (Bus.notifyLoop host write left bus) inv stops := by
  induction left generalizing bus with
  | zero => exact .error (work.ordinary _ (by simp))
  | succ left ih =>
    rw [Bus.notifyLoop]
    refine .bind (work.vqueuePop holds) fun ⟨req, bus⟩ after => ?_
    -- The queue is empty, or the request is handed over and the loop goes on.
    cases req with
    | none => exact .ok after
    | some req => exact .bind (work.handleRequest after req) fun bus handled => ih handled

end QueueWork

end Work

namespace Invariant

variable {inv : Bus → Prop} {host : Host} {write : Writer}

/-- A writer that preserves the property wherever it writes. -/
def Writes (inv : Bus → Prop) (write : Writer) : Prop :=
  ∀ bus addr size data, inv bus → Ensures (write bus addr size data) inv

/-- What no device breaks is preserved by the queue work, wherever it ends. -/
theorem queueWork (kept : Invariant inv) (writes : Writes inv write) :
    QueueWork host inv (fun _ => True) write where
  ordinary _ _ := trivial
  kept _ _ _ _ holds := kept.asReadNommu holds _ _ _
  narrow size _ bus addr data holds := ⟨writes bus addr size data holds, fun _ _ => trivial⟩
  halves bus addr data holds := ⟨writes bus addr 4 data holds, fun _ _ => trivial⟩
  blk bus blk _ _ same holds := kept.blk bus blk same holds
  thread bus blk same holds := kept.blk bus blk (same ▸ ⟨rfl, rfl, rfl⟩) holds
  signal := kept.signal
  divides _ _ _ := trivial
  record := trivial

/-- The cases of the device's own registers do not touch what never changes. -/
theorem mmioWrite_init (vdev : VirtioDev) (addr data : BitVec 64) :
    Ensures (vdev.mmioWrite addr data) fun after => after.SameInit vdev := by
  unfold VirtioDev.mmioWrite
  dsimp only
  split
  -- Each register has a field of its own, and none of the three is among them.
  case h_5 => exact .ok (by split <;> exact ⟨rfl, rfl, rfl⟩)
  case h_6 =>
    exact .ite (fun _ => .andThen fun vring => .ok ⟨rfl, rfl, rfl⟩) fun _ => .ok ⟨rfl, rfl, rfl⟩
  case h_2 => exact .ok (by split <;> exact ⟨rfl, rfl, rfl⟩)
  case h_11 => exact .error
  all_goals exact .ok ⟨rfl, rfl, rfl⟩

/-- A write to a slot changes the device behind it, or works through the queue. -/
theorem mmioWrite (kept : Invariant inv) (writes : Writes inv write) (fuel : Nat) {bus : Bus}
    (holds : inv bus) (slot : Fin 8) (addr data : BitVec 64) (size : Nat) :
    Ensures (Bus.mmioWrite host write fuel bus slot addr data size) inv := by
  refine .ite (fun _ => .error) fun _ => ?_
  -- A slot without a backend changes nothing, and a notification works through the queue.
  refine .ite (fun _ => .andThen fun _ => .ok holds) fun _ => ?_
  refine .ite (fun _ => ((kept.queueWork writes).notifyLoop fuel holds).ensures) fun _ => ?_
  exact .bind (mmioWrite_init _ _ _) fun vdev same => .ok (kept.blk _ _ same holds)

/-! ### Writes through the bus -/

/-- A write through the bus goes to one device. -/
theorem asWriteNommuWith (kept : Invariant inv) (writes : Writes inv write) (fuel : Nat)
    {bus : Bus} (holds : inv bus) (addr : BitVec 64) (size : Nat) (data : BitVec 64)
    (params : Params) :
    Ensures (Bus.asWriteNommuWith host write fuel bus addr size data params)
      fun result => inv result.2 := by
  unfold Bus.asWriteNommuWith
  refine .ite (fun _ => .error) fun _ => ?_
  rw [writeFrom_route]
  -- The block device is the one whose write is not a single change.
  cases device : (AddressSpace.route AddressSpace.rootChildren addr).1 with
  | virtio slot =>
    exact .bind (kept.mmioWrite writes fuel holds _ _ _ _) fun bus after => .ok after
  | dummy | rtc | pciHost | plic | clint | rom | flash | ram | uart =>
    exact kept.write _ _ _ _ _ _ _ _ _ (by simp) holds

/-- The writer a notified device is given preserves the property, by induction on its nesting. -/
theorem nestedWriter (kept : Invariant inv) (fuel : Nat) :
    Writes inv (Bus.nestedWriter host fuel) := by
  induction fuel with
  | zero => exact fun _ _ _ _ _ => .error
  | succ fuel ih =>
    intro bus addr size data holds
    -- The write of one level uses the writer of the level below.
    exact .bind (kept.asWriteNommuWith ih fuel holds _ _ _ _) fun result after => .ok after

/-- A write through the bus preserves the property, with all the queue work it causes. -/
theorem asWriteNommu (kept : Invariant inv) {bus : Bus} (holds : inv bus) (addr : BitVec 64)
    (size : Nat) (data : BitVec 64) (params : Params) :
    Ensures (bus.asWriteNommu host addr size data params) fun result => inv result.2 :=
  kept.asWriteNommuWith (kept.nestedWriter host.fuel) host.fuel holds _ _ _ _

end Invariant

end Bus

end Xemu
