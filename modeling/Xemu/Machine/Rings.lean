import Xemu.Machine.Invariant
import Xemu.Machine.Request

/-! How the queue's own steps move its two indices: one slot for each request, in ring order. -/

namespace Xemu

namespace Vring

/-- The bytes of the available ring up to its last element. -/
def availSize (vring : Vring) : Nat := 4 + 2 * vring.num.toNat

/-- The address of an element of the available ring. -/
def availAddr (vring : Vring) (slot : Nat) : BitVec 64 := vring.avail + BitVec.ofNat 64 (4 + 2 * slot)

end Vring

namespace Bus

/-- Both rings lie in RAM. -/
structure Ready (bus : Bus) : Prop extends Serves bus where
  /-- The available ring lies in RAM. -/
  avail : InMemory bus.blk.vdev.vq.vring.avail bus.blk.vdev.vq.vring.availSize

/-- The index up to which the driver has filled the available ring. -/
def availIdx (bus : Bus) : BitVec 16 :=
  (LittleEndian.load 64 bus.memory (bus.blk.vdev.vq.vring.avail + 2) 2).setWidth 16

/-- The head of a chain in the available ring, for an index that runs on past the ring. -/
def availHead (bus : Bus) (idx : BitVec 16) : BitVec 32 :=
  ((LittleEndian.load 64 bus.memory
    (bus.blk.vdev.vq.vring.availAddr (bus.blk.vdev.vq.vring.slot idx)) 2).setWidth 16).setWidth 32

/-- The index up to which the device has filled the used ring. -/
def usedRingIdx (bus : Bus) : BitVec 16 :=
  (LittleEndian.load 64 bus.memory (bus.blk.vdev.vq.vring.used + 2) 2).setWidth 16

/-- The two words of an element of the used ring: the head of a chain, and how much was written. -/
def usedEntry (bus : Bus) (idx : BitVec 16) : BitVec 32 × BitVec 32 :=
  let addr := bus.blk.vdev.vq.vring.usedAddr (bus.blk.vdev.vq.vring.slot idx)
  ((LittleEndian.load 64 bus.memory addr 4).setWidth 32,
    (LittleEndian.load 64 bus.memory (addr + 4) 4).setWidth 32)

/-! ### What reads and narrow writes keep -/

/-- The registers of the block device and the size of RAM are these. -/
structure Settled (vdev : VirtioDev) (size : Nat) (bus : Bus) : Prop where
  vdev : bus.blk.vdev = vdev
  size : bus.ram.size = size

/-- The state of the block device and the size of RAM are settled. -/
theorem Settled.refl (bus : Bus) : Settled bus.blk.vdev bus.ram.size bus := ⟨rfl, rfl⟩

variable {vdev : VirtioDev} {size : Nat} {host : Host}

/-- No read changes a register of the block device, whatever is told of its stops. -/
theorem reads_settled : Reads host (Settled vdev size) fun _ => True := by
  refine ⟨fun _ _ => trivial, fun bus addr count params settled result read => ?_⟩
  have kept := asReadNommu_keeps read
  exact ⟨by rw [kept.blk, settled.vdev], by rw [kept.ram, settled.size]⟩

/-- What a write of a device other than a virtio slot may change, besides the device's own state. -/
structure Changed (bus : Bus) (device : DeviceId) (addr : BitVec 64) (count : Nat) (after : Bus) :
    Prop where
  blk : after.blk = bus.blk
  size : after.ram.size = bus.ram.size
  bytes : after.ram.bytes = bus.ram.bytes ∨ device = .ram ∧
    ∃ word : BitVec 64, after.ram.bytes = LittleEndian.store bus.ram.bytes addr count word

/-- A write of another device changes nothing of the block device, and of RAM its own bytes only. -/
theorem deviceWrite_changed {device : DeviceId} (other : ∀ slot, device ≠ .virtio slot)
    {write : Writer} {fuel : Nat} {bus : Bus} {addr data : BitVec 64} {count : Nat}
    {params : Params} : Ensures (bus.deviceWrite host write fuel device addr data count params)
      fun result => Changed bus device addr count result.2 := by
  -- RAM is the one case of the other devices in which memory changes.
  cases device with
  | virtio slot => exact absurd rfl (other slot)
  | dummy | rom => exact .error
  | ram =>
    intro result written
    obtain ⟨⟨ret, ram⟩, stored, same⟩ := bind_eq_ok.mp written
    cases Except.ok.inj same
    obtain ⟨rfl, _⟩ := ramWrite_stores stored
    exact ⟨rfl, rfl, .inr ⟨rfl, _, rfl⟩⟩
  | rtc | pciHost | plic | clint | flash | uart =>
    exact .andThen fun _ => .ok ⟨rfl, rfl, .inl rfl⟩

/-- What a write through the bus may change where it reaches no register of the block device. -/
structure Stored (bus : Bus) (addr : BitVec 64) (count : Nat) (after : Bus) : Prop where
  blk : after.blk = bus.blk
  size : after.ram.size = bus.ram.size
  memory : after.memory = bus.memory ∨
    ∃ word : BitVec 64, after.memory = LittleEndian.store bus.memory addr count word

/-- A store takes a word to a virtio slot. -/
def Reaches (addr : BitVec 64) (count : Nat) : Prop :=
  count = 4 ∧ ∃ slot, (AddressSpace.route AddressSpace.rootChildren addr).1 = .virtio slot

/-- A write that takes no word to a virtio slot changes no memory but its own bytes. -/
theorem nestedWriter_stored {addr : BitVec 64} {count : Nat} (apart : ¬ Reaches addr count)
    (fuel : Nat) (bus : Bus) (data : BitVec 64) :
    Ends (nestedWriter host fuel bus addr count data) (Stored bus addr count) Stop.Ordinary := by
  cases fuel with
  | zero => exact .error (by simp)
  | succ fuel =>
    have written : Ends (bus.asWriteNommuWith host (nestedWriter host fuel) fuel addr count data
        .none) (fun result => Stored bus addr count result.2) Stop.Ordinary := by
      refine .ite (fun _ => .error (by simp)) fun _ => ?_
      rw [writeFrom_route]
      cases device : (AddressSpace.route AddressSpace.rootChildren addr).1 with
      | virtio slot =>
        -- The registers take words alone.
        have narrow : count ≠ 4 := fun word => apart ⟨word, slot, device⟩
        rw [deviceWrite, mmioWrite, if_pos narrow]
        exact .error (by simp)
      | dummy | rtc | pciHost | plic | clint | rom | flash | ram | uart =>
        refine ⟨?_, (deviceWrite_orderly (by simp) _ _ _ _ _ _ _ _).stopped⟩
        refine (deviceWrite_changed (by simp)).mono fun result changed => ?_
        refine ⟨changed.blk, changed.size, ?_⟩
        rcases changed.bytes with same | ⟨ram, word, stored⟩
        · exact .inl (funext fun at_ => congrFun same _)
        · -- In RAM the offset of the write is the distance of its address from the start.
          rw [AddressSpace.route_ramStart (device.trans ram)] at stored
          exact .inr ⟨word, memory_of_stored stored⟩
    exact .bind written fun result kept => .ok kept

/-- A write that takes no word to a virtio slot touches no register of the block device. -/
theorem nestedWriter_apart {addr : BitVec 64} {count : Nat} (apart : ¬ Reaches addr count)
    (fuel : Nat) {bus : Bus} (settled : Settled vdev size bus) (data : BitVec 64) :
    Ends (nestedWriter host fuel bus addr count data) (Settled vdev size) Stop.Ordinary :=
  (nestedWriter_stored apart fuel bus data).mono (fun _ stored =>
    ⟨stored.blk ▸ settled.vdev, stored.size.trans settled.size⟩) fun _ ordinary => ordinary

/-- A write that is not one of a word reaches no register of the block device. -/
theorem nestedWriter_narrow {count : Nat} (narrow : count ≠ 4) (fuel : Nat) :
    WritesSize (Settled vdev size) Stop.Ordinary (nestedWriter host fuel) count :=
  fun _ _ data settled => nestedWriter_apart (fun reaches => narrow reaches.1) fuel settled data

/-! ### Popping a request -/

/-- What a look at the available ring results in. -/
inductive Popped (bus : Bus) : Option VqRequest → Bus → Prop where
  /-- The ring has nothing new, and nothing changes. -/
  | empty (same : bus.availIdx = bus.blk.vdev.vq.lastAvailIdx) : Popped bus none bus
  /-- The next slot of the ring names the chain of the request. -/
  | request (req : VqRequest) (after : Bus) (new : bus.availIdx ≠ bus.blk.vdev.vq.lastAvailIdx)
    (index : req.index = bus.availHead bus.blk.vdev.vq.lastAvailIdx)
    (settled : Settled { bus.blk.vdev with
      vq.lastAvailIdx := bus.blk.vdev.vq.lastAvailIdx + 1 } bus.ram.size after) :
    Popped bus (some req) after

/-- The device after `last_avail_idx` was counted on. -/
def countAvail (bus : Bus) : Bus :=
  { bus with blk.vdev.vq.lastAvailIdx := bus.blk.vdev.vq.lastAvailIdx + 1 }

/-- The slot of an element, as the code computes its address. -/
theorem availAddr_eq (vring : Vring) (idx : BitVec 16) :
    vring.avail + (4 + 2 * (idx.setWidth 32 % vring.num).setWidth 64) =
      vring.availAddr (vring.slot idx) := by
  rw [setWidth_slot, Vring.availAddr, BitVec.ofNat_add, BitVec.ofNat_mul]
  rfl

/-- The two bytes of the available ring behind its flags lie in RAM. -/
theorem Ready.availIdx_placed {bus : Bus} (ready : bus.Ready) :
    InMemory (bus.blk.vdev.vq.vring.avail + 2) 2 :=
  ready.avail.part (by rw [Vring.availSize]; omega : 2 + 2 ≤ _)

/-- An element of the available ring lies in RAM. -/
theorem Ready.avail_element {bus : Bus} (ready : bus.Ready) (idx : BitVec 16) :
    InMemory (bus.blk.vdev.vq.vring.availAddr (bus.blk.vdev.vq.vring.slot idx)) 2 := by
  have below : bus.blk.vdev.vq.vring.slot idx < bus.blk.vdev.vq.vring.num.toNat :=
    Nat.mod_lt _ ready.some
  exact ready.avail.part (by rw [Vring.availSize]; omega)

/-- The head of the next chain is what the next slot holds. -/
theorem vqueueGetHead_ready {bus : Bus} (ready : bus.Ready) (host : Host) (idx : BitVec 16) :
    Ensures (bus.vqueueGetHead host idx) fun result =>
      result = (bus.availHead idx, bus) := by
  refine .ite (fun _ => .error) fun _ => ?_
  dsimp only
  rw [availAddr_eq, asReadNommu_memory ready.whole rfl (ready.avail_element idx)]
  exact .ite (fun _ => .error) fun _ => .ok rfl

section Pop

variable {inv : Bus → Prop} (reads : Reads host inv fun _ => True)

include reads

/-- A request read from an indirect table has the head it was asked for. -/
theorem vringDescReadIndirect_index {bus : Bus} (holds : inv bus) (head : BitVec 32)
    (addr : BitVec 64) (len : BitVec 32) :
    Ensures (bus.vringDescReadIndirect host head addr len) fun result =>
      result.1.index = head ∧ inv result.2 := by
  refine .ite (fun _ => .error) fun _ => ?_
  exact .bind (reads.readIndirectFrom addr _ holds _ _ _).ensures fun table kept => .ok ⟨rfl, kept⟩

/--
A look at the available ring finds nothing new, or the head in the slot the index selects.

What the device does to memory besides is left to a property that its reads and its one write keep.
-/
theorem vqueuePop_takes {bus : Bus} (ready : bus.Ready) {write : Writer}
    (counted : inv bus.countAvail)
    (told : ∀ data, Ensures (write bus.countAvail (bus.blk.vdev.vq.vring.used +
      (4 + 8 * bus.blk.vdev.vq.vring.num.setWidth 64)) 2 data) inv) :
    Ensures (bus.vqueuePop host write) fun result =>
      bus.availIdx = bus.blk.vdev.vq.lastAvailIdx ∧ result = (none, bus) ∨
        bus.availIdx ≠ bus.blk.vdev.vq.lastAvailIdx ∧ inv result.2 ∧
          ∃ req, result.1 = some req ∧ req.index = bus.availHead bus.blk.vdev.vq.lastAvailIdx := by
  unfold vqueuePop
  rw [asReadNommu_memory ready.whole rfl ready.availIdx_placed, ok_bind]
  refine .ite (fun same => .ok (.inl ⟨same, rfl⟩)) fun new => ?_
  -- The index is counted on before the slot is read, which lies where it was.
  have placed : bus.countAvail.Ready := ⟨⟨ready.whole, ready.some, ready.used, ready.irq⟩, ready.avail⟩
  refine .bind (vqueueGetHead_ready placed host _) fun result same => ?_
  rw [same]
  dsimp only
  refine .optional (told _) counted fun bus written => ?_
  refine .bind (reads.asReadBlob written _ (by omega)).ensures fun ⟨bytes, bus⟩ read => ?_
  refine .ite (fun _ => ?_) fun _ => .error
  refine .bind (vringDescReadIndirect_index reads read _ _ _) fun ⟨req, after⟩ ⟨index, kept⟩ => ?_
  exact .ok (.inr ⟨new, kept, req, rfl, index⟩)

end Pop

/-- The device takes at most one request, from the slot its index selects, and counts it. -/
theorem vqueuePop_ready {bus : Bus} (ready : bus.Ready) {write : Writer}
    (narrow : ∀ vdev size, WritesSize (Settled vdev size) Stop.Ordinary write 2) :
    Ensures (bus.vqueuePop host write) fun result => Popped bus result.1 result.2 := by
  have start : Settled bus.countAvail.blk.vdev bus.ram.size bus.countAvail := ⟨rfl, rfl⟩
  have taken := vqueuePop_takes (reads_settled : Reads host _ _) ready start fun data =>
    (narrow _ _ _ _ data start).ensures
  rintro ⟨found, after⟩ popped
  -- Either the index of the guest has not moved, or one request is taken.
  rcases taken _ popped with ⟨same, none⟩ | ⟨new, settled, req, some, index⟩
  · cases none
    exact .empty same
  · cases some
    exact .request req after new index settled

/-! ### Serving a request -/

/-- What the end of a request leaves: its element in the next slot of the used ring, counted on. -/
structure Ended (bus : Bus) (req : VqRequest) (after : Bus) : Prop where
  /-- The device has counted its index on and asked for its interrupt. -/
  settled : Settled { bus.blk.vdev with
    vq.usedIdx := bus.blk.vdev.vq.usedIdx + 1, isr := bus.blk.vdev.isr ||| 0x1 } bus.ram.size after
  /-- The element names the request and how much of its segments the device may have written. -/
  entry : after.usedEntry bus.blk.vdev.vq.usedIdx = (req.index, req.inLen)
  /-- The index behind which the driver looks for no element has been counted on. -/
  idx : after.usedRingIdx = bus.blk.vdev.vq.usedIdx + 1

/-- The address of an element of a used ring in RAM, and that of its second word, as numbers. -/
theorem toNat_usedAddr {vring : Vring} (used : InMemory vring.used vring.usedSize) {slot : Nat}
    (below : slot < vring.num.toNat) :
    (vring.usedAddr slot).toNat = vring.used.toNat + (4 + 8 * slot) ∧
      (vring.usedAddr slot + 4).toNat = vring.used.toNat + (4 + 8 * slot) + 4 := by
  -- The ring ends in RAM, so no address in it wraps around.
  have last := used.last
  rw [Vring.usedSize] at last
  have place : (vring.usedAddr slot).toNat = vring.used.toNat + (4 + 8 * slot) := by
    rw [Vring.usedAddr, BitVec.toNat_add, BitVec.toNat_ofNat]
    omega
  refine ⟨place, ?_⟩
  rw [BitVec.toNat_add, place]
  change (_ + 4) % 2 ^ 64 = _
  omega

/-- The address of the index of a used ring in RAM, as a number. -/
theorem toNat_usedIndexAddr {vring : Vring} (used : InMemory vring.used vring.usedSize) :
    (vring.used + 2).toNat = vring.used.toNat + 2 := by
  have last := used.last
  rw [Vring.usedSize] at last
  rw [BitVec.toNat_add]
  change (_ + 2) % 2 ^ 64 = _
  omega

section Used

variable {vq : Vqueue} (some : 0 < vq.vring.num.toNat)
  (used : InMemory vq.vring.used vq.vring.usedSize) (req : VqRequest) (mem : BitVec 64 → BitVec 8)

include some used

/-- An element that was written reads back, and the index before it is as it was. -/
theorem load_usedElement :
    let addr := vq.vring.usedAddr (vq.vring.slot vq.usedIdx)
    let after := usedElement vq req mem
    (LittleEndian.load 64 after addr 4).setWidth 32 = req.index ∧
      (LittleEndian.load 64 after (addr + 4) 4).setWidth 32 = req.inLen ∧
      LittleEndian.load 64 after (vq.vring.used + 2) 2 =
        LittleEndian.load 64 mem (vq.vring.used + 2) 2 := by
  have below : vq.vring.slot vq.usedIdx < vq.vring.num.toNat := Nat.mod_lt _ some
  have last := used.last
  rw [Vring.usedSize] at last
  -- The element lies behind the index, and its second word behind its first.
  obtain ⟨place, second⟩ := toNat_usedAddr used below
  have index := toNat_usedIndexAddr used
  refine ⟨?_, ?_, ?_⟩
  · rw [usedElement, LittleEndian.load_store_apart (by omega) (by omega) (by omega),
      LittleEndian.load_store_same (by decide)]
    simp
  · rw [usedElement, LittleEndian.load_store_same (by decide)]
    simp
  · rw [usedElement, LittleEndian.load_store_apart (by omega) (by omega) (by omega),
      LittleEndian.load_store_apart (by omega) (by omega) (by omega)]

/-- The last element and the index of the used ring read back as they were written. -/
theorem load_used :
    let addr := vq.vring.usedAddr (vq.vring.slot vq.usedIdx)
    let after := usedIndex vq (usedElement vq req mem)
    (LittleEndian.load 64 after addr 4).setWidth 32 = req.index ∧
      (LittleEndian.load 64 after (addr + 4) 4).setWidth 32 = req.inLen ∧
      (LittleEndian.load 64 after (vq.vring.used + 2) 2).setWidth 16 = vq.usedIdx + 1 := by
  have below : vq.vring.slot vq.usedIdx < vq.vring.num.toNat := Nat.mod_lt _ some
  have last := used.last
  rw [Vring.usedSize] at last
  obtain ⟨place, second⟩ := toNat_usedAddr used below
  have index := toNat_usedIndexAddr used
  -- The index is written apart from the element, which reads back as it did before.
  have element := load_usedElement some used req mem
  refine ⟨?_, ?_, ?_⟩
  · rw [usedIndex, LittleEndian.load_store_apart (by omega) (by omega) (by omega)]
    exact element.1
  · rw [usedIndex, LittleEndian.load_store_apart (by omega) (by omega) (by omega)]
    exact element.2.1
  · rw [usedIndex, LittleEndian.load_store_same (by decide)]
    simp

/-- Every other element of the used ring reads as before. -/
theorem load_used_other {slot : Nat} (inside : slot < vq.vring.num.toNat)
    (other : slot ≠ vq.vring.slot vq.usedIdx) :
    let after := usedIndex vq (usedElement vq req mem)
    LittleEndian.load 64 after (vq.vring.usedAddr slot) 4 =
        LittleEndian.load 64 mem (vq.vring.usedAddr slot) 4 ∧
      LittleEndian.load 64 after (vq.vring.usedAddr slot + 4) 4 =
        LittleEndian.load 64 mem (vq.vring.usedAddr slot + 4) 4 := by
  have below : vq.vring.slot vq.usedIdx < vq.vring.num.toNat := Nat.mod_lt _ some
  have last := used.last
  rw [Vring.usedSize] at last
  -- Elements of different slots are eight bytes apart at least.
  obtain ⟨place, second⟩ := toNat_usedAddr used below
  obtain ⟨otherPlace, otherSecond⟩ := toNat_usedAddr used inside
  have index := toNat_usedIndexAddr used
  constructor
  · rw [usedIndex, LittleEndian.load_store_apart (by omega) (by omega) (by omega), usedElement,
      LittleEndian.load_store_apart (by omega) (by omega) (by omega),
      LittleEndian.load_store_apart (by omega) (by omega) (by omega)]
  · rw [usedIndex, LittleEndian.load_store_apart (by omega) (by omega) (by omega), usedElement,
      LittleEndian.load_store_apart (by omega) (by omega) (by omega),
      LittleEndian.load_store_apart (by omega) (by omega) (by omega)]

end Used

/-- What has been set up is there after reads and narrow writes. -/
theorem Serves.settled {bus after : Bus} (serves : bus.Serves)
    (settled : Settled bus.blk.vdev bus.ram.size after) : after.Serves := by
  obtain ⟨vdev, size⟩ := settled
  exact ⟨size.trans serves.whole, vdev ▸ serves.some, vdev ▸ serves.used, vdev ▸ serves.irq⟩

/-- A request that the device serves is ended last, with what its work before that preserves. -/
theorem doRequest_completes {inv : Bus → Prop} (reads : Reads host inv fun _ => True)
    (file : ∀ (bus : Bus) disk, inv bus → inv { bus with blk.disk := disk }) {write : Writer}
    {req : VqRequest} (segments : ∀ pos bus, inv bus →
      Ensures (readSegments write req.iov.tail.dropLast pos bus) inv)
    {bus : Bus} (holds : inv bus) : Ensures (doRequest host write bus req) fun after =>
      ∃ last, inv last ∧ complete write last req = .ok after := by
  unfold doRequest
  cases req.iov.head? with
  | none => exact .error
  | some header =>
    refine .ite (fun _ => .error) fun _ => ?_
    refine .bind (reads.asReadBlob holds _ fun _ => trivial).ensures fun ⟨bytes, start⟩ read => ?_
    dsimp only
    have ends : ∀ {last : Bus}, inv last → Ensures (complete write last req) fun after =>
        ∃ last, inv last ∧ complete write last req = .ok after :=
      fun kept after done => ⟨_, kept, done⟩
    -- The type chooses between a write, a read and a flush.
    split
    · refine .ite (fun _ => ?_) fun _ => ?_
      · unfold handleWrite
        split
        · refine .bind (reads.asReadBlob read _ fun _ => trivial).ensures fun ⟨data, last⟩ taken => ?_
          cases seekSector _ with
          | none => exact .error
          | some pos => exact ends (file _ _ taken)
        · exact .error
      · refine .ite (fun _ => .error) fun _ => ?_
        cases seekSector _ with
        | none => exact .error
        | some pos => exact .bind (segments pos _ read) fun last filled => ends filled
    · exact .ite (fun _ => .error) fun _ => ends read
    · exact .error

section Serve

variable {write : Writer} {bus : Bus} (plain : write.Plain)
  (narrow : ∀ vdev size count, count ≠ 4 →
    WritesSize (Settled vdev size) Stop.Ordinary write count)
  (serves : bus.Serves)

include plain narrow serves

/-- The end of a request fills the next slot of the used ring. -/
theorem complete_ended {start : Bus} (settled : Settled bus.blk.vdev bus.ram.size start)
    (req : VqRequest) : Ensures (complete write start req) (Ended bus req) := by
  rw [complete_eq]
  refine .bind (narrow _ _ 1 (by decide) _ _ _ settled).ensures fun marked kept => ?_
  have ready := serves.settled kept
  rw [vringUsedWrite_memory plain ready, ok_bind]
  refine .bind (fun _ _ => trivial : Ensures _ fun _ => True) fun plic _ => .ok ?_
  obtain ⟨vdev, size⟩ := kept
  -- What the driver finds is read back from the two stores to the ring.
  have words := load_used ready.some ready.used req marked.memory
  rw [interrupted_setMemory]
  have registers : (marked.countUsed.interrupted plic).blk.vdev = { bus.blk.vdev with
      vq.usedIdx := bus.blk.vdev.vq.usedIdx + 1, isr := bus.blk.vdev.isr ||| 0x1 } := by
    simp only [interrupted, countUsed, vdev]
  refine ⟨⟨?_, ?_⟩, ?_, ?_⟩
  · rw [blk_setMemory, registers]
  · rw [size_setMemory]
    exact size
  · rw [usedEntry, memory_setMemory, blk_setMemory, registers, ← vdev]
    exact Prod.ext words.1 words.2.1
  · rw [usedRingIdx, memory_setMemory, blk_setMemory, registers, ← vdev]
    exact words.2.2

omit plain serves in
/-- A request that the device serves leaves its registers as they are until it is ended. -/
theorem doRequest_settled (host : Host) (req : VqRequest) :
    Ensures (doRequest host write bus req) fun after => ∃ last,
      Settled bus.blk.vdev bus.ram.size last ∧ complete write last req = .ok after := by
  have blobs : WritesBlobs (Settled bus.blk.vdev bus.ram.size) Stop.Ordinary write :=
    ⟨fun _ holds => holds, narrow _ _ 8 (by decide), narrow _ _ 1 (by decide)⟩
  -- The file is not among what is settled.
  exact doRequest_completes reads_settled (fun _ _ settled => ⟨settled.vdev, settled.size⟩)
    (fun _ _ settled => (blobs.readSegments _ _ settled).ensures) (.refl bus)

/-- A request that the device serves fills the next slot of the used ring, whatever it asks for. -/
theorem doRequest_ended (host : Host) (req : VqRequest) :
    Ensures (doRequest host write bus req) (Ended bus req) := by
  intro after done
  obtain ⟨last, settled, completed⟩ := doRequest_settled narrow host req after done
  exact complete_ended plain narrow serves settled req after completed

end Serve

end Bus

end Xemu
