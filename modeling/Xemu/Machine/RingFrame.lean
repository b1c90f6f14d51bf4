import Xemu.Machine.Chain

/-! What the queue's work leaves of the rings when no buffer of a request reaches them. -/

namespace Xemu

namespace Vring

/-- An address of the available or the used ring, each up to its last element. -/
def InRings (vring : Vring) (at_ : BitVec 64) : Prop :=
  (∃ i < vring.availSize, at_ = vring.avail + BitVec.ofNat 64 i) ∨
    ∃ i < vring.usedSize, at_ = vring.used + BitVec.ofNat 64 i

/-- A buffer lies outside the rings, and so does its first byte if it is empty. -/
def Avoids (vring : Vring) (segment : IoVec) : Prop :=
  ∀ at_, vring.InRings at_ →
    segment.len.toNat ≤ (at_ - segment.base).toNat ∧ 1 ≤ (at_ - segment.base).toNat

/-- A buffer in RAM that meets neither ring avoids them. -/
theorem avoids_of_apart {vring : Vring} {segment : IoVec} (some : 0 < segment.len.toNat)
    (placed : InMemory segment.base segment.len.toNat)
    (avail : InMemory vring.avail vring.availSize ∧
      Apart vring.avail vring.availSize segment.base segment.len.toNat)
    (used : InMemory vring.used vring.usedSize ∧
      Apart vring.used vring.usedSize segment.base segment.len.toNat) : vring.Avoids segment := by
  intro at_ inside
  -- A byte of a ring lies behind the buffer, or before it and so far around the memory.
  have far : segment.len.toNat ≤ (at_ - segment.base).toNat := by
    rcases inside with ⟨i, inside, rfl⟩ | ⟨i, inside, rfl⟩
    · exact avail.2.outside avail.1 placed inside
    · exact used.2.outside used.1 placed inside
  exact ⟨far, Nat.le_trans some far⟩

end Vring

namespace Bus

/-- The queue of one state is that of another: its registers, its threads, and its rings. -/
structure SameQueue (bus after : Bus) : Prop where
  vdev : after.blk.vdev = bus.blk.vdev
  req : after.blk.req = bus.blk.req
  worker : after.blk.worker = bus.blk.worker
  size : after.ram.size = bus.ram.size
  rings : ∀ at_, bus.blk.vdev.vq.vring.InRings at_ → after.memory at_ = bus.memory at_

namespace SameQueue

variable {bus middle after : Bus} {host : Host} {fuel : Nat}

/-- A queue is the same as itself. -/
theorem refl (bus : Bus) : SameQueue bus bus := ⟨rfl, rfl, rfl, rfl, fun _ _ => rfl⟩

/-- Keeping the queue includes keeping what was settled about it. -/
theorem settled (same : SameQueue bus after) : Settled bus.blk.vdev bus.ram.size after :=
  ⟨same.vdev, same.size⟩

/-- No read changes the queue. -/
theorem reads : Reads host (SameQueue bus) fun _ => True := by
  refine ⟨fun _ _ => trivial, fun middle addr count params same result read => ?_⟩
  -- A read keeps the block device and RAM as they are.
  have kept := asReadNommu_keeps read
  refine ⟨?_, ?_, ?_, ?_, fun at_ inside => ?_⟩
  · rw [kept.blk, same.vdev]
  · rw [kept.blk, same.req]
  · rw [kept.blk, same.worker]
  · rw [kept.ram, same.size]
  · rw [kept.memory]
    exact same.rings at_ inside

/-- The disk is no part of the queue. -/
theorem disk (same : SameQueue bus middle) (disk : Buffer) :
    SameQueue bus { middle with blk.disk := disk } :=
  ⟨same.vdev, same.req, same.worker, same.size, same.rings⟩

/-- A store outside the rings keeps the queue. -/
theorem stored (same : SameQueue bus middle) {addr : BitVec 64} {count : Nat}
    (outside : ∀ at_, bus.blk.vdev.vq.vring.InRings at_ → count ≤ (at_ - addr).toNat)
    (stored : Stored middle addr count after) : SameQueue bus after := by
  -- The devices are those from before, and memory changed at the bytes of the store alone.
  refine ⟨?_, ?_, ?_, stored.size.trans same.size, fun at_ inside => ?_⟩
  · rw [stored.blk, same.vdev]
  · rw [stored.blk, same.req]
  · rw [stored.blk, same.worker]
  · rcases stored.memory with unchanged | ⟨word, written⟩
    · rw [unchanged]
      exact same.rings at_ inside
    · rw [written, LittleEndian.store_outside (outside at_ inside)]
      exact same.rings at_ inside

/-- A narrow write outside the rings keeps the queue. -/
theorem write (same : SameQueue bus middle) {addr : BitVec 64} {count : Nat} (narrow : count ≠ 4)
    (outside : ∀ at_, bus.blk.vdev.vq.vring.InRings at_ → count ≤ (at_ - addr).toNat)
    (data : BitVec 64) :
    Ensures (nestedWriter host fuel middle addr count data) (SameQueue bus) :=
  (nestedWriter_stored (fun reaches => narrow reaches.1) fuel middle data).ensures.mono
    fun _ result => same.stored outside result

/-- So does a loop of such writes, one behind the other. -/
theorem writeChunks {chunk : Nat} (narrow : chunk ≠ 4) (left : Nat) {middle : Bus}
    (same : SameQueue bus middle) (addr : BitVec 64) (data : List (BitVec 8))
    (outside : ∀ at_, bus.blk.vdev.vq.vring.InRings at_ → chunk * left ≤ (at_ - addr).toNat) :
    Ensures (Bus.writeChunks (nestedWriter host fuel) chunk left middle addr data)
      (SameQueue bus) := by
  induction left generalizing middle addr data with
  | zero => exact .ok same
  | succ left ih =>
    -- What is left to write is a part of the stretch as well.
    rw [Nat.mul_succ] at outside
    refine .bind (same.write narrow (fun at_ inside => ?_) _) fun next kept =>
      ih kept _ _ fun at_ inside => ?_
    · exact Nat.le_trans (Nat.le_add_left _ _) (outside at_ inside)
    · exact Bytes.outside_part (outside at_ inside) (by omega)

/-- A blob that is written outside the rings keeps the queue. -/
theorem asWriteBlob (same : SameQueue bus middle) (addr : BitVec 64) (data : List (BitVec 8))
    (outside : ∀ at_, bus.blk.vdev.vq.vring.InRings at_ → data.length ≤ (at_ - addr).toNat) :
    Ensures (Bus.asWriteBlob (nestedWriter host fuel) middle addr data) (SameQueue bus) := by
  have parts : 8 * (data.length / 8) + 1 * (data.length % 8) = data.length := by omega
  refine .ite (fun _ => .error) fun _ => ?_
  refine .bind (same.writeChunks (by decide) _ _ _ fun at_ inside => ?_) fun next kept =>
    kept.writeChunks (by decide) _ _ _ fun at_ inside => ?_
  · have far := outside at_ inside
    omega
  · -- The last bytes follow the doublewords.
    refine Bytes.outside_part (outside at_ inside) ?_
    omega

/-- A file read delivers as many bytes as it was asked for. -/
theorem length_fileRead {disk : Buffer} {pos len : Nat} {data : List (BitVec 8)}
    (read : fileRead disk pos len = some data) : data.length = len := by
  -- An empty read delivers nothing, and any other is refused when the file ends inside it.
  unfold fileRead at read
  split at read
  · cases Option.some.inj read
    simp
  · cases read

/-- The segments of a read that avoid the rings are filled without touching them. -/
theorem readSegments (segments : List IoVec)
    (avoid : ∀ segment ∈ segments, bus.blk.vdev.vq.vring.Avoids segment) (pos : Nat)
    {middle : Bus} (same : SameQueue bus middle) :
    Ensures (Bus.readSegments (nestedWriter host fuel) segments pos middle) (SameQueue bus) := by
  induction segments generalizing pos middle with
  | nil => exact .ok same
  | cons segment rest ih =>
    rw [Bus.readSegments]
    cases read : fileRead middle.blk.disk pos segment.len.toNat with
    | none => exact .error
    | some data =>
      -- What the file delivers is as long as the segment.
      refine .bind (same.asWriteBlob _ _ fun at_ inside => ?_) fun next kept =>
        ih (fun later member => avoid later (List.mem_cons_of_mem _ member)) _ kept
      rw [length_fileRead read]
      exact (avoid segment List.mem_cons_self at_ inside).1

/-- The work on a request whose buffers avoid the rings leaves the queue to its last step. -/
theorem doRequest {req : VqRequest}
    (avoid : ∀ segment ∈ req.iov, bus.blk.vdev.vq.vring.Avoids segment)
    (same : SameQueue bus middle) :
    Ensures (Bus.doRequest host (nestedWriter host fuel) middle req) fun after =>
      ∃ last, SameQueue bus last ∧ complete (nestedWriter host fuel) last req = .ok after :=
  doRequest_completes reads (fun _ other kept => kept.disk other)
    (fun pos _ kept => readSegments _ (fun segment member =>
      avoid segment (List.mem_of_mem_tail (List.mem_of_mem_dropLast member))) pos kept) same

end SameQueue

/-! ### The words of the rings -/

/-- The head of a chain in a slot of the available ring. -/
def availSlot (bus : Bus) (slot : Nat) : BitVec 16 :=
  (LittleEndian.load 64 bus.memory (bus.blk.vdev.vq.vring.availAddr slot) 2).setWidth 16

/-- The head of a chain in a slot of the used ring. -/
def usedSlot (bus : Bus) (slot : Nat) : BitVec 32 :=
  (LittleEndian.load 64 bus.memory (bus.blk.vdev.vq.vring.usedAddr slot) 4).setWidth 32

/-- A word in a stretch of memory depends on the bytes of the stretch alone. -/
theorem load_stretch {mem other : BitVec 64 → BitVec 8} {addr : BitVec 64} {size : Nat}
    (same : ∀ i < size, other (addr + BitVec.ofNat 64 i) = mem (addr + BitVec.ofNat 64 i))
    {from_ count : Nat} (part : from_ + count ≤ size) :
    LittleEndian.load 64 other (addr + BitVec.ofNat 64 from_) count =
      LittleEndian.load 64 mem (addr + BitVec.ofNat 64 from_) count := by
  refine LittleEndian.load_congr fun index inside => ?_
  -- The byte of the word is a byte of the stretch further on.
  rw [BitVec.add_assoc, ← BitVec.ofNat_add]
  exact same _ (by omega)

section Words

variable {bus after : Bus} (layout : after.blk.vdev.vq.vring = bus.blk.vdev.vq.vring)

include layout

/-- The words of the available ring are those of its bytes. -/
theorem avail_congr (same : ∀ i < bus.blk.vdev.vq.vring.availSize,
      after.memory (bus.blk.vdev.vq.vring.avail + BitVec.ofNat 64 i) =
        bus.memory (bus.blk.vdev.vq.vring.avail + BitVec.ofNat 64 i)) :
    after.availIdx = bus.availIdx ∧
      ∀ slot < bus.blk.vdev.vq.vring.num.toNat, after.availSlot slot = bus.availSlot slot := by
  -- The index and each element are a word at some place in the ring.
  refine ⟨?_, fun slot below => ?_⟩
  · rw [availIdx, availIdx, layout]
    exact congrArg _ (load_stretch same (by rw [Vring.availSize]; omega : 2 + 2 ≤ _))
  · rw [availSlot, availSlot, layout]
    exact congrArg _ (load_stretch same (by rw [Vring.availSize]; omega))

/-- The words of the used ring are those of its bytes. -/
theorem used_congr (same : ∀ i < bus.blk.vdev.vq.vring.usedSize,
      after.memory (bus.blk.vdev.vq.vring.used + BitVec.ofNat 64 i) =
        bus.memory (bus.blk.vdev.vq.vring.used + BitVec.ofNat 64 i)) :
    after.usedRingIdx = bus.usedRingIdx ∧
      ∀ slot < bus.blk.vdev.vq.vring.num.toNat, after.usedSlot slot = bus.usedSlot slot := by
  refine ⟨?_, fun slot below => ?_⟩
  · rw [usedRingIdx, usedRingIdx, layout]
    exact congrArg _ (load_stretch same (by rw [Vring.usedSize]; omega : 2 + 2 ≤ _))
  · rw [usedSlot, usedSlot, layout]
    exact congrArg _ (load_stretch same (by rw [Vring.usedSize]; omega))

end Words

/-- Where the queue is the same, the words of the available ring are. -/
theorem SameQueue.avail {bus after : Bus} (same : SameQueue bus after) :
    after.availIdx = bus.availIdx ∧
      ∀ slot < bus.blk.vdev.vq.vring.num.toNat, after.availSlot slot = bus.availSlot slot :=
  avail_congr (by rw [same.vdev]) fun i inside => same.rings _ (.inl ⟨i, inside, rfl⟩)

/-- So are the words of the used ring. -/
theorem SameQueue.used {bus after : Bus} (same : SameQueue bus after) :
    after.usedRingIdx = bus.usedRingIdx ∧
      ∀ slot < bus.blk.vdev.vq.vring.num.toNat, after.usedSlot slot = bus.usedSlot slot :=
  used_congr (by rw [same.vdev]) fun i inside => same.rings _ (.inr ⟨i, inside, rfl⟩)

/-! ### Set-up -/

/-- The queue as its driver sets it up: rings of a power of two in RAM, apart from each other. -/
structure Rings (bus : Bus) : Prop extends Ready bus where
  power : ∃ log ≤ 15, bus.blk.vdev.vq.vring.num.toNat = 2 ^ log
  /-- The layout keeps the rings apart, with the word that tells when to notify. -/
  apart : Apart bus.blk.vdev.vq.vring.avail bus.blk.vdev.vq.vring.availSize
    bus.blk.vdev.vq.vring.used (bus.blk.vdev.vq.vring.usedSize + 2)

/-- The set-up is seen from the layout, the interrupt and the size of RAM. -/
theorem Rings.congr {bus after : Bus} (rings : bus.Rings)
    (layout : after.blk.vdev.vq.vring = bus.blk.vdev.vq.vring)
    (irqNum : after.blk.vdev.irqNum = bus.blk.vdev.irqNum)
    (size : after.ram.size = bus.ram.size) : after.Rings where
  whole := size.trans rings.whole
  some := layout ▸ rings.some
  used := layout ▸ rings.used
  irq := irqNum ▸ rings.irq
  avail := layout ▸ rings.avail
  power := layout ▸ rings.power
  apart := layout ▸ rings.apart

/-- The used ring with the word behind it does not reach the available ring. -/
theorem Rings.avail_outside {bus : Bus} (rings : bus.Rings) {i : Nat}
    (inside : i < bus.blk.vdev.vq.vring.availSize) :
    bus.blk.vdev.vq.vring.usedSize + 2 ≤
      (bus.blk.vdev.vq.vring.avail + BitVec.ofNat 64 i - bus.blk.vdev.vq.vring.used).toNat := by
  have last := rings.avail.last
  have usedFirst := rings.used.first
  have usedLast := rings.used.last
  -- Behind the ring the distance is the plain one, and before it that around the memory.
  rw [BitVec.toNat_sub, BitVec.toNat_add, BitVec.toNat_ofNat]
  rcases rings.apart with before | behind
  · omega
  · omega

/-- The word behind the used ring lies outside both rings. -/
theorem Rings.event_outside {bus : Bus} (rings : bus.Rings) {at_ : BitVec 64}
    (inside : bus.blk.vdev.vq.vring.InRings at_) :
    2 ≤ (at_ - (bus.blk.vdev.vq.vring.used +
      (4 + 8 * bus.blk.vdev.vq.vring.num.setWidth 64))).toNat := by
  have place : (4 + 8 * bus.blk.vdev.vq.vring.num.setWidth 64 : BitVec 64) =
      BitVec.ofNat 64 bus.blk.vdev.vq.vring.usedSize := by
    rw [Vring.usedSize, BitVec.ofNat_add, BitVec.ofNat_mul, BitVec.ofNat_toNat]
    rfl
  rw [place]
  rcases inside with ⟨i, inside, rfl⟩ | ⟨i, inside, rfl⟩
  · exact Bytes.outside_part (rings.avail_outside inside) (Nat.le_refl _)
  · -- A byte of the ring lies before the word, at a distance that reaches around the memory.
    have last := rings.used.last
    rw [add_sub_add_left_eq_sub, BitVec.toNat_sub, BitVec.toNat_ofNat, BitVec.toNat_ofNat]
    omega

/-- A look at the available ring leaves the rings alone, and takes the head its index selects. -/
theorem vqueuePop_same {bus : Bus} (rings : bus.Rings) (host : Host) (fuel : Nat) :
    Ensures (bus.vqueuePop host (nestedWriter host fuel)) fun result =>
      bus.availIdx = bus.blk.vdev.vq.lastAvailIdx ∧ result = (none, bus) ∨
        bus.availIdx ≠ bus.blk.vdev.vq.lastAvailIdx ∧ SameQueue bus.countAvail result.2 ∧
          ∃ req, result.1 = some req ∧ req.index = bus.availHead bus.blk.vdev.vq.lastAvailIdx :=
  vqueuePop_takes SameQueue.reads rings.toReady (.refl _) fun data =>
    -- The one write is that of the word behind the used ring.
    (SameQueue.refl bus.countAvail).write (by decide)
      (fun _ inside => rings.event_outside inside) data

/-! ### Ending a request -/

/-- The device with the element of a request in its used ring, and the index not yet counted on. -/
def entered (bus : Bus) (req : VqRequest) : Bus :=
  bus.setMemory (usedElement bus.blk.vdev.vq req bus.memory)

/-- Entering an element and counting the index on leave RAM as large as it was. -/
theorem size_entered (bus : Bus) (req : VqRequest) :
    (bus.entered req).countUsed.ram.size = bus.ram.size := by
  rw [entered, countUsed_setMemory, size_setMemory]
  rfl

/-- What is left to do when the element was entered: count the index on, and interrupt the guest. -/
def Published (write : Writer) (bus : Bus) (req : VqRequest) (after : Bus) : Prop :=
  ∃ last plic, write (bus.entered req).countUsed (bus.blk.vdev.vq.vring.used + 2) 2
      ((bus.blk.vdev.vq.usedIdx + 1).setWidth 64) = .ok last ∧ after = last.interrupted plic

section Ending

variable {bus : Bus} {host : Host} {fuel : Nat} {req : VqRequest}

/-- A request whose status avoids the rings ends with its element, and then the index. -/
theorem complete_published {start : Bus} (serves : bus.Serves) (same : SameQueue bus start)
    (avoids : ∀ segment ∈ req.iov.getLast?, bus.blk.vdev.vq.vring.Avoids segment)
    (some : req.iov ≠ []) :
    Ensures (complete (nestedWriter host fuel) start req) fun after =>
      ∃ marked, SameQueue bus marked ∧ Published (nestedWriter host fuel) marked req after := by
  cases fuel with
  | zero => exact .error
  | succ fuel =>
    have plain := nestedWriter_plain host (Nat.succ_pos fuel)
    obtain ⟨status, last⟩ := Option.isSome_iff_exists.mp (List.getLast?_isSome.mpr some)
    rw [complete_eq, last, Option.map_some, Option.getD_some]
    refine .bind (same.write (by decide) (fun at_ inside =>
      (avoids status last at_ inside).2) 0) fun marked kept => ?_
    have ready := serves.settled kept.settled
    have index : InMemory (marked.blk.vdev.vq.vring.used + 2) 2 :=
      ready.used.part (by rw [Vring.usedSize]; omega : 2 + 2 ≤ _)
    rw [vringUsedWrite_memory plain ready, ok_bind]
    refine .bind (fun _ _ => trivial : Ensures _ fun _ => True) fun plic _ => .ok ?_
    -- The last of the three writes is the one that is left when the element was entered.
    refine ⟨marked, kept, _, plic, plain _ _ _ _ ?_ rfl index, ?_⟩
    · exact (size_entered marked req).trans ready.whole
    · simp only [entered, countUsed_setMemory, memory_setMemory, setMemory_setMemory]
      rfl

/-- What the end of a request leaves of the queue. -/
structure Fills (bus : Bus) (req : VqRequest) (after : Bus) : Prop where
  settled : Settled { bus.blk.vdev with
    vq.usedIdx := bus.blk.vdev.vq.usedIdx + 1, isr := bus.blk.vdev.isr ||| 0x1 } bus.ram.size after
  slot : after.blk.req = bus.blk.req
  worker : after.blk.worker = bus.blk.worker
  availIdx : after.availIdx = bus.availIdx
  availSlot : ∀ slot < bus.blk.vdev.vq.vring.num.toNat, after.availSlot slot = bus.availSlot slot
  usedRingIdx : after.usedRingIdx = bus.blk.vdev.vq.usedIdx + 1
  written : after.usedSlot (bus.blk.vdev.vq.vring.slot bus.blk.vdev.vq.usedIdx) = req.index
  others : ∀ slot < bus.blk.vdev.vq.vring.num.toNat,
    slot ≠ bus.blk.vdev.vq.vring.slot bus.blk.vdev.vq.usedIdx →
      after.usedSlot slot = bus.usedSlot slot

/-- An entered element reads back while the index before it is as it was. -/
theorem entered_reads (serves : bus.Serves) (req : VqRequest) :
    (bus.entered req).usedEntry bus.blk.vdev.vq.usedIdx = (req.index, req.inLen) ∧
      (bus.entered req).usedRingIdx = bus.usedRingIdx := by
  have words := load_usedElement serves.some serves.used req bus.memory
  rw [entered, usedEntry, usedRingIdx, memory_setMemory, blk_setMemory]
  exact ⟨Prod.ext words.1 words.2.1, congrArg _ words.2.2⟩

/-- Publishing an entered element fills the next slot of the used ring and nothing else. -/
theorem Published.fills {after : Bus} (rings : bus.Rings)
    (published : Published (nestedWriter host fuel) bus req after) : Fills bus req after := by
  obtain ⟨last, plic, counted, rfl⟩ := published
  cases fuel with
  | zero => cases counted
  | succ fuel =>
    have index : InMemory (bus.blk.vdev.vq.vring.used + 2) 2 :=
      rings.used.part (by rw [Vring.usedSize]; omega : 2 + 2 ≤ _)
    have written := nestedWriter_plain host (Nat.succ_pos fuel) (bus.entered req).countUsed
      (bus.blk.vdev.vq.vring.used + 2) 2 ((bus.blk.vdev.vq.usedIdx + 1).setWidth 64)
      ((size_entered bus req).trans rings.whole) rfl index
    have last : last = bus.countUsed.setMemory
        (usedIndex bus.blk.vdev.vq (usedElement bus.blk.vdev.vq req bus.memory)) := by
      rw [Except.ok.inj (counted.symm.trans written)]
      simp only [entered, countUsed_setMemory, memory_setMemory, setMemory_setMemory]
      rfl
    subst last
    rw [interrupted_setMemory]
    -- What the driver finds is read back from the stores to the ring.
    have words := load_used rings.some rings.used req bus.memory
    let after := (bus.countUsed.interrupted plic).setMemory
      (usedIndex bus.blk.vdev.vq (usedElement bus.blk.vdev.vq req bus.memory))
    have layout : after.blk.vdev.vq.vring = bus.blk.vdev.vq.vring := by
      rw [blk_setMemory]
      rfl
    obtain ⟨availIdx, availSlot⟩ := avail_congr layout fun i inside => by
      rw [memory_setMemory]
      exact usedRing_outside rings.some req
        (Nat.le_trans (Nat.le_add_right _ 2) (rings.avail_outside inside))
    refine ⟨⟨?_, ?_⟩, ?_, ?_, availIdx, availSlot, ?_, ?_, fun slot below other => ?_⟩
    · rw [blk_setMemory]
      rfl
    · rw [size_setMemory]
      rfl
    · rw [blk_setMemory]
      rfl
    · rw [blk_setMemory]
      rfl
    · rw [usedRingIdx, memory_setMemory, blk_setMemory]
      exact words.2.2
    · rw [usedSlot, memory_setMemory, blk_setMemory]
      exact words.1
    · rw [usedSlot, memory_setMemory, blk_setMemory]
      exact congrArg _ (load_used_other rings.some rings.used req bus.memory below other).1

end Ending

end Bus

end Xemu
