import Xemu.Machine.Rings

/-! Requests as the driver leaves them in guest memory: chains of descriptors in an indirect table. -/

namespace Xemu

/-- Two stretches of addresses have none in common. -/
def Apart (addr : BitVec 64) (count : Nat) (other : BitVec 64) (size : Nat) : Prop :=
  addr.toNat + count ≤ other.toNat ∨ other.toNat + size ≤ addr.toNat

instance (addr : BitVec 64) (count : Nat) (other : BitVec 64) (size : Nat) :
    Decidable (Apart addr count other size) :=
  inferInstanceAs (Decidable (_ ∨ _))

/-- An address of a stretch in RAM lies outside every stretch apart from it. -/
theorem Apart.outside {addr other : BitVec 64} {count size index : Nat}
    (apart : Apart addr count other size) (placed : InMemory addr count)
    (second : InMemory other size) (inside : index < count) :
    size ≤ (addr + BitVec.ofNat 64 index - other).toNat := by
  have last := placed.last
  have other_last := second.last
  have other_first := second.first
  rw [BitVec.toNat_sub, BitVec.toNat_add, BitVec.toNat_ofNat]
  rcases apart with before | behind
  · omega
  · omega

namespace Bus

/-- A descriptor of a table in memory. -/
def descAt (mem : BitVec 64 → BitVec 8) (table : BitVec 64) (entry : Nat) : VringDesc :=
  descOf (Bytes.get mem (table + BitVec.ofNat 64 (16 * entry)) 16)

/-- The descriptors of a table that are chained from an entry on, none of them outside the table. -/
inductive Chained (mem : BitVec 64 → BitVec 8) (table : BitVec 64) (entries : Nat) :
    Nat → List VringDesc → Prop where
  /-- The last descriptor of a chain does not have the chaining flag. -/
  | last {entry : Nat} (inside : entry < entries) (final : (descAt mem table entry).flags &&& 0x1 = 0) :
    Chained mem table entries entry [descAt mem table entry]
  /-- Any other names the entry of the next one. -/
  | next {entry : Nat} {rest : List VringDesc} (inside : entry < entries)
    (more : (descAt mem table entry).flags &&& 0x1 ≠ 0)
    (later : Chained mem table entries (descAt mem table entry).next.toNat rest) :
    Chained mem table entries entry (descAt mem table entry :: rest)

/-- The number of bytes the device may write, counted on along a chain. -/
def addIn (inLen : BitVec 32) (chain : List VringDesc) : BitVec 32 :=
  chain.foldl (fun inLen desc => if desc.flags &&& 0x2 ≠ 0 then inLen + desc.len else inLen) inLen

/-- The offset of an entry, as the code computes it. -/
theorem setWidth_entry {w : Nat} (entry : BitVec w) :
    entry.setWidth 64 * 16 = BitVec.ofNat 64 (16 * entry.toNat) := by
  apply BitVec.eq_of_toNat_eq
  rw [BitVec.toNat_mul, BitVec.toNat_setWidth, BitVec.toNat_ofNat]
  change entry.toNat % 2 ^ 64 * 16 % 2 ^ 64 = _
  omega

section Table

variable {mem other : BitVec 64 → BitVec 8} {table : BitVec 64} {entries entry : Nat}
  {chain : List VringDesc}

/-- The first descriptor of a chain lies in the table. -/
theorem Chained.inside (chained : Chained mem table entries entry chain) : entry < entries := by
  cases chained with
  | last inside _ => exact inside
  | next inside _ _ => exact inside

/-- A descriptor that names an entry comes before the chain from there on. -/
theorem Chained.step {entry following : Nat} {rest : List VringDesc} (inside : entry < entries)
    (more : (descAt mem table entry).flags &&& 0x1 ≠ 0)
    (names : (descAt mem table entry).next.toNat = following)
    (later : Chained mem table entries following rest) :
    Chained mem table entries entry (descAt mem table entry :: rest) := by
  subst names
  exact .next inside more later

/-- A descriptor depends on its sixteen bytes. -/
theorem descAt_congr (same : ∀ index < 16 * entries,
    mem (table + BitVec.ofNat 64 index) = other (table + BitVec.ofNat 64 index))
    (inside : entry < entries) : descAt mem table entry = descAt other table entry := by
  rw [descAt, descAt, Bytes.get, Bytes.get]
  refine congrArg descOf (List.map_congr_left fun index listed => ?_)
  have below := List.mem_range.mp listed
  rw [BitVec.add_assoc, ← BitVec.ofNat_add]
  exact same _ (by omega)

/-- A chain depends on the bytes of its table. -/
theorem Chained.congr (same : ∀ index < 16 * entries,
    mem (table + BitVec.ofNat 64 index) = other (table + BitVec.ofNat 64 index))
    (chained : Chained mem table entries entry chain) :
    Chained other table entries entry chain := by
  induction chained with
  | last inside final =>
    rw [descAt_congr same inside] at final ⊢
    exact .last inside final
  | next inside more later ih =>
    rw [descAt_congr same inside] at more ih ⊢
    exact .next inside more ih

/-- A table that is not aligned cannot be read. -/
theorem vringDescReadIndirect_unaligned (unaligned : table.toNat % 8 ≠ 0) (host : Host)
    (bus : Bus) (head len : BitVec 32) :
    ∃ stop, bus.vringDescReadIndirect host head table len = .error stop := by
  have first : table + 0 = table := BitVec.add_zero table
  unfold vringDescReadIndirect
  split
  · exact ⟨_, rfl⟩
  · rw [readIndirectFrom, first, asReadBlob, if_pos unaligned]
    exact ⟨_, rfl⟩

section Reads

variable {bus : Bus} {host : Host} (reads : ∀ entry < entries,
  bus.asReadBlob host (table + BitVec.ofNat 64 (16 * entry)) 16 =
    .ok (Bytes.get mem (table + BitVec.ofNat 64 (16 * entry)) 16, bus))

include reads

/-- The loop over an indirect table finds the segments of a chain in order. -/
theorem readIndirectFrom_chained (chained : Chained mem table entries entry chain) {room : Nat}
    (enough : chain.length ≤ room) (iov : List IoVec) (inLen : BitVec 32) :
    readIndirectFrom host table room bus (BitVec.ofNat 64 (16 * entry)) iov inLen =
      .ok (iov.reverse ++ chain.map ioVecOf, addIn inLen chain, bus) := by
  -- The induction is on the chain, so the room and what was found so far vary.
  induction chained generalizing room iov inLen with
  | @last entry inside final =>
    obtain ⟨room, rfl⟩ := Nat.exists_eq_add_of_lt enough
    rw [List.length_nil, Nat.zero_add, readIndirectFrom, reads entry inside, ok_bind]
    rw [descAt] at final ⊢
    simp only [if_pos final, pure_eq_ok, List.reverse_cons, List.map_cons, List.map_nil, addIn,
      List.foldl_cons, List.foldl_nil]
  | @next entry rest inside more later ih =>
    obtain ⟨room, rfl⟩ : ∃ less, room = less + 1 := ⟨room - 1, by
      rw [List.length_cons] at enough
      omega⟩
    have offset := setWidth_entry (descAt mem table entry).next
    rw [readIndirectFrom, reads entry inside, ok_bind]
    rw [descAt] at more offset ih ⊢
    simp only [if_neg more, offset]
    rw [ih (by rw [List.length_cons] at enough; omega)]
    simp [addIn]

/-- A chain from the first entry of a table is read as one request. -/
theorem vringDescReadIndirect_chained (chained : Chained mem table entries 0 chain)
    (room : chain.length ≤ 1024) {len : BitVec 32} (size : len.toNat = 16 * entries)
    (head : BitVec 32) :
    bus.vringDescReadIndirect host head table len =
      .ok ({ index := head, inLen := addIn 0 chain, iov := chain.map ioVecOf }, bus) := by
  have some := chained.inside
  -- The size of the table passes the check before the loop.
  have accepted : ¬ (len = 0 ∨ len.toNat % 16 ≠ 0) := by
    rw [← BitVec.toNat_inj, size]
    change ¬ (16 * entries = 0 ∨ _)
    omega
  rw [vringDescReadIndirect, if_neg accepted]
  exact bind_of_ok (readIndirectFrom_chained reads chained room [] 0) rfl

end Reads

variable {bus : Bus} (whole : bus.ram.size = ramSize) (aligned : table.toNat % 8 = 0)
  (placed : InMemory table (16 * entries))

include whole aligned placed

/-- A descriptor of an aligned table in RAM is read as it is there. -/
theorem asReadBlob_desc (host : Host) (inside : entry < entries) :
    bus.asReadBlob host (table + BitVec.ofNat 64 (16 * entry)) 16 =
      .ok (Bytes.get bus.memory (table + BitVec.ofNat 64 (16 * entry)) 16, bus) := by
  have part := placed.part (show 16 * entry + 16 ≤ 16 * entries by omega)
  refine asReadBlob_memory whole host ?_ part
  have last := placed.last
  rw [BitVec.toNat_add, BitVec.toNat_ofNat]
  omega

end Table

/-! ### Popping a chain -/

/-- Guest memory after the driver was told up to where the available ring has been looked at. -/
def toldMemory (bus : Bus) : BitVec 64 → BitVec 8 :=
  if bus.blk.vdev.guestFeatures &&& virtioRingFEventIdx ≠ 0 then
    LittleEndian.store bus.memory
      (bus.blk.vdev.vq.vring.used + BitVec.ofNat 64 bus.blk.vdev.vq.vring.usedSize) 2
      ((bus.blk.vdev.vq.lastAvailIdx + 1).setWidth 64)
  else bus.memory

/-- The next request of the driver as it lies in memory: a descriptor of a table with its chain. -/
structure Posted (bus : Bus) (table : BitVec 64) (entries : Nat) (chain : List VringDesc) : Prop
    extends Ready bus where
  /-- The table of descriptors is aligned and lies in RAM. -/
  desc : bus.blk.vdev.vq.vring.desc.toNat % 16 = 0 ∧
    InMemory bus.blk.vdev.vq.vring.desc (16 * bus.blk.vdev.vq.vring.num.toNat)
  /-- The used ring lies in RAM, with the two bytes behind its elements. -/
  event : InMemory bus.blk.vdev.vq.vring.used (bus.blk.vdev.vq.vring.usedSize + 2)
  /-- The driver has put a head into the available ring. -/
  new : bus.availIdx ≠ bus.blk.vdev.vq.lastAvailIdx
  /-- The head is the number of a descriptor. -/
  head : bus.availHead bus.blk.vdev.vq.lastAvailIdx < bus.blk.vdev.vq.vring.num
  /-- The descriptor is one of an indirect table. -/
  indirect : (descAt bus.memory bus.blk.vdev.vq.vring.desc
    (bus.availHead bus.blk.vdev.vq.lastAvailIdx).toNat).flags &&& 0x4 ≠ 0
  /-- The table starts where the descriptor says. -/
  base : (descAt bus.memory bus.blk.vdev.vq.vring.desc
    (bus.availHead bus.blk.vdev.vq.lastAvailIdx).toNat).addr = table
  /-- The table has as many entries as the descriptor says. -/
  len : (descAt bus.memory bus.blk.vdev.vq.vring.desc
    (bus.availHead bus.blk.vdev.vq.lastAvailIdx).toNat).len = BitVec.ofNat 32 (16 * entries)
  /-- The size of the table is one of a descriptor. -/
  small : 16 * entries < 2 ^ 32
  /-- The table lies in RAM. -/
  placed : InMemory table (16 * entries)
  /-- The chain starts at the first entry. -/
  chained : Chained bus.memory table entries 0 chain
  /-- Neither table meets the used ring. -/
  apart : Apart bus.blk.vdev.vq.vring.desc (16 * bus.blk.vdev.vq.vring.num.toNat)
      bus.blk.vdev.vq.vring.used (bus.blk.vdev.vq.vring.usedSize + 2) ∧
    Apart table (16 * entries) bus.blk.vdev.vq.vring.used (bus.blk.vdev.vq.vring.usedSize + 2)

section Pop

variable {bus : Bus} {write : Writer} {host : Host} {table : BitVec 64} {entries : Nat}
  {chain : List VringDesc}

/-- The devices after the head of the next chain was taken from the available ring. -/
def popped (bus : Bus) : Bus := bus.countAvail.setMemory bus.toldMemory

/-- Telling the driver changes no byte outside the used ring. -/
theorem toldMemory_outside {at_ : BitVec 64} (outside : bus.blk.vdev.vq.vring.usedSize + 2 ≤
    (at_ - bus.blk.vdev.vq.vring.used).toNat) : bus.toldMemory at_ = bus.memory at_ := by
  unfold toldMemory
  split
  · exact LittleEndian.store_outside (Bytes.outside_part outside le_rfl)
  · rfl

/-- What is ready is so with other bytes in RAM. -/
theorem Ready.popped (ready : bus.Ready) : bus.popped.Ready :=
  ⟨⟨ready.whole, ready.some, ready.used, ready.irq⟩, ready.avail⟩

/-- The head of the next chain is read where it is one of a descriptor. -/
theorem vqueueGetHead_inside (ready : bus.Ready) (host : Host) {idx : BitVec 16}
    (inside : bus.availHead idx < bus.blk.vdev.vq.vring.num) :
    bus.vqueueGetHead host idx = .ok (bus.availHead idx, bus) := by
  rw [vqueueGetHead, if_neg (ne_zero_of_toNat_pos ready.some)]
  dsimp only
  rw [availAddr_eq, asReadNommu_memory ready.whole rfl (ready.avail_element idx), ok_bind]
  exact if_neg (BitVec.not_le.mpr inside)

/-- Telling the driver writes the two bytes behind the used ring, where it asked for that. -/
theorem tell_memory (plain : write.Plain) (ready : bus.Ready)
    (event : InMemory bus.blk.vdev.vq.vring.used (bus.blk.vdev.vq.vring.usedSize + 2)) :
    (if bus.countAvail.blk.vdev.guestFeatures &&& virtioRingFEventIdx ≠ 0 then
      write bus.countAvail (bus.countAvail.blk.vdev.vq.vring.used +
        (4 + 8 * bus.countAvail.blk.vdev.vq.vring.num.setWidth 64)) 2
        (bus.countAvail.blk.vdev.vq.lastAvailIdx.setWidth 64)
    else .ok bus.countAvail) = .ok bus.popped := by
  -- The word behind the elements is where the code computes it to be.
  have behind : bus.countAvail.blk.vdev.vq.vring.used +
      (4 + 8 * bus.countAvail.blk.vdev.vq.vring.num.setWidth 64) =
        bus.blk.vdev.vq.vring.used + BitVec.ofNat 64 bus.blk.vdev.vq.vring.usedSize := by
    rw [Vring.usedSize, BitVec.ofNat_add, BitVec.ofNat_mul, BitVec.ofNat_toNat]
    rfl
  have features : bus.countAvail.blk.vdev.guestFeatures = bus.blk.vdev.guestFeatures := rfl
  rw [popped, toldMemory, behind, features]
  split
  · exact plain bus.countAvail _ 2 _ ready.whole rfl event.back
  · exact congrArg Except.ok (setMemory_memory bus.countAvail).symm

/-- The device goes on from the next head to the chain it stands for. -/
theorem vqueuePop_desc (plain : write.Plain) (posted : bus.Posted table entries chain) :
    bus.vqueuePop host write =
      bus.popped.vringDescReadIndirect host (bus.availHead bus.blk.vdev.vq.lastAvailIdx) table
        (BitVec.ofNat 32 (16 * entries)) >>= fun result => .ok (some result.1, result.2) := by
  have counted : bus.countAvail.Ready :=
    ⟨⟨posted.whole, posted.some, posted.used, posted.irq⟩, posted.avail⟩
  have head : bus.countAvail.vqueueGetHead host bus.blk.vdev.vq.lastAvailIdx =
      .ok (bus.availHead bus.blk.vdev.vq.lastAvailIdx, bus.countAvail) :=
    vqueueGetHead_inside counted host posted.head
  have told := tell_memory plain posted.toReady posted.event
  unfold vqueuePop
  rw [asReadNommu_memory posted.whole rfl posted.availIdx_placed, ok_bind]
  dsimp only
  refine (if_neg posted.new).trans ?_
  refine bind_of_ok head ?_
  dsimp only
  refine choice_of_ok told ?_
  -- The descriptor of the head lies apart from what was written.
  have inside : (bus.availHead bus.blk.vdev.vq.lastAvailIdx).toNat <
      bus.blk.vdev.vq.vring.num.toNat := BitVec.lt_def.mp posted.head
  have same : descAt bus.popped.memory bus.blk.vdev.vq.vring.desc
      (bus.availHead bus.blk.vdev.vq.lastAvailIdx).toNat =
        descAt bus.memory bus.blk.vdev.vq.vring.desc
          (bus.availHead bus.blk.vdev.vq.lastAvailIdx).toNat := by
    refine descAt_congr (fun index below => ?_) inside
    rw [popped, memory_setMemory]
    exact toldMemory_outside (posted.apart.1.outside posted.desc.2 posted.event below)
  have read := asReadBlob_desc posted.toReady.popped.whole
    (by have := posted.desc.1; omega) posted.desc.2 host inside
  rw [← setWidth_entry] at read
  have found : descOf (Bytes.get bus.popped.memory (bus.blk.vdev.vq.vring.desc +
      (bus.availHead bus.blk.vdev.vq.lastAvailIdx).setWidth 64 * 16) 16) =
        descAt bus.memory bus.blk.vdev.vq.vring.desc
          (bus.availHead bus.blk.vdev.vq.lastAvailIdx).toNat := by
    rw [setWidth_entry]
    exact same
  refine bind_of_ok read ?_
  dsimp only
  rw [found, posted.base, posted.len]
  refine (if_pos posted.indirect).trans ?_
  rfl

/-- The device pops a chain whose table is aligned, with its segments in order. -/
theorem vqueuePop_posted (plain : write.Plain) (posted : bus.Posted table entries chain)
    (room : chain.length ≤ 1024) (aligned : table.toNat % 8 = 0) :
    bus.vqueuePop host write = .ok (some { index := bus.availHead bus.blk.vdev.vq.lastAvailIdx
                                           inLen := addIn 0 chain
                                           iov := chain.map ioVecOf }, bus.popped) := by
  have chained : Chained bus.popped.memory table entries 0 chain := by
    refine posted.chained.congr fun index below => ?_
    rw [popped, memory_setMemory]
    exact (toldMemory_outside (posted.apart.2.outside posted.placed posted.event below)).symm
  have size : (BitVec.ofNat 32 (16 * entries)).toNat = 16 * entries := by
    rw [BitVec.toNat_ofNat, Nat.mod_eq_of_lt posted.small]
  -- Telling the driver left the table alone, so its chain is read as it was posted.
  have walked := vringDescReadIndirect_chained
    (fun _ inside => asReadBlob_desc posted.toReady.popped.whole aligned posted.placed host inside)
    chained room size (bus.availHead bus.blk.vdev.vq.lastAvailIdx)
  rw [vqueuePop_desc plain posted, walked]
  rfl

/-- A chain whose table is not aligned stops the device. -/
theorem vqueuePop_unaligned (plain : write.Plain) (posted : bus.Posted table entries chain)
    (unaligned : table.toNat % 8 ≠ 0) (host : Host) :
    ∃ stop, bus.vqueuePop host write = .error stop := by
  obtain ⟨stop, failed⟩ := vringDescReadIndirect_unaligned unaligned host bus.popped
    (bus.availHead bus.blk.vdev.vq.lastAvailIdx) (BitVec.ofNat 32 (16 * entries))
  rw [vqueuePop_desc plain posted, failed]
  exact ⟨stop, rfl⟩

end Pop

end Bus

end Xemu
