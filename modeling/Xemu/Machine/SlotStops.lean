import Xemu.Machine.SlotSteps
import Xemu.Machine.Rings

/-! Which accesses of the virtio slots look where nothing is: backends, and the end of the record. -/

namespace Xemu

/-! ### Slots -/

namespace AddressSpace

/-- Every place of a slot is taken by the slot. -/
theorem route_slotAddr (slot : Fin 8) (offset : BitVec 12) :
    route rootChildren (slotAddr slot offset) = (.virtio slot, offset.setWidth 64) := by
  -- The slots are a page each, one behind the other, so an offset of twelve bits stays inside.
  have member : ∀ slot : Fin 8, virtioSlot slot ∈ rootChildren := by decide
  have bounds : ∀ slot : Fin 8,
      (virtioSlot slot).last.toNat = (virtioSlot slot).start.toNat + 0xFFF ∧
        (virtioSlot slot).start.toNat < 0x20000000 := by decide
  obtain ⟨last, low⟩ := bounds slot
  have below := offset.isLt
  have place : (slotAddr slot offset).toNat = (virtioSlot slot).start.toNat + offset.toNat := by
    rw [slotAddr, BitVec.toNat_add, BitVec.toNat_setWidth]
    omega
  have inside : (virtioSlot slot).contains (slotAddr slot offset) = true := by
    simp only [contains, Bool.and_eq_true, decide_eq_true_eq, BitVec.le_def]
    omega
  rw [route_contains (member slot) inside, slotAddr, add_sub_cancel_left]
  rfl

/-- What a slot takes is a place in it. -/
theorem exists_slotAddr {slot : Fin 8} {addr : BitVec 64}
    (taken : (route rootChildren addr).1 = .virtio slot) :
    ∃ offset, addr = slotAddr slot offset := by
  obtain ⟨region, member, inside, found⟩ := exists_contains (by rw [taken]; exact nofun)
  have slots : ∀ region ∈ rootChildren, ∀ slot : Fin 8, region.device = .virtio slot →
      region = virtioSlot slot := by decide
  have last : ∀ slot : Fin 8,
      (virtioSlot slot).last.toNat = (virtioSlot slot).start.toNat + 0xFFF := by decide
  rw [found] at taken
  obtain rfl := slots region member slot taken
  simp only [contains, Bool.and_eq_true, decide_eq_true_eq, BitVec.le_def, last slot] at inside
  -- The distance from the start of the slot fits into twelve bits.
  refine ⟨(addr - (virtioSlot slot).start).setWidth 12, BitVec.eq_of_toNat_eq ?_⟩
  rw [slotAddr, BitVec.toNat_add, BitVec.toNat_setWidth, BitVec.toNat_setWidth, BitVec.toNat_sub]
  have below := addr.isLt
  omega

/-- An address is a place of one slot only, and one place there. -/
theorem slotAddr_inj {one two : Fin 8} {offset other : BitVec 12}
    (same : slotAddr one offset = slotAddr two other) : one = two ∧ offset = other := by
  -- The bus takes an address to one device and one offset.
  have routes := route_slotAddr one offset
  rw [same, route_slotAddr] at routes
  obtain ⟨slot, place⟩ := Prod.mk.inj routes
  refine ⟨(DeviceId.virtio.inj slot).symm, BitVec.eq_of_toNat_eq ?_⟩
  have places := congrArg BitVec.toNat place
  have below := offset.isLt
  have also := other.isLt
  simp only [BitVec.toNat_setWidth] at places
  omega

end AddressSpace

/-! ### Stops -/

/-- Besides ordinary stops a computation has one other, and ends there in exactly one case. -/
structure StopsWhen {α : Type} (comp : Except Stop α) (stop : Stop) (cond : Prop) : Prop where
  iff : comp = .error stop ↔ cond
  other : ∀ early, comp = .error early → early = stop ∨ early.Ordinary

namespace StopsWhen

variable {α β : Type} {comp : Except Stop α} {stop : Stop} {cond : Prop}

/-- A computation with ordinary stops alone has no other one. -/
theorem never (orderly : Orderly comp) (special : ¬ stop.Ordinary) (no : ¬ cond) :
    StopsWhen comp stop cond :=
  ⟨iff_of_false (fun same => special (orderly.stopped stop same)) no,
    fun early same => .inr (orderly.stopped early same)⟩

/-- A computation that ends with the stop does so in the case it is in. -/
theorem always (stopped : comp = .error stop) (holds : cond) : StopsWhen comp stop cond :=
  ⟨iff_of_true stopped holds, fun _ same => .inl (Except.error.inj (same.symm.trans stopped))⟩

/-- What follows without a special stop adds none. -/
theorem bind {next : α → Except Stop β} (first : StopsWhen comp stop cond)
    (special : ¬ stop.Ordinary) (orderly : ∀ result, Orderly (next result)) :
    StopsWhen (comp >>= next) stop cond := by
  -- A first part that stops is all there is, and one that completes is not in the case.
  cases completed : comp with
  | error early =>
    rw [completed] at first
    refine ⟨?_, fun later same => first.other later (by cases same; rfl)⟩
    rw [← first.iff]
    exact ⟨fun same => by cases same; rfl, fun same => by cases same; rfl⟩
  | ok result =>
    have no : ¬ cond := fun holds => by cases completed.symm.trans (first.iff.mpr holds)
    exact never (orderly result) special no

/-- The case may be told in other words. -/
theorem congr {other : Prop} (first : StopsWhen comp stop cond) (same : cond ↔ other) :
    StopsWhen comp stop other :=
  ⟨first.iff.trans same, first.other⟩

end StopsWhen

/-- A look into a missing backend is none of the ordinary stops. -/
theorem Stop.noBackend_special : ¬ Stop.noBackend.Ordinary := fun ordinary => ordinary.backend rfl

/-- Neither is a modulus of zero. -/
theorem Stop.zeroModulus_special : ¬ Stop.zeroModulus.Ordinary :=
  fun ordinary => ordinary.modulus rfl

/-- Nor is a look behind the record. -/
theorem Stop.outsideRecord_special : ¬ Stop.outsideRecord.Ordinary :=
  fun ordinary => ordinary.record rfl

/-! ### Conditions -/

namespace SlotAccess

/-- The offsets of the registers that are read from the backend without a check. -/
def backendReads : List Nat := [0x010, 0x040, 0x060, 0x070]

/-- The offsets of the registers that are written to the backend without a check. -/
def backendWrites : List Nat :=
  [0x014, 0x020, 0x024, 0x028, 0x040, 0x038, 0x03c, 0x050, 0x064, 0x070]

/-- What an access must not be, for otherwise it looks where nothing is. -/
def Admitted : SlotAccess → Prop
  | load slot offset size _ =>
    (size = 4 → offset.toNat ∈ backendReads → slot = Bus.blkSlot) ∧
      (size = 1 → slot = Bus.blkSlot → offset.toNat < 0x200)
  | store slot offset size data _ =>
    size = 4 → slot ≠ Bus.blkSlot →
      offset.toNat ∉ backendWrites ∧ (offset.toNat = 0x030 → 1024 ≤ data.toNat)

end SlotAccess

namespace SlotState

open SlotAccess AddressSpace

/-- Wherever in the slots a word of the device itself goes, it could be stored by the guest. -/
def Aimed (addr data : BitVec 64) : Prop :=
  ∀ slot offset, addr = slotAddr slot offset → (store slot offset 4 data .none).Admitted

/--
The request writes less than a doubleword to the disk, from behind the configuration record.

Longer data is read in doublewords first, which the slot refuses.
-/
def LeavesRecord (host : Host) (bus : Bus) (req : VqRequest) : Prop :=
  ∃ header segment status bytes after, ∃ offset : BitVec 12,
    req.iov = [header, segment, status] ∧ header.len = 16 ∧ header.flags &&& 0x1 ≠ 0 ∧
    bus.asReadBlob host header.base 16 = .ok (bytes, after) ∧
    (let type : BitVec 32 := (Bus.bytesWord bytes 0 4).setWidth 32
     type &&& ~~~(0x1 ||| 0x80000000) = 0 ∧ type &&& 0x1 ≠ 0) ∧
    segment.base = slotAddr Bus.blkSlot offset ∧ offset.toNat % 8 = 0 ∧ 0x200 ≤ offset.toNat ∧
    0 < segment.len.toNat ∧ segment.len.toNat < 8

end SlotState

/-! ### Registers -/

namespace VirtioDev

open SlotAccess

/-- A read of a word stops without a backend, where it is of a register that needs one. -/
theorem mmioRead_word (vdev : Option VirtioDev) (addr : BitVec 64) :
    StopsWhen (mmioRead vdev addr 4) .noBackend (addr.toNat ∈ backendReads ∧ vdev = none) := by
  refine ⟨?_, fun early same => ?_⟩
  · unfold mmioRead
    split
    · -- Behind the registers lies the configuration record, which is read byte by byte.
      rename_i high
      have above : 0x100 ≤ addr.toNat := BitVec.le_def.mp high
      have registers : ∀ place ∈ backendReads, place < 0x100 := by decide
      rw [if_pos (by decide)]
      exact iff_of_false (fun same => by cases same) fun both =>
        absurd (registers _ both.1) (by omega)
    · rw [if_neg (by decide)]
      cases vdev with
      | some vdev =>
        refine iff_of_false ?_ fun both => by cases both.2
        split <;> (intro same; cases same <;> contradiction)
      | none =>
        -- Four of the registers are read from the backend.
        split <;> simp_all [backendReads, Stop.noBackend]
  · rcases (mmioRead_ends addr 4 vdev).stopped early same with ordinary | word | byte
    · exact .inr ordinary
    · exact .inl word.2
    · exact absurd byte.1 (by decide)

/-- A read that is not one of a word stops at the end of the record, where it is one of a byte. -/
theorem mmioRead_narrow {vdev : Option VirtioDev}
    (record : ∀ present, vdev = some present → present.config.size = 256) (addr : BitVec 64)
    {size : Nat} (narrow : size ≠ 4) :
    StopsWhen (mmioRead vdev addr size) .outsideRecord
      (size = 1 ∧ vdev ≠ none ∧ 0x200 ≤ addr.toNat) := by
  -- Above 0x100 an access is one of the record, and a byte is the only size that reads it.
  refine ⟨?_, fun early same => ?_⟩
  · unfold mmioRead
    split
    · rename_i high
      have above : 0x100 ≤ addr.toNat := BitVec.le_def.mp high
      have place : (addr - 0x100).toNat = addr.toNat - 0x100 :=
        BitVec.toNat_sub_of_le (BitVec.le_def.mpr above)
      by_cases single : size = 1
      · rw [if_neg (not_not.mpr single)]
        cases vdev with
        | none => simp [Stop.outsideRecord]
        | some present =>
          have bound := record present rfl
          dsimp only
          by_cases inside : (addr - 0x100).toNat < present.config.size
          · rw [if_pos inside, Buffer.read, if_pos (Nat.succ_le_of_lt inside)]
            exact iff_of_false (fun same => by cases same) (by omega)
          · rw [if_neg inside]
            exact iff_of_true rfl ⟨single, by simp, by omega⟩
      · simp [single, Stop.outsideRecord]
    · rename_i low
      have below : addr.toNat < 0x100 := BitVec.lt_def.mp (BitVec.not_le.mp low)
      refine iff_of_false ?_ (by omega)
      exact fun same => by cases same
  · rcases (mmioRead_ends addr size vdev).stopped early same with ordinary | word | byte
    · exact .inr ordinary
    · exact absurd word.1 narrow
    · exact .inl byte.2

/-- A write of a register stops where there is no backend and the register needs one. -/
theorem mmioWriteMissing_stops (addr data : BitVec 64) :
    StopsWhen (mmioWriteMissing addr data) .noBackend
      (addr.toNat ∈ backendWrites ∨ (addr.toNat = 0x030 ∧ data.toNat < 1024)) := by
  refine ⟨?_, fun early same => ?_⟩
  · unfold mmioWriteMissing
    split
    case h_1 place =>
      -- Of the selected queue the number is tested before the backend is looked for.
      by_cases small : data < 1024
      · rw [if_pos small]
        exact iff_of_true rfl (.inr ⟨place, BitVec.lt_def.mp small⟩)
      · rw [if_neg small]
        refine iff_of_false (fun same => by cases same) ?_
        rintro (listed | both)
        · simp [place, backendWrites] at listed
        · exact small (BitVec.lt_def.mpr both.2)
    all_goals simp_all [backendWrites, Stop.noBackend]
  · exact ((mmioWriteMissing_ends addr data).stopped early same).symm

end VirtioDev

/-! ### Accesses -/

namespace Bus

open SlotAccess AddressSpace

/-- The configuration record has its 256 bytes. -/
def Recorded (bus : Bus) : Prop := bus.blk.vdev.config.size = 256

/-- Nothing but the start of the device gives it another record. -/
theorem recorded_invariant : Invariant Recorded where
  read host bus device addr size params holds := by
    intro result read
    cases device with
    | dummy | clint => cases read
    | rtc | plic | uart | pciHost | rom | flash | ram | virtio =>
      obtain ⟨_, _, same⟩ := bind_eq_ok.mp read
      cases Except.ok.inj same
      exact holds
  -- A store reaches another device than the slots, and those are left alone.
  write host write fuel bus device addr data size params other holds := by
    intro result written
    rw [Recorded, (deviceWrite_changed other result written).blk]
    exact holds
  blk bus blk same holds := (congrArg Buffer.size same.config).trans holds
  signal bus holds := fun plic sent => holds

variable {host : Host} {write : Writer} {fuel : Nat} {bus : Bus} {slot : Fin 8}
variable {offset : BitVec 12} {size : Nat} {data : BitVec 64} {params : Params}

/-- Reads keep the record too, wherever they stop. -/
theorem recorded_reads : Reads host Recorded fun _ => True :=
  ⟨fun _ _ => trivial, fun _ _ _ _ holds => recorded_invariant.asReadNommu holds _ _ _⟩

/-- A slot has a backend when it is the first. -/
theorem backend_eq_none (bus : Bus) (slot : Fin 8) : bus.backend slot = none ↔ slot ≠ 0 := by
  unfold backend
  split
  · rename_i first
    simp [first]
  · rename_i other
    simp [other]

/-- A slot's backend has a whole record, if the block device has. -/
theorem Recorded.backend (recorded : bus.Recorded) (slot : Fin 8) :
    ∀ present, bus.backend slot = some present → present.config.size = 256 := by
  intro present found
  unfold Bus.backend at found
  split at found
  · cases found
    exact recorded
  · cases found

/-- The offset of an access as the handlers see it. -/
theorem toNat_offset (offset : BitVec 12) : (offset.setWidth 64).toNat = offset.toNat := by
  have below := offset.isLt
  rw [BitVec.toNat_setWidth]
  omega

/-- A notification is a store to one offset. -/
theorem eq_of_queueNotify (same : offset.setWidth 64 = VirtioDev.queueNotify) : offset = 0x050 := by
  have place : offset.toNat = 0x050 := by
    rw [← toNat_offset, same]
    rfl
  exact BitVec.eq_of_toNat_eq place

/-- A read of a slot is one of its registers. -/
theorem asReadNommu_slot (valid : validSize size) :
    bus.asReadNommu host (slotAddr slot offset) size params =
      VirtioDev.mmioRead (bus.backend slot) (offset.setWidth 64) size >>= fun data =>
        .ok (data, bus) := by
  rw [asReadNommu, valid, Bool.not_true, if_neg Bool.false_ne_true, readFrom_route,
    route_slotAddr, deviceRead]
  rfl

/-- A write of a slot is one of its registers. -/
theorem asWriteNommuWith_slot (valid : validSize size) :
    bus.asWriteNommuWith host write fuel (slotAddr slot offset) size data params =
      mmioWrite host write fuel bus slot (offset.setWidth 64) data size >>= fun bus =>
        .ok (0, bus) := by
  rw [asWriteNommuWith, valid, Bool.not_true, if_neg Bool.false_ne_true, writeFrom_route,
    route_slotAddr, deviceWrite]
  rfl

/-- A word is read from a slot, unless the slot has no backend for the register. -/
theorem asReadNommu_slotWord :
    StopsWhen (bus.asReadNommu host (slotAddr slot offset) 4 params) .noBackend
      (offset.toNat ∈ backendReads ∧ slot ≠ 0) := by
  rw [asReadNommu_slot rfl]
  refine .bind ?_ Stop.noBackend_special fun data => .ok trivial
  rw [← toNat_offset, ← backend_eq_none bus]
  exact VirtioDev.mmioRead_word _ _

/-- Anything else is not read from a slot, and a byte may lie behind the record. -/
theorem asReadNommu_slotNarrow (recorded : bus.Recorded) (narrow : size ≠ 4) :
    StopsWhen (bus.asReadNommu host (slotAddr slot offset) size params) .outsideRecord
      (size = 1 ∧ slot = 0 ∧ 0x200 ≤ offset.toNat) := by
  by_cases valid : validSize size
  · rw [asReadNommu_slot valid]
    refine .bind ?_ Stop.outsideRecord_special fun data => .ok trivial
    have stops := VirtioDev.mmioRead_narrow (recorded.backend slot) (offset.setWidth 64) narrow
    rw [toNat_offset, ne_eq, backend_eq_none, not_not] at stops
    exact stops
  · -- The bus refuses any other size with a panic of its own.
    rw [asReadNommu, eq_false_of_ne_true valid]
    refine .never (.error (by simp)) Stop.outsideRecord_special ?_
    rintro ⟨rfl, _⟩
    exact valid rfl

/-- A store to a slot that is no notification stops where it is not admitted. -/
theorem asWriteNommuWith_slotStops (plain : ¬ (slot = 0 ∧ offset = 0x050 ∧ size = 4)) :
    StopsWhen (bus.asWriteNommuWith host write fuel (slotAddr slot offset) size data params)
      .noBackend (¬ (store slot offset size data params).Admitted) := by
  have special := Stop.noBackend_special
  by_cases word : size = 4
  · subst word
    rw [asWriteNommuWith_slot rfl, mmioWrite, if_neg (not_not.mpr rfl)]
    refine .bind ?_ special fun bus => .ok trivial
    dsimp only
    by_cases first : slot = 0
    · -- The first slot has a backend, and its registers stop in the ordinary way.
      have other : offset.setWidth 64 ≠ VirtioDev.queueNotify := fun same =>
        plain ⟨first, eq_of_queueNotify same, rfl⟩
      have zero : slot.val = 0 := congrArg Fin.val first
      rw [if_neg (not_not.mpr zero), if_neg other]
      refine .never (.bind (VirtioDev.mmioWrite_orderly _ _ _) fun vdev _ => .ok trivial) special ?_
      exact fun missing => missing fun _ second => absurd first second
    · have some : slot.val ≠ 0 := fun zero => first (Fin.ext zero)
      rw [if_pos some]
      refine .congr (.bind (VirtioDev.mmioWriteMissing_stops _ _) special fun _ => .ok trivial) ?_
      simp only [toNat_offset, Admitted, first, ne_eq, not_false_eq_true, true_imp_iff, not_and_or,
        not_not, Classical.not_imp, not_le]
  · -- The registers take words alone, and the bus other sizes than four.
    refine .never ?_ special fun missing => missing fun same => absurd same word
    refine .ite (fun _ => .error (by simp)) fun _ => ?_
    rw [writeFrom_route, route_slotAddr, deviceWrite, mmioWrite, if_pos word]
    exact .error (by simp)

/-- A store of the device that is no notification stops where it is not aimed well. -/
theorem nestedWriter_word {addr : BitVec 64} (plain : addr ≠ SlotState.notifyAddr) :
    StopsWhen (nestedWriter host (fuel + 1) bus addr 4 data) .noBackend
      (¬ SlotState.Aimed addr data) := by
  refine .bind ?_ Stop.noBackend_special fun result => .ok trivial
  by_cases taken : ∃ slot, (route rootChildren addr).1 = .virtio slot
  · obtain ⟨slot, taken⟩ := taken
    obtain ⟨offset, rfl⟩ := exists_slotAddr taken
    have other : ¬ (slot = 0 ∧ offset = 0x050 ∧ 4 = 4) := by
      rintro ⟨rfl, rfl, -⟩
      exact plain rfl
    refine (asWriteNommuWith_slotStops other).congr (not_congr ⟨fun admitted => ?_, ?_⟩)
    · -- The address is that of no other place.
      intro two offset' same
      obtain ⟨rfl, rfl⟩ := slotAddr_inj same
      exact admitted
    · exact fun aimed => aimed slot offset rfl
  · have apart (slot : Fin 8) (device : (route rootChildren addr).1 = .virtio slot) : False :=
      taken ⟨slot, device⟩
    refine .never ?_ Stop.noBackend_special fun missing => missing ?_
    · refine .ite (fun _ => .error (by simp)) fun _ => ?_
      rw [writeFrom_route]
      exact deviceWrite_orderly apart _ _ _ _ _ _ _ _
    · rintro slot offset rfl
      exact (apart slot (congrArg Prod.fst (route_slotAddr slot offset))).elim

/-! ### Data behind the record -/

/-- A read stops behind the record where it is of a byte there. -/
theorem asReadNommu_outside (recorded : bus.Recorded) {addr : BitVec 64} :
    bus.asReadNommu host addr size params = .error .outsideRecord ↔
      size = 1 ∧ ∃ offset, addr = slotAddr 0 offset ∧ 0x200 ≤ offset.toNat := by
  constructor
  · intro stopped
    have single : size = 1 := by
      rcases (asReadNommu_ends host bus addr size params).stopped _ stopped with
        ordinary | ⟨_, other⟩ | ⟨single, _⟩
      · exact absurd ordinary Stop.outsideRecord_special
      · exact absurd (Stop.undefined.inj other) (by decide)
      · exact single
    refine ⟨single, ?_⟩
    by_cases taken : ∃ slot, (route rootChildren addr).1 = .virtio slot
    · obtain ⟨slot, taken⟩ := taken
      obtain ⟨offset, rfl⟩ := exists_slotAddr taken
      have narrow : size ≠ 4 := by omega
      obtain ⟨_, rfl, high⟩ := (asReadNommu_slotNarrow recorded narrow).iff.mp stopped
      exact ⟨offset, rfl, high⟩
    · -- No other device has a record.
      have orderly : Orderly (bus.asReadNommu host addr size params) := by
        refine .ite (fun _ => .error (by simp)) fun _ => ?_
        rw [readFrom_route]
        exact deviceRead_orderly (fun slot device => taken ⟨slot, device⟩) _ _ _ _ _
      exact absurd (orderly.stopped _ stopped) Stop.outsideRecord_special
  · rintro ⟨rfl, offset, rfl, high⟩
    exact (asReadNommu_slotNarrow recorded (by decide)).iff.mpr ⟨rfl, rfl, high⟩

/-- Doublewords are not read from a slot. -/
theorem asReadNommu_slotDouble {after : BitVec 64 × Bus} :
    bus.asReadNommu host (slotAddr slot offset) 8 params ≠ .ok after := by
  rw [asReadNommu_slot rfl]
  unfold VirtioDev.mmioRead
  split <;> exact fun same => by cases same

/-- Every chunk of a blob that was read is a read of its own. -/
theorem readChunks_each {chunk left : Nat} {addr : BitVec 64} {after : List (BitVec 8) × Bus}
    (read : readChunks host chunk left bus addr = .ok after) {index : Nat} (below : index < left) :
    ∃ (middle : Bus) (result : BitVec 64 × Bus),
      middle.asReadNommu host (addr + BitVec.ofNat 64 (chunk * index)) chunk .none =
        .ok result := by
  -- The induction is on the chunks left, from whatever address they start.
  induction left generalizing bus addr index after with
  | zero => omega
  | succ left ih =>
    obtain ⟨⟨data, next⟩, first, rest⟩ := bind_eq_ok.mp read
    obtain ⟨⟨bytes, last⟩, later, _⟩ := bind_eq_ok.mp rest
    cases index with
    | zero => exact ⟨bus, _, by simpa using first⟩
    | succ index =>
      obtain ⟨middle, result, found⟩ := ih later (by omega : index < left)
      refine ⟨middle, result, ?_⟩
      rw [Nat.mul_succ, Nat.add_comm, BitVec.ofNat_add, ← add_assoc]
      exact found

/-- A blob that stops behind the record does so at one of its chunks. -/
theorem readChunks_outside {chunk left : Nat} (recorded : bus.Recorded) {addr : BitVec 64}
    (stopped : readChunks host chunk left bus addr = .error .outsideRecord) :
    ∃ index < left, chunk = 1 ∧ ∃ offset, 0x200 ≤ offset.toNat ∧
      addr + BitVec.ofNat 64 (chunk * index) = slotAddr 0 offset := by
  -- The first chunk that stops is the one looked for, and those before it keep the record.
  induction left generalizing bus addr with
  | zero => cases stopped
  | succ left ih =>
    rw [readChunks] at stopped
    cases first : bus.asReadNommu host addr chunk .none with
    | error stop =>
      rw [first] at stopped
      cases stopped
      obtain ⟨single, offset, same, high⟩ := (asReadNommu_outside recorded).mp first
      exact ⟨0, by omega, single, offset, high, by simpa using same⟩
    | ok result =>
      obtain ⟨data, next⟩ := result
      have kept : next.Recorded := by
        rw [Recorded, (asReadNommu_keeps first).blk]
        exact recorded
      rw [first, ok_bind] at stopped
      dsimp only at stopped
      cases later : readChunks host chunk left next (addr + BitVec.ofNat 64 chunk) with
      | ok rest =>
        rw [later] at stopped
        cases stopped
      | error stop =>
        rw [later] at stopped
        cases stopped
        obtain ⟨index, below, single, offset, high, same⟩ := ih kept later
        refine ⟨index + 1, by omega, single, offset, high, ?_⟩
        rw [Nat.mul_succ, Nat.add_comm, BitVec.ofNat_add, ← add_assoc]
        exact same

/-- A place of the first slot, by its address. -/
theorem eq_slotAddr_zero {addr : BitVec 64} {place : Nat} (low : place < 0x1000)
    (same : addr.toNat = 0x10001000 + place) : addr = slotAddr 0 (BitVec.ofNat 12 place) := by
  refine BitVec.eq_of_toNat_eq ?_
  have start : (virtioSlot 0).start.toNat = 0x10001000 := rfl
  rw [slotAddr, BitVec.toNat_add, BitVec.toNat_setWidth, BitVec.toNat_ofNat, start, same]
  omega

/-- The address of a place of the first slot. -/
theorem toNat_slotAddr_zero (offset : BitVec 12) :
    (slotAddr 0 offset).toNat = 0x10001000 + offset.toNat := by
  have start : (virtioSlot 0).start.toNat = 0x10001000 := rfl
  have below := offset.isLt
  rw [slotAddr, BitVec.toNat_add, BitVec.toNat_setWidth, start]
  omega

/-- A blob stops behind the record where it begins there and has no doubleword. -/
theorem asReadBlob_outside (recorded : bus.Recorded) {addr : BitVec 64} {count : Nat} :
    bus.asReadBlob host addr count = .error .outsideRecord ↔
      ∃ offset, addr = slotAddr 0 offset ∧ offset.toNat % 8 = 0 ∧ 0x200 ≤ offset.toNat ∧
        0 < count ∧ count < 8 := by
  constructor
  · intro stopped
    unfold asReadBlob at stopped
    split at stopped
    · cases stopped
    · rename_i unaligned
      have aligned : addr.toNat % 8 = 0 := not_not.mp unaligned
      have bound := addr.isLt
      cases front : readChunks host 8 (count / 8) bus addr with
      | error stop =>
        rw [front] at stopped
        cases stopped
        obtain ⟨_, _, single, _⟩ := readChunks_outside recorded front
        exact absurd single (by decide)
      | ok result =>
        obtain ⟨bytes, next⟩ := result
        rw [front, ok_bind] at stopped
        dsimp only at stopped
        cases back : readChunks host 1 (count % 8) next (addr + BitVec.ofNat 64 (count / 8 * 8)) with
        | ok rest =>
          rw [back] at stopped
          cases stopped
        | error stop =>
          rw [back] at stopped
          cases stopped
          have kept := (recorded_reads.readChunks (by decide) _ (by omega) recorded _).ensures _ front
          obtain ⟨index, below, _, offset, high, same⟩ := readChunks_outside kept back
          -- The rest begins at the multiple of eight below the byte behind the record.
          have place := congrArg BitVec.toNat same
          have low := offset.isLt
          rw [toNat_slotAddr_zero, BitVec.toNat_add, BitVec.toNat_add, BitVec.toNat_ofNat,
            BitVec.toNat_ofNat] at place
          by_cases none : count / 8 = 0
          · refine ⟨BitVec.ofNat 12 (offset.toNat - index), eq_slotAddr_zero (by omega) (by omega), ?_⟩
            rw [BitVec.toNat_ofNat]
            omega
          · -- The doubleword before the rest would have been read from the slot.
            obtain ⟨middle, result, read⟩ := readChunks_each front (by omega : count / 8 - 1 < _)
            have double : addr + BitVec.ofNat 64 (8 * (count / 8 - 1)) =
                slotAddr 0 (BitVec.ofNat 12 (offset.toNat - index - 8)) := by
              refine eq_slotAddr_zero (by omega) ?_
              rw [BitVec.toNat_add, BitVec.toNat_ofNat]
              omega
            rw [double] at read
            exact absurd read asReadNommu_slotDouble
  · rintro ⟨offset, rfl, aligned, high, some, few⟩
    have first : bus.asReadNommu host (slotAddr 0 offset) 1 .none = .error .outsideRecord :=
      (asReadNommu_outside recorded).mpr ⟨rfl, offset, rfl, high⟩
    obtain ⟨left, rfl⟩ : ∃ left, count = left + 1 := ⟨count - 1, by omega⟩
    have whole : (slotAddr 0 offset).toNat % 8 = 0 := by
      rw [toNat_slotAddr_zero]
      omega
    have none : (left + 1) / 8 = 0 := by omega
    have all : (left + 1) % 8 = left + 1 := by omega
    rw [asReadBlob, if_neg (not_not.mpr whole), none, readChunks, ok_bind, all]
    dsimp only
    rw [Nat.zero_mul, BitVec.add_zero, readChunks, first]
    rfl

/-! ### Data of a request -/

/-- The work of the device, its stores of words left out, needs nothing but ordinary stops. -/
theorem narrowWork {stops : Stop → Prop} (ordinary : ∀ stop : Stop, stop.Ordinary → stops stop) :
    NarrowWork host (fun _ => True) stops (nestedWriter host fuel) where
  ordinary := ordinary
  kept _ _ _ _ _ := fun _ _ => trivial
  narrow _ narrow bus addr data _ :=
    (nestedWriter_narrow narrow fuel bus addr data (.refl bus)).mono (fun _ _ => trivial) ordinary
  blk _ _ _ _ _ _ := trivial
  signal _ _ := fun _ _ => trivial

/-- The data for the disk is read from behind the record, or the request stops otherwise. -/
theorem writeData_outside (recorded : bus.Recorded) (req : VqRequest) (sector : BitVec 64) :
    writeData host bus req sector = .error .outsideRecord ↔
      ∃ header segment status, ∃ offset : BitVec 12, req.iov = [header, segment, status] ∧
        segment.base = slotAddr 0 offset ∧ offset.toNat % 8 = 0 ∧ 0x200 ≤ offset.toNat ∧
        0 < segment.len.toNat ∧ segment.len.toNat < 8 := by
  constructor
  · intro stopped
    unfold writeData at stopped
    split at stopped
    · rename_i header segment status shape
      cases read : bus.asReadBlob host segment.base segment.len.toNat with
      | error stop =>
        rw [read] at stopped
        cases stopped
        obtain ⟨offset, place⟩ := (asReadBlob_outside recorded).mp read
        exact ⟨header, segment, status, offset, shape, place⟩
      | ok result =>
        -- What follows the read is the check of the position.
        rw [read, ok_bind] at stopped
        dsimp only at stopped
        split at stopped <;> simp [Stop.outsideRecord] at stopped
    · simp [Stop.outsideRecord] at stopped
  · rintro ⟨header, segment, status, offset, shape, place⟩
    have read : bus.asReadBlob host segment.base segment.len.toNat = .error .outsideRecord :=
      (asReadBlob_outside recorded).mpr ⟨offset, place⟩
    rw [writeData, shape]
    dsimp only
    rw [read]
    rfl

/-- The data of a request is moved, unless it lies behind the record. -/
theorem requestData_stops (recorded : bus.Recorded) (req : VqRequest) :
    StopsWhen (requestData host (nestedWriter host fuel) bus req) .outsideRecord
      (SlotState.LeavesRecord host bus req) := by
  have work : NarrowWork host (fun _ => True) (fun stop => stop = .outsideRecord ∨ stop.Ordinary)
      (nestedWriter host fuel) := narrowWork fun _ => .inr
  have orderly : NarrowWork host (fun _ => True) Stop.Ordinary (nestedWriter host fuel) :=
    narrowWork fun _ ordinary => ordinary
  refine ⟨⟨fun stopped => ?_, ?_⟩, (work.requestData (.inl rfl) trivial req).stopped⟩
  · unfold requestData at stopped
    cases first : req.iov.head? with
    | none => simp [first, Stop.outsideRecord] at stopped
    | some header =>
      rw [first] at stopped
      dsimp only at stopped
      split at stopped
      · simp [Stop.outsideRecord] at stopped
      · rename_i admitted
        rw [not_or, not_not] at admitted
        -- A header of sixteen bytes is read in doublewords, and a slot has none.
        cases read : bus.asReadBlob host header.base 16 with
        | error stop =>
          rw [read] at stopped
          cases stopped
          obtain ⟨_, _, _, _, _, few⟩ := (asReadBlob_outside recorded).mp read
          omega
        | ok result =>
          obtain ⟨bytes, after⟩ := result
          rw [read, ok_bind] at stopped
          dsimp only at stopped
          split at stopped
          · rename_i kind
            split at stopped
            -- Of the kinds only a write reads its data through the bus.
            · rename_i out
              have kept : after.Recorded :=
                (recorded_reads.asReadBlob recorded _ (by omega)).ensures _ read
              obtain ⟨header', segment, status, offset, shape, place⟩ :=
                (writeData_outside kept req _).mp stopped
              rw [shape] at first
              cases first
              exact ⟨header, segment, status, bytes, after, offset, shape, admitted.1, admitted.2,
                read, ⟨BitVec.eq_of_toNat_eq kind, out⟩, place⟩
            · exact absurd ((orderly.readData trivial req _).stopped _ stopped)
                Stop.outsideRecord_special
          · exact absurd ((orderly.flushData trivial req).stopped _ stopped)
              Stop.outsideRecord_special
          · simp [Stop.outsideRecord] at stopped
  · rintro ⟨header, segment, status, bytes, after, offset, shape, len, flags, read, ⟨kind, out⟩, place⟩
    have kept : after.Recorded := (recorded_reads.asReadBlob recorded _ (by omega)).ensures _ read
    have stopped (sector : BitVec 64) : writeData host after req sector = .error .outsideRecord :=
      (writeData_outside kept req sector).mpr ⟨header, segment, status, offset, shape, place⟩
    have first : req.iov.head? = some header := by rw [shape, List.head?_cons]
    have admitted : ¬ (header.len ≠ 16 ∨ header.flags &&& 0x1 = 0) :=
      not_or.mpr ⟨not_not.mpr len, flags⟩
    -- The header passes its checks, so the request comes to its data and stops there.
    unfold requestData
    rw [first]
    dsimp only
    rw [if_neg admitted, read, ok_bind]
    dsimp only
    rw [kind]
    exact (if_pos out).trans (stopped _)

/-! ### Ring indices -/

/-- A request is taken out of the queue, unless the queue has no size. -/
theorem vqueueTake_stops :
    StopsWhen (vqueueTake host (nestedWriter host fuel) bus) .zeroModulus
      (bus.blk.vdev.vq.vring.num = 0) := by
  -- The head is looked up first, with the size of the queue as the modulus.
  by_cases zero : bus.blk.vdev.vq.vring.num = 0
  · refine .always ?_ zero
    rw [vqueueTake, vqueueGetHead]
    dsimp only
    rw [if_pos zero]
    rfl
  · have work : NarrowWork host (fun _ => True) Stop.Ordinary (nestedWriter host fuel) :=
      narrowWork fun _ ordinary => ordinary
    exact .never (work.vqueueTake trivial fun same => absurd same zero) Stop.zeroModulus_special zero

end Bus

end Xemu
