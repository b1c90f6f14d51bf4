import Xemu.Proofs.Assembly
import Xemu.Proofs.FlashImage
import Xemu.Proofs.Relocation
import Xemu.Proofs.RomImage

/-! From the files of the host to the first instruction of the firmware, through the startup program. -/

namespace Xemu

open AddressSpace Triples

/-! ### The ROM -/

/-- A call that completes has added its file, where no earlier file reaches its record. -/
theorem RomState.Valid.added {call : RomCall} {s after : RomState} (valid : s.Valid)
    (completed : call.next s = .ok after)
    (clear : call.base = 0 ∨ 8 ≤ call.base.toNat ∧ ∀ i, s.Owned i → i + 8 < call.base.toNat) :
    ∃ file, call.file = some file ∧ RomAdded s call.base.toNat file after.image ∧
      after.image.size = romSize call.base file ∧
      call.base.toNat + file.content.length ≤ romSize call.base file := by
  obtain ⟨image, added, same⟩ := map_eq_ok.mp completed
  obtain ⟨file, passes, room, whole, size⟩ := romAddFile_completed added
  -- The record of the length is the eight bytes before the file, and no file reaches there.
  have fits : RomFits call s := by
    intro other again
    cases Option.some.inj (again.opened.symm.trans passes.opened)
    refine ⟨whole ▸ room, fun _ => clear.imp_right fun ⟨above, apart⟩ => ⟨above, ?_⟩⟩
    intro i owned near
    have below := apart i owned
    omega
  obtain ⟨other, opened, placed⟩ := (romRight_of_fits valid fits).adds after completed
  cases Option.some.inj (opened.symm.trans passes.opened)
  exact ⟨file, opened, placed, by rw [← same]; exact size, room⟩

/-- The image of the ROM with the three files that the machine starts with. -/
structure RomFilled (bios tree sbi : HostFile) (rom : Buffer) : Prop where
  biosAt : ∀ i < bios.content.length, rom.byte i = bios.content.getD i 0
  treeAt : ∀ i < tree.content.length, rom.byte (0x100 + i) = tree.content.getD i 0
  sbiAt : ∀ i < sbi.content.length, rom.byte (0x2000 + i) = sbi.content.getD i 0
  record : ∀ i < 8, rom.byte (0x1FF8 + i) = (sbi.size >>> (8 * i)).setWidth 8
  size : rom.size = Rounding.up (0x2000 + sbi.content.length) 8
  space : rom.size ≤ romSpaceSize

/-- The calls with which `main` fills the ROM. -/
def romCalls (bios tree sbi : FileCall) : List RomCall :=
  [⟨bios, 0⟩, ⟨tree, 0x100⟩, ⟨sbi, 0x2000⟩]

/-- The size that is computed for a file that fits is its end rounded up. -/
theorem romSize_whole {base : BitVec 64} {file : HostFile} (small : base.toNat < 2 ^ 31)
    (room : base.toNat + file.content.length ≤ romSize base file)
    (space : romSize base file ≤ romSpaceSize) :
    romSize base file = Rounding.up (base.toNat + file.content.length) 8 := by
  have fits := file.fits
  unfold romSpaceSize at space
  have sum : (base + file.size).toNat = base.toNat + file.content.length := by
    rw [HostFile.size, BitVec.toNat_add, BitVec.toNat_ofNat]
    omega
  have computed := toNat_roundUp (base + file.size)
  rw [sum] at computed
  unfold romSize at room space ⊢
  exact Rounding.eq_up (by decide) (by omega) room (by omega)

/-- The calls fill the ROM, if the first two files end before the records of those behind them. -/
theorem romFilled_of_calls {first second third : FileCall} {s : RomState}
    (ran : Runs.run RomCall.next {} (romCalls first second third) = .ok s)
    {bios tree sbi : HostFile} (one : first.file = some bios) (two : second.file = some tree)
    (three : third.file = some sbi) (short : bios.content.length ≤ 0xF8)
    (fits : tree.content.length ≤ 0x1EF8) : RomFilled bios tree sbi s.image := by
  obtain ⟨s1, added1, ran⟩ := Runs.run_cons_inv ran
  obtain ⟨s2, added2, ran⟩ := Runs.run_cons_inv ran
  obtain ⟨s3, added3, ran⟩ := Runs.run_cons_inv ran
  cases Except.ok.inj ran
  have start : RomState.Valid {} := ⟨by decide, by rintro i ⟨place, impossible, _⟩; cases impossible⟩
  have valid1 := valid_next start added1
  have valid2 := valid_next valid1 added2
  -- What the files take up is known from the calls.
  have files1 : s1.files = [(0, bios.content.length)] := by
    obtain ⟨image, -, rfl⟩ := map_eq_ok.mp added1
    simp [RomCall.length, one]
  have files2 : s2.files = [(0x100, tree.content.length), (0, bios.content.length)] := by
    obtain ⟨image, -, rfl⟩ := map_eq_ok.mp added2
    simp [RomCall.length, two, files1]
  have owned1 : ∀ i, s1.Owned i ↔ i < bios.content.length := by
    simp [RomState.Owned, files1]
  have owned2 : ∀ i, s2.Owned i ↔
      0x100 ≤ i ∧ i < 0x100 + tree.content.length ∨ i < bios.content.length := by
    simp [RomState.Owned, files2]
  obtain ⟨_, opened, placed1, -⟩ := start.added added1 (.inl rfl)
  cases Option.some.inj (opened.symm.trans one)
  obtain ⟨_, opened, placed2, -⟩ := valid1.added added2 (.inr
    ⟨(by decide : 8 ≤ (0x100#64).toNat), fun i owned => by
      have below := (owned1 i).mp owned
      change i + 8 < 0x100
      omega⟩)
  cases Option.some.inj (opened.symm.trans two)
  obtain ⟨_, opened, placed3, size, room⟩ := valid2.added added3 (.inr
    ⟨(by decide : 8 ≤ (0x2000#64).toNat), fun i owned => by
      have below := (owned2 i).mp owned
      change i + 8 < 0x2000
      omega⟩)
  cases Option.some.inj (opened.symm.trans three)
  have space := (valid_next valid2 added3).space
  exact {
    biosAt i inside := by
      have kept2 := placed2.kept i ((owned1 i).mpr inside)
      have kept3 := placed3.kept i ((owned2 i).mpr (.inr inside))
      have placed := placed1.placed i inside
      rw [kept3, kept2, ← placed]
      exact congrArg _ (Nat.zero_add i).symm
    treeAt i inside := by
      rw [placed3.kept _ ((owned2 _).mpr (.inl ⟨by omega, by omega⟩))]
      exact placed2.placed i inside
    sbiAt := placed3.placed
    record := (placed3.recorded (by decide : (0x2000#64).toNat ≠ 0)).2
    size := size.trans (romSize_whole (by decide : (0x2000#64).toNat < 2 ^ 31) room (size ▸ space))
    space }

/-! ### The flash -/

/-- A call that completes has added its file. -/
theorem FlashImage.added {call : FileCall} {flash after : Buffer} (image : FlashImage flash)
    (completed : flashAddFile call flash = .ok after) :
    ∃ file, call.file = some file ∧ FlashAdded flash file after := by
  have fits : FlashFits call flash := flashFits_of_defined image fun what undefined => by
    rw [completed] at undefined
    cases undefined
  exact (flashRight_of_fits image fits).adds after completed

/-- The image of the flash with the payload first, whatever follows it. -/
structure FlashFilled (startup : HostFile) (flash : Buffer) : Prop where
  image : FlashImage flash
  startupAt : ∀ i < startup.content.length, flash.byte (0x100 + i) = startup.content.getD i 0
  size : 0x100 + startup.content.length ≤ flash.size

/-- Files that are added leave the payload. -/
theorem FlashFilled.added {startup : HostFile} {call : FileCall} {flash after : Buffer}
    (filled : FlashFilled startup flash) (completed : flashAddFile call flash = .ok after) :
    FlashFilled startup after := by
  obtain ⟨file, -, added⟩ := filled.image.added completed
  have size := filled.size
  have longer := @Rounding.le_up (flash.size + file.content.length) 8 (by decide)
  refine ⟨flashImage_kept completed, fun i inside => ?_, by rw [added.size]; omega⟩
  rw [added.kept _ (by omega)]
  exact filled.startupAt i inside

/-- The calls fill the flash, if the payload is no module. -/
theorem flashFilled_of_calls {call : FileCall} {modules : List FileCall} {flash : Buffer}
    (ran : Runs.run flashAddFile flashInit (call :: modules) = .ok flash) {startup : HostFile}
    (opened : call.file = some startup) (plain : ¬ startup.IsElf) : FlashFilled startup flash := by
  obtain ⟨first, completed, ran⟩ := Runs.run_cons_inv ran
  have start : FlashImage flashInit := ⟨by decide, by decide⟩
  refine Runs.run_induction (FlashFilled startup) (fun _ _ _ filled added => filled.added added) ?_
    ran
  obtain ⟨_, again, added⟩ := start.added completed
  cases Option.some.inj (again.symm.trans opened)
  have longer := @Rounding.le_up (flashInit.size + startup.content.length) 8 (by decide)
  refine ⟨flashImage_kept completed, fun i inside => ?_, by rw [added.size]; exact longer⟩
  rw [← show startup.stored i = startup.content.getD i 0 from if_neg fun both => plain both.1]
  exact added.placed i inside

/-! ### The machine -/

/-- The offsets from an address that is itself at an offset. -/
theorem along_offset {start base : BitVec 64} {first : Nat}
    (same : start = base + BitVec.ofNat 64 first) (index : Nat) :
    start + BitVec.ofNat 64 index = base + BitVec.ofNat 64 (first + index) := by
  rw [same, BitVec.ofNat_add, BitVec.add_assoc]

/-- The payload is loaded behind the head of the flash. -/
theorem payload_place : Bios.payloadLoadAddr = Bios.flashBase + BitVec.ofNat 64 0x100 := by decide

/-- Its header has the size sixteen bytes further. -/
theorem header_place : Bios.payloadLoadAddr + 16 = Bios.flashBase + BitVec.ofNat 64 0x110 := by decide

/-- The firmware is loaded at its base in the ROM. -/
theorem sbi_place : Bios.sbiLoadAddr = Bios.romBase + BitVec.ofNat 64 0x2000 := by decide

/-- Its size was recorded below it. -/
theorem record_place : Bios.sbiLoadAddr + (-8) = Bios.romBase + BitVec.ofNat 64 0x1FF8 := by decide

section Memory

variable {bios tree sbi startup : HostFile} {rom flash disk : Buffer}

/-- What a program finds in the ROM. -/
theorem content_rom {bus : Bus} {offset : Nat} (inside : offset < bus.rom.size)
    (space : bus.rom.size ≤ romSpaceSize) :
    bus.content (Bios.romBase + BitVec.ofNat 64 offset) = bus.rom.byte offset := by
  unfold romSpaceSize at space
  have found := @Bus.byteAt_offset bus ⟨0x1000, 0xFFFFF, .rom⟩ (by decide) bus.rom rfl offset (by
    change 0x1000 + offset ≤ 0xFFFFF
    omega)
  rw [if_pos inside] at found
  exact congrArg (Option.getD · 0) found

/-- The ROM can be executed. -/
theorem code_rom {bus : Bus} {offset : Nat} (inside : offset < bus.rom.size)
    (space : bus.rom.size ≤ romSpaceSize) :
    bus.layout.code (Bios.romBase + BitVec.ofNat 64 offset) := by
  unfold romSpaceSize at space
  have found := @Bus.byteAt_offset bus ⟨0x1000, 0xFFFFF, .rom⟩ (by decide) bus.rom rfl offset (by
    change 0x1000 + offset ≤ 0xFFFFF
    omega)
  rw [if_pos inside] at found
  exact Option.isSome_of_eq_some found

/-- What a program finds in the flash, where zeros follow what was loaded. -/
theorem content_flash {bus : Bus} {offset : Nat} (inside : offset < flashSpaceSize) :
    bus.content (Bios.flashBase + BitVec.ofNat 64 offset) =
      if offset < bus.flash.size then bus.flash.byte offset else 0 := by
  unfold flashSpaceSize at inside
  have found := @Bus.byteAt_offset bus ⟨0x20000000, 0x23FFFFFF, .flash⟩ (by decide) bus.flash rfl
    offset (by
      change 0x20000000 + offset ≤ 0x23FFFFFF
      omega)
  rw [Bus.content, show Bios.flashBase + BitVec.ofNat 64 offset =
    0x20000000 + BitVec.ofNat 64 offset from rfl, found]
  split <;> rfl

/-- The whole region of the flash can be read. -/
theorem readable_flash {bus : Bus} {offset : Nat} (inside : offset < flashSpaceSize) :
    bus.layout.readable (Bios.flashBase + BitVec.ofNat 64 offset) := by
  unfold flashSpaceSize at inside
  refine .inr (congrArg Prod.fst
    (@route_offset ⟨0x20000000, 0x23FFFFFF, .flash⟩ (by decide) offset ?_))
  change 0x20000000 + offset ≤ 0x23FFFFFF
  omega

/-- The size of an image that its own header gives, behind sixteen bytes of it. -/
def HostFile.imageSize (file : HostFile) : BitVec 64 :=
  LittleEndian.load 64 (fun at_ : BitVec 64 => file.content.getD at_.toNat 0) 16 8

/-- The files of the host have the sizes that the addresses in the startup program are chosen for. -/
structure Bootable (bios tree sbi startup : HostFile) : Prop where
  short : bios.content.length ≤ 0xF8
  treeFits : tree.content.length ≤ 0x1EF8
  sbiSome : 0 < sbi.content.length
  plain : ¬ startup.IsElf
  header : 24 ≤ startup.content.length
  payloadSome : startup.imageSize ≠ 0
  payloadFits : startup.imageSize.toNat ≤ 0x3FFFF00

/-- The devices with which `main` enters its loop. -/
def startBus (rom flash disk : Buffer) : Bus := (Machine.reset rom flash disk).bus

/-- The startup program finds the size in the header of the payload. -/
theorem payloadCount_start (rom disk : Buffer) (filled : FlashFilled startup flash)
    (bootable : Bootable bios tree sbi startup) :
    Bios.payloadCount (startBus rom flash disk).content =
      (startup.imageSize.toNat + 7) / 8 * 8 := by
  have header := bootable.header
  have size := filled.size
  have space := filled.image.space
  have fits := bootable.payloadFits
  -- The size is in the third doubleword of the image, which begins behind the first 0x100 bytes.
  have found : LittleEndian.load 64 (startBus rom flash disk).content
      (Bios.payloadLoadAddr + 16) 8 = startup.imageSize := by
    refine LittleEndian.load_congr fun index below => ?_
    have number : (16 + BitVec.ofNat 64 index : BitVec 64).toNat = 16 + index := by
      rw [BitVec.toNat_add, BitVec.toNat_ofNat]
      change (16 + index % 2 ^ 64) % 2 ^ 64 = _
      omega
    unfold flashSpaceSize at space
    rw [along_offset header_place, content_flash (by unfold flashSpaceSize; omega), number,
      ← filled.startupAt _ (by omega), ← Nat.add_assoc]
    exact if_pos (by change 0x110 + index < flash.size; omega)
  rw [Bios.payloadCount, found, Bios.toNat_rounded (by omega)]

/-- It finds the size of the firmware where it was recorded. -/
theorem sbiCount_start (flash disk : Buffer) (filled : RomFilled bios tree sbi rom) :
    Bios.sbiCount (startBus rom flash disk).content = rom.size - 0x2000 := by
  have size := filled.size
  have space := filled.space
  have some := @Rounding.le_up (0x2000 + sbi.content.length) 8 (by decide)
  have fits := sbi.fits
  unfold romSpaceSize at space
  -- The record is the doubleword before the firmware.
  have found : LittleEndian.load 64 (startBus rom flash disk).content
      (Bios.sbiLoadAddr + (-8)) 8 = sbi.size := by
    refine @Bytes.ofWord_injective 64 _ _ 8 rfl ?_
    rw [Bytes.ofWord_load (by decide)]
    refine List.map_congr_left fun index listed => ?_
    have below := List.mem_range.mp listed
    rw [along_offset record_place, content_rom (by change _ < rom.size; omega) filled.space]
    exact filled.record index below
  have length : sbi.size.toNat = sbi.content.length := by
    rw [HostFile.size, BitVec.toNat_ofNat]
    omega
  rw [Bios.sbiCount, found, Bios.toNat_rounded (by omega), length, size, Rounding.up]
  omega

/-- An offset into RAM can be written. -/
theorem writable_ram {bus : Bus} {base : BitVec 64} {offset : Nat} (above : 0x80000000 ≤ base.toNat)
    (inside : base.toNat + offset ≤ 0xFFFFFFFF) :
    bus.layout.writable (base + BitVec.ofNat 64 offset) := by
  have place : (base + BitVec.ofNat 64 offset).toNat = base.toNat + offset := by
    rw [BitVec.toNat_add, BitVec.toNat_ofNat]
    omega
  refine ⟨?_, ?_⟩
  · rw [BitVec.le_def, place]
    change 0x80000000 ≤ _
    omega
  · rw [BitVec.le_def, place]
    change _ ≤ 0xFFFFFFFF
    omega

/-- The distance from an address in RAM to one below RAM reaches around the address space. -/
theorem far_below {source target : BitVec 64} {index : Nat} (low : source.toNat + index < 2 ^ 31)
    (high : 2 ^ 31 ≤ target.toNat) (word : target.toNat < 2 ^ 32) :
    2 ^ 63 ≤ (source + BitVec.ofNat 64 index - target).toNat := by
  rw [BitVec.toNat_sub, BitVec.toNat_add, BitVec.toNat_ofNat]
  omega

/-- Both images can be moved. -/
theorem startable_start (disk : Buffer) (romFilled : RomFilled bios tree sbi rom)
    (flashFilled : FlashFilled startup flash) (bootable : Bootable bios tree sbi startup) :
    Bios.Startable (startBus rom flash disk).layout (startBus rom flash disk).content := by
  have size := romFilled.size
  have space := romFilled.space
  have above := @Rounding.le_up (0x2000 + sbi.content.length) 8 (by decide)
  have some := bootable.sbiSome
  have fits := bootable.payloadFits
  have flashSpace := flashFilled.image.space
  have nonzero : 0 < startup.imageSize.toNat := by
    have := bootable.payloadSome
    exact Nat.pos_of_ne_zero fun zero => this (BitVec.eq_of_toNat_eq zero)
  -- The sizes that the program reads are those of the two files.
  have payload := payloadCount_start rom disk flashFilled bootable
  have firmware := sbiCount_start flash disk romFilled
  unfold romSpaceSize at space
  constructor
  case payloadSize =>
    refine ⟨by decide, fun index below => ?_⟩
    rw [along_offset header_place]
    exact readable_flash (by unfold flashSpaceSize; omega)
  case payload =>
    rw [payload]
    refine ⟨by omega, fun index below => ?_, fun index below => ?_, by decide, by decide,
      fun index below => ?_, ?_⟩
    · rw [along_offset payload_place]
      exact readable_flash (by unfold flashSpaceSize; omega)
    · exact writable_ram (by decide) (by change 0x80200000 + index ≤ _; omega)
    · have far := @far_below Bios.payloadLoadAddr Bios.payloadLinkAddr index
        (by change 0x20000100 + index < _; omega) (by decide) (by decide)
      omega
    · change 0x80200000 + _ ≤ _
      omega
  case sbiSize =>
    refine ⟨by decide, fun index below => .inl ?_⟩
    rw [along_offset record_place]
    exact code_rom (by change _ < rom.size; omega) romFilled.space
  case sbi =>
    rw [firmware]
    refine ⟨by omega, fun index below => .inl ?_, fun index below => ?_, by decide, by decide,
      fun index below => ?_, ?_⟩
    · rw [along_offset sbi_place]
      exact code_rom (by change _ < rom.size; omega) romFilled.space
    · exact writable_ram (by decide) (by change 0x80000000 + index ≤ _; omega)
    · have far := @far_below Bios.sbiLoadAddr Bios.sbiLinkAddr index
        (by change 0x3000 + index < _; omega) (by decide) (by decide)
      omega
    · change 0x80000000 + _ ≤ _
      omega
  -- The firmware and its size are read after the payload was copied to addresses far above them.
  case apart =>
    rw [payload, firmware]
    intro index below
    have far := @far_below (Bios.sbiLoadAddr + (-8)) Bios.payloadLinkAddr index
      (by change 0x2FF8 + index < _; omega) (by decide) (by decide)
    omega

/-- The firmware is found where it is linked. -/
theorem sbi_moved (romFilled : RomFilled bios tree sbi rom)
    (startable : Bios.Startable (startBus rom flash disk).layout (startBus rom flash disk).content)
    {index : Nat} (inside : index < sbi.content.length) :
    Bios.bothMoved (startBus rom flash disk).content (Bios.sbiLinkAddr + BitVec.ofNat 64 index) =
      sbi.content.getD index 0 := by
  have space := romFilled.space
  have size := romFilled.size
  have above := @Rounding.le_up (0x2000 + sbi.content.length) 8 (by decide)
  have count := sbiCount_start flash disk romFilled
  unfold romSpaceSize at space
  have apart := startable.apart (8 + index) (by omega)
  have back : Bios.sbiLoadAddr + (-8) + BitVec.ofNat 64 (8 + index) =
      Bios.sbiLoadAddr + BitVec.ofNat 64 index := by
    rw [along_offset record_place, along_offset sbi_place, ← Nat.add_assoc]
  rw [back] at apart
  -- The second copy has put it there, and the first one has left its source alone.
  rw [Bios.bothMoved, Bytes.copied_inside (by omega) (by omega), Bios.payloadMoved,
    Bytes.copied_outside apart, along_offset sbi_place,
    content_rom (by change _ < rom.size; omega) romFilled.space]
  exact romFilled.sbiAt index inside

/-- The payload is found where it is linked, as far as its header says. -/
theorem payload_moved (romFilled : RomFilled bios tree sbi rom)
    (flashFilled : FlashFilled startup flash) (bootable : Bootable bios tree sbi startup)
    {index : Nat} (inside : index < startup.content.length)
    (wanted : index < startup.imageSize.toNat) :
    Bios.bothMoved (startBus rom flash disk).content
      (Bios.payloadLinkAddr + BitVec.ofNat 64 index) = startup.content.getD index 0 := by
  have space := romFilled.space
  have flashSpace := flashFilled.image.space
  have size := flashFilled.size
  have fits := bootable.payloadFits
  have payload := payloadCount_start rom disk flashFilled bootable
  have firmware := sbiCount_start flash disk romFilled
  unfold romSpaceSize at space
  unfold flashSpaceSize at flashSpace
  -- The firmware ends before the payload starts.
  have far : Bios.sbiCount (startBus rom flash disk).content ≤
      (Bios.payloadLinkAddr + BitVec.ofNat 64 index - Bios.sbiLinkAddr).toNat := by
    have place : Bios.payloadLinkAddr + BitVec.ofNat 64 index - Bios.sbiLinkAddr =
        BitVec.ofNat 64 (0x200000 + index) := by
      rw [along_offset (by decide : Bios.payloadLinkAddr =
        Bios.sbiLinkAddr + BitVec.ofNat 64 0x200000), add_sub_cancel_left]
    rw [place, BitVec.toNat_ofNat]
    omega
  rw [Bios.bothMoved, Bytes.copied_outside far, Bios.payloadMoved,
    Bytes.copied_inside (by omega) (by omega), along_offset payload_place,
    content_flash (by unfold flashSpaceSize; omega)]
  exact (if_pos (by change 0x100 + index < flash.size; omega)).trans
    (flashFilled.startupAt index inside)

/-- The device tree is where it was. -/
theorem tree_kept (romFilled : RomFilled bios tree sbi rom)
    (flashFilled : FlashFilled startup flash) (bootable : Bootable bios tree sbi startup)
    {index : Nat} (inside : index < tree.content.length) :
    Bios.bothMoved (startBus rom flash disk).content (Bios.dtbLoadAddr + BitVec.ofNat 64 index) =
      tree.content.getD index 0 := by
  have space := romFilled.space
  have size := romFilled.size
  have above := @Rounding.le_up (0x2000 + sbi.content.length) 8 (by decide)
  have fits := bootable.treeFits
  have payloadFits := bootable.payloadFits
  have payload := payloadCount_start rom disk flashFilled bootable
  have firmware := sbiCount_start flash disk romFilled
  unfold romSpaceSize at space
  -- The tree lies in the ROM, far below what the two copies write.
  have one := @far_below Bios.dtbLoadAddr Bios.sbiLinkAddr index
    (by change 0x1100 + index < _; omega) (by decide) (by decide)
  have two := @far_below Bios.dtbLoadAddr Bios.payloadLinkAddr index
    (by change 0x1100 + index < _; omega) (by decide) (by decide)
  rw [Bios.bothMoved, Bytes.copied_outside (by omega), Bios.payloadMoved,
    Bytes.copied_outside (by omega),
    along_offset (by decide : Bios.dtbLoadAddr = Bios.romBase + BitVec.ofNat 64 0x100),
    content_rom (by change _ < rom.size; omega) romFilled.space]
  exact romFilled.treeAt index inside

/-- The startup program is loaded. -/
theorem loaded_start (flash disk : Buffer) (romFilled : RomFilled bios tree sbi rom)
    (bootable : Bootable bios tree sbi startup) :
    Bios.Loaded (startBus rom flash disk).layout bios.content
      (Machine.reset rom flash disk).isa where
  code index below := by
    have size := romFilled.size
    have above := @Rounding.le_up (0x2000 + sbi.content.length) 8 (by decide)
    exact code_rom (by change _ < rom.size; omega) romFilled.space
  fixed index below := by
    rintro ⟨first, -⟩
    rw [BitVec.le_def, BitVec.toNat_add, BitVec.toNat_ofNat] at first
    change 0x80000000 ≤ (0x1000 + _) % _ at first
    omega
  holds := by
    have short := bootable.short
    have size := romFilled.size
    have above := @Rounding.le_up (0x2000 + sbi.content.length) 8 (by decide)
    -- The ROM begins with the bytes of the file.
    refine List.ext_getElem (Bytes.length_get ..) fun index first second => ?_
    have found : (startBus rom flash disk).content (Bios.romBase + BitVec.ofNat 64 index) =
        bios.content.getD index 0 := by
      rw [content_rom (by change _ < rom.size; omega) romFilled.space]
      exact romFilled.biosAt index second
    rw [List.getD_eq_getElem _ _ second] at found
    rw [← found]
    simp only [Bytes.get, List.getElem_map, List.getElem_range]
    rfl
  zero := rfl

end Memory

/-! ### The start of the firmware -/

/-- The firmware is about to run, with its arguments, and with all the images in their places. -/
structure FirmwareStarts (tree sbi startup : HostFile) (m : Machine) : Prop where
  pc : m.hart.pc = 0x80000000
  hart : m.hart.reg 10 = 0
  argument : m.hart.reg 11 = 0x1100
  treeAt : ∀ i < tree.content.length,
    m.bus.content (0x1100 + BitVec.ofNat 64 i) = tree.content.getD i 0
  sbiAt : ∀ i < sbi.content.length,
    m.bus.content (0x80000000 + BitVec.ofNat 64 i) = sbi.content.getD i 0
  payloadAt : ∀ i < startup.content.length, i < startup.imageSize.toNat →
    m.bus.content (0x80200000 + BitVec.ofNat 64 i) = startup.content.getD i 0

/--
From the files of the host the machine comes to the first instruction of the firmware.

The first file is what an assembler makes of the startup program, and the flash can hold any modules
behind the payload. The number of turns of the main loop depends on the files alone, and between
them the threads of the devices take any steps.
-/
theorem firmware_started {program tree sbi startup : HostFile} {first second third call : FileCall}
    {modules : List FileCall} {rom : RomState} {flash : Buffer} {place : Nat → BitVec 64}
    (romRan : Runs.run RomCall.next {} (romCalls first second third) = .ok rom)
    (flashRan : Runs.run flashAddFile flashInit (call :: modules) = .ok flash)
    (one : first.file = some program) (two : second.file = some tree)
    (three : third.file = some sbi) (opened : call.file = some startup)
    (bootable : Bootable program tree sbi startup)
    (assembled : Bios.Assembled program.content place) (disk : Buffer) :
    ∃ count, ∀ events : List Event, events.countP Event.isTurn = count →
      ∃ after, Runs.run Machine.next (Machine.reset rom.image flash disk) events = .ok after ∧
        after.Settled ∧ FirmwareStarts tree sbi startup after := by
  have romFilled := romFilled_of_calls romRan one two three bootable.short bootable.treeFits
  have flashFilled := flashFilled_of_calls flashRan opened bootable.plain
  have startable := startable_start disk romFilled flashFilled bootable
  have loaded := loaded_start flash disk romFilled bootable
  have settled := Machine.reset_settled rom.image disk flashFilled.image.aligned
  -- The lines of the program do it, the instructions do what the lines say, and the turns follow.
  obtain ⟨count, last, ran, pc, hart, argument, mem⟩ := loaded.reaches assembled bootable.short
    (Bios.start_runs startable assembled.starts.symm (assembled.even (by decide))
      (assembled.even (by decide)))
  refine ⟨count, fun events turns => ?_⟩
  obtain ⟨after, completed, shows_⟩ :=
    (Machine.simulates _).run ⟨settled, rfl, rfl⟩ ran turns
  refine ⟨after, completed, shows_.settled, ?_⟩
  have view := shows_.isa
  have content : after.bus.content =
      Bios.bothMoved (startBus rom.image flash disk).content :=
    (congrArg Isa.State.mem view).trans mem
  exact {
    pc := (congrArg Isa.State.pc view).trans pc
    hart := (congrFun (congrArg Isa.State.reg view) 10).trans hart
    argument := (congrFun (congrArg Isa.State.reg view) 11).trans argument
    treeAt := fun i inside => by
      rw [content]
      exact tree_kept romFilled flashFilled bootable inside
    sbiAt := fun i inside => by
      rw [content]
      exact sbi_moved romFilled startable inside
    payloadAt := fun i inside wanted => by
      rw [content]
      exact payload_moved romFilled flashFilled bootable inside wanted }

/-! ### An assembled program -/

namespace Bios

/-- One way to assemble the program, without any short instruction, line by line. -/
def assembly : List (List Instruction) := [
  [⟨.csrrs, { rd := a0, csrAddr := mhartid }⟩],
  [⟨.lui, { rd := a1, imm := 0x1000 }⟩, ⟨.addi, { rd := a1, rs1 := a1, imm := 0x100 }⟩],
  [⟨.addi, { rd := t6, imm := 0x401 }⟩, ⟨.slli, { rd := t6, rs1 := t6, imm := 21 }⟩],
  [⟨.lui, { rd := t5, imm := 0x20000000 }⟩, ⟨.addi, { rd := t5, rs1 := t5, imm := 0x100 }⟩],
  [⟨.ld, { rd := t4, rs1 := t5, imm := 16 }⟩],
  [⟨.jal, { rd := 1, imm := 28 }⟩],
  [⟨.addi, { rd := t6, imm := 1 }⟩, ⟨.slli, { rd := t6, rs1 := t6, imm := 31 }⟩],
  [⟨.lui, { rd := t5, imm := 0x3000 }⟩],
  [⟨.ld, { rd := t4, rs1 := t5, imm := -8 }⟩],
  [⟨.jal, { rd := 1, imm := 8 }⟩],
  [⟨.jalr, { rs1 := t6 }⟩],
  [⟨.addi, { rd := t1, rs1 := t4 }⟩],
  [⟨.addi, { rd := t2, rs1 := t5 }⟩],
  [⟨.addi, { rd := t1, rs1 := t1, imm := 7 }⟩],
  [⟨.andi, { rd := t1, rs1 := t1, imm := ~~~7 }⟩],
  [⟨.add, { rd := t3, rs1 := t2, rs2 := t1 }⟩],
  [⟨.addi, { rd := t0, rs1 := t6 }⟩],
  [⟨.add, { rd := t1, rs1 := t0, rs2 := t1 }⟩],
  [⟨.addi, { rd := t3, rs1 := t3, imm := -8 }⟩],
  [⟨.addi, { rd := t1, rs1 := t1, imm := -8 }⟩],
  [⟨.ld, { rd := t2, rs1 := t3, imm := 0 }⟩],
  [⟨.sd, { rs1 := t1, rs2 := t2, imm := 0 }⟩],
  [⟨.blt, { rs1 := t0, rs2 := t1, imm := -16 }⟩],
  [⟨.jalr, { rs1 := 1 }⟩]]

/-- Where its lines start. -/
def assembledPlace (index : Nat) : BitVec 64 :=
  romBase + BitVec.ofNat 64 (4 * (assembly.take index).flatten.length)

/-- The bytes of its instructions. -/
def assembledBytes (code : List Instruction) : List (BitVec 8) :=
  code.flatMap fun instruction => Bytes.ofWord (instruction.encode.getD 0) 4

/-- The bytes of instructions with operands that fit are emitted for them. -/
theorem emitted_bytes {code : List Instruction}
    (fits : ∀ i ∈ code, i.op.format.any fun format => decide (format.Fits i.operands.imm)) :
    Emitted code (assembledBytes code) := by
  induction code with
  | nil => exact .nil
  | cons instruction rest ih =>
    obtain ⟨format, standard, holds⟩ :=
      (Option.any_eq_true ..).mp (fits instruction List.mem_cons_self)
    rw [assembledBytes, List.flatMap_cons]
    refine .cons ?_ (ih fun i listed => fits i (List.mem_cons_of_mem _ listed))
    have encoded : instruction.encode.getD 0 = format.encode instruction.operands := by
      rw [Compressed.Expansion.encode, standard]
      rfl
    rw [encoded]
    exact .full standard (of_decide_eq_true holds)

/-- Each line was assembled to instructions for it. -/
theorem assembly_code : ∀ index < 24,
    (start.getD index .ret).Code assembledPlace index (assembly.getD index [])
  | 0, _ => .csrr a0
  | 1, _ => .li [.lui 0x1000, .addi 0x100] fun _ => rfl
  | 2, _ => .li [.li 0x401, .slli 21] fun _ => (by decide : Isa.sll 0x401#64 21 = payloadLinkAddr)
  | 3, _ => .li [.lui 0x20000000, .addi 0x100] fun _ => rfl
  | 4, _ => .ld t4 16 t5
  | 5, _ => .call 28 (by decide)
  | 6, _ => .li [.li 1, .slli 31] fun _ => (by decide : Isa.sll 1#64 31 = sbiLinkAddr)
  | 7, _ => .li [.lui 0x3000] fun _ => rfl
  | 8, _ => .ld t4 (-8) t5
  | 9, _ => .call 8 (by decide)
  | 10, _ => .jr t6
  | 11, _ => .mv t1 t4
  | 12, _ => .mv t2 t5
  | 13, _ => .addi t1 t1 7
  | 14, _ => .andi t1 t1 (~~~7)
  | 15, _ => .add t3 t2 t1
  | 16, _ => .mv t0 t6
  | 17, _ => .add t1 t0 t1
  | 18, _ => .addi t3 t3 (-8)
  | 19, _ => .addi t1 t1 (-8)
  | 20, _ => .ld t2 0 t3
  | 21, _ => .sd t2 0 t1
  | 22, _ => .blt t0 t1 (-16) (by decide)
  | 23, _ => .ret
  | _ + 24, below => absurd below (by omega)

/-- What was assembled is an image of the program. -/
theorem assembled_assembly : Assembled (assembledBytes assembly.flatten) assembledPlace where
  starts := by decide
  lines index line listed := by
    have below : index < 24 := (List.getElem?_eq_some_iff.mp listed).1
    have same : start.getD index .ret = line := by rw [List.getD_eq_getElem?_getD, listed]; rfl
    have fits : ∀ index < 24, ∀ i ∈ assembly.getD index [],
        i.op.format.any fun format => decide (format.Fits i.operands.imm) := by decide
    have places : ∀ index < 24, assembledPlace (index + 1) =
        assembledPlace index + BitVec.ofNat 64 (assembledBytes (assembly.getD index [])).length := by
      decide
    have parts : ∀ index < 24, assembledBytes (assembly.getD index []) <+:
        (assembledBytes assembly.flatten).drop (assembledPlace index - romBase).toNat := by decide
    exact ⟨_, _, same ▸ assembly_code index below, emitted_bytes (fits index below),
      places index below, parts index below⟩

end Bios

/-- A file that is read whole when it is added. -/
def HostFile.call (file : HostFile) : FileCall where
  file := some file
  delivers := file.content.length

/-- What was assembled, as a file. -/
def assembledFile : HostFile :=
  ⟨Bios.assembledBytes Bios.assembly.flatten, by decide⟩

/-- The first bytes of a device tree, and a firmware that does nothing but loop. -/
def smallTree : HostFile := ⟨[0xD0, 0x0D, 0xFE, 0xED], by decide⟩
def smallFirmware : HostFile := ⟨[0x6F, 0, 0, 0], by decide⟩

/-- A payload of a single instruction behind a header with its size. -/
def smallPayload : HostFile :=
  ⟨List.replicate 16 0 ++ [26, 0, 0, 0, 0, 0, 0, 0, 0x13, 0], by decide⟩

set_option maxRecDepth 4096 in
/-- With these files the machine comes to the firmware. -/
theorem firmware_started_assembled :
    ∃ rom flash count, Runs.run RomCall.next {} (romCalls assembledFile.call smallTree.call
        smallFirmware.call) = .ok rom ∧
      Runs.run flashAddFile flashInit [smallPayload.call] = .ok flash ∧
      ∀ events : List Event, events.countP Event.isTurn = count → ∃ after,
        Runs.run Machine.next (Machine.reset rom.image flash (.zeroed 0)) events = .ok after ∧
          after.Settled ∧ FirmwareStarts smallTree smallFirmware smallPayload after := by
  obtain ⟨rom, filled, -⟩ := @ok_of_test _ (Runs.run RomCall.next {} (romCalls assembledFile.call
    smallTree.call smallFirmware.call)) (fun _ => true) (by decide)
  obtain ⟨flash, flashed⟩ : ∃ flash,
      Runs.run flashAddFile flashInit [smallPayload.call] = .ok flash := ⟨_, rfl⟩
  have bootable : Bootable assembledFile smallTree smallFirmware smallPayload := by
    constructor <;> decide
  obtain ⟨count, starts⟩ := firmware_started filled flashed rfl rfl rfl rfl bootable
    Bios.assembled_assembly (.zeroed 0)
  exact ⟨rom, flash, count, filled, flashed, starts⟩

end Xemu
