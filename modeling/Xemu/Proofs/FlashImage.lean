import Xemu.Boot.Images
import Xemu.Lib.Runs

/-! The flash image after any number of files were added to it. -/

namespace Xemu

/-! ### A call and the image it is to leave -/

/-- The file is a module. -/
def HostFile.IsElf (file : HostFile) : Prop := file.content.take 4 = [0x7F, 0x45, 0x4C, 0x46]

instance : DecidablePred HostFile.IsElf := fun file =>
  inferInstanceAs (Decidable (file.content.take 4 = [0x7F, 0x45, 0x4C, 0x46]))

/-- The bytes of a file in the image, where a module has its length in place of eight of them. -/
def HostFile.stored (file : HostFile) (i : Nat) : BitVec 8 :=
  if file.IsElf ∧ 32 ≤ i ∧ i < 40 then (file.size >>> (8 * (i - 32))).setWidth 8
  else file.content.getD i 0

/-- What is so of every image: it ends aligned, and it fits the address space. -/
structure FlashImage (flash : Buffer) : Prop where
  aligned : flash.size % 8 = 0
  space : flash.size ≤ flashSpaceSize

/-- The image after a file was added at the end of it. -/
structure FlashAdded (flash : Buffer) (file : HostFile) (after : Buffer) : Prop where
  size : after.size = Rounding.up (flash.size + file.content.length) 8
  kept : ∀ i < flash.size, after.byte i = flash.byte i
  placed : ∀ i < file.content.length, after.byte (flash.size + i) = file.stored i
  length : file.IsElf → ∀ i, 32 ≤ i → i < 40 → after.byte (flash.size + i) = file.stored i

/-- A call panics or adds its file, and no index it uses lies outside the image it allocates. -/
structure FlashRight (call : FileCall) (flash : Buffer) : Prop where
  panics : ∀ stop, flashAddFile call flash = .error stop → ∃ text, stop = .panic text
  adds : ∀ after, flashAddFile call flash = .ok after →
    ∃ file, call.file = some file ∧ FlashAdded flash file after

/-- The size of the image with a file, as the macro computes it. -/
def flashSize (flash : Buffer) (file : HostFile) : Nat :=
  (roundUp (BitVec.ofNat 64 flash.size + file.size) 8).toNat

/-- A call passes the checks that it makes before it copies anything. -/
structure FlashPasses (call : FileCall) (flash : Buffer) (file : HostFile) : Prop where
  opened : call.file = some file
  small : flashSize flash file ≤ flashSpaceSize
  allocates : call.allocates = true

/--
The bytes that are read fit the size computed, and a file that is read whole is not too short.

An empty file has no bytes for the check of the header, and a module needs more than thirty-two.
-/
def FlashFits (call : FileCall) (flash : Buffer) : Prop :=
  ∀ file, FlashPasses call flash file →
    flash.size + (call.delivered file).length ≤ flashSize flash file ∧
      ((call.delivered file).length = file.content.length →
        0 < file.content.length ∧ (file.IsElf → 32 < file.content.length))

/-! ### The checks -/

section Call

variable {call : FileCall} {flash : Buffer} {file : HostFile}

/-- A call that does not pass the checks panics. -/
theorem flashAddFile_refused (refused : ∀ file, ¬ FlashPasses call flash file) :
    ∃ text, flashAddFile call flash = .error (.panic text) := by
  unfold flashAddFile
  split
  · exact ⟨_, rfl⟩
  · rename_i file opened
    -- The checks are made in this order, and each of them panics.
    by_cases large : flashSize flash file > flashSpaceSize
    · exact ⟨_, if_pos large⟩
    · by_cases memory : call.allocates = true
      · exact absurd ⟨opened, Nat.le_of_not_lt large, memory⟩ (refused file)
      · refine ⟨"flash_add_file: alloc memory failed!\n", (if_neg large).trans (if_pos ?_)⟩
        simpa using memory

/-- A call that passes them goes on to copy the image and read the file. -/
theorem flashAddFile_passes (passes : FlashPasses call flash file) :
    flashAddFile call flash = ((Buffer.zeroed (flashSize flash file)).copyFrom flash >>= fun ptr =>
      ptr.fill (BitVec.ofNat 64 flash.size) (call.delivered file)) >>= fun ptr =>
        if (call.delivered file).length ≠ file.content.length then
          .error (.panic "flash_add_file: read file failed!\n")
        else ptr.elf64HdrCheck (BitVec.ofNat 64 flash.size) >>= fun elf =>
          if elf then ptr.elf64HdrSetLength (BitVec.ofNat 64 flash.size) file.size else .ok ptr := by
  obtain ⟨opened, small, memory⟩ := passes
  unfold flashAddFile
  rw [opened]
  refine (if_neg (Nat.not_lt.mpr small)).trans ((if_neg (by simp [memory])).trans ?_)
  -- What follows does the same, with the two steps after the allocation taken together.
  rw [bind_assoc]
  refine bind_congr fun copy => bind_congr fun ptr => ?_
  dsimp only
  split <;> rfl

/-! ### What a call computes -/

/-- A size that reaches the end of a file that is read whole is that end rounded up. -/
theorem flashSize_whole (image : FlashImage flash)
    (whole : flash.size + file.content.length ≤ flashSize flash file) :
    flashSize flash file = Rounding.up (flash.size + file.content.length) 8 := by
  have fits := file.fits
  have space := image.space
  unfold flashSpaceSize at space
  have sum : (BitVec.ofNat 64 flash.size + file.size).toNat =
      (flash.size + file.content.length) % 2 ^ 64 := by
    rw [HostFile.size, BitVec.toNat_add, BitVec.toNat_ofNat, BitVec.toNat_ofNat]
    omega
  -- Nothing was lost when it was rounded, or the size would be smaller.
  have computed := toNat_roundUp (BitVec.ofNat 64 flash.size + file.size)
  rw [sum] at computed
  unfold flashSize at whole ⊢
  exact Rounding.eq_up (by decide) (by omega) whole (by omega)

/-- The start of the file is the end of the image before. -/
theorem flash_start (image : FlashImage flash) : (BitVec.ofNat 64 flash.size).toNat = flash.size := by
  have space := image.space
  unfold flashSpaceSize at space
  rw [BitVec.toNat_ofNat]
  omega

/-- The header field of the file that is added. -/
theorem flash_field (image : FlashImage flash) :
    (BitVec.ofNat 64 flash.size + 32).toNat = flash.size + 32 := by
  have space := image.space
  unfold flashSpaceSize at space
  rw [BitVec.toNat_add, flash_start image]
  change (flash.size + 32) % 2 ^ 64 = _
  omega

/-- The four bytes of the magic number, as the word that they are compared with. -/
theorem load_magic {mem : BitVec 64 → BitVec 8} {addr : BitVec 64} :
    LittleEndian.load 64 mem addr 4 = 0x464C457F#64 ↔
      mem addr = 0x7F ∧ mem (addr + 1) = 0x45 ∧ mem (addr + 1 + 1) = 0x4C ∧
        mem (addr + 1 + 1 + 1) = 0x46 := by
  constructor
  · intro magic
    -- Each byte of memory is one of the word.
    have byte : ∀ index < 4, mem (addr + BitVec.ofNat 64 index) =
        (0x464C457F#64 >>> (8 * index)).setWidth 8 := by
      intro index inside
      have loaded : (LittleEndian.load 64 mem addr 4 >>> (8 * index)).setWidth 8 =
          mem (addr + BitVec.ofNat 64 index) := LittleEndian.load_byte inside (by decide)
      rw [← loaded, magic]
    have first := byte 0 (by decide)
    have second := byte 1 (by decide)
    have third := byte 2 (by decide)
    have fourth := byte 3 (by decide)
    rw [BitVec.add_zero] at first
    rw [show addr + 1 + 1 = addr + 2#64 by bv_omega, show addr + 2#64 + 1 = addr + 3#64 by bv_omega]
    exact ⟨first, second, third, fourth⟩
  · rintro ⟨first, second, third, fourth⟩
    simp only [LittleEndian.load, first, second, third, fourth]
    decide

/-- A file is a module when its first four bytes are the magic number, none of which is zero. -/
theorem isElf_iff : file.IsElf ↔ file.content.getD 0 0 = 0x7F ∧ file.content.getD 1 0 = 0x45 ∧
    file.content.getD 2 0 = 0x4C ∧ file.content.getD 3 0 = 0x46 := by
  unfold HostFile.IsElf
  rcases file.content with _ | ⟨first, _ | ⟨second, _ | ⟨third, _ | ⟨fourth, rest⟩⟩⟩⟩
  all_goals simp

/-- The bytes behind the image are those of the file, and zeros where it has ended. -/
theorem byte_loaded_file (image : FlashImage flash) (size : Nat)
    (fits : flash.size + file.content.length ≤ 2 ^ 64) {i : Nat} (number : flash.size + i < 2 ^ 64) :
    (flash.loaded size (BitVec.ofNat 64 flash.size) file.content).byte (flash.size + i) =
      file.content.getD i 0 := by
  have start := flash_start image
  rw [Buffer.byte_loaded (by omega) (by omega) number, start, if_neg (by omega), if_pos (by omega),
    Nat.add_sub_cancel_left]

/-- The check of the header tells whether the file is a module. -/
theorem elf64HdrCheck_loaded (image : FlashImage flash) {size : Nat}
    (room : flash.size + 4 ≤ size) (fits : flash.size + file.content.length ≤ 2 ^ 64) :
    (flash.loaded size (BitVec.ofNat 64 flash.size) file.content).elf64HdrCheck
      (BitVec.ofNat 64 flash.size) = .ok (decide file.IsElf) := by
  have start := flash_start image
  have space := image.space
  unfold flashSpaceSize at space
  have inside : (BitVec.ofNat 64 flash.size).toNat + 4 ≤
      (flash.loaded size (BitVec.ofNat 64 flash.size) file.content).size := by
    rw [start]
    exact room
  -- The first four bytes of the file are those the magic number is compared with.
  have bytes (i : Nat) (few : i < 4) := byte_loaded_file image size fits
    (show flash.size + i < 2 ^ 64 by omega)
  have first := bytes 0 (by decide)
  have second := bytes 1 (by decide)
  have third := bytes 2 (by decide)
  have fourth := bytes 3 (by decide)
  simp only [Buffer.byte, BitVec.ofNat_add] at first second third fourth
  rw [BitVec.add_zero] at first
  rw [Buffer.elf64HdrCheck, Buffer.read, if_pos inside, ok_bind]
  refine congrArg Except.ok (decide_eq_decide.mpr (load_magic.trans ?_))
  generalize BitVec.ofNat 64 flash.size = addr at first second third fourth ⊢
  rw [show addr + 1 + 1 = addr + 2#64 by bv_omega, show addr + 2#64 + 1 = addr + 3#64 by bv_omega,
    isElf_iff, ← first, ← second, ← third, ← fourth]
  rfl

/-- What is left of a call once the file was read whole. -/
theorem flashAddFile_whole (image : FlashImage flash) (passes : FlashPasses call flash file)
    (room : flash.size + file.content.length ≤ flashSize flash file)
    (whole : (call.delivered file).length = file.content.length) :
    flashAddFile call flash =
      if file.IsElf then
        (flash.loaded (flashSize flash file) (BitVec.ofNat 64 flash.size)
          file.content).elf64HdrSetLength (BitVec.ofNat 64 flash.size) file.size
      else if 0 < file.content.length then
        .ok (flash.loaded (flashSize flash file) (BitVec.ofNat 64 flash.size) file.content)
      else .error (.undefined "read outside an allocated buffer") := by
  have start := flash_start image
  have size := flashSize_whole image room
  have space := passes.small
  unfold flashSpaceSize at space
  have aligned := image.aligned
  rw [flashAddFile_passes passes, FileCall.delivered_whole whole,
    Buffer.copy_fill (Nat.le_of_eq start.symm) (by rw [start]; exact room), ok_bind,
    if_neg (not_not.mpr rfl)]
  by_cases some : 0 < file.content.length
  · -- The size was rounded up past the first eight bytes of the file.
    have header : flash.size + 4 ≤ flashSize flash file := by
      rw [size, Rounding.up]
      omega
    rw [elf64HdrCheck_loaded image header (by omega), ok_bind]
    by_cases elf : file.IsElf
    · simp [elf]
    · simp [elf, some]
  · -- There are no bytes behind the image, and the check reads four of them.
    have empty : file.content = [] := List.length_eq_zero_iff.mp (by omega)
    have plain : ¬ file.IsElf := by simp [HostFile.IsElf, empty]
    have outside : ¬ (BitVec.ofNat 64 flash.size).toNat + 4 ≤
        (flash.loaded (flashSize flash file) (BitVec.ofNat 64 flash.size) file.content).size := by
      change ¬ _ ≤ flashSize flash file
      rw [start, size, Rounding.up, empty, List.length_nil]
      omega
    rw [if_neg plain, if_neg some, Buffer.elf64HdrCheck, Buffer.read, if_neg outside]
    rfl

/-- A call that reads past the size that was computed is undefined. -/
theorem flashAddFile_outside (image : FlashImage flash) (passes : FlashPasses call flash file)
    (outside : ¬ flash.size + (call.delivered file).length ≤ flashSize flash file) :
    ∃ what, flashAddFile call flash = .error (.undefined what) := by
  rw [← flash_start image] at outside
  obtain ⟨what, stopped⟩ := Buffer.copy_fill_outside flash outside
  rw [flashAddFile_passes passes, stopped]
  exact ⟨what, rfl⟩

/-- A file that is no module is added as it is. -/
theorem flashAdded_plain (image : FlashImage flash) (plain : ¬ file.IsElf)
    (room : flash.size + file.content.length ≤ flashSize flash file)
    (small : flashSize flash file ≤ flashSpaceSize) :
    FlashAdded flash file
      (flash.loaded (flashSize flash file) (BitVec.ofNat 64 flash.size) file.content) := by
  have start := flash_start image
  unfold flashSpaceSize at small
  -- The size is that of the rounded end, and each byte is the one that was loaded.
  refine ⟨flashSize_whole image room, fun i old => ?_, fun i inside => ?_, fun elf => absurd elf plain⟩
  · rw [Buffer.byte_loaded (by omega) (by omega) (by omega), if_pos old]
  · rw [byte_loaded_file image _ (by omega) (by omega), HostFile.stored,
      if_neg (fun both => plain both.1)]

/-- A module that reaches past its header field is added with its length there. -/
theorem flashAdded_elf {after : Buffer} (image : FlashImage flash) (elf : file.IsElf)
    (room : flash.size + file.content.length ≤ flashSize flash file)
    (small : flashSize flash file ≤ flashSpaceSize)
    (set : (flash.loaded (flashSize flash file) (BitVec.ofNat 64 flash.size)
      file.content).elf64HdrSetLength (BitVec.ofNat 64 flash.size) file.size = .ok after) :
    FlashAdded flash file after := by
  have start := flash_start image
  have field := flash_field image
  unfold flashSpaceSize at small
  have written := fun {i : Nat} => Buffer.byte_write (i := i) set (by
    change flashSize flash file ≤ _
    omega)
  rw [field] at written
  -- Outside the field the bytes are those that were loaded, and in it those of the length.
  have behind (i : Nat) (number : flash.size + i < 2 ^ 64) :
      after.byte (flash.size + i) = file.stored i := by
    rw [written number, HostFile.stored]
    by_cases inside : 32 ≤ i ∧ i < 40
    · rw [if_pos (by omega), if_pos ⟨elf, inside⟩, Nat.add_sub_add_left]
    · rw [if_neg (by omega), if_neg (fun both => inside both.2),
        byte_loaded_file image _ (by omega) number]
  refine ⟨?_, fun i old => ?_, fun i inside => behind i (by omega),
    fun _ i above below => behind i (by omega)⟩
  · rw [← flashSize_whole image room]
    unfold Buffer.elf64HdrSetLength Buffer.write at set
    split at set
    · cases Except.ok.inj set
      rfl
    · cases set
  · rw [written (by omega), if_neg (by omega), Buffer.byte_loaded (by omega) (by omega) (by omega),
      if_pos old]

/-- A call is right when it can only end with a panic or with its file added. -/
theorem FlashRight.of_ends (ends : Ends (flashAddFile call flash)
    (fun after => ∃ file, call.file = some file ∧ FlashAdded flash file after)
    fun stop => ∃ text, stop = .panic text) : FlashRight call flash :=
  ⟨ends.stopped, ends.ensures⟩

/-- A call is right where what it reads fits. -/
theorem flashRight_of_fits (image : FlashImage flash) (fits : FlashFits call flash) :
    FlashRight call flash := by
  apply FlashRight.of_ends
  by_cases checked : ∃ file, FlashPasses call flash file
  · obtain ⟨file, passes⟩ := checked
    obtain ⟨room, long⟩ := fits file passes
    by_cases whole : (call.delivered file).length = file.content.length
    · obtain ⟨some, header⟩ := long whole
      rw [whole] at room
      have result := flashAddFile_whole image passes room whole
      by_cases elf : file.IsElf
      · -- The file reaches the field, so the image does.
        have inside : (BitVec.ofNat 64 flash.size + 32).toNat + 8 ≤ flashSize flash file := by
          have aligned := image.aligned
          have longer := header elf
          rw [flashSize_whole image room, flash_field image, Rounding.up]
          omega
        rw [if_pos elf] at result
        obtain ⟨after, set⟩ := Buffer.write_inside
          (flash.loaded (flashSize flash file) (BitVec.ofNat 64 flash.size) file.content) inside
          file.size
        rw [result.trans set]
        exact .ok ⟨file, passes.opened, flashAdded_elf image elf room passes.small set⟩
      · rw [result, if_neg elf, if_pos some]
        exact .ok ⟨file, passes.opened, flashAdded_plain image elf room passes.small⟩
    · -- The read ended early, and the call panics.
      rw [flashAddFile_passes passes, Buffer.copy_fill (Nat.le_of_eq (flash_start image).symm)
        (by rw [flash_start image]; exact room), ok_bind, if_pos whole]
      exact .error ⟨_, rfl⟩
  · obtain ⟨text, panics⟩ := flashAddFile_refused fun file passes => checked ⟨file, passes⟩
    rw [panics]
    exact .error ⟨text, rfl⟩

/-- What a call reads fits, if none of its steps is undefined. -/
theorem flashFits_of_defined (image : FlashImage flash)
    (defined : ∀ what, flashAddFile call flash ≠ .error (.undefined what)) :
    FlashFits call flash := by
  intro file passes
  have room : flash.size + (call.delivered file).length ≤ flashSize flash file := by
    by_contra outside
    obtain ⟨what, undefined⟩ := flashAddFile_outside image passes outside
    exact defined what undefined
  refine ⟨room, fun whole => ?_⟩
  have result := flashAddFile_whole image passes (whole ▸ room) whole
  constructor
  · by_contra empty
    have none := List.length_eq_zero_iff.mp (Nat.eq_zero_of_not_pos empty)
    have plain : ¬ file.IsElf := by simp [HostFile.IsElf, none]
    rw [if_neg plain, if_neg empty] at result
    exact defined _ result
  · intro elf
    by_contra short
    -- The field lies behind the image if the file does not reach it.
    have outside : ¬ (BitVec.ofNat 64 flash.size + 32).toNat + 8 ≤ flashSize flash file := by
      have aligned := image.aligned
      rw [flashSize_whole image (whole ▸ room), flash_field image, Rounding.up]
      omega
    rw [if_pos elf, Buffer.elf64HdrSetLength, Buffer.write] at result
    exact defined _ (result.trans (if_neg outside))

/-- What a right call reads fits. -/
theorem flashFits_of_right (image : FlashImage flash) (right : FlashRight call flash) :
    FlashFits call flash := by
  refine flashFits_of_defined image fun what undefined => ?_
  obtain ⟨text, impossible⟩ := right.panics _ undefined
  cases impossible

/-- A call that completes leaves an image again. -/
theorem flashImage_kept {after : Buffer} (added : flashAddFile call flash = .ok after) :
    FlashImage after := by
  obtain ⟨file, passes⟩ : ∃ file, FlashPasses call flash file := by
    by_contra refused
    obtain ⟨text, panics⟩ := flashAddFile_refused fun file passes => refused ⟨file, passes⟩
    rw [panics] at added
    cases added
  -- The size is that of the allocation, to the end.
  have size : after.size = flashSize flash file := by
    rw [flashAddFile_passes passes] at added
    obtain ⟨ptr, filled, rest⟩ := bind_eq_ok.mp added
    obtain ⟨copy, copied, read⟩ := bind_eq_ok.mp filled
    have loaded : ptr.size = flashSize flash file :=
      (Buffer.fill_size _ _ _ ptr read).trans (Buffer.copyFrom_size _ _ copy copied)
    split at rest
    · cases rest
    · obtain ⟨elf, checked, last⟩ := bind_eq_ok.mp rest
      split at last
      · exact (Buffer.write_size _ _ _ _ after last).trans loaded
      · cases Except.ok.inj last
        exact loaded
  have rounded := toNat_roundUp (BitVec.ofNat 64 flash.size + file.size)
  refine ⟨?_, size ▸ passes.small⟩
  rw [size, flashSize, rounded]
  exact Nat.mul_mod_left _ _

end Call

/--
In a run every call is right exactly when what it reads fits.

The run starts with the image that holds nothing but the head.
-/
theorem flash_right_iff (calls : List FileCall) :
    Runs.Along flashAddFile FlashRight flashInit calls ↔
      Runs.Along flashAddFile FlashFits flashInit calls := by
  have start : FlashImage flashInit := ⟨by decide, by decide⟩
  -- Every call leaves an image, and of an image the call is right just when it fits.
  exact Runs.along_iff_of_invariant FlashImage (fun _ _ _ _ added => flashImage_kept added)
    (fun _ _ image => ⟨flashFits_of_right image, flashRight_of_fits image⟩) start

/-- A call for a file without any bytes. -/
def emptyCall : FileCall := { file := some .empty, delivers := 0 }

/-- The header of an empty file is looked for behind the image. -/
theorem empty_file_checked :
    ¬ ∀ calls, Runs.Along flashAddFile FlashRight flashInit calls := by
  intro always
  obtain ⟨text, impossible⟩ := (always [emptyCall]).1.panics
    (.undefined "read outside an allocated buffer") (by rfl)
  cases impossible

end Xemu
