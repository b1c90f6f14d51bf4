import Xemu.Device.Memory
import Xemu.Lib.Bytes
import Xemu.Lib.Ensures
import Xemu.Lib.Rounding

/-! The images of the flash and the ROM, to which files of the host are added when the machine boots. -/

namespace Xemu

/-! ### Sizes -/

/-- The macro `ROUND_UP`, on a size and a constant of the type `int`. -/
def roundUp (x : BitVec 64) (n : BitVec 32) : BitVec 64 :=
  -- The mask has the width of the constant, so it clears the upper half of the size.
  (x + n.setWidth 64 - 1) &&& (~~~(n - 1)).setWidth 64

/-- The mask for the constant eight keeps the bits from the fourth to the end of the lower half. -/
theorem and_roundMask (x : BitVec 64) :
    x &&& 0xFFFFFFF8#64 = (((x.setWidth 32) >>> 3) <<< 3).setWidth 64 := by
  have mask : ∀ i : Fin 64, (0xFFFFFFF8#64).getLsbD i =
      (decide (3 ≤ i.val) && decide (i.val < 32)) := by decide
  apply BitVec.eq_of_getLsbD_eq
  intro i below
  have bit := mask ⟨i, below⟩
  simp only at bit
  rw [BitVec.getLsbD_and, bit]
  -- The shifts drop the three lowest bits and put zeros there.
  simp only [BitVec.getLsbD_setWidth, BitVec.getLsbD_shiftLeft, BitVec.getLsbD_ushiftRight, below]
  by_cases low : 3 ≤ i
  · have place : 3 + (i - 3) = i := by omega
    by_cases half : i < 32
    · simp [low, half, place]
    · simp [half]
  · simp [low, show i < 3 by omega]

/-- A size is rounded up in its lower half. -/
theorem toNat_roundUp (x : BitVec 64) :
    (roundUp x 8).toNat = (x.toNat + 7) % 2 ^ 32 / 8 * 8 := by
  -- Seven is added in the whole width, and the mask keeps the lower half of the sum.
  have sum : (x + (8 : BitVec 32).setWidth 64 - 1).toNat % 2 ^ 32 = (x.toNat + 7) % 2 ^ 32 := by
    rw [BitVec.toNat_sub, BitVec.toNat_add]
    change (2 ^ 64 - 1 + (x.toNat + 8) % 2 ^ 64) % 2 ^ 64 % 2 ^ 32 = _
    omega
  have mask : (~~~((8 : BitVec 32) - 1)).setWidth 64 = 0xFFFFFFF8#64 := by decide
  rw [roundUp, mask]
  rw [and_roundMask, BitVec.toNat_setWidth, BitVec.toNat_shiftLeft, BitVec.toNat_ushiftRight,
    BitVec.toNat_setWidth, sum, Nat.shiftRight_eq_div_pow, Nat.shiftLeft_eq]
  omega

/-! ### Files of the host -/

/-- A file of the host, whose size fits the type it is reported in. -/
structure HostFile where
  content : List (BitVec 8)
  fits : content.length < 2 ^ 64

/-- The size that `fstat` reports. -/
def HostFile.size (file : HostFile) : BitVec 64 := BitVec.ofNat 64 file.content.length

/-- A file without any bytes. -/
def HostFile.empty : HostFile where
  content := []
  fits := Nat.two_pow_pos 64

/-- What the host does with the calls by which a file is added to an image. -/
structure FileCall where
  /-- The file, unless it cannot be opened or looked at. -/
  file : Option HostFile
  /-- There is memory for the image. -/
  allocates : Bool := true
  /-- The number of bytes after which `fread` ends, if the file does not end before. -/
  delivers : Nat

/-- The bytes that `fread` delivers. -/
def FileCall.delivered (call : FileCall) (file : HostFile) : List (BitVec 8) :=
  file.content.take call.delivers

/-- As many bytes as the file has are those of the file. -/
theorem FileCall.delivered_whole {call : FileCall} {file : HostFile}
    (whole : (call.delivered file).length = file.content.length) :
    call.delivered file = file.content := by
  -- The bytes delivered are the first of the file, here all of them.
  rw [delivered, List.length_take] at whole
  exact List.take_of_length_le (by omega)

namespace Buffer

/-- A `memcpy` of a whole buffer to the start of another one. -/
def copyFrom (buffer source : Buffer) : Except Stop Buffer :=
  if source.size ≤ buffer.size then
    .ok { buffer with
      bytes := fun at_ => if at_.toNat < source.size then source.bytes at_ else buffer.bytes at_ }
  else .error (.undefined "copy outside an allocated buffer")

/-- What an `fread` of some bytes stores into a buffer. -/
def fill (buffer : Buffer) (addr : BitVec 64) (data : List (BitVec 8)) : Except Stop Buffer :=
  if addr.toNat + data.length ≤ buffer.size then
    .ok { buffer with bytes := Bytes.put buffer.bytes addr data }
  else .error (.undefined "file read outside an allocated buffer")

/-- The function `elf64_hdr_check`. -/
def elf64HdrCheck (buffer : Buffer) (addr : BitVec 64) : Except Stop Bool := do
  let magic ← buffer.read addr 4
  return magic = 0x464C457F

/-- The function `elf64_hdr_set_length`, which stores into `e_phoff`. -/
def elf64HdrSetLength (buffer : Buffer) (addr length : BitVec 64) : Except Stop Buffer :=
  buffer.write (addr + 32) 8 length

end Buffer

/-! ### The flash -/

/-- The constant `FLASH_HEAD_SIZE`. -/
def flashHeadSize : Nat := 0x100

/-- The image that `flash_init` allocates. -/
def flashInit : Buffer := .zeroed flashHeadSize

/-- The function `flash_add_file`. -/
def flashAddFile (call : FileCall) (flash : Buffer) : Except Stop Buffer :=
  match call.file with
  | none => .error (.panic "flash_add_file: bad filename %s\n")
  | some file => do
    let start := BitVec.ofNat 64 flash.size
    let size := roundUp (start + file.size) 8
    if size.toNat > flashSpaceSize then throw (.panic "flash_add_file: bad size %x\n")
    if !call.allocates then throw (.panic "flash_add_file: alloc memory failed!\n")
    -- The image is copied to the front of a larger one, and the file is read behind it.
    let ptr ← (Buffer.zeroed size.toNat).copyFrom flash
    let ptr ← ptr.fill start (call.delivered file)
    if (call.delivered file).length ≠ file.content.length then
      throw (.panic "flash_add_file: read file failed!\n")
    -- A module carries its own length, in a field of its header that is not used otherwise.
    if ← ptr.elf64HdrCheck start then ptr.elf64HdrSetLength start file.size else .ok ptr

/-! ### The ROM -/

/-- The constant `ROM_ADDRESS_SPACE_SIZE`. -/
def romSpaceSize : Nat := 0xFF000

/-- The image of `rom_init`, for which nothing is allocated. -/
def romInit : Buffer := .zeroed 0

/-- The function `rom_add_file`. -/
def romAddFile (call : FileCall) (base : BitVec 64) (rom : Buffer) : Except Stop Buffer :=
  match call.file with
  | none => .error (.panic "rom_add_file: bad filename %s\n")
  | some file => do
    if base.toNat < rom.size then throw (.panic "rom_add_file: bad base %x\n")
    let size := roundUp (base + file.size) 8
    if size.toNat > romSpaceSize then throw (.panic "rom_add_file: bad size %x\n")
    if !call.allocates then throw (.panic "rom_add_file: alloc memory failed!\n")
    let ptr ← (if rom.size > 0 then (Buffer.zeroed size.toNat).copyFrom rom
      else .ok (Buffer.zeroed size.toNat))
    let ptr ← ptr.fill base (call.delivered file)
    if (call.delivered file).length ≠ file.content.length then
      throw (.panic "rom_add_file: read file failed!\n")
    -- The length is recorded in the eight bytes below the file.
    if base ≠ 0 then ptr.write (base - 8) 8 file.size else .ok ptr

/-! ### Files read into a larger copy -/

namespace Buffer

/-- A byte of an image, by its number. -/
def byte (buffer : Buffer) (i : Nat) : BitVec 8 := buffer.bytes (BitVec.ofNat 64 i)

/-- An image with some bytes read into a larger copy of it. -/
def loaded (image : Buffer) (size : Nat) (start : BitVec 64) (data : List (BitVec 8)) : Buffer where
  bytes := Bytes.put (fun at_ => if at_.toNat < image.size then image.bytes at_ else 0) start data
  size := size

section Loaded

variable {image : Buffer} {size : Nat} {start : BitVec 64} {data : List (BitVec 8)}

/-- The distance of a byte from an address that is not above it. -/
theorem distance_byte {start : BitVec 64} {i : Nat} (above : start.toNat ≤ i) (fits : i < 2 ^ 64) :
    (BitVec.ofNat 64 i - start).toNat = i - start.toNat := by
  have number : (BitVec.ofNat 64 i).toNat = i := by
    rw [BitVec.toNat_ofNat, Nat.mod_eq_of_lt fits]
  rw [BitVec.toNat_sub_of_le (by rw [BitVec.le_def, number]; exact above), number]

/-- The distance of a byte from an address that is above it reaches around the memory. -/
theorem distance_below {start : BitVec 64} {i : Nat} (below : i < start.toNat) :
    (BitVec.ofNat 64 i - start).toNat = 2 ^ 64 + i - start.toNat := by
  have word := start.isLt
  rw [BitVec.toNat_sub, BitVec.toNat_ofNat]
  omega

/-- The bytes of the copy, of what was read behind it, and zeros in between and after. -/
theorem byte_loaded (behind : image.size ≤ start.toNat) (fits : start.toNat + data.length ≤ 2 ^ 64)
    {i : Nat} (number : i < 2 ^ 64) :
    (image.loaded size start data).byte i =
      if i < image.size then image.byte i
      else if start.toNat ≤ i then data.getD (i - start.toNat) 0 else 0 := by
  have same : (BitVec.ofNat 64 i).toNat = i := by
    rw [BitVec.toNat_ofNat, Nat.mod_eq_of_lt number]
  simp only [byte, loaded, Bytes.put, same]
  by_cases before : i < start.toNat
  · -- What is read does not reach the bytes before its start.
    rw [List.getD_eq_default _ _ (by rw [distance_below before]; omega)]
    split_ifs with old later
    · rfl
    · omega
    · rfl
  · rw [distance_byte (Nat.le_of_not_lt before) number, if_neg (by omega), if_neg (by omega),
      if_pos (Nat.le_of_not_lt before)]

/-- Copies, file reads and writes leave the size of an image. -/
theorem copyFrom_size (buffer source : Buffer) :
    Ensures (buffer.copyFrom source) fun after => after.size = buffer.size :=
  .ite (fun _ => .ok rfl) fun _ => .error

theorem fill_size (buffer : Buffer) (addr : BitVec 64) (data : List (BitVec 8)) :
    Ensures (buffer.fill addr data) fun after => after.size = buffer.size :=
  .ite (fun _ => .ok rfl) fun _ => .error

theorem write_size (buffer : Buffer) (addr : BitVec 64) (size : Nat) (word : BitVec 64) :
    Ensures (buffer.write addr size word) fun after => after.size = buffer.size :=
  .ite (fun _ => .ok rfl) fun _ => .error

/-- A write inside an image completes. -/
theorem write_inside (buffer : Buffer) {addr : BitVec 64} {size : Nat}
    (inside : addr.toNat + size ≤ buffer.size) (word : BitVec 64) :
    ∃ after, buffer.write addr size word = .ok after := ⟨_, if_pos inside⟩

/-- The bytes after eight of them were written. -/
theorem byte_write {buffer after : Buffer} {addr word : BitVec 64}
    (written : buffer.write addr 8 word = .ok after) (space : buffer.size ≤ 2 ^ 64) {i : Nat}
    (number : i < 2 ^ 64) :
    after.byte i = if addr.toNat ≤ i ∧ i < addr.toNat + 8 then
      (word >>> (8 * (i - addr.toNat))).setWidth 8 else buffer.byte i := by
  unfold Buffer.write at written
  split at written
  · cases Except.ok.inj written
    simp only [byte, LittleEndian.store]
    -- A byte below the address is at a distance that reaches around the memory.
    by_cases before : i < addr.toNat
    · rw [distance_below before, if_neg (by omega), if_neg (by omega)]
    · rw [distance_byte (Nat.le_of_not_lt before) number]
      by_cases inside : i - addr.toNat < 8
      · rw [if_pos inside, if_pos (by omega)]
      · rw [if_neg inside, if_neg (by omega)]
  · cases written

/-- A copy with bytes read behind it is what was to be loaded, where all of it fits. -/
theorem copy_fill (behind : image.size ≤ start.toNat) (fits : start.toNat + data.length ≤ size) :
    ((Buffer.zeroed size).copyFrom image >>= fun ptr => ptr.fill start data) =
      .ok (image.loaded size start data) := by
  have room : image.size ≤ (Buffer.zeroed size).size := Nat.le_trans behind (by
    change start.toNat ≤ size
    omega)
  rw [copyFrom, if_pos room, ok_bind, fill]
  exact if_pos fits

/-- Where it does not fit, the copy or the read leaves the larger image. -/
theorem copy_fill_outside (image : Buffer) (outside : ¬ start.toNat + data.length ≤ size) :
    ∃ what, ((Buffer.zeroed size).copyFrom image >>= fun ptr => ptr.fill start data) =
      .error (.undefined what) := by
  unfold copyFrom
  split
  · rw [ok_bind, fill]
    exact ⟨_, if_neg outside⟩
  · exact ⟨_, rfl⟩

end Loaded

end Buffer

end Xemu
