import Xemu.Lib.LittleEndian
import Xemu.Util

/-! The three byte memories on the bus: RAM with its atomic updates, ROM, and flash. -/

namespace Xemu

/-- A heap buffer: the bytes behind a pointer, and how many of them were allocated. -/
structure Buffer where
  bytes : BitVec 64 → BitVec 8
  size : Nat

namespace Buffer

/-- A `memcpy` out of a buffer into a zeroed 64-bit local. -/
def read (buffer : Buffer) (addr : BitVec 64) (size : Nat) : Except Stop (BitVec 64) :=
  -- C defines the copy inside the allocation only, however the pointer was computed.
  if addr.toNat + size ≤ buffer.size then .ok (LittleEndian.load 64 buffer.bytes addr size)
  else .error (.undefined "read outside an allocated buffer")

/-- A `memcpy` of the low bytes of a 64-bit local into a buffer. -/
def write (buffer : Buffer) (addr : BitVec 64) (size : Nat) (data : BitVec 64) :
    Except Stop Buffer :=
  if addr.toNat + size ≤ buffer.size then
    .ok { buffer with bytes := LittleEndian.store buffer.bytes addr size data }
  else .error (.undefined "write outside an allocated buffer")

/-- The buffer `calloc` returns. -/
def zeroed (size : Nat) : Buffer := { bytes := fun _ => 0, size }

end Buffer

/-- The access parameters of `params_t`, without its end marker. -/
inductive Params where
  | none
  | lrSc
  | amoMin
  | amoMax
  | amoMinu
  | amoMaxu
  | amoAdd
  | amoXor
  | amoOr
  | amoAnd
  | amoSwap
  deriving DecidableEq, Repr

/-! ### RAM -/

/-- The number of bytes `ram_init` allocates. -/
def ramSize : Nat := 0x80000000

/-- The function `ram_read`, which looks at no parameter. -/
def ramRead (ram : Buffer) (addr : BitVec 64) (size : Nat) (_ : Params) :
    Except Stop (BitVec 64) :=
  ram.read addr size

/-- The functions `_amo32` and `_amo64`, which differ in the width of their operands only. -/
def amo {w : Nat} (orig data : BitVec w) (params : Params) : BitVec w :=
  match params with
  -- A store-conditional stores its operand like a plain store does.
  | .lrSc => data
  | .amoMin => if data.slt orig then data else orig
  | .amoMax => if orig.slt data then data else orig
  | .amoMinu => if data < orig then data else orig
  | .amoMaxu => if orig < data then data else orig
  | .amoAdd => orig + data
  | .amoXor => orig ^^^ data
  | .amoOr => orig ||| data
  | .amoAnd => orig &&& data
  -- A swap stores it too, and is told from a store by the value it returns alone.
  | .amoSwap => data
  | .none => data

/-- The function `ram_write`: the value it returns, and the memory after it. -/
def ramWrite (ram : Buffer) (addr data : BitVec 64) (size : Nat) (params : Params) :
    Except Stop (BitVec 64 × Buffer) := do
  -- A store-conditional skips the read and so returns the zero `ret` starts as.
  let ret ← if params ≠ .lrSc then ramRead ram addr size params else .ok 0
  -- The function updates words and doublewords, and stores any narrower operand as it is.
  let data :=
    if size = 8 then amo ret data params
    else if size = 4 then (amo (ret.setWidth 32) (data.setWidth 32) params).setWidth 64
    else data
  let ram ← ram.write addr size data
  return (ret, ram)

/-! ### ROM -/

/-- The function `rom_read` with the bounds check of `_rom_ptr`. -/
def romRead (rom : Buffer) (addr : BitVec 64) (size : Nat) : Except Stop (BitVec 64) :=
  -- The check panics where the read would leave the file that was loaded.
  if addr.toNat + size > rom.size then .error (.panic "_rom_ptr: 0x%llx out of limit 0x%lx\n")
  else if size = 8 ∨ size = 4 ∨ size = 2 ∨ size = 1 then rom.read addr size
  else .error (.panic "rom_read: bad size %d\n")

/-! ### Flash -/

/-- The constant `FLASH_ADDRESS_SPACE_SIZE`. -/
def flashSpaceSize : Nat := 0x4000000

/-- The function `_flash_ptr`: whether it returns a pointer into the buffer or `NULL`. -/
def flashPtr (flash : Buffer) (addr : BitVec 64) (size : Nat) : Except Stop Bool :=
  -- The space is larger than what is loaded, and an address behind that has no pointer.
  if addr.toNat + size > flashSpaceSize then
    .error (.panic "_flash_ptr: 0x%llx out of limit 0x%llx\n")
  else .ok (addr.toNat + size ≤ flash.size)

/-- The function `flash_read`, under which the unloaded part of the flash reads as zero. -/
def flashRead (flash : Buffer) (addr : BitVec 64) (size : Nat) : Except Stop (BitVec 64) := do
  if !(← flashPtr flash addr size) then return 0
  if !inSamePage addr size then
    throw (.panic "flash_read: out of page boundary 0x%lx (0x%lx)\n")
  -- The reads are casts of the pointer, one for each size.
  if size = 8 ∨ size = 4 ∨ size = 2 ∨ size = 1 then flash.read addr size
  else throw (.panic "flash_read: bad size %d\n")

/-- The function `flash_write`, which looks at no parameter and returns the old value. -/
def flashWrite (flash : Buffer) (addr data : BitVec 64) (size : Nat) (_ : Params) :
    Except Stop (BitVec 64 × Buffer) := do
  if !(← flashPtr flash addr size) || !inSamePage addr size then
    throw (.panic "flash_write: out of page boundary 0x%lx (0x%lx)\n")
  if size = 8 ∨ size = 4 ∨ size = 2 ∨ size = 1 then
    -- The old value is read before it is overwritten, as for an atomic update.
    let ret ← flash.read addr size
    let flash ← flash.write addr size data
    return (ret, flash)
  else throw (.panic "flash_write: bad size %d\n")

end Xemu
