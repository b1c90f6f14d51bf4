import Xemu.Hart.Trap
import Xemu.Machine.BusWrite

/-! The whole machine, and its accesses to memory through address translation. -/

namespace Xemu

/-- The hart and the devices around it. -/
structure Machine where
  hart : Hart
  bus : Bus

namespace Machine

/--
The state in which `main` enters its loop.

The contents of the ROM, the flash and the disk come from the files the emulator was started with.
-/
def reset (rom flash disk : Buffer) : Machine :=
  { hart :=
      { pc := 0x1000, priv := mMode, csr := Function.update (fun _ => 0) misa misaInitVal
        reg := fun _ => 0, freg := fun _ => 0 }
    bus :=
      { rom, flash, ram := .zeroed ramSize, uart := .init 0xa, blk := .init disk 1 } }

/-- A state in which `main` enters its loop, for some files. -/
def IsReset (m : Machine) : Prop := ∃ rom flash disk, m = reset rom flash disk

/-- The macro `PTE_V`. -/
def pteV (pte : BitVec 64) : BitVec 64 := bit pte 0

/-- The macro `PTE_R`. -/
def pteR (pte : BitVec 64) : BitVec 64 := bit pte 1

/-- The macro `PTE_W`. -/
def pteW (pte : BitVec 64) : BitVec 64 := bit pte 2

/-- The macro `PTE_X`. -/
def pteX (pte : BitVec 64) : BitVec 64 := bit pte 3

/--
The function `mmu`: the physical address, unless there is a page fault.

Reading an entry is a bus access like any other and may change the device it reaches.
-/
def mmu (host : Host) (m : Machine) (vaddr : BitVec 64) :
    Except Stop (Option (BitVec 64) × Bus) := do
  let satp := m.hart.csr satp
  -- Machine mode and a zero mode field leave the address as it is.
  if m.hart.priv = mMode ∨ bits satp 63 60 = 0 then return (some vaddr, m.bus)
  let rootPpn := bits satp 43 0
  -- Level two.
  let (pte, bus) ← m.bus.asReadNommu host ((rootPpn <<< 12) ||| (bits vaddr 38 30 <<< 3)) 8 .none
  if pteV pte = 0 ∨ (pteR pte = 0 ∧ pteW pte = 1) then return (none, bus)
  if pteR pte ≠ 0 ∨ pteX pte ≠ 0 then
    return (some ((bits pte 53 28 <<< 30) ||| bits vaddr 29 0), bus)
  -- Level one.
  let (pte, bus) ← bus.asReadNommu host
    ((bits pte 53 10 <<< 12) ||| (bits vaddr 29 21 <<< 3)) 8 .none
  if pteV pte = 0 ∨ (pteR pte = 0 ∧ pteW pte = 1) then return (none, bus)
  if pteR pte ≠ 0 ∨ pteX pte ≠ 0 then
    return (some ((bits pte 53 19 <<< 21) ||| bits vaddr 20 0), bus)
  -- Level zero.
  let (pte, bus) ← bus.asReadNommu host
    ((bits pte 53 10 <<< 12) ||| (bits vaddr 20 12 <<< 3)) 8 .none
  if pteV pte = 0 ∨ (pteR pte = 0 ∧ pteW pte = 1) then return (none, bus)
  if pteR pte ≠ 0 ∨ pteX pte ≠ 0 then
    return (some ((bits pte 53 10 <<< 12) ||| bits vaddr 11 0), bus)
  -- A pointer at the last level is a fault.
  return (none, bus)

/-- The function `as_read`, which returns nothing where the source sets its exception flag. -/
def asRead (host : Host) (m : Machine) (vaddr : BitVec 64) (size : Nat) (params : Params) :
    Except Stop (Option (BitVec 64) × Bus) := do
  match ← mmu host m vaddr with
  | (none, bus) => return (none, bus)
  | (some paddr, bus) =>
    -- One translation serves the whole access, whichever page its last byte lies in.
    let (data, bus) ← bus.asReadNommu host paddr size params
    return (some data, bus)

/-- The function `as_write`, which returns nothing where the source sets its exception flag. -/
def asWrite (host : Host) (m : Machine) (vaddr : BitVec 64) (size : Nat) (data : BitVec 64)
    (params : Params) : Except Stop (Option (BitVec 64) × Bus) := do
  match ← mmu host m vaddr with
  | (none, bus) => return (none, bus)
  | (some paddr, bus) =>
    -- One translation serves the whole access, whichever page its last byte lies in.
    let (ret, bus) ← bus.asWriteNommu host paddr size data params
    return (some ret, bus)

section Accesses

variable {host : Host} {m : Machine} {va data : BitVec 64} {size : Nat} {params : Params}
  {ret : Option (BitVec 64)} {after : Bus}

/-- A read returns nothing where no address was found, and otherwise reads at the one found. -/
theorem asRead_inv (read : m.asRead host va size params = .ok (ret, after)) :
    (ret = none ∧ m.mmu host va = .ok (none, after)) ∨
      ∃ pa walked value, ret = some value ∧ m.mmu host va = .ok (some pa, walked) ∧
        walked.asReadNommu host pa size params = .ok (value, after) := by
  -- The result of the walk decides whether there is an access at all.
  obtain ⟨⟨address, walked⟩, found, rest⟩ := bind_eq_ok.mp read
  cases address with
  | none =>
    cases Except.ok.inj rest
    exact .inl ⟨rfl, found⟩
  | some pa =>
    obtain ⟨⟨value, last⟩, accessed, result⟩ := bind_eq_ok.mp rest
    cases Except.ok.inj result
    exact .inr ⟨pa, walked, value, rfl, found, accessed⟩

/-- So does a write. -/
theorem asWrite_inv (written : m.asWrite host va size data params = .ok (ret, after)) :
    (ret = none ∧ m.mmu host va = .ok (none, after)) ∨
      ∃ pa walked value, ret = some value ∧ m.mmu host va = .ok (some pa, walked) ∧
        walked.asWriteNommu host pa size data params = .ok (value, after) := by
  obtain ⟨⟨address, walked⟩, found, rest⟩ := bind_eq_ok.mp written
  cases address with
  | none =>
    cases Except.ok.inj rest
    exact .inl ⟨rfl, found⟩
  | some pa =>
    obtain ⟨⟨value, last⟩, accessed, result⟩ := bind_eq_ok.mp rest
    cases Except.ok.inj result
    exact .inr ⟨pa, walked, value, rfl, found, accessed⟩

end Accesses

end Machine

end Xemu
