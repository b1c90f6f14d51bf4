import Xemu.Machine.Fetched
import Xemu.Proofs.Counter
import Xemu.Proofs.Translation

/-! Which accesses reach, byte by byte, the physical addresses the translation gives. -/

namespace Xemu

open PageWalk

/-! ### Places in a page -/

/-- The number of bytes from an address to the end of its page. -/
def toPageEnd (va : BitVec 64) : Nat := 4096 - va.toNat % 4096

/-- An address before the end of the page lies in the same page. -/
theorem page_same {va : BitVec 64} {index : Nat} (before : index < toPageEnd va) :
    va >>> 12 = (va + BitVec.ofNat 64 index) >>> 12 := by
  have bound := va.isLt
  unfold toPageEnd at before
  apply BitVec.eq_of_toNat_eq
  simp only [BitField.toNat_ushiftRight, BitVec.toNat_add, BitVec.toNat_ofNat]
  omega

/-- The address at the end of a page begins a page. -/
theorem toPageEnd_next (va : BitVec 64) :
    toPageEnd (va + BitVec.ofNat 64 (toPageEnd va)) = 4096 := by
  have bound := va.isLt
  have below := Nat.mod_lt va.toNat (show 4096 > 0 by decide)
  simp only [toPageEnd, BitVec.toNat_add, BitVec.toNat_ofNat]
  omega

/-- Going on from an address in two legs is going on by their sum. -/
theorem add_ofNat_add (va : BitVec 64) (first second : Nat) :
    va + BitVec.ofNat 64 first + BitVec.ofNat 64 second =
      va + BitVec.ofNat 64 (first + second) := by
  rw [BitVec.add_assoc, BitVec.ofNat_add]

namespace Machine

/-! ### The translation of single bytes -/

/-- The physical address that `mmu` gives for a virtual one. -/
def Maps (host : Host) (m : Machine) (va pa : BitVec 64) : Prop :=
  (m.mmu host va).map Prod.fst = .ok (some pa)

/-- The virtual address has no translation. -/
def Unmapped (host : Host) (m : Machine) (va : BitVec 64) : Prop :=
  (m.mmu host va).map Prod.fst = .ok none

variable {host : Host} {m : Machine} {va pa : BitVec 64} {size : Nat}

/-- An address with a translation has only one. -/
theorem Maps.unique {other : BitVec 64} (first : m.Maps host va pa)
    (second : m.Maps host va other) : pa = other := by
  rw [Maps] at first second
  exact Option.some.inj (Except.ok.inj (first.symm.trans second))

/-- An address with a translation is not one without. -/
theorem Maps.not_unmapped (maps : m.Maps host va pa) : ¬ m.Unmapped host va := by
  intro missing
  rw [Maps] at maps
  rw [Unmapped, maps] at missing
  cases missing

/-- The result of `mmu` behind a translated address. -/
theorem Maps.result (maps : m.Maps host va pa) : ∃ bus, m.mmu host va = .ok (some pa, bus) := by
  obtain ⟨⟨address, bus⟩, found, rfl⟩ := map_eq_ok.mp maps
  exact ⟨bus, found⟩

/-- The result of `mmu` behind an address without a translation. -/
theorem Unmapped.result (missing : m.Unmapped host va) :
    ∃ bus, m.mmu host va = .ok (none, bus) := by
  obtain ⟨⟨address, bus⟩, found, rfl⟩ := map_eq_ok.mp missing
  exact ⟨bus, found⟩

/-- A translation leaves the memories as they were. -/
theorem mmu_keeps {address : Option (BitVec 64)} {bus : Bus}
    (found : m.mmu host va = .ok (address, bus)) : m.bus.SameMemory bus := by
  -- Only a walk reaches the bus, for the accessed and dirty bits of a table in RAM.
  by_cases translated : m.Translated
  · rw [mmu_eq_walk translated] at found
    obtain ⟨⟨leaf, walked⟩, walk, result⟩ := bind_eq_ok.mp found
    cases Except.ok.inj result
    exact walk_keeps walk
  · rw [mmu_bare translated] at found
    cases Except.ok.inj found
    exact ⟨rfl, rfl, rfl, rfl⟩

/-- Within a page the translation moves on with the address. -/
theorem mmu_add {index : Nat} (before : index < toPageEnd va) :
    m.mmu host (va + BitVec.ofNat 64 index) = (m.mmu host va).map fun found =>
      (found.1.map (· + BitVec.ofNat 64 index), found.2) := by
  by_cases translated : m.Translated
  · have page := page_same before
    -- Both addresses end their walks in the same leaf.
    have same : m.walk host (va + BitVec.ofNat 64 index) = m.walk host va :=
      findLeaf_congr (fun level _ => (vpn_congr page level).symm) _ _
    rw [mmu_eq_walk translated, mmu_eq_walk translated, same]
    cases m.walk host va with
    | error stop => rfl
    | ok found =>
      obtain ⟨leaf, bus⟩ := found
      cases leaf with
      | none => rfl
      | some leaf =>
        have moved := leaf.address_add page
        simp [Except.map, moved]
  · rw [mmu_bare translated, mmu_bare translated]
    rfl

/-- Within a page the physical address moves on with the virtual one. -/
theorem Maps.add {index : Nat} (maps : m.Maps host va pa) (before : index < toPageEnd va) :
    m.Maps host (va + BitVec.ofNat 64 index) (pa + BitVec.ofNat 64 index) := by
  obtain ⟨bus, found⟩ := maps.result
  rw [Maps, mmu_add before, found]
  rfl

/-- Within a page no address has a translation when one has none. -/
theorem unmapped_add {index : Nat} (before : index < toPageEnd va) :
    m.Unmapped host (va + BitVec.ofNat 64 index) ↔ m.Unmapped host va := by
  rw [Unmapped, Unmapped, mmu_add before]
  cases m.mmu host va with
  | error stop => exact Iff.rfl
  | ok found =>
    obtain ⟨address, bus⟩ := found
    cases address <;> simp [Except.map]

/-- A translated address keeps its place in the page. -/
theorem Maps.toPageEnd (maps : m.Maps host va pa) : toPageEnd pa = toPageEnd va := by
  obtain ⟨bus, found⟩ := maps.result
  by_cases translated : m.Translated
  · rw [mmu_eq_walk translated] at found
    obtain ⟨⟨leaf, walked⟩, _, result⟩ := bind_eq_ok.mp found
    cases leaf with
    | none => cases Except.ok.inj result
    | some leaf =>
      cases Except.ok.inj result
      -- The leaf replaces the page number only.
      have offset := leaf.address_offset va
      simp only [Xemu.toPageEnd]
      omega
  · rw [mmu_bare translated] at found
    cases Except.ok.inj found
    rfl

/-! ### Accesses byte by byte -/

/-- The functions `as_read` and `as_write`, over what is reached at the physical address found. -/
def access {α : Type} (host : Host) (m : Machine) (va : BitVec 64)
    (reach : Bus → BitVec 64 → Except Stop (α × Bus)) : Except Stop (Option α × Bus) := do
  match ← mmu host m va with
  | (none, bus) => return (none, bus)
  | (some paddr, bus) =>
    let (result, bus) ← reach bus paddr
    return (some result, bus)

/-- The function `as_read` reaches the bus. -/
theorem asRead_eq_access (params : Params) : m.asRead host va size params =
    m.access host va fun bus pa => bus.asReadNommu host pa size params := rfl

/-- So does `as_write`. -/
theorem asWrite_eq_access (data : BitVec 64) (params : Params) :
    m.asWrite host va size data params =
      m.access host va fun bus pa => bus.asWriteNommu host pa size data params := rfl

/-- An access behind an address without a translation finds nothing. -/
theorem Unmapped.reach {α : Type} {reach : Bus → BitVec 64 → Except Stop (α × Bus)}
    (missing : m.Unmapped host va) :
    ∃ bus, m.access host va reach = .ok (none, bus) ∧ m.bus.SameMemory bus := by
  obtain ⟨bus, found⟩ := missing.result
  refine ⟨bus, ?_, mmu_keeps found⟩
  rw [access, found]
  rfl

/-- An access behind a translated address reaches that address, with the memories as they were. -/
theorem Maps.reach (maps : m.Maps host va pa) : ∃ bus, m.bus.SameMemory bus ∧
    ∀ {α : Type} (reach : Bus → BitVec 64 → Except Stop (α × Bus)), m.access host va reach =
      (reach bus pa).map fun result => (some result.1, result.2) := by
  obtain ⟨bus, found⟩ := maps.result
  refine ⟨bus, mmu_keeps found, fun reach => ?_⟩
  rw [access, found]
  cases reached : reach bus pa <;> simp [reached, Except.map]

/-- A read of some bytes of a byte memory that has one at every physical address. -/
def readBytes (memory : BitVec 64 → BitVec 8) (size : Nat) (bus : Bus) (pa : BitVec 64) :
    Except Stop (BitVec 64 × Bus) :=
  .ok (LittleEndian.load 64 memory pa size, bus)

/-- A write of the low bytes of a word to such a memory, which returns the memory after it. -/
def writeBytes (memory : BitVec 64 → BitVec 8) (size : Nat) (word : BitVec 64) (bus : Bus)
    (pa : BitVec 64) : Except Stop ((BitVec 64 → BitVec 8) × Bus) :=
  .ok (LittleEndian.store memory pa size word, bus)

/-- The physical addresses of the bytes of an access, each translated by itself. -/
def MapsBytes (host : Host) (m : Machine) (va : BitVec 64) (size : Nat) (pas : Nat → BitVec 64) :
    Prop :=
  ∀ i < size, m.Maps host (va + BitVec.ofNat 64 i) (pas i)

/--
What an access of some bytes must do: each byte is taken to its own physical address.

The addresses are those of the state before the access. In RAM the bytes are seen through
`as_read` and `as_write`; everywhere, by what the two functions do to a memory that has a byte at
every physical address.
-/
structure Bytewise (host : Host) (m : Machine) (va : BitVec 64) (size : Nat) : Prop where
  /-- When a byte has no translation the access faults, and no memory changes. -/
  faults : (∀ i < size, m.Unmapped host (va + BitVec.ofNat 64 i) ∨
      ∃ pa, m.Maps host (va + BitVec.ofNat 64 i) pa) →
    (∃ i < size, m.Unmapped host (va + BitVec.ofNat 64 i)) →
    (∀ params, ∃ bus, m.asRead host va size params = .ok (none, bus) ∧ m.bus.SameMemory bus) ∧
    (∀ data params, ∃ bus, m.asWrite host va size data params = .ok (none, bus) ∧
      m.bus.SameMemory bus)
  /-- When all have one it does not fault. -/
  completes : ∀ pas, m.MapsBytes host va size pas →
    (∀ params bus, m.asRead host va size params ≠ .ok (none, bus)) ∧
      ∀ data params bus, m.asWrite host va size data params ≠ .ok (none, bus)
  /-- A read from RAM returns the bytes at those addresses. -/
  reads : ∀ pas, m.MapsBytes host va size pas → (∀ i < size, inRam (pas i)) →
    ∀ params data bus, m.asRead host va size params = .ok (some data, bus) → ∀ i < size,
      (data >>> (8 * i)).setWidth 8 = m.bus.ram.bytes (pas i - ramStart)
  /-- A write to RAM leaves the bytes of its word at those addresses, and changes no other byte. -/
  writes : ∀ pas, m.MapsBytes host va size pas → (∀ i < size, inRam (pas i)) →
    ∀ data params ret bus, m.asWrite host va size data params = .ok (some ret, bus) →
      (∀ i < size, bus.ram.bytes (pas i - ramStart) =
        ((Bus.ramWord ret data size params) >>> (8 * i)).setWidth 8) ∧
      (∀ place, (∀ i < size, place ≠ pas i - ramStart) →
        bus.ram.bytes place = m.bus.ram.bytes place) ∧
      (params ≠ .lrSc → ∀ i < size,
        (ret >>> (8 * i)).setWidth 8 = m.bus.ram.bytes (pas i - ramStart))
  /-- A read of any byte memory returns the bytes at those addresses. -/
  readsAny : ∀ pas, m.MapsBytes host va size pas → ∀ memory, ∃ word bus,
    m.access host va (readBytes memory size) = .ok (some word, bus) ∧
      ∀ i < size, (word >>> (8 * i)).setWidth 8 = memory (pas i)
  /-- A write to any byte memory leaves the bytes of its word there, and changes no other byte. -/
  writesAny : ∀ pas, m.MapsBytes host va size pas → ∀ memory word, ∃ after bus,
    m.access host va (writeBytes memory size word) = .ok (some after, bus) ∧
      (∀ i < size, after (pas i) = (word >>> (8 * i)).setWidth 8) ∧
      ∀ place, (∀ i < size, place ≠ pas i) → after place = memory place

/--
The second page of an access that crosses into one continues the frame of the first.

It is asked for only when the access crosses and its first page is mapped.
-/
def Adjoins (host : Host) (m : Machine) (va : BitVec 64) (size : Nat) : Prop :=
  toPageEnd va < size → ∀ pa, m.Maps host va pa →
    ¬ m.Unmapped host (va + BitVec.ofNat 64 (toPageEnd va)) ∧
      ∀ next, m.Maps host (va + BitVec.ofNat 64 (toPageEnd va)) next →
        next = pa + BitVec.ofNat 64 (toPageEnd va)

/-- The first byte of an access lies at its own address. -/
theorem MapsBytes.first {pas : Nat → BitVec 64} (mapped : m.MapsBytes host va size pas)
    (some : 0 < size) : m.Maps host va (pas 0) := by
  have start := mapped 0 some
  rwa [show va + BitVec.ofNat 64 0 = va by simp] at start

namespace Bytewise

/-- Where the second page adjoins the first, the bytes' addresses follow each other. -/
theorem consecutive (valid : Bus.validSize size) (adjoins : m.Adjoins host va size)
    {pas : Nat → BitVec 64} (mapped : m.MapsBytes host va size pas) :
    ∀ i < size, pas i = pas 0 + BitVec.ofNat 64 i := by
  intro i below
  have small := (Bus.validSize_bounds valid).2
  have first := mapped.first (by omega)
  rcases Nat.lt_or_ge i (Xemu.toPageEnd va) with before | past
  · exact (mapped i below).unique (first.add before)
  · -- The bytes past the boundary follow the first one there, which follows the first page.
    have crossing := (adjoins (by omega) (pas 0) first).2 _ (mapped _ (by omega))
    have inside : i - Xemu.toPageEnd va <
        Xemu.toPageEnd (va + BitVec.ofNat 64 (Xemu.toPageEnd va)) := by
      rw [toPageEnd_next]
      omega
    have along := (mapped (Xemu.toPageEnd va) (by omega)).add inside
    have whole : Xemu.toPageEnd va + (i - Xemu.toPageEnd va) = i := by omega
    rw [add_ofNat_add, whole, crossing, add_ofNat_add, whole] at along
    exact (mapped i below).unique along

/-- Where the second page adjoins the first, a byte without a translation leaves the first without. -/
theorem first_unmapped (valid : Bus.validSize size) (adjoins : m.Adjoins host va size)
    (decided : m.Unmapped host va ∨ ∃ pa, m.Maps host va pa)
    (missing : ∃ i < size, m.Unmapped host (va + BitVec.ofNat 64 i)) : m.Unmapped host va := by
  obtain ⟨i, below, unmapped⟩ := missing
  have small := (Bus.validSize_bounds valid).2
  rcases Nat.lt_or_ge i (Xemu.toPageEnd va) with before | past
  · exact (unmapped_add before).mp unmapped
  · rcases decided with first | ⟨pa, first⟩
    · exact first
    · -- The byte lies in the second page, which then has no translation at its beginning.
      have whole : Xemu.toPageEnd va + (i - Xemu.toPageEnd va) = i := by omega
      rw [← whole, ← add_ofNat_add, unmapped_add (by rw [toPageEnd_next]; omega)] at unmapped
      exact absurd unmapped (adjoins (by omega) pa first).1

end Bytewise

/-- An access behind a mapped first byte is one of the bus at that byte's address. -/
theorem Maps.access (maps : m.Maps host va pa) (size : Nat) : ∃ bus, m.bus.SameMemory bus ∧
    (∀ params, m.asRead host va size params =
      (bus.asReadNommu host pa size params).map fun read => (some read.1, read.2)) ∧
    (∀ data params, m.asWrite host va size data params =
      (bus.asWriteNommu host pa size data params).map fun written =>
        (some written.1, written.2)) := by
  obtain ⟨bus, same, reaches⟩ := maps.reach
  exact ⟨bus, same, fun params => (asRead_eq_access params).trans (reaches _),
    fun data params => (asWrite_eq_access data params).trans (reaches _)⟩

/-- A byte some way into an access of RAM is the byte of RAM that far into it. -/
theorem ram_offset (pa : BitVec 64) (i : Nat) :
    pa - ramStart + BitVec.ofNat 64 i = pa + BitVec.ofNat 64 i - ramStart := by
  rw [BitVec.sub_eq_add_neg, BitVec.sub_eq_add_neg, BitVec.add_assoc, BitVec.add_assoc,
    BitVec.add_comm (-ramStart)]

/-- Where the second page adjoins the first, an access takes each byte to its own address. -/
theorem Adjoins.bytewise (valid : Bus.validSize size) (adjoins : m.Adjoins host va size) :
    m.Bytewise host va size := by
  have bounds := Bus.validSize_bounds valid
  refine ⟨fun decided missing => ?_, fun pas mapped => ?_, ?_, ?_, fun pas mapped memory => ?_,
    fun pas mapped memory word => ?_⟩
  · have start : va + BitVec.ofNat 64 0 = va := by simp
    have unmapped := Bytewise.first_unmapped valid adjoins (start ▸ decided 0 bounds.1) missing
    exact ⟨fun params => asRead_eq_access params ▸ unmapped.reach,
      fun data params => asWrite_eq_access data params ▸ unmapped.reach⟩
  · obtain ⟨start, _, reads, writes⟩ := (mapped.first bounds.1).access size
    refine ⟨fun params bus faulted => ?_, fun data params bus faulted => ?_⟩
    · obtain ⟨_, _, impossible⟩ := map_eq_ok.mp ((reads params).symm.trans faulted)
      cases impossible
    · obtain ⟨_, _, impossible⟩ := map_eq_ok.mp ((writes data params).symm.trans faulted)
      cases impossible
  · intro pas mapped inside params data after read i below
    obtain ⟨bus, same, reads, _⟩ := (mapped.first bounds.1).access size
    obtain ⟨⟨word, last⟩, accessed, result⟩ := map_eq_ok.mp ((reads params).symm.trans read)
    cases result
    have buffer := (Bus.asReadNommu_ram_ok (inside 0 bounds.1) accessed).2.2
    rw [Bus.bufferRead_byte valid buffer below, same.ram, ram_offset,
      ← Bytewise.consecutive valid adjoins mapped i below]
  · intro pas mapped inside data params ret after written
    obtain ⟨bus, same, _, writes⟩ := (mapped.first bounds.1).access size
    have place : ∀ i < size,
        pas i - ramStart = pas 0 - ramStart + BitVec.ofNat 64 i := fun i below => by
      rw [ram_offset, ← Bytewise.consecutive valid adjoins mapped i below]
    obtain ⟨⟨word, last⟩, accessed, result⟩ :=
      map_eq_ok.mp ((writes data params).symm.trans written)
    cases result
    obtain ⟨_, rfl, returned⟩ := Bus.asWriteNommu_ram_ok (inside 0 bounds.1) accessed
    refine ⟨fun i below => ?_, fun at_ outside => ?_, fun unconditional i below => ?_⟩
    · rw [place i below]
      exact LittleEndian.store_inside below (by omega)
    · rw [← same.ram]
      apply LittleEndian.store_outside
      by_contra covered
      -- An address in the written range is the place of one of the bytes.
      apply outside (at_ - (pas 0 - ramStart)).toNat (by omega)
      rw [place _ (by omega), BitVec.ofNat_toNat, BitVec.setWidth_eq, BitVec.add_comm,
        BitVec.sub_add_cancel]
    · rw [if_neg unconditional] at returned
      rw [Bus.bufferRead_byte valid returned below, place i below, same.ram]
  · obtain ⟨bus, _, reaches⟩ := (mapped.first bounds.1).reach
    refine ⟨_, bus, reaches _, fun i below => ?_⟩
    rw [LittleEndian.load_byte below (by omega), ← Bytewise.consecutive valid adjoins mapped i below]
  · obtain ⟨bus, _, reaches⟩ := (mapped.first bounds.1).reach
    have place := Bytewise.consecutive valid adjoins mapped
    refine ⟨_, bus, reaches _, fun i below => ?_, fun at_ outside => ?_⟩
    · rw [place i below]
      exact LittleEndian.store_inside below (by omega)
    · apply LittleEndian.store_outside
      by_contra covered
      apply outside (at_ - pas 0).toNat (by omega)
      rw [place _ (by omega), BitVec.ofNat_toNat, BitVec.setWidth_eq, BitVec.add_comm,
        BitVec.sub_add_cancel]

/-- An access that takes each byte to its own address finds the second page adjoining the first. -/
theorem Bytewise.adjoins (valid : Bus.validSize size) (bytewise : m.Bytewise host va size) :
    m.Adjoins host va size := by
  intro crosses pa maps
  have bounds := Bus.validSize_bounds valid
  have page : 0 < Xemu.toPageEnd va := by
    have below := Nat.mod_lt va.toNat (show 4096 > 0 by decide)
    unfold Xemu.toPageEnd
    omega
  -- A byte before the boundary goes with the first page and any other with the second.
  have spread : ∀ i < size, ¬ i < Xemu.toPageEnd va → va + BitVec.ofNat 64 i =
      va + BitVec.ofNat 64 (Xemu.toPageEnd va) + BitVec.ofNat 64 (i - Xemu.toPageEnd va) := by
    intro i below past
    rw [add_ofNat_add, show Xemu.toPageEnd va + (i - Xemu.toPageEnd va) = i by omega]
  constructor
  · intro missing
    obtain ⟨faults, _⟩ := bytewise.faults (fun i below => by
      by_cases before : i < Xemu.toPageEnd va
      · exact .inr ⟨_, maps.add before⟩
      · rw [spread i below before, unmapped_add (by rw [toPageEnd_next]; omega)]
        exact .inl missing) ⟨_, crosses, missing⟩
    -- The access would fault, but it begins at a mapped address.
    obtain ⟨bus, read, _⟩ := faults .none
    obtain ⟨start, _, reads, _⟩ := maps.access size
    obtain ⟨_, _, impossible⟩ := map_eq_ok.mp ((reads .none).symm.trans read)
    cases impossible
  · intro next mapsNext
    have mapped : m.MapsBytes host va size fun i => if i < Xemu.toPageEnd va
        then pa + BitVec.ofNat 64 i else next + BitVec.ofNat 64 (i - Xemu.toPageEnd va) := by
      intro i below
      by_cases before : i < Xemu.toPageEnd va
      · simp only [if_pos before]
        exact maps.add before
      · simp only [if_neg before]
        rw [spread i below before]
        exact mapsNext.add (by rw [toPageEnd_next]; omega)
    -- A memory with one byte set shows whether the first byte of the second page is read there.
    obtain ⟨word, bus, read, bytes⟩ :=
      bytewise.readsAny _ mapped fun place => if place = next then 1 else 0
    obtain ⟨start, _, reaches⟩ := maps.reach
    cases (reaches _).symm.trans read
    have byte := bytes _ crosses
    rw [LittleEndian.load_byte crosses (by omega)] at byte
    by_contra apart
    simp [Ne.symm apart] at byte

/-! ### Fetches byte by byte -/

/-- A read faults when its first byte has no translation, and otherwise goes through it. -/
theorem asRead_first {params : Params} {data : Option (BitVec 64)} {after : Bus}
    (read : m.asRead host va size params = .ok (data, after)) :
    (data = none ∧ m.Unmapped host va ∧ m.bus.SameMemory after) ∨
      ∃ word pa, data = some word ∧ m.Maps host va pa ∧ m.bus.SameMemory after := by
  -- The address is translated once, at the first byte.
  rcases asRead_inv read with ⟨rfl, found⟩ | ⟨pa, walked, word, rfl, found, accessed⟩
  · exact .inl ⟨rfl, by rw [Unmapped, found]; rfl, mmu_keeps found⟩
  · refine .inr ⟨word, pa, rfl, by rw [Maps, found]; rfl, ?_⟩
    exact (mmu_keeps found).trans (Bus.asReadNommu_keeps accessed)

/-- The test that `fetch` makes looks at the place of the second half in its page. -/
theorem halves_iff (pc : BitVec 64) : (pc + 2) &&& 0xFFF = 0 ↔ (pc.toNat + 2) % 4096 = 0 := by
  have value : ((pc + 2) &&& 0xFFF).toNat = (pc.toNat + 2) % 4096 := by
    rw [BitVec.toNat_and, BitVec.toNat_add]
    change ((pc.toNat + 2) % 2 ^ 64) &&& (2 ^ 12 - 1) = _
    rw [Nat.and_two_pow_sub_one_eq_mod]
    omega
  rw [← value]
  exact ⟨fun zero => by rw [zero]; rfl, fun zero => BitVec.eq_of_toNat_eq zero⟩

namespace FetchBytes

end FetchBytes

end Machine

end Xemu
