import Xemu.Proofs.ByteMemory
import Xemu.Proofs.FetchFaults

/-! Two addresses of one page are translated alike, and so a fetch within a page may read both halves at once. -/

namespace Xemu

open PageWalk

/-! ### Pages and places in them -/

/-- The first address of the page an address lies in. -/
def pageBase (va : BitVec 64) : BitVec 64 := va >>> 12 <<< 12

/-- An address is as far into its page as the rest of a division says. -/
theorem pageBase_add (va : BitVec 64) :
    pageBase va + BitVec.ofNat 64 (va.toNat % 4096) = va := by
  -- The address is a multiple of the page size and a rest.
  have bound := va.isLt
  apply BitVec.eq_of_toNat_eq
  rw [pageBase, BitVec.toNat_add, BitVec.toNat_shiftLeft, BitField.toNat_ushiftRight,
    BitVec.toNat_ofNat, Nat.shiftLeft_eq]
  omega

/-- From its first address on a page has 4096 bytes. -/
theorem toPageEnd_pageBase (va : BitVec 64) : toPageEnd (pageBase va) = 4096 := by
  rw [toPageEnd, pageBase, BitVec.toNat_shiftLeft, BitField.toNat_ushiftRight, Nat.shiftLeft_eq]
  omega

namespace Machine

section Translate

variable {host : Host} {m : Machine} {va : BitVec 64}

/-- The translation of an address is that of the first one in its page, as far into the frame. -/
theorem mmu_pageBase (host : Host) (m : Machine) (va : BitVec 64) :
    m.mmu host va = (m.mmu host (pageBase va)).map fun found =>
      (found.1.map (· + BitVec.ofNat 64 (va.toNat % 4096)), found.2) := by
  -- The address lies before the end of the page that its base begins.
  have before : va.toNat % 4096 < Xemu.toPageEnd (pageBase va) := by
    rw [toPageEnd_pageBase]
    exact Nat.mod_lt _ (by decide)
  have moved : m.mmu host (pageBase va + BitVec.ofNat 64 (va.toNat % 4096)) = _ := mmu_add before
  rwa [pageBase_add] at moved

/-- With its tables in RAM a translation ends, and changes nothing. -/
theorem mmu_total (whole : m.bus.ram.size = ramSize) (tables : m.TablesInRam host va) :
    ∃ found, m.mmu host va = .ok (found, m.bus) := by
  by_cases translated : m.Translated
  · -- An aligned entry in RAM is a doubleword of the array.
    have total : ∀ addr, inRam addr → addr.toNat % 8 = 0 →
        ∃ pte, readPte host m.bus addr = .ok (pte, m.bus) := by
      intro addr inside aligned
      have first := BitVec.le_def.mp inside.1
      have last := BitVec.le_def.mp inside.2
      change 0x80000000 ≤ addr.toNat at first
      change addr.toNat ≤ 0xFFFFFFFF at last
      have placed : InMemory addr 8 := ⟨first, by omega⟩
      exact ⟨_, Bus.asReadNommu_memory whole rfl placed .none⟩
    obtain ⟨leaf, walked⟩ := findLeaf_total total (table_aligned _) (tables translated)
    have walk : m.walk host va = .ok (leaf, m.bus) := walked
    exact ⟨_, by rw [mmu_eq_walk translated, walk]; rfl⟩
  · exact ⟨_, mmu_bare translated va⟩

/-- What two addresses of one page have in common: a frame, or the lack of one. -/
def SameFrame (host : Host) (m : Machine) (va other : BitVec 64) : Prop :=
  (m.Unmapped host va ∧ m.Unmapped host other) ∨
    ∃ pa place, m.Maps host va pa ∧ m.Maps host other place ∧ place - pa = other - va ∧
      pa >>> 12 = place >>> 12

/-- Addresses of one page are mapped into one frame, or none of them is. -/
theorem sameFrame_of_page (whole : m.bus.ram.size = ramSize) (tables : m.TablesInRam host va)
    {other : BitVec 64} (page : va >>> 12 = other >>> 12) : m.SameFrame host va other := by
  obtain ⟨found, walked⟩ := mmu_total whole tables
  have first := mmu_pageBase host m va
  have second := mmu_pageBase host m other
  rw [show pageBase other = pageBase va by rw [pageBase, pageBase, page]] at second
  -- One translation stands behind both, that of the first address in the page.
  rw [walked] at first
  obtain ⟨⟨start, bus⟩, base, -⟩ := map_eq_ok.mp first.symm
  rw [base] at first second
  cases start with
  | none => exact .inl ⟨by rw [Unmapped, walked, first]; rfl, by rw [Unmapped, second]; rfl⟩
  | some frame =>
    have maps : m.Maps host (pageBase va) frame := by
      rw [Maps, base]
      rfl
    have room : Xemu.toPageEnd frame = 4096 := maps.toPageEnd.trans (toPageEnd_pageBase va)
    refine .inr ⟨_, _, by rw [Maps, walked, first]; rfl, by rw [Maps, second]; rfl, ?_, ?_⟩
    · -- Both differences are those of the places in the page.
      have base : pageBase other = pageBase va := by rw [pageBase, pageBase, page]
      have behind := pageBase_add other
      rw [base] at behind
      calc _ = BitVec.ofNat 64 (other.toNat % 4096) - BitVec.ofNat 64 (va.toNat % 4096) :=
            add_sub_add_left_eq_sub _ _ frame
        _ = (pageBase va + BitVec.ofNat 64 (other.toNat % 4096)) -
              (pageBase va + BitVec.ofNat 64 (va.toNat % 4096)) :=
            (add_sub_add_left_eq_sub _ _ (pageBase va)).symm
        _ = other - va := by rw [behind, pageBase_add]
    · rw [← page_same (by rw [room]; exact Nat.mod_lt _ (by decide)),
        ← page_same (by rw [room]; exact Nat.mod_lt _ (by decide))]

end Translate

/-! ### The two paths of a fetch -/

/-- The reads of the second path of `fetch`, which takes the two halves one by one. -/
def fetchedSplit (host : Host) (m : Machine) : Except Stop (Fetched × Bus) := do
  let pc := m.hart.pc
  let (lo, bus) ← m.asRead host pc 2 .none
  match lo with
  | none => return (.fault pc, bus)
  | some lo =>
    let (hi, bus) ← { m with bus }.asRead host (pc + 2) 2 .none
    match hi with
    | none => return (.fault (pc + 2), bus)
    | some hi => return (.word ((hi.setWidth 32 <<< 16) ||| lo.setWidth 32), bus)

section Fetch

variable {host : Host} {m : Machine} {pa : BitVec 64}

/-- Across the end of a page the second path is the one taken. -/
theorem fetched_eq_split_of_ends (ends : EndsPage m.hart.pc) :
    m.fetched host = m.fetchedSplit host := by
  dsimp only [fetched]
  rw [if_neg (show ¬ (m.hart.pc + 2) &&& 0xFFF ≠ 0 from not_not.mpr ends)]
  rfl

/-- A first half without a translation faults on the second path as it does on the first. -/
theorem fetchedSplit_unmapped {walked : Bus} (missing : m.mmu host m.hart.pc = .ok (none, walked)) :
    m.fetchedSplit host = .ok (.fault m.hart.pc, walked) := by
  have read : m.asRead host m.hart.pc 2 .none = .ok (none, walked) := by
    rw [asRead, missing]
    rfl
  rw [fetchedSplit, read]
  rfl

/-- Two halfwords of RAM that are mapped one behind the other are read as one word. -/
theorem fetchedSplit_memory (whole : m.bus.ram.size = ramSize)
    (first : m.mmu host m.hart.pc = .ok (some pa, m.bus))
    (second : m.mmu host (m.hart.pc + 2) = .ok (some (pa + 2), m.bus)) (placed : InMemory pa 4) :
    m.fetchedSplit host = .ok (.word (LittleEndian.load 32 m.bus.memory pa 4), m.bus) := by
  have halves : InMemory pa (2 + 2) := placed
  have low := asRead_memory first whole rfl halves.front .none
  have high := asRead_memory second whole rfl halves.back .none
  simp only [fetchedSplit, low, high, ok_bind, pure_eq_ok]
  -- The four bytes are the two halves put together.
  have joined : LittleEndian.load 32 m.bus.memory pa (2 + 2) = _ := LittleEndian.load_join 2 2
  have half (addr : BitVec 64) : LittleEndian.load 64 m.bus.memory addr 2 =
      (LittleEndian.load 16 m.bus.memory addr 2).setWidth 64 :=
    LittleEndian.load_widen (by decide)
  rw [half pa, half (pa + 2), halves_joined]
  refine congrArg (fun word => Except.ok (Fetched.word word, m.bus)) ?_
  rw [joined]
  simp

/-- The one read of the first path is that of the same four bytes. -/
theorem fetched_memory (inside : ¬ EndsPage m.hart.pc) (whole : m.bus.ram.size = ramSize)
    (found : m.mmu host m.hart.pc = .ok (some pa, m.bus)) (placed : InMemory pa 4) :
    m.fetched host = .ok (.word (LittleEndian.load 32 m.bus.memory pa 4), m.bus) := by
  rw [fetched_within inside found, Bus.asReadNommu_memory whole rfl placed]
  -- The instruction is the low half of the word read.
  have narrow : LittleEndian.load 32 m.bus.memory pa 4 =
      (LittleEndian.load 64 m.bus.memory pa 4).setWidth 32 :=
    LittleEndian.load_widen (by decide)
  rw [narrow]
  rfl

/-- Within a page of RAM the one read of the first path finds what the two of the second find. -/
theorem fetched_eq_split (whole : m.bus.ram.size = ramSize) (even : EvenAddr m.hart.pc)
    (inside : ¬ EndsPage m.hart.pc) (tables : m.TablesInRam host m.hart.pc)
    (ram : ∀ pa, m.Maps host m.hart.pc pa → inRam pa) :
    ∃ result, m.fetched host = .ok (result, m.bus) ∧ m.fetchedSplit host = .ok (result, m.bus) := by
  have parity := evenAddr_iff.mp even
  have page : m.hart.pc.toNat % 4096 + 4 ≤ 4096 := by
    rw [EndsPage, halves_iff] at inside
    omega
  obtain ⟨_ | pa, walked⟩ := mmu_total whole tables
  · -- Both paths begin with the same translation, and fault for the same address.
    exact ⟨.fault m.hart.pc, fetched_unmapped walked, fetchedSplit_unmapped walked⟩
  · have maps : m.Maps host m.hart.pc pa := by
      rw [Maps, walked]
      rfl
    have place := maps.place
    have start := BitVec.le_def.mp (ram pa maps).1
    have last := BitVec.le_def.mp (ram pa maps).2
    change 0x80000000 ≤ pa.toNat at start
    change pa.toNat ≤ 0xFFFFFFFF at last
    have placed : InMemory pa 4 := ⟨start, by omega⟩
    -- The second half is mapped behind the first, by a walk of its own through the same tables.
    have next : m.mmu host (m.hart.pc + 2) = .ok (some (pa + 2), m.bus) := by
      have moved : m.mmu host (m.hart.pc + BitVec.ofNat 64 2) = _ :=
        mmu_add (by unfold Xemu.toPageEnd; omega)
      rw [walked] at moved
      exact moved
    exact ⟨_, fetched_memory inside whole walked placed,
      fetchedSplit_memory whole walked next placed⟩

end Fetch

end Machine

/--
Addresses of one page share a frame or have none, in every mode and at every level of the leaf.

So the read of four bytes that a fetch within a page of RAM makes is as good as the two reads of two
that it makes across the end of a page.
-/
theorem same_page_same_frame (host : Host) (m : Machine) (whole : m.bus.ram.size = ramSize) :
    (∀ va other : BitVec 64, m.TablesInRam host va → va >>> 12 = other >>> 12 →
      m.SameFrame host va other) ∧
    (EndsPage m.hart.pc → m.fetched host = m.fetchedSplit host) ∧
    (EvenAddr m.hart.pc → ¬ EndsPage m.hart.pc → m.TablesInRam host m.hart.pc →
      (∀ pa, m.Maps host m.hart.pc pa → inRam pa) →
      m.fetched host = m.fetchedSplit host ∧
        m.fetch host = (m.fetchedSplit host).map m.endFetch ∧
        ∃ result, m.fetchedSplit host = .ok (result, m.bus)) := by
  refine ⟨fun va other tables page => Machine.sameFrame_of_page whole tables page,
    Machine.fetched_eq_split_of_ends, fun even inside tables ram => ?_⟩
  -- Both paths end in the same way, so either may stand for the fetch.
  obtain ⟨result, one, two⟩ := Machine.fetched_eq_split whole even inside tables ram
  have same : m.fetched host = m.fetchedSplit host := one.trans two.symm
  exact ⟨same, same ▸ m.fetch_eq host, result, two⟩

/-- A supervisor within a page of RAM, in a gigabyte that one entry maps onto itself. -/
def pageMiddleMachine : Machine :=
  (pagedMachine [(0x1010, 0x2000000F), (0x3000, 0x0000000000100093)]).setPc 0x80003000

/-- Its program counter is mapped onto itself. -/
theorem pageMiddleMachine_maps : pageMiddleMachine.Maps {} 0x80003000 0x80003000 := by
  unfold Machine.Maps
  decide +kernel

/-- The first and the last byte of the page lie in one frame, and the instruction may be read at once. -/
theorem same_page_same_frame_middle :
    pageMiddleMachine.SameFrame {} 0x80003000 0x80003FFF ∧
      pageMiddleMachine.fetched {} = pageMiddleMachine.fetchedSplit {} := by
  -- The walk ends at the entry of the gigabyte, in the root table.
  have tables : pageMiddleMachine.TablesInRam {} 0x80003000 :=
    tablesInRam_of_root (by decide) (by decide +kernel)
  have both := same_page_same_frame {} pageMiddleMachine rfl
  refine ⟨both.1 _ _ tables rfl, (both.2.2 (evenAddr_iff.mpr rfl) (by decide) tables ?_).1⟩
  intro pa maps
  rw [maps.unique pageMiddleMachine_maps]
  decide

end Xemu
