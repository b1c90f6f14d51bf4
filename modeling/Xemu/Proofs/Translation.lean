import Xemu.Lib.PageWalk
import Xemu.Machine.Outcome
import Xemu.Machine.Ram

/-! The unrolled page-table walk is the recursive one, and accesses depend on nothing else. -/

namespace Xemu

open PageWalk

/-! ### Fields of addresses and entries -/

/-- The index bits of a level are a field of the address. -/
theorem vpn_eq_bits (va : BitVec 64) (level : Nat) :
    vpn va level = bits va (20 + 9 * level) (12 + 9 * level) := by
  apply BitVec.eq_of_getLsbD_eq
  intro i below
  -- Both are nine bits wide and start at the same place.
  have width : i ≤ 20 + 9 * level - (12 + 9 * level) ↔ i < 9 := by omega
  rw [getLsbD_bits, vpn, BitVec.getLsbD_and, BitField.getLsbD_mask 9 i 0x1ff rfl,
    BitVec.getLsbD_ushiftRight]
  simp [below, width, Bool.and_comm]

/-- The physical page number is a field of the entry. -/
theorem getLsbD_ppn (pte : BitVec 64) (i : Nat) :
    (ppn pte).getLsbD i = (decide (i < 44) && pte.getLsbD (10 + i)) := by
  rw [ppn, BitVec.getLsbD_and, BitField.getLsbD_mask 44 i 0xfffffffffff rfl, BitVec.getLsbD_ushiftRight]
  -- The mask has forty-four ones.
  by_cases small : i < 44
  · simp [small, show i < 64 by omega]
  · simp [small]

/-- A table's address and an index into it have no bit in common, so joining them adds them. -/
theorem entry_address (number va : BitVec 64) (level : Nat) :
    (number <<< 12) ||| (bits va (20 + 9 * level) (12 + 9 * level) <<< 3) =
      (number <<< 12) + (vpn va level <<< 3) := by
  rw [← vpn_eq_bits, BitVec.add_eq_or_of_and_eq_zero]
  apply BitVec.eq_of_getLsbD_eq
  intro i below
  by_cases low : i < 12
  · -- Below bit twelve the address of the table is zero.
    simp [low]
  · -- The index has nine bits and is moved up by three.
    have beyond : (vpn va level).getLsbD (i - 3) = false := by
      rw [vpn_eq_bits, getLsbD_bits]
      simp [show ¬ i - 3 ≤ 20 + 9 * level - (12 + 9 * level) by omega]
    simp [beyond]

/-- The address a leaf gives is the joined field of the entry and of the virtual address. -/
theorem leaf_address (pte va : BitVec 64) (level : Nat) (top : level ≤ 2) :
    Leaf.address ⟨level, pte⟩ va =
      (bits pte 53 (10 + 9 * level) <<< (12 + 9 * level)) ||| bits va (11 + 9 * level) 0 := by
  apply BitVec.eq_of_getLsbD_eq
  intro i below
  -- The mask has a one below each bit of the offset.
  have mask : ((1#64 <<< (12 + 9 * level)) - 1#64).getLsbD i = decide (i < 12 + 9 * level) := by
    rw [BitField.getLsbD_ones]
    simp [below]
  have offset : i ≤ 11 + 9 * level - 0 ↔ i < 12 + 9 * level := by omega
  simp only [Leaf.address, Leaf.offsetBits, BitVec.getLsbD_or, BitVec.getLsbD_and,
    BitVec.getLsbD_shiftLeft, BitVec.getLsbD_ushiftRight, getLsbD_ppn, getLsbD_bits, mask, offset,
    below, decide_true, Bool.true_and, Nat.zero_add]
  by_cases low : i < 12 + 9 * level
  · -- In the offset the bit is one of the virtual address.
    simp [low]
  · -- Above the offset the bit is one of the page number.
    have place : 10 + (9 * level + (i - (12 + 9 * level))) =
        10 + 9 * level + (i - (12 + 9 * level)) := by omega
    have range : 9 * level + (i - (12 + 9 * level)) < 44 ↔
        i - (12 + 9 * level) ≤ 53 - (10 + 9 * level) := by omega
    simp [low, place, range, show i - (12 + 9 * level) < 64 by omega]

/-- The source's test for an entry that ends the walk in a fault. -/
theorem invalid_iff (pte : BitVec 64) :
    (Machine.pteV pte = 0 ∨ (Machine.pteR pte = 0 ∧ Machine.pteW pte = 1)) ↔ invalid pte := by
  simp only [Machine.pteV, Machine.pteR, Machine.pteW, bit_eq, invalid]
  -- Three bits of the entry decide, and the two tests agree on all of them.
  cases pte.getLsbD 0 <;> cases pte.getLsbD 1 <;> cases pte.getLsbD 2 <;> simp

/-- The source's test for an entry that ends the walk in a translation. -/
theorem isLeaf_iff (pte : BitVec 64) :
    (Machine.pteR pte ≠ 0 ∨ Machine.pteX pte ≠ 0) ↔ isLeaf pte := by
  simp only [Machine.pteR, Machine.pteX, bit_eq, isLeaf]
  -- Two bits decide.
  cases pte.getLsbD 1 <;> cases pte.getLsbD 3 <;> simp

/-! ### The walk -/

namespace Machine

/-- The reads the walk makes, as accesses of the bus. -/
def readPte (host : Host) (bus : Bus) (addr : BitVec 64) : Except Stop (BitVec 64 × Bus) :=
  bus.asReadNommu host addr 8 .none

/-- The address of the table the walk starts in. -/
def rootTable (m : Machine) : BitVec 64 := bits (m.hart.csr satp) 43 0 <<< 12

/-- The recursive three-level walk over the machine's own memory. -/
def walk (host : Host) (m : Machine) (va : BitVec 64) : Except Stop (Option Leaf × Bus) :=
  findLeaf (readPte host) va 3 m.rootTable m.bus

/-- The hart is in a mode and under a register content in which addresses are translated. -/
def Translated (m : Machine) : Prop :=
  m.hart.priv ≠ mMode ∧ bits (m.hart.csr satp) 63 60 ≠ 0

/-- One block of the unrolled walk is one level of the recursive one. -/
theorem level_eq (va : BitVec 64) (level : Nat) (read : Except Stop (BitVec 64 × Bus))
    (found : BitVec 64 → BitVec 64)
    (later : BitVec 64 × Bus → Except Stop (Option (BitVec 64) × Bus))
    (deeper : BitVec 64 × Bus → Except Stop (Option Leaf × Bus))
    (sameLeaf : ∀ pte, found pte = Leaf.address ⟨level, pte⟩ va)
    (sameRest : ∀ entry, later entry =
      deeper entry >>= fun found => pure (found.1.map (·.address va), found.2)) :
    (read >>= fun entry =>
      if pteV entry.1 = 0 ∨ (pteR entry.1 = 0 ∧ pteW entry.1 = 1) then pure (none, entry.2)
      else if pteR entry.1 ≠ 0 ∨ pteX entry.1 ≠ 0 then pure (some (found entry.1), entry.2)
      else later entry) =
    ((read >>= fun entry =>
      if invalid entry.1 then pure (none, entry.2)
      else if isLeaf entry.1 then pure (some ⟨level, entry.1⟩, entry.2)
      else deeper entry) >>=
        fun found => pure (found.1.map (·.address va), found.2)) := by
  cases read with
  | error stop => rfl
  | ok entry =>
    obtain ⟨pte, bus⟩ := entry
    simp only [ok_bind, invalid_iff, isLeaf_iff]
    -- The two functions make the same tests in the same order.
    by_cases bad : invalid pte
    · simp [bad]
    · by_cases leaf : isLeaf pte
      · simp [bad, leaf, sameLeaf]
      · simp [bad, leaf, sameRest]

/-- Where addresses are translated, `mmu` finds the leaf of the recursive walk and applies it. -/
theorem mmu_eq_walk {host : Host} {m : Machine} (translated : m.Translated) (va : BitVec 64) :
    m.mmu host va = (do
      let (leaf, bus) ← m.walk host va
      return (leaf.map (·.address va), bus)) := by
  have bare : ¬ (m.hart.priv = mMode ∨ bits (m.hart.csr satp) 63 60 = 0) :=
    not_or.mpr translated
  -- Each block reads the entry that the recursive function reads at its level.
  have top := entry_address (bits (m.hart.csr satp) 43 0) va 2
  have middle := fun pte : BitVec 64 => entry_address (bits pte 53 10) va 1
  have last := fun pte : BitVec 64 => entry_address (bits pte 53 10) va 0
  -- Both functions take the page number out of the entry, by a field or by a mask.
  have number : ∀ pte : BitVec 64, ppn pte = bits pte 53 10 := by
    intro pte
    apply BitVec.eq_of_getLsbD_eq
    intro i below
    rw [getLsbD_ppn, getLsbD_bits]
    simp [below, show i ≤ 53 - 10 ↔ i < 44 by omega]
  rw [mmu, if_neg bare]
  simp only [walk, findLeaf, rootTable, readPte, number, ← top, ← middle, ← last]
  -- The three blocks are the three levels from the top, and below the last there is nothing.
  refine level_eq va 2 _ _ _ _ (fun pte => (leaf_address pte va 2 (by omega)).symm)
    fun entry => ?_
  refine level_eq va 1 _ _ _ _ (fun pte => (leaf_address pte va 1 (by omega)).symm)
    fun entry => ?_
  exact level_eq va 0 _ _ _ _ (fun pte => (leaf_address pte va 0 (by omega)).symm)
    fun entry => rfl

/-- Where addresses are not translated, `mmu` returns the address it was given. -/
theorem mmu_bare {host : Host} {m : Machine} (bare : ¬ m.Translated) (va : BitVec 64) :
    m.mmu host va = .ok (some va, m.bus) := by
  have condition : m.hart.priv = mMode ∨ bits (m.hart.csr satp) 63 60 = 0 := by
    by_contra neither
    exact bare (not_or.mp neither)
  rw [mmu, if_pos condition]
  rfl

/-- A walk reads entries only, so it leaves the memories and the disk as they were. -/
theorem walk_keeps {host : Host} {m : Machine} {va : BitVec 64} {leaf : Option Leaf} {bus : Bus}
    (walked : m.walk host va = .ok (leaf, bus)) : m.bus.SameMemory bus := by
  -- Every entry is read through the bus, which keeps the memories.
  refine findLeaf_preserves (fun state => m.bus.SameMemory state)
    (fun state addr pte after same read => ?_) ⟨rfl, rfl, rfl, rfl⟩ walked
  exact same.trans (Bus.asReadNommu_keeps read)

/-- Where addresses are translated, what `mmu` finds is what the recursive walk leads to. -/
theorem walk_of_mmu {host : Host} {m : Machine} (translated : m.Translated) {va : BitVec 64}
    {address : Option (BitVec 64)} {bus : Bus} (found : m.mmu host va = .ok (address, bus)) :
    ∃ leaf : Option Leaf, m.walk host va = .ok (leaf, bus) ∧ leaf.map (·.address va) = address := by
  rw [mmu_eq_walk translated] at found
  obtain ⟨⟨leaf, walked⟩, walks, result⟩ := bind_eq_ok.mp found
  cases Except.ok.inj result
  exact ⟨leaf, walks, rfl⟩

/-- A read returns nothing exactly when the walk finds no leaf, and then only the walk was made. -/
theorem asRead_cases {host : Host} {m : Machine} (translated : m.Translated) {va : BitVec 64}
    {size : Nat} {params : Params} {data : Option (BitVec 64)} {bus : Bus}
    (read : m.asRead host va size params = .ok (data, bus)) :
    (data = none ∧ m.walk host va = .ok (none, bus)) ∨
      ∃ value leaf walked, data = some value ∧ m.walk host va = .ok (some leaf, walked) ∧
        walked.asReadNommu host (leaf.address va) size params = .ok (value, bus) := by
  rcases asRead_inv read with ⟨rfl, found⟩ | ⟨pa, walked, value, rfl, found, accessed⟩
  · obtain ⟨leaf, walks, missing⟩ := walk_of_mmu translated found
    cases Option.map_eq_none_iff.mp missing
    exact .inl ⟨rfl, walks⟩
  · -- The address of the access is that of the leaf.
    obtain ⟨leaf, walks, reached⟩ := walk_of_mmu translated found
    obtain ⟨leaf, rfl, rfl⟩ := Option.map_eq_some_iff.mp reached
    exact .inr ⟨value, leaf, walked, rfl, walks, accessed⟩

/-- A write returns nothing exactly when the walk finds no leaf, and then only the walk was made. -/
theorem asWrite_cases {host : Host} {m : Machine} (translated : m.Translated) {va data : BitVec 64}
    {size : Nat} {params : Params} {ret : Option (BitVec 64)} {bus : Bus}
    (written : m.asWrite host va size data params = .ok (ret, bus)) :
    (ret = none ∧ m.walk host va = .ok (none, bus)) ∨
      ∃ value leaf walked, ret = some value ∧ m.walk host va = .ok (some leaf, walked) ∧
        walked.asWriteNommu host (leaf.address va) size data params = .ok (value, bus) := by
  rcases asWrite_inv written with ⟨rfl, found⟩ | ⟨pa, walked, value, rfl, found, accessed⟩
  · obtain ⟨leaf, walks, missing⟩ := walk_of_mmu translated found
    cases Option.map_eq_none_iff.mp missing
    exact .inl ⟨rfl, walks⟩
  · -- As for a read.
    obtain ⟨leaf, walks, reached⟩ := walk_of_mmu translated found
    obtain ⟨leaf, rfl, rfl⟩ := Option.map_eq_some_iff.mp reached
    exact .inr ⟨value, leaf, walked, rfl, walks, accessed⟩

/-- The architecture's own translation over the machine's memory, leaving permission bits aside. -/
def specified (host : Host) (m : Machine) (va : BitVec 64) :
    Except Stop (Option (BitVec 64) × Bus) :=
  PageWalk.translate (readPte host) 3 (fun _ => true) m.rootTable va m.bus

/--
The unrolled walk is the recursive one without the two checks that surround it.

A leaf is applied whether or not it is aligned and the address canonical; where both hold the result is the architecture's.
-/
theorem mmu_refines_walk {host : Host} {m : Machine} {va : BitVec 64} (translated : m.Translated) :
    (m.mmu host va = (do
      let (leaf, bus) ← m.walk host va
      return (leaf.map (·.address va), bus))) ∧
    (canonical 3 va →
      (∀ leaf bus, m.walk host va = .ok (some leaf, bus) → leaf.aligned) →
      m.mmu host va = m.specified host va) := by
  refine ⟨mmu_eq_walk translated va, fun canon aligned => ?_⟩
  rw [mmu_eq_walk translated va, specified, PageWalk.translate, if_pos canon]
  change _ = m.walk host va >>= _
  -- The architecture filters the leaf by its alignment, which changes nothing here.
  cases walked : m.walk host va with
  | error stop => rfl
  | ok found =>
    obtain ⟨leaf, bus⟩ := found
    cases leaf with
    | none => rfl
    | some leaf =>
      have kept := aligned leaf bus walked
      simp [Option.filter, kept]

end Machine

/-- A machine in supervisor mode whose memory holds some words, under a table at 0x80001000. -/
def pagedMachine (words : List (BitVec 64 × BitVec 64)) : Machine :=
  let m := Machine.reset (.zeroed 0) (.zeroed 0x100) (.zeroed 0)
  let bytes := words.foldl (fun mem word => LittleEndian.store mem word.1 8 word.2) fun _ => 0
  { hart := (m.hart.switchTo sMode).setCsr satp 0x8000000000080001
    bus := { m.bus with ram := { m.bus.ram with bytes } } }

/-- The table's third entry maps the gigabyte that RAM starts in onto itself. -/
theorem mmu_refines_identity :
    Machine.mmu {} (pagedMachine [(0x1010, 0x2000000F)]) 0x80001234 =
      (do
        let (leaf, bus) ← (pagedMachine [(0x1010, 0x2000000F)]).walk {} 0x80001234
        return (leaf.map (·.address 0x80001234), bus)) :=
  (Machine.mmu_refines_walk (m := pagedMachine [(0x1010, 0x2000000F)]) ⟨by decide, by decide⟩).1

/-- An address whose upper bits differ translates like the canonical one. -/
theorem mmu_accepts_noncanonical :
    ¬ ∀ (host : Host) (m : Machine) (va : BitVec 64), m.Translated →
      (m.mmu host va).map Prod.fst = (m.specified host va).map Prod.fst := by
  intro always
  -- The table maps the low half, and the address has its top bit set as well.
  have same := always {} (pagedMachine [(0x1000, 0xF)]) 0x8000000000000000
    ⟨by decide, by decide⟩
  have code : (Machine.mmu {} (pagedMachine [(0x1000, 0xF)]) 0x8000000000000000).map Prod.fst =
      .ok (some 0) := by decide +kernel
  have spec : (Machine.specified {} (pagedMachine [(0x1000, 0xF)]) 0x8000000000000000).map
      Prod.fst = .ok none := by decide +kernel
  rw [code, spec] at same
  cases same

end Xemu
