import Mathlib.Data.Option.Basic
import Xemu.Lib.BitField
import Xemu.Lib.Coupled

/-! The recursive walk of a radix page table with nine-bit indices and eight-byte entries. -/

namespace PageWalk

variable {State Stop : Type*}

/-- The nine index bits of an address at one level of the table. -/
def vpn (va : BitVec 64) (level : Nat) : BitVec 64 :=
  (va >>> (12 + 9 * level)) &&& 0x1ff

/-- The physical page number an entry holds. -/
def ppn (pte : BitVec 64) : BitVec 64 :=
  (pte >>> 10) &&& 0xfffffffffff

/-- An entry is unusable when it is not valid or is writable without being readable. -/
def invalid (pte : BitVec 64) : Bool :=
  !pte.getLsbD 0 || (!pte.getLsbD 1 && pte.getLsbD 2)

/-- A usable entry that may be read or executed ends the walk. -/
def isLeaf (pte : BitVec 64) : Bool :=
  pte.getLsbD 1 || pte.getLsbD 3

/-- An entry that ends a walk, with the level it was found at. -/
structure Leaf where
  level : Nat
  pte : BitVec 64
  deriving DecidableEq, Repr

/--
The leaf a walk ends in, if it finds one, reading entries through a memory that may stop or change.

The first argument after the address counts the levels left, so a pointer at the last one finds nothing.
-/
def findLeaf (read : State → BitVec 64 → Except Stop (BitVec 64 × State)) (va : BitVec 64) :
    Nat → BitVec 64 → State → Except Stop (Option Leaf × State)
  | 0, _, state => .ok (none, state)
  | level + 1, table, state => do
    let (pte, state) ← read state (table + (vpn va level <<< 3))
    if invalid pte then return (none, state)
    if isLeaf pte then return (some ⟨level, pte⟩, state)
    findLeaf read va level (ppn pte <<< 12) state

/-- The number of low address bits that a leaf leaves untranslated. -/
def Leaf.offsetBits (leaf : Leaf) : Nat := 12 + 9 * leaf.level

/-- A leaf above the last level must name a page aligned to the range it maps. -/
def Leaf.aligned (leaf : Leaf) : Bool :=
  ppn leaf.pte &&& ((1#64 <<< (9 * leaf.level)) - 1#64) == 0

/-- The physical address a leaf gives: its high page number over the untranslated address bits. -/
def Leaf.address (leaf : Leaf) (va : BitVec 64) : BitVec 64 :=
  ((ppn leaf.pte >>> (9 * leaf.level)) <<< leaf.offsetBits) |||
    (va &&& ((1#64 <<< leaf.offsetBits) - 1#64))

/-- An address is canonical when all bits above the translated ones repeat the highest of them. -/
def canonical (levels : Nat) (va : BitVec 64) : Bool :=
  (va.setWidth (12 + 9 * levels)).signExtend 64 == va

/--
The architecture's translation of an address under a root table.

A leaf counts only if it is aligned and passes the caller's own check of its permission bits.
-/
def translate (read : State → BitVec 64 → Except Stop (BitVec 64 × State)) (levels : Nat)
    (permitted : Leaf → Bool) (root va : BitVec 64) (state : State) :
    Except Stop (Option (BitVec 64) × State) :=
  -- A non-canonical address faults before any entry is read.
  if canonical levels va then do
    let (leaf, state) ← findLeaf read va levels root state
    return ((leaf.filter fun leaf => leaf.aligned && permitted leaf).map (·.address va), state)
  else .ok (none, state)

variable {read : State → BitVec 64 → Except Stop (BitVec 64 × State)}

/-- Addresses with the same index bits at every level end their walks in the same leaf. -/
theorem findLeaf_congr {va other : BitVec 64} {levels : Nat}
    (same : ∀ level < levels, vpn va level = vpn other level) (table : BitVec 64) (state : State) :
    findLeaf read va levels table state = findLeaf read other levels table state := by
  induction levels generalizing table state with
  | zero => rfl
  | succ level ih =>
    -- The entry read here is the same, and the remaining levels agree by induction.
    have below := fun table state => ih (fun l lower => same l (by omega)) table state
    simp only [findLeaf, same level (by omega), below]

/-- What every read of an entry preserves, a walk preserves. -/
theorem findLeaf_preserves (inv : State → Prop)
    (preserved : ∀ state addr pte after, inv state → read state addr = .ok (pte, after) → inv after)
    {va : BitVec 64} {levels : Nat} {table : BitVec 64} {state after : State} {leaf : Option Leaf}
    (start : inv state) (found : findLeaf read va levels table state = .ok (leaf, after)) :
    inv after := by
  induction levels generalizing table state with
  | zero =>
    cases Except.ok.inj found
    exact start
  | succ level ih =>
    -- A walk that stops at its entry has no result to speak of.
    rw [findLeaf] at found
    cases entry : read state (table + (vpn va level <<< 3)) with
    | error stop =>
      rw [entry] at found
      cases found
    | ok result =>
      obtain ⟨pte, next⟩ := result
      have kept := preserved _ _ _ _ start entry
      rw [entry] at found
      change (if invalid pte then Except.ok (none, next)
        else if isLeaf pte then Except.ok (some ⟨level, pte⟩, next)
        else findLeaf read va level (ppn pte <<< 12) next) = Except.ok (leaf, after) at found
      -- Either the walk ends with this entry, or it goes on in the next table.
      split at found
      · cases Except.ok.inj found
        exact kept
      · split at found
        · cases Except.ok.inj found
          exact kept
        · exact ih kept found

/-- Every entry that a walk reads lies at an address with some property. -/
def ReadsWithin (read : State → BitVec 64 → Except Stop (BitVec 64 × State))
    (inside : BitVec 64 → Prop) (va : BitVec 64) : Nat → BitVec 64 → State → Prop
  | 0, _, _ => True
  | level + 1, table, state =>
    inside (table + (vpn va level <<< 3)) ∧
      -- Only behind a pointer is there another entry to ask about.
      ∀ pte after, read state (table + (vpn va level <<< 3)) = .ok (pte, after) →
        invalid pte = false → isLeaf pte = false →
        ReadsWithin read inside va level (ppn pte <<< 12) after

/-- A walk whose entries all lie where reading changes nothing changes nothing. -/
theorem findLeaf_quiet {inside : BitVec 64 → Prop}
    (quiet : ∀ state addr pte after, inside addr → read state addr = .ok (pte, after) →
      after = state)
    {va : BitVec 64} {levels : Nat} {table : BitVec 64} {state after : State} {leaf : Option Leaf}
    (within : ReadsWithin read inside va levels table state)
    (found : findLeaf read va levels table state = .ok (leaf, after)) : after = state := by
  induction levels generalizing table state with
  | zero =>
    cases Except.ok.inj found
    rfl
  | succ level ih =>
    rw [findLeaf] at found
    cases entry : read state (table + (vpn va level <<< 3)) with
    | error stop =>
      rw [entry] at found
      cases found
    | ok result =>
      obtain ⟨pte, next⟩ := result
      have same := quiet _ _ _ _ within.1 entry
      subst same
      rw [entry] at found
      change (if invalid pte then Except.ok (none, next)
        else if isLeaf pte then Except.ok (some ⟨level, pte⟩, next)
        else findLeaf read va level (ppn pte <<< 12) next) = Except.ok (leaf, after) at found
      -- Either the walk ends with this entry, or what is asked of the next table holds.
      split at found
      · cases Except.ok.inj found
        rfl
      · rename_i usable
        split at found
        · cases Except.ok.inj found
          rfl
        · rename_i pointer
          exact ih (within.2 pte next entry (Bool.eq_false_iff.mpr usable)
            (Bool.eq_false_iff.mpr pointer)) found

/-! ### Marks -/

/-- Two entries are the same but for the bits that mark a page as accessed and as written. -/
def AgreeOffMarks (pte other : BitVec 64) : Prop :=
  ∀ i, i ≠ 6 → i ≠ 7 → pte.getLsbD i = other.getLsbD i

namespace AgreeOffMarks

variable {pte other : BitVec 64}

/-- The marks do not make an entry invalid. -/
theorem invalid (agree : AgreeOffMarks pte other) : invalid pte = PageWalk.invalid other := by
  rw [PageWalk.invalid, PageWalk.invalid, agree 0 (by omega) (by omega),
    agree 1 (by omega) (by omega), agree 2 (by omega) (by omega)]

/-- Nor do they make it a leaf. -/
theorem isLeaf (agree : AgreeOffMarks pte other) : isLeaf pte = PageWalk.isLeaf other := by
  rw [PageWalk.isLeaf, PageWalk.isLeaf, agree 1 (by omega) (by omega),
    agree 3 (by omega) (by omega)]

/-- Nor do they belong to its page number. -/
theorem ppn (agree : AgreeOffMarks pte other) : ppn pte = PageWalk.ppn other := by
  apply BitVec.eq_of_getLsbD_eq
  intro i below
  -- The page number begins above the marks.
  rw [PageWalk.ppn, PageWalk.ppn, BitVec.getLsbD_and, BitVec.getLsbD_and,
    BitVec.getLsbD_ushiftRight, BitVec.getLsbD_ushiftRight, agree _ (by omega) (by omega)]

end AgreeOffMarks

/-- Two leaves found at one level whose entries agree but for the marks. -/
def Leaf.AgreeOffMarks (leaf other : Leaf) : Prop :=
  leaf.level = other.level ∧ PageWalk.AgreeOffMarks leaf.pte other.pte

/-- The marks of a leaf have no part in the address it gives. -/
theorem Leaf.AgreeOffMarks.address {leaf other : Leaf} (agree : leaf.AgreeOffMarks other)
    (va : BitVec 64) : leaf.address va = other.address va := by
  rw [Leaf.address, Leaf.address, Leaf.offsetBits, Leaf.offsetBits, agree.1, agree.2.ppn]

/-- A table that a page number names lies at a multiple of eight, and so do its entries. -/
theorem entry_aligned {table va : BitVec 64} {level : Nat} (aligned : table.toNat % 8 = 0) :
    (table + (vpn va level <<< 3)).toNat % 8 = 0 := by
  rw [BitVec.toNat_add, BitVec.toNat_shiftLeft, Nat.shiftLeft_eq]
  omega

/-- The address of a table is a multiple of eight. -/
theorem table_aligned (number : BitVec 64) : (number <<< 12).toNat % 8 = 0 := by
  rw [BitVec.toNat_shiftLeft, Nat.shiftLeft_eq]
  omega

/-- A walk whose entries can all be read, and without a change, ends without one. -/
theorem findLeaf_total {inside : BitVec 64 → Prop} {state : State}
    (total : ∀ addr, inside addr → addr.toNat % 8 = 0 → ∃ pte, read state addr = .ok (pte, state))
    {va : BitVec 64} {levels : Nat} {table : BitVec 64} (aligned : table.toNat % 8 = 0)
    (within : ReadsWithin read inside va levels table state) :
    ∃ leaf, findLeaf read va levels table state = .ok (leaf, state) := by
  induction levels generalizing table with
  | zero => exact ⟨none, rfl⟩
  | succ level ih =>
    obtain ⟨pte, entry⟩ := total _ within.1 (entry_aligned aligned)
    simp only [findLeaf, entry]
    change ∃ leaf, (if invalid pte then Except.ok (none, state)
      else if isLeaf pte then Except.ok (some ⟨level, pte⟩, state)
      else findLeaf read va level (ppn pte <<< 12) state) = Except.ok (leaf, state)
    -- Behind a pointer the rest of the walk ends by induction.
    split
    · exact ⟨none, rfl⟩
    · rename_i usable
      split
      · exact ⟨some ⟨level, pte⟩, rfl⟩
      · rename_i pointer
        exact ih (table_aligned _) (within.2 pte state entry (Bool.eq_false_iff.mpr usable)
          (Bool.eq_false_iff.mpr pointer))

/--
Walks through memories whose entries agree but for the marks end alike.

Only entries at multiples of eight are read when the first table lies at one.
-/
theorem findLeaf_coupled {related : State → State → Prop}
    (reads : ∀ addr state other, addr.toNat % 8 = 0 → related state other →
      Coupled (fun one two => AgreeOffMarks one.1 two.1 ∧ related one.2 two.2)
        (read state addr) (read other addr))
    {va : BitVec 64} {levels : Nat} {table : BitVec 64} (aligned : table.toNat % 8 = 0)
    {state other : State} (start : related state other) :
    Coupled (fun one two => Option.Rel Leaf.AgreeOffMarks one.1 two.1 ∧ related one.2 two.2)
      (findLeaf read va levels table state) (findLeaf read va levels table other) := by
  induction levels generalizing table state other with
  | zero => exact .ok ⟨.none, start⟩
  | succ level ih =>
    refine .bind (reads _ _ _ (entry_aligned aligned) start) fun ⟨pte, one⟩ ⟨mark, two⟩ entry => ?_
    obtain ⟨agree, later⟩ := entry
    -- Both walks test the same bits, and go on in the same table.
    refine .ite (by rw [agree.invalid]) (.ok ⟨.none, later⟩) ?_
    refine .ite (by rw [agree.isLeaf]) (.ok ⟨.some ⟨rfl, agree⟩, later⟩) ?_
    rw [agree.ppn]
    exact ih (table_aligned _) later

/-! ### Addresses in one page -/

/-- Addresses in one page have the same index bits at every level. -/
theorem vpn_congr {va other : BitVec 64} (page : va >>> 12 = other >>> 12) (level : Nat) :
    vpn va level = vpn other level := by
  -- The index bits lie above the page offset, where the two addresses agree.
  rw [vpn, vpn, BitVec.shiftRight_add, BitVec.shiftRight_add, page]

/-- Each bit of a leaf's address is one of the entry or one of the virtual address. -/
theorem getLsbD_address (leaf : Leaf) (va : BitVec 64) (i : Nat) :
    (leaf.address va).getLsbD i =
      (if i < leaf.offsetBits then va.getLsbD i
      else (decide (i < 64) &&
        (ppn leaf.pte >>> (9 * leaf.level)).getLsbD (i - leaf.offsetBits))) := by
  rw [Leaf.address, BitVec.getLsbD_or, BitVec.getLsbD_shiftLeft, BitVec.getLsbD_and,
    BitField.getLsbD_ones]
  -- The two parts do not overlap: below the offset bits one is zero, above them the other.
  by_cases width : i < 64
  · by_cases low : i < leaf.offsetBits
    · simp [low, width]
    · simp [low, width]
  · simp [width, BitVec.getLsbD_of_ge va i (by omega)]

/-- A leaf gives addresses in one page to addresses in one page. -/
theorem Leaf.address_page (leaf : Leaf) {va other : BitVec 64}
    (page : va >>> 12 = other >>> 12) :
    leaf.address va >>> 12 = leaf.address other >>> 12 := by
  apply BitVec.eq_of_getLsbD_eq
  intro i below
  -- Above the page offset the two virtual addresses have the same bits.
  have same : va.getLsbD (12 + i) = other.getLsbD (12 + i) := by
    rw [← BitVec.getLsbD_ushiftRight, ← BitVec.getLsbD_ushiftRight, page]
  rw [BitVec.getLsbD_ushiftRight, BitVec.getLsbD_ushiftRight, getLsbD_address, getLsbD_address,
    same]

/-- A leaf keeps the place within the page. -/
theorem Leaf.address_offset (leaf : Leaf) (va : BitVec 64) :
    (leaf.address va).toNat % 2 ^ 12 = va.toNat % 2 ^ 12 := by
  apply Nat.eq_of_testBit_eq
  intro i
  rw [Nat.testBit_mod_two_pow, Nat.testBit_mod_two_pow, BitVec.testBit_toNat,
    BitVec.testBit_toNat, getLsbD_address]
  by_cases low : i < 12
  · -- A leaf at any level leaves at least the twelve bits of the page untranslated.
    have inside : i < leaf.offsetBits := by
      rw [Leaf.offsetBits]
      omega
    simp [low, inside]
  · simp [low]

/-- Further on in the same page a leaf's address is further on by as much. -/
theorem Leaf.address_add (leaf : Leaf) {va : BitVec 64} {index : Nat}
    (page : va >>> 12 = (va + BitVec.ofNat 64 index) >>> 12) :
    leaf.address (va + BitVec.ofNat 64 index) = leaf.address va + BitVec.ofNat 64 index := by
  -- The address is its page and its offset, and the page stays what it was.
  have upper := congrArg BitVec.toNat (leaf.address_page page)
  have lower := leaf.address_offset va
  have lowerSum := leaf.address_offset (va + BitVec.ofNat 64 index)
  have whole := congrArg BitVec.toNat page
  simp only [BitField.toNat_ushiftRight, BitVec.toNat_add, BitVec.toNat_ofNat] at upper whole lowerSum
  apply BitVec.eq_of_toNat_eq
  rw [BitVec.toNat_add, BitVec.toNat_ofNat]
  have first := va.isLt
  have second := (leaf.address va).isLt
  have third := (leaf.address (va + BitVec.ofNat 64 index)).isLt
  omega

end PageWalk
