import Xemu.Machine.Banks
import Xemu.Machine.Fetched
import Xemu.Proofs.Atomicity
import Xemu.Proofs.PageBoundary

/-! Which instructions a fetch faults on, and what it delivers of the others. -/

namespace Xemu

/-- A halfword with both low bits set begins an instruction of two halfwords. -/
def IsLong (half : BitVec 16) : Prop := half.setWidth 2 = 3#2

instance (half : BitVec 16) : Decidable (IsLong half) := inferInstanceAs (Decidable (_ = _))

/-- A page ends between the two halfwords of an instruction at the address. -/
def EndsPage (pc : BitVec 64) : Prop := (pc + 2) &&& 0xFFF = 0

instance (pc : BitVec 64) : Decidable (EndsPage pc) := inferInstanceAs (Decidable (_ = _))

namespace Machine

/-- The halfword of memory that a virtual address is mapped to. -/
def Holds (host : Host) (m : Machine) (va : BitVec 64) (half : BitVec 16) : Prop :=
  ∃ pa, m.Maps host va pa ∧ m.bus.halfword pa = some half

/-- What a fetch should find: the halfwords its instruction occupies, or the first one missing. -/
inductive FetchedRight (host : Host) (m : Machine) : Fetched → Prop
  /-- The first halfword is not mapped. -/
  | first (missing : m.Unmapped host m.hart.pc) : FetchedRight host m (.fault m.hart.pc)
  /-- The instruction has a second halfword, and that is not mapped. -/
  | second {low : BitVec 16} (begins : m.Holds host m.hart.pc low) (long : IsLong low)
      (missing : m.Unmapped host (m.hart.pc + 2)) : FetchedRight host m (.fault (m.hart.pc + 2))
  /-- The instruction is one halfword, and what follows it does not matter. -/
  | short {low : BitVec 16} {inst : BitVec 32} (begins : m.Holds host m.hart.pc low)
      (short : ¬ IsLong low) (delivered : inst.setWidth 16 = low) : FetchedRight host m (.word inst)
  /-- The instruction is both halfwords. -/
  | long {low high : BitVec 16} (begins : m.Holds host m.hart.pc low) (long : IsLong low)
      (ends : m.Holds host (m.hart.pc + 2) high) : FetchedRight host m (.word (high ++ low))

/-- The fetch ends, and it finds what it should find. -/
def FetchesRight (host : Host) (m : Machine) : Prop :=
  ∃ result bus, m.fetched host = .ok (result, bus) ∧ m.FetchedRight host result

/-- The page tables are in memory, and so are the halfwords of the instruction that are mapped. -/
structure CodeInMemory (host : Host) (m : Machine) : Prop where
  even : EvenAddr m.hart.pc
  /-- Walking through the tables for either halfword ends, and disturbs no device. -/
  walks : ∀ va, va = m.hart.pc ∨ va = m.hart.pc + 2 → ∃ found, m.mmu host va = .ok (found, m.bus)
  first : ∀ pa, m.Maps host m.hart.pc pa → ∃ low, m.bus.halfword pa = some low
  second : ∀ low next, m.Holds host m.hart.pc low → IsLong low →
    m.Maps host (m.hart.pc + 2) next → ∃ high, m.bus.halfword next = some high

/--
The instruction is one halfword, but the code wants the next one too and cannot have it.

Across the end of a page that one is looked up on its own; within a page it must be in memory.
-/
def Overreads (host : Host) (m : Machine) : Prop :=
  ∃ pa low, m.Maps host m.hart.pc pa ∧ m.bus.halfword pa = some low ∧ ¬ IsLong low ∧
    if EndsPage m.hart.pc then
      m.Unmapped host (m.hart.pc + 2) ∨ ∃ next stop, m.Maps host (m.hart.pc + 2) next ∧
        m.bus.asReadNommu host next 2 .none = .error stop
    -- What follows the loaded part of the flash reads as zero along with the end of that part.
    else m.bus.halfword (pa + 2) = none ∧
      ¬ ((AddressSpace.route AddressSpace.rootChildren pa).1 = .flash ∧ low = 0)

/-! ### The ways of a fetch -/

section Ways

variable {host : Host} {m : Machine} {pa : BitVec 64} {bus : Bus}

/-- An address has a translation, or it has none. -/
theorem mapped_or_unmapped {va : BitVec 64} {found : Option (BitVec 64)}
    (walked : m.mmu host va = .ok (found, bus)) :
    (m.Unmapped host va ∧ found = none) ∨ ∃ pa, m.Maps host va pa ∧ found = some pa := by
  cases found with
  | none => exact .inl ⟨by rw [Unmapped, walked]; rfl, rfl⟩
  | some pa => exact .inr ⟨pa, by rw [Maps, walked]; rfl, rfl⟩

/-- A fetch from an address without a translation faults for it. -/
theorem fetched_unmapped (missing : m.mmu host m.hart.pc = .ok (none, bus)) :
    m.fetched host = .ok (.fault m.hart.pc, bus) := by
  have read : ∀ size, m.asRead host m.hart.pc size .none = .ok (none, bus) := by
    intro size
    rw [asRead, missing]
    rfl
  -- Both branches start with a read at the same address.
  dsimp only [fetched]
  split
  · rw [read]
    rfl
  · rw [read]
    rfl

/-- A fetch within a page is one read. -/
theorem fetched_within (inside : ¬ EndsPage m.hart.pc)
    (found : m.mmu host m.hart.pc = .ok (some pa, bus)) :
    m.fetched host = (bus.asReadNommu host pa 4 .none).map fun read =>
      (.word (read.1.setWidth 32), read.2) := by
  dsimp only [fetched]
  rw [if_pos (show (m.hart.pc + 2) &&& 0xFFF ≠ 0 from inside), asRead, found, ok_bind]
  cases read : bus.asReadNommu host pa 4 .none <;> simp [read, Except.map]

/-- The shift and the disjunction of the code put the second half above the first. -/
theorem halves_joined (high : BitVec 64) (low : BitVec 16) :
    (high.setWidth 32 <<< 16) ||| (low.setWidth 64).setWidth 32 = high.setWidth 16 ++ low := by
  apply BitVec.eq_of_getLsbD_eq
  intro i below
  rw [BitVec.getLsbD_append]
  by_cases lower : i < 16
  · simp [lower, below]
  · simp [lower, below, BitVec.getLsbD_of_ge low i (by omega), show i - 16 < 16 by omega]

/-- A fetch across the end of a page is a read of the next halfword after that of the first. -/
theorem fetched_across (across : EndsPage m.hart.pc)
    (found : m.mmu host m.hart.pc = .ok (some pa, m.bus)) {low : BitVec 16}
    (begins : m.bus.halfword pa = some low) (page : pa.toNat % 4096 + 2 ≤ 4096) :
    m.fetched host = (m.asRead host (m.hart.pc + 2) 2 .none).map fun read =>
      (read.1.elim (.fault (m.hart.pc + 2)) fun high => .word (high.setWidth 16 ++ low),
        read.2) := by
  -- The first read gives the lower half, and what the fetch comes to is up to the second one.
  have first : m.asRead host m.hart.pc 2 .none = .ok (some (low.setWidth 64), m.bus) := by
    rw [asRead, found, ok_bind]
    simp only [Bus.asReadNommu_halfword begins page, ok_bind, pure_eq_ok]
  dsimp only [fetched]
  rw [if_neg (show ¬ (m.hart.pc + 2) &&& 0xFFF ≠ 0 from not_not.mpr across), first, ok_bind]
  cases read : m.asRead host (m.hart.pc + 2) 2 .none with
  | error stop => rfl
  | ok result =>
    obtain ⟨_ | high, last⟩ := result
    · rfl
    · exact congrArg (fun inst => Except.ok (Fetched.word inst, last)) (halves_joined high low)

/-- The place of an address in its page is that of its physical address. -/
theorem Maps.place {va : BitVec 64} (maps : m.Maps host va pa) :
    pa.toNat % 4096 = va.toNat % 4096 := by
  have same := maps.toPageEnd
  have below := Nat.mod_lt va.toNat (show 4096 > 0 by decide)
  have other := Nat.mod_lt pa.toNat (show 4096 > 0 by decide)
  unfold Xemu.toPageEnd at same
  omega

/-- A virtual address holds one halfword at most. -/
theorem Holds.unique {va : BitVec 64} {half other : BitVec 16} (first : m.Holds host va half)
    (second : m.Holds host va other) : half = other := by
  obtain ⟨pa, maps, found⟩ := first
  obtain ⟨pb, othersMap, othersFound⟩ := second
  cases maps.unique othersMap
  exact Option.some.inj (found.symm.trans othersFound)

/-- The low half of two halfwords is the first one. -/
theorem setWidth_halves (high low : BitVec 16) : (high ++ low).setWidth 16 = low := by
  apply BitVec.eq_of_getLsbD_eq
  intro i below
  rw [BitVec.getLsbD_setWidth, BitVec.getLsbD_append]
  simp [below]

/-- A word that is right for one halfword has it in its low half. -/
theorem FetchedRight.low {low : BitVec 16} {inst : BitVec 32} (holds : m.Holds host m.hart.pc low)
    (right : m.FetchedRight host (.word inst)) : inst.setWidth 16 = low := by
  cases right with
  | short begins _ delivered => exact delivered.trans (begins.unique holds)
  | long begins _ _ => exact (setWidth_halves _ _).trans (begins.unique holds)

/-- A fault is right behind a mapped halfword only if that begins a long instruction. -/
theorem FetchedRight.long_of_fault {low : BitVec 16} {tval : BitVec 64}
    (holds : m.Holds host m.hart.pc low) (right : m.FetchedRight host (.fault tval)) :
    IsLong low := by
  cases right with
  | first missing =>
    obtain ⟨pa, maps, -⟩ := holds
    exact absurd missing maps.not_unmapped
  | second begins long _ => exact begins.unique holds ▸ long

/-- A fetch that ends is right when what it finds is. -/
theorem fetchesRight_ok {result : Fetched} (ended : m.fetched host = .ok (result, bus)) :
    m.FetchesRight host ↔ m.FetchedRight host result := by
  constructor
  · rintro ⟨other, after, same, right⟩
    cases Except.ok.inj (ended.symm.trans same)
    exact right
  · exact fun right => ⟨result, bus, ended, right⟩

/-- A fetch that stops the emulator is not right. -/
theorem fetchesRight_error {stop : Stop} (stopped : m.fetched host = .error stop) :
    ¬ m.FetchesRight host := by
  rintro ⟨result, bus, ended, -⟩
  cases stopped.symm.trans ended

variable {low : BitVec 16}

/-- Within a page it is right unless the halfword behind a short instruction is not in memory. -/
theorem CodeInMemory.within_iff (code : m.CodeInMemory host) (inside : ¬ EndsPage m.hart.pc)
    (walked : m.mmu host m.hart.pc = .ok (some pa, m.bus)) (begins : m.bus.halfword pa = some low) :
    m.FetchesRight host ↔
      ¬ (¬ IsLong low ∧ m.bus.halfword (pa + 2) = none ∧
        ¬ ((AddressSpace.route AddressSpace.rootChildren pa).1 = .flash ∧ low = 0)) := by
  have maps : m.Maps host m.hart.pc pa := by rw [Maps, walked]; rfl
  have holds : m.Holds host m.hart.pc low := ⟨pa, maps, begins⟩
  have parity := evenAddr_iff.mp code.even
  have place := maps.place
  -- An even address that does not end a page by two has four bytes left in it.
  have page : m.hart.pc.toNat % 4096 + 4 ≤ 4096 := by
    rw [EndsPage, halves_iff] at inside
    omega
  have next : m.Maps host (m.hart.pc + BitVec.ofNat 64 2) (pa + BitVec.ofNat 64 2) :=
    maps.add (by unfold Xemu.toPageEnd; omega)
  have ways := fetched_within inside walked
  cases follows : m.bus.halfword (pa + 2) with
  | some high =>
    rw [Bus.asReadNommu_halfwords begins follows (by omega)] at ways
    have word : ((high ++ low).setWidth 64).setWidth 32 = high ++ low := by simp
    refine iff_of_true ((fetchesRight_ok ways).mpr ?_) fun bad => by cases bad.2.1
    rw [word]
    by_cases long : IsLong low
    · exact .long holds long ⟨_, next, follows⟩
    · exact .short holds long (setWidth_halves high low)
  | none =>
    have short : ¬ IsLong low := by
      intro long
      obtain ⟨high, found⟩ := code.second low _ holds long next
      cases follows.symm.trans found
    have read := @Bus.asReadNommu_halved host _ _ _ begins follows (by omega) .none
    split at read
    · -- The flash delivers zeros, which are right when the instruction is zero.
      rename_i flash
      rw [read] at ways
      rw [fetchesRight_ok ways]
      refine ⟨fun right bad => bad.2.2 ⟨flash, (right.low holds).symm⟩, fun fine => ?_⟩
      have zero : low = 0 := by
        by_contra some
        exact fine ⟨short, rfl, fun both => some both.2⟩
      exact .short holds short zero.symm
    · rename_i other
      obtain ⟨stop, stopped⟩ := read
      rw [stopped] at ways
      exact iff_of_false (fetchesRight_error ways)
        (not_not.mpr ⟨short, rfl, fun both => other both.1⟩)

/-- With its second page mapped it is right unless a short instruction is followed by a failing read. -/
theorem CodeInMemory.across_mapped_iff (code : m.CodeInMemory host) (across : EndsPage m.hart.pc)
    (walked : m.mmu host m.hart.pc = .ok (some pa, m.bus)) (begins : m.bus.halfword pa = some low)
    {next : BitVec 64} (second : m.mmu host (m.hart.pc + 2) = .ok (some next, m.bus)) :
    m.FetchesRight host ↔
      ¬ (¬ IsLong low ∧ ∃ stop, m.bus.asReadNommu host next 2 .none = .error stop) := by
  have maps : m.Maps host m.hart.pc pa := by rw [Maps, walked]; rfl
  have nextMaps : m.Maps host (m.hart.pc + 2) next := by rw [Maps, second]; rfl
  have holds : m.Holds host m.hart.pc low := ⟨pa, maps, begins⟩
  have range := m.hart.pc.isLt
  have place := maps.place
  have ends := (halves_iff m.hart.pc).mp across
  have ways := fetched_across across walked begins (by omega)
  rw [asRead, second, ok_bind] at ways
  -- The second halfword is the first of its page.
  have start : next.toNat % 4096 + 2 ≤ 4096 := by
    have zero : (m.hart.pc + 2).toNat % 4096 = 0 := by
      rw [BitVec.toNat_add]
      change (m.hart.pc.toNat + 2) % 2 ^ 64 % 4096 = 0
      omega
    rw [nextMaps.place, zero]
    decide
  -- The second halfword of a long instruction is in memory.
  have reads : IsLong low → ∃ high, m.bus.halfword next = some high ∧
      m.bus.asReadNommu host next 2 .none = .ok (high.setWidth 64, m.bus) := by
    intro long
    obtain ⟨high, follows⟩ := code.second low _ holds long nextMaps
    exact ⟨high, follows, Bus.asReadNommu_halfword follows start .none⟩
  -- A failing read is wrong behind a short instruction, and a word is right behind either.
  cases read : m.bus.asReadNommu host next 2 .none with
  | error stop =>
    have short : ¬ IsLong low := by
      intro long
      obtain ⟨high, -, done⟩ := reads long
      cases done.symm.trans read
    simp only [read] at ways
    exact iff_of_false (fetchesRight_error ways) (not_not.mpr ⟨short, stop, rfl⟩)
  | ok result =>
    simp only [read] at ways
    refine iff_of_true ((fetchesRight_ok ways).mpr ?_) fun bad => by cases bad.2.choose_spec
    by_cases long : IsLong low
    · obtain ⟨high, follows, done⟩ := reads long
      cases done.symm.trans read
      have whole : (high.setWidth 64).setWidth 16 = high := by simp
      change m.FetchedRight host (.word ((high.setWidth 64).setWidth 16 ++ low))
      rw [whole]
      exact .long holds long ⟨next, nextMaps, follows⟩
    · exact .short holds long (setWidth_halves _ low)

/-- Across the end of a page it is right unless a short instruction is followed by a fault. -/
theorem CodeInMemory.across_iff (code : m.CodeInMemory host) (across : EndsPage m.hart.pc)
    (walked : m.mmu host m.hart.pc = .ok (some pa, m.bus)) (begins : m.bus.halfword pa = some low) :
    m.FetchesRight host ↔
      ¬ (¬ IsLong low ∧ (m.Unmapped host (m.hart.pc + 2) ∨
        ∃ next stop, m.Maps host (m.hart.pc + 2) next ∧
          m.bus.asReadNommu host next 2 .none = .error stop)) := by
  have maps : m.Maps host m.hart.pc pa := by rw [Maps, walked]; rfl
  have holds : m.Holds host m.hart.pc low := ⟨pa, maps, begins⟩
  obtain ⟨found, second⟩ := code.walks _ (.inr rfl)
  obtain ⟨missing, rfl⟩ | ⟨next, nextMaps, rfl⟩ := mapped_or_unmapped second
  · -- The fault for the second halfword is right when there is to be one.
    have range := m.hart.pc.isLt
    have place := maps.place
    have ends := (halves_iff m.hart.pc).mp across
    have ways := fetched_across across walked begins (by omega)
    rw [asRead, second] at ways
    rw [fetchesRight_ok ways]
    constructor
    · exact fun right bad => bad.1 (right.long_of_fault holds)
    · intro fine
      have long : IsLong low := by
        by_contra short
        exact fine ⟨short, .inl missing⟩
      exact .second holds long missing
  · rw [code.across_mapped_iff across walked begins second]
    -- The second page has this translation and no other.
    refine not_congr (and_congr_right fun _ => ⟨?_, ?_⟩)
    · rintro ⟨stop, stopped⟩
      exact .inr ⟨next, stop, nextMaps, stopped⟩
    · rintro (missing | ⟨other, stop, othersMap, stopped⟩)
      · exact absurd missing nextMaps.not_unmapped
      · cases othersMap.unique nextMaps
        exact ⟨stop, stopped⟩

/-- A fetch of code in memory is right unless it reads on where the instruction has ended. -/
theorem CodeInMemory.fetched_iff (code : m.CodeInMemory host) :
    m.FetchesRight host ↔
      ¬ m.Overreads host := by
  have parity := evenAddr_iff.mp code.even
  have range := m.hart.pc.isLt
  obtain ⟨found, walked⟩ := code.walks _ (.inl rfl)
  obtain ⟨missing, rfl⟩ | ⟨pa, maps, rfl⟩ := mapped_or_unmapped walked
  · -- Without a translation of the first halfword nothing is read on.
    refine iff_of_true ⟨_, _, fetched_unmapped walked, .first missing⟩ ?_
    rintro ⟨pa, low, maps, -⟩
    exact maps.not_unmapped missing
  · obtain ⟨low, begins⟩ := code.first pa maps
    have holds : m.Holds host m.hart.pc low := ⟨pa, maps, begins⟩
    have place := maps.place
    have overreads : m.Overreads host ↔ ¬ IsLong low ∧ if EndsPage m.hart.pc then
        m.Unmapped host (m.hart.pc + 2) ∨ ∃ next stop, m.Maps host (m.hart.pc + 2) next ∧
          m.bus.asReadNommu host next 2 .none = .error stop
        else m.bus.halfword (pa + 2) = none ∧
          ¬ ((AddressSpace.route AddressSpace.rootChildren pa).1 = .flash ∧ low = 0) := by
      refine ⟨?_, fun rest => ⟨pa, low, maps, begins, rest⟩⟩
      rintro ⟨other, half, othersMap, othersHold, rest⟩
      cases othersMap.unique maps
      cases Option.some.inj (othersHold.symm.trans begins)
      exact rest
    rw [overreads]
    by_cases across : EndsPage m.hart.pc
    · rw [if_pos across]
      exact code.across_iff across walked begins
    · rw [if_neg across]
      exact code.within_iff across walked begins

end Ways

end Machine

/-! ### The result -/

/--
A fetch faults on the halfwords its instruction occupies and delivers these, with one exception.

The exception is an instruction of one halfword that cannot be read together with the next one. A
word found is the word delivered, and a fault found is raised for its address at the counter.
-/
theorem fetch_right_iff {host : Host} {m : Machine} (code : m.CodeInMemory host) :
    (m.FetchesRight host ↔ ¬ m.Overreads host) ∧
      (∀ inst bus, m.fetched host = .ok (.word inst, bus) →
        m.fetch host = .ok (0, inst, { m with bus })) ∧
      ∀ tval bus, m.fetched host = .ok (.fault tval, bus) →
        ∃ vector after, m.fetch host = .ok (vector, 0, after) ∧
          after.hart.csr (trapCause (exceptNextPriv m.hart causeInstPageFault)) =
            causeInstPageFault ∧
          after.hart.csr (trapTval (exceptNextPriv m.hart causeInstPageFault)) = tval ∧
          after.hart.csr (trapEpc (exceptNextPriv m.hart causeInstPageFault)) = m.hart.pc := by
  refine ⟨code.fetched_iff, fun inst bus ended => ?_, fun tval bus ended => ?_⟩
  · rw [Machine.fetch_eq, ended]
    rfl
  · -- The trap keeps what it was raised with.
    let trap := raiseExcept m.hart m.hart.pc causeInstPageFault tval
    refine ⟨trap.1, { hart := trap.2, bus }, ?_, trapEnter_cause .., trapEnter_tval ..,
      trapEnter_epc ..⟩
    rw [Machine.fetch_eq, ended]
    rfl

/-- The first instruction in the ROM, which is one of two halfwords. -/
theorem fetch_right_iff_rom : (Machine.boot [0x00000013]).FetchesRight {} := by
  -- In machine mode every address is its own translation.
  have bare : ∀ va, (Machine.boot [0x00000013]).mmu {} va =
      .ok (some va, (Machine.boot [0x00000013]).bus) :=
    fun va => Machine.mmu_bare (fun translated => translated.1 rfl) va
  have itself : ∀ va pa, (Machine.boot [0x00000013]).Maps {} va pa → pa = va := by
    intro va pa maps
    refine maps.unique ?_
    rw [Machine.Maps, bare]
    rfl
  have low : (Machine.boot [0x00000013]).bus.halfword 0x1000 = some 0x0013 := by decide +kernel
  have high : (Machine.boot [0x00000013]).bus.halfword 0x1002 = some 0x0000 := by decide +kernel
  refine (fetch_right_iff ⟨evenAddr_iff.mpr rfl, fun va _ => ⟨_, bare va⟩, fun pa maps => ?_,
    fun half next _ _ maps => ?_⟩).1.mpr ?_
  · cases itself _ _ maps
    exact ⟨_, low⟩
  · cases itself _ _ maps
    exact ⟨_, high⟩
  · rintro ⟨pa, half, maps, found, short, -⟩
    cases itself _ _ maps
    cases Option.some.inj (low.symm.trans found)
    exact short (by decide)

/-- A supervisor about to execute the last halfword of a page, a no-operation of two bytes. -/
def pageEndMachine : Machine :=
  (pagedMachine [(0x1010, 0x2000000F), (0x3FFFFFF8, 0x0001000000000000)]).setPc 0xBFFFFFFE

/-- The page of that instruction is mapped onto itself. -/
theorem pageEndMachine_maps : pageEndMachine.Maps {} 0xBFFFFFFE 0xBFFFFFFE := by
  unfold Machine.Maps
  decide +kernel

/-- The page behind it is not mapped. -/
theorem pageEndMachine_unmapped : pageEndMachine.Unmapped {} 0xC0000000 := by
  unfold Machine.Unmapped
  decide +kernel

/-- The instruction is a short one. -/
theorem pageEndMachine_halfword : pageEndMachine.bus.halfword 0xBFFFFFFE = some 0x0001 := by
  decide +kernel

/-- Both pages are looked up in the table in RAM, and the instruction is there too. -/
theorem pageEndMachine_code : pageEndMachine.CodeInMemory {} where
  even := evenAddr_iff.mpr rfl
  walks := by
    rintro va (rfl | rfl)
    · obtain ⟨bus, found⟩ := pageEndMachine_maps.result
      exact ⟨_, mmu_quiet (tablesInRam_of_root (by decide) (by decide +kernel)) found ▸ found⟩
    · obtain ⟨bus, found⟩ := pageEndMachine_unmapped.result
      exact ⟨_, mmu_quiet (tablesInRam_of_root (by decide) (by decide +kernel)) found ▸ found⟩
  first := fun pa maps => ⟨_, maps.unique pageEndMachine_maps ▸ pageEndMachine_halfword⟩
  second := fun low next _ _ maps => absurd pageEndMachine_unmapped maps.not_unmapped

/-- The fetch faults for the page behind an instruction that does not reach into it. -/
theorem fetch_faults_behind :
    ¬ ∀ (host : Host) (m : Machine), m.CodeInMemory host → m.FetchesRight host := by
  intro always
  refine pageEndMachine_code.fetched_iff.mp (always _ _ pageEndMachine_code) ?_
  refine ⟨_, _, pageEndMachine_maps, pageEndMachine_halfword, by decide, ?_⟩
  exact .inl pageEndMachine_unmapped

end Xemu
