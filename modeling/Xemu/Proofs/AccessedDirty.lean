import Xemu.Proofs.Permission
import Xemu.Proofs.Reserved

/-! The accessed and dirty bits of page tables: no access looks at them, and none sets them. -/

namespace Xemu

open PageWalk

/-! ### Translation ignores the bits -/

/-- Two memories of one size that agree but for the two marks of each aligned doubleword. -/
structure Buffer.AgreeOffMarks (buffer other : Buffer) : Prop where
  size : buffer.size = other.size
  bits : ∀ place i, place.toNat % 8 ≠ 0 ∨ (i ≠ 6 ∧ i ≠ 7) →
    (buffer.bytes place).getLsbD i = (other.bytes place).getLsbD i

/-- The same devices around memories that agree but for the marks. -/
structure Bus.AgreeOffMarks (bus other : Bus) : Prop where
  ram : bus.ram.AgreeOffMarks other.ram
  rom : bus.rom.AgreeOffMarks other.rom
  flash : bus.flash.AgreeOffMarks other.flash
  rest : other = { bus with ram := other.ram, rom := other.rom, flash := other.flash }

/-- The results of reading one entry in two memories that agree but for the marks. -/
def EntryAgrees (entry other : BitVec 64 × Bus) : Prop :=
  AgreeOffMarks entry.1 other.1 ∧ entry.2.AgreeOffMarks other.2

/-- An aligned doubleword read from memories that agree but for the marks agrees but for them. -/
theorem Buffer.AgreeOffMarks.read {buffer other : Buffer} (agree : buffer.AgreeOffMarks other)
    {addr : BitVec 64} (aligned : addr.toNat % 8 = 0) :
    Coupled PageWalk.AgreeOffMarks (buffer.read addr 8) (other.read addr 8) := by
  refine .ite (by rw [agree.size]) (.ok fun i six seven => ?_) (.error _)
  rw [LittleEndian.getLsbD_load, LittleEndian.getLsbD_load]
  by_cases inside : i < 64
  · -- The marks are in the first byte, and only that one is at a multiple of eight.
    rw [agree.bits]
    rw [BitVec.toNat_add, BitVec.toNat_ofNat]
    omega
  · simp [inside]

/-- The offset of an aligned address in its region is aligned. -/
theorem route_aligned {children : List AddressSpace} {addr : BitVec 64}
    (starts : children.all (fun region => region.start.toNat % 8 == 0) = true)
    (aligned : addr.toNat % 8 = 0) : (AddressSpace.route children addr).2.toNat % 8 = 0 := by
  -- The regions begin at aligned addresses.
  induction children with
  | nil => exact aligned
  | cons region siblings ih =>
    simp only [List.all_cons, Bool.and_eq_true, beq_iff_eq] at starts
    rw [AddressSpace.route]
    split
    · rw [BitVec.toNat_sub]
      have base := starts.1
      have bound := region.start.isLt
      omega
    · exact ih starts.2

/-- Reading an entry from a device goes alike in memories that agree but for the marks. -/
theorem Bus.AgreeOffMarks.deviceRead {bus other : Bus} (agree : bus.AgreeOffMarks other)
    (host : Host) (device : DeviceId) {addr : BitVec 64} (aligned : addr.toNat % 8 = 0) :
    Coupled EntryAgrees (bus.deviceRead host device addr 8 .none)
      (other.deviceRead host device addr 8 .none) := by
  obtain ⟨ram, rom, flash, rest⟩ := agree
  cases device with
  | dummy => exact .error _
  -- A memory returns words that agree.
  | ram =>
    exact .bind (ram.read aligned) fun _ _ word => .ok ⟨word, ram, rom, flash, rest⟩
  | rom =>
    refine .bind (?_ : Coupled PageWalk.AgreeOffMarks _ _) fun _ _ word =>
      .ok ⟨word, ram, rom, flash, rest⟩
    exact .ite (by rw [rom.size]) (.error _) (.ite Iff.rfl (rom.read aligned) (.error _))
  | flash =>
    refine .bind (?_ : Coupled PageWalk.AgreeOffMarks _ _) fun _ _ word =>
      .ok ⟨word, ram, rom, flash, rest⟩
    have pointer : flashPtr bus.flash addr 8 = flashPtr other.flash addr 8 := by
      rw [flashPtr, flashPtr, flash.size]
    unfold flashRead
    rw [pointer]
    refine .bind (.refl (fun _ => rfl) _) fun loaded _ same => ?_
    subst same
    refine .ite Iff.rfl (.ok fun _ _ _ => rfl) ?_
    exact .ite Iff.rfl (.error _) (.ite Iff.rfl (flash.read aligned) (.error _))
  -- Any other device is the same one on both sides.
  | rtc | pciHost | plic | clint | uart | virtio =>
    rw [rest]
    refine .bind (.refl (fun _ => rfl) _) fun result _ same => ?_
    subst same
    exact .ok ⟨fun _ _ _ => rfl, ram, rom, flash, rfl⟩

/-- Reading an entry goes alike in memories that agree but for the marks. -/
theorem Bus.AgreeOffMarks.readPte {bus other : Bus} (agree : bus.AgreeOffMarks other)
    (host : Host) {addr : BitVec 64} (aligned : addr.toNat % 8 = 0) :
    Coupled EntryAgrees (Machine.readPte host bus addr) (Machine.readPte host other addr) := by
  unfold Machine.readPte Bus.asReadNommu
  rw [Bus.readFrom_route, Bus.readFrom_route]
  refine .ite Iff.rfl (.error _) ?_
  exact agree.deviceRead host _ (route_aligned (by decide) aligned)

/-- Where an address is translated to does not depend on the marks in any page table. -/
theorem mmu_ignores_marks {host : Host} {m other : Machine} (hart : other.hart = m.hart)
    (agree : m.bus.AgreeOffMarks other.bus) (va : BitVec 64) :
    (other.mmu host va).map Prod.fst = (m.mmu host va).map Prod.fst := by
  by_cases translated : m.Translated
  · have also : other.Translated := by rwa [Machine.Translated, hart]
    rw [Machine.mmu_eq_walk translated, Machine.mmu_eq_walk also]
    have root : other.rootTable = m.rootTable := by rw [Machine.rootTable, hart]; rfl
    have walks : Coupled (fun one two => Option.Rel Leaf.AgreeOffMarks one.1 two.1 ∧
        one.2.AgreeOffMarks two.2) (m.walk host va) (other.walk host va) := by
      rw [Machine.walk, Machine.walk, root]
      exact findLeaf_coupled (fun addr _ _ aligned start => start.readPte host aligned)
        (table_aligned _) agree
    -- The leaves give the same address, or neither walk has found one.
    have addresses : Coupled (fun one two : Option (BitVec 64) × Bus => one.1 = two.1)
        (m.walk host va >>= fun found => pure (found.1.map (·.address va), found.2))
        (other.walk host va >>= fun found => pure (found.1.map (·.address va), found.2)) := by
      refine .bind walks ?_
      rintro ⟨leaf, one⟩ ⟨mark, two⟩ ⟨same, _⟩
      cases same with
      | some leaves => exact .ok (congrArg some (leaves.address va))
      | none => exact .ok rfl
    exact (addresses.map_eq fun _ _ same => same).symm
  · have also : ¬ other.Translated := by rwa [Machine.Translated, hart]
    rw [Machine.mmu_bare translated, Machine.mmu_bare also]
    rfl

/-! ### Accesses set no bit -/

/-- The number of bytes an instruction that stores writes. -/
def Op.storeSize : Op → Nat
  | .sb => 1
  | .sh => 2
  | .sw | .fsw | .scW | .amoAddW | .amoSwapW | .amoXorW | .amoOrW | .amoAndW | .amoMinW | .amoMaxW
  | .amoMinuW | .amoMaxuW => 4
  | .sd | .fsd | .scD | .amoAddD | .amoSwapD | .amoXorD | .amoOrD | .amoAndD | .amoMinD | .amoMaxD
  | .amoMinuD | .amoMaxuD => 8
  | _ => 0

/-- A call of `as_write` with its test leaves the devices as that write did. -/
theorem Locals.writeMem_bus {host : Host} {locals after : Locals} {pc addr data ret : BitVec 64}
    {size : Nat} {params : Params}
    (ran : locals.writeMem host pc addr size data params = .ok (ret, after)) :
    ∃ ret, locals.m.asWrite host addr size data params = .ok (ret, after.m.bus) := by
  obtain ⟨⟨written, bus⟩, accessed, result⟩ := bind_eq_ok.mp ran
  refine ⟨written, accessed.trans ?_⟩
  -- A fault changes the hart and not the devices.
  cases written with
  | none =>
    cases Except.ok.inj result
    rfl
  | some value =>
    cases Except.ok.inj result
    rfl

/-- An instruction that stores leaves the devices as one write through the translation does. -/
theorem executeOp_writes {host : Host} {m : Machine} {pc nextPc : BitVec 64} {d : Decoded}
    {locals : Locals} (stores : d.op.stores) (ran : executeOp host m pc nextPc d = .ok locals) :
    ∃ addr data params ret, d.access m.hart = some addr ∧
      m.asWrite host addr d.op.storeSize data params = .ok (ret, locals.m.bus) := by
  obtain ⟨op, rd, rs1, rs2, imm, csrAddr⟩ := d
  cases op with
  | sb | sh | sw | sd | fsd =>
    obtain ⟨⟨ret, after⟩, written, result⟩ := bind_eq_ok.mp ran
    cases Except.ok.inj result
    obtain ⟨ret, accessed⟩ := Locals.writeMem_bus written
    exact ⟨_, _, _, ret, rfl, accessed⟩
  | fsw =>
    -- The operand is converted first, and that touches no device.
    obtain ⟨data, converted, stored⟩ := bind_eq_ok.mp ran
    obtain ⟨⟨ret, after⟩, written, result⟩ := bind_eq_ok.mp stored
    cases Except.ok.inj result
    obtain ⟨ret, accessed⟩ := Locals.writeMem_bus written
    exact ⟨_, _, _, ret, rfl, accessed⟩
  | scD | amoAddD | amoSwapD | amoXorD | amoOrD | amoAndD | amoMinD | amoMaxD | amoMinuD
  | amoMaxuD | scW | amoAddW | amoSwapW | amoXorW | amoOrW | amoAndW | amoMinW | amoMaxW
  | amoMinuW | amoMaxuW =>
    obtain ⟨⟨ret, after⟩, written, result⟩ := bind_eq_ok.mp ran
    cases Except.ok.inj result
    obtain ⟨ret, accessed⟩ := Locals.writeMem_bus written
    exact ⟨_, _, _, ret, rfl, accessed⟩
  | _ => cases stores

/--
An instruction that stores writes no memory but its own bytes.

Its address has no translation, or it is one of RAM and the bytes from there on do not hold the place.
-/
def Decoded.Spares (host : Host) (m : Machine) (d : Decoded) (place : BitVec 64) : Prop :=
  ∃ addr, d.access m.hart = some addr ∧ (m.Unmapped host addr ∨
    ∃ pa, m.Maps host addr pa ∧ inRam pa ∧ d.op.storeSize ≤ (place - (pa - ramStart)).toNat)

/-- An instruction that stores leaves every place of RAM that it spares, and the other memories. -/
theorem executeOp_spares {host : Host} {m : Machine} {pc nextPc place : BitVec 64} {d : Decoded}
    {locals : Locals} (stores : d.op.stores) (spared : d.Spares host m place)
    (ran : executeOp host m pc nextPc d = .ok locals) :
    locals.m.bus.ram.bytes place = m.bus.ram.bytes place ∧
      locals.m.bus.rom = m.bus.rom ∧ locals.m.bus.flash = m.bus.flash := by
  obtain ⟨addr, data, params, ret, accesses, written⟩ := executeOp_writes stores ran
  obtain ⟨same, also, target⟩ := spared
  cases Option.some.inj (accesses.symm.trans also)
  rcases Machine.asWrite_first written with
    ⟨_, _, kept⟩ | ⟨word, pa, bus, _, maps, kept, reached⟩
  · exact ⟨by rw [kept.ram], kept.rom, kept.flash⟩
  · rcases target with missing | ⟨other, mapped, inside, outside⟩
    · exact absurd missing maps.not_unmapped
    · -- The write goes to the one address there is, and from there on it does not reach the place.
      cases maps.unique mapped
      obtain ⟨_, after, _⟩ := Bus.asWriteNommu_ram_ok inside reached
      rw [after, ← kept.ram]
      exact ⟨LittleEndian.store_outside outside, kept.rom, kept.flash⟩

/-- An instruction that does not store leaves the memories as they were. -/
theorem executeOp_keeps {host : Host} {m : Machine} {pc nextPc : BitVec 64} {d : Decoded}
    {locals : Locals} (loads : d.op.stores = false)
    (ran : executeOp host m pc nextPc d = .ok locals) : m.bus.SameMemory locals.m.bus := by
  have accessed := executeOp_accessed _ ran
  rw [loads] at accessed
  exact accessed.keeps

/-- The condition asked of an event: it stores at no place of RAM but those an instruction names. -/
def SparesAt (place : BitVec 64) (event : Event) (m : Machine) : Prop :=
  match event with
  | .hart host => ∀ ready nextPc d, m.Ready host ready nextPc d → d.op.stores →
    d.Spares host ready place
  -- A request to the disk writes RAM as well.
  | .blkServe _ => False
  | .timer _ | .input _ | .blkTake => True

/-- A turn leaves every place of RAM that its instruction spares. -/
theorem step_spares {host : Host} {m after : Machine} {place : BitVec 64}
    (spared : SparesAt place (.hart host) m) (stepped : m.step host = .ok after) :
    after.bus.ram.bytes place = m.bus.ram.bytes place := by
  cases step_turn stepped with
  | interrupted vector trapped handled nonzero moved =>
    obtain ⟨_, _, _, same⟩ := handleInterrupt_bus handled
    rw [moved]
    change trapped.bus.ram.bytes place = _
    rw [same]
  | faulted polled handled vector inst trapped fetched nonzero moved =>
    obtain ⟨_, _, _, same⟩ := handleInterrupt_bus handled
    have reads := (Machine.fetch_accessed _ fetched).keeps.ram
    rw [moved]
    change trapped.bus.ram.bytes place = _
    rw [reads, same]
  | performed ready nextPc d started locals ran retPc executed written moved =>
    have before := started.ram
    have bus := (writeBack_kept written).2.1
    rw [moved]
    change executed.bus.ram.bytes place = _
    rw [bus, ← before]
    -- The instruction stores elsewhere or not at all.
    cases stores : d.op.stores with
    | true => exact (executeOp_spares stores (spared ready nextPc d started stores) ran).1
    | false => rw [(executeOp_keeps stores ran).ram]

/-- A run leaves every place of RAM that all of its events spare. -/
theorem run_spares {place : BitVec 64} {first final : Machine} {events : List Event}
    (spared : Runs.Along Machine.next (SparesAt place) first events)
    (ran : Runs.run Machine.next first events = .ok final) :
    final.bus.ram.bytes place = first.bus.ram.bytes place := by
  refine Runs.run_induction_along (fun m : Machine => m.bus.ram.bytes place = first.bus.ram.bytes place)
    (fun event m after kept asked stepped => ?_) rfl spared ran
  refine Eq.trans ?_ kept
  cases event with
  | hart host => exact step_spares asked stepped
  -- The threads of the devices are quiet, but for one that is not allowed here.
  | timer host =>
    have quiet : m.Quiet (.timer host) := trivial
    rw [quiet_ram quiet stepped]
  | input byte =>
    have quiet : m.Quiet (.input byte) := trivial
    rw [quiet_ram quiet stepped]
  | blkTake =>
    have quiet : m.Quiet .blkTake := trivial
    rw [quiet_ram quiet stepped]
  | blkServe host => exact asked.elim

/-! ### The result -/

/--
Nothing looks at the marks of an entry, and no access changes them.

A translation is the same whatever they are, a fetch and a load leave all memories, and a store leaves what is not its own.
-/
theorem marks_unmanaged :
    (∀ host (m other : Machine), other.hart = m.hart → m.bus.AgreeOffMarks other.bus →
      ∀ va, (other.mmu host va).map Prod.fst = (m.mmu host va).map Prod.fst) ∧
    (∀ host (m after : Machine) vector inst, m.fetch host = .ok (vector, inst, after) →
      m.bus.SameMemory after.bus) ∧
    (∀ host (m : Machine) pc nextPc (d : Decoded) locals,
      executeOp host m pc nextPc d = .ok locals →
      (d.op.stores = false → m.bus.SameMemory locals.m.bus) ∧
      (d.op.stores → ∀ place, d.Spares host m place →
        locals.m.bus.ram.bytes place = m.bus.ram.bytes place ∧
          locals.m.bus.rom = m.bus.rom ∧ locals.m.bus.flash = m.bus.flash)) ∧
    (∀ place first final events, Runs.Along Machine.next (SparesAt place) first events →
      Runs.run Machine.next first events = .ok final →
      final.bus.ram.bytes place = first.bus.ram.bytes place) := by
  refine ⟨fun _ _ _ hart agree va => mmu_ignores_marks hart agree va,
    fun _ _ _ _ _ fetched => (Machine.fetch_accessed _ fetched).keeps,
    fun _ _ _ _ _ _ ran => ⟨fun loads => executeOp_keeps loads ran,
      fun stores _ spared => executeOp_spares stores spared ran⟩,
    fun _ _ _ _ spared ran => run_spares spared ran⟩

/-- A supervisor whose first gigabyte of RAM is mapped onto itself by an entry with no mark set. -/
def unmarkedMachine : Machine := pagedMachine [(0x1010, 0x2000000F)]

/-- A store to a page leaves the first byte of the entry that maps it. -/
theorem marks_unmanaged_store :
    ∃ locals, executeOp {} unmarkedMachine 0x1000 0x1004 (storeWord 0x80002000) = .ok locals ∧
      locals.m.bus.ram.bytes 0x1010 = unmarkedMachine.bus.ram.bytes 0x1010 := by
  obtain ⟨locals, ran, -⟩ := @ok_of_test _
    (executeOp {} unmarkedMachine 0x1000 0x1004 (storeWord 0x80002000)) (fun _ => true)
    (by decide +kernel)
  have maps : unmarkedMachine.Maps {} 0x80002000 0x80002000 := by
    rw [Machine.Maps]
    decide +kernel
  -- The store completes, so the law applies to the byte of the entry.
  exact ⟨locals, ran, ((marks_unmanaged.2.2.1 {} unmarkedMachine _ _ _ locals ran).2 rfl 0x1010
    ⟨_, rfl, .inr ⟨0x80002000, maps, by decide, by decide⟩⟩).1⟩

/-- After a store through an entry with no mark set, the walk for its address finds none set. -/
theorem store_sets_no_mark :
    ¬ ∀ host (m : Machine) pc nextPc (d : Decoded) addr (locals : Locals) (leaf : Leaf) bus,
      m.Translated → bits (m.hart.csr satp) 63 60 = 8 → d.op = .sw →
      d.access m.hart = some addr → executeOp host m pc nextPc d = .ok locals →
      locals.hasExcept = false → locals.m.walk host addr = .ok (some leaf, bus) →
      leaf.pte.getLsbD 6 ∧ leaf.pte.getLsbD 7 := by
  intro always
  have tested : (executeOp {} unmarkedMachine 0x1000 0x1004 (storeWord 0x80002000) >>=
      fun locals => (locals.m.walk {} 0x80002000).map fun found =>
        (locals.hasExcept, found.1)) = .ok (false, some ⟨2, 0x2000000F⟩) := by
    decide +kernel
  obtain ⟨locals, ran, rest⟩ := bind_eq_ok.mp tested
  obtain ⟨⟨leaf, bus⟩, walked, found⟩ := map_eq_ok.mp rest
  obtain ⟨quiet, rfl⟩ := Prod.mk.inj found
  -- The walk after the store finds the entry as it was laid out.
  have marked := always {} unmarkedMachine 0x1000 0x1004 (storeWord 0x80002000) 0x80002000 locals
    _ bus ⟨by decide, by decide⟩ (by decide) rfl rfl ran quiet walked
  revert marked
  decide

end Xemu
