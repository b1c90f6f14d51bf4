import Xemu.Machine.Accesses
import Xemu.Machine.Program
import Xemu.Proofs.PageBoundary

/-! Load-reserved and store-conditional without reservations. -/

namespace Xemu

/-! ### Store-conditional -/

/--
What comes of a store-conditional: it stores and returns zero, whatever happened before it.

Nothing is said about one that goes to a device instead of RAM.
-/
inductive ScOutcome (host : Host) (m : Machine) (pc nextPc : BitVec 64) (d : Decoded) (size : Nat)
    (retPc : BitVec 64) (after : Machine) : Prop where
  /-- The operand is in RAM, zero is in the destination, and nothing else was written. -/
  | stored (pa : BitVec 64) (maps : m.Maps host (m.hart.reg d.rs1) pa) (inside : inRam pa)
      (goesOn : retPc = nextPc)
      (hart : after.hart = if d.rd ≠ 0 then m.hart.setReg d.rd 0 else m.hart)
      (bytes : after.bus.ram.bytes =
        LittleEndian.store m.bus.ram.bytes (pa - ramStart) size (m.hart.reg d.rs2))
      (memory : after.bus.rom = m.bus.rom ∧ after.bus.flash = m.bus.flash ∧
        after.bus.blk = m.bus.blk)
  /-- The address belongs to a device. -/
  | device (pa : BitVec 64) (maps : m.Maps host (m.hart.reg d.rs1) pa) (outside : ¬ inRam pa)
  /-- The address has no translation: a store page fault, and no register or memory is written. -/
  | faulted (missing : m.Unmapped host (m.hart.reg d.rs1))
      (raised : raiseExcept m.hart pc causeStorePageFault (m.hart.reg d.rs1) = (retPc, after.hart))
      (memory : m.bus.SameMemory after.bus)

/-- A write faults when its first byte has no translation, and otherwise goes through it. -/
theorem Machine.asWrite_first {host : Host} {m : Machine} {va data : BitVec 64} {size : Nat}
    {params : Params} {ret : Option (BitVec 64)} {after : Bus}
    (written : m.asWrite host va size data params = .ok (ret, after)) :
    (ret = none ∧ m.Unmapped host va ∧ m.bus.SameMemory after) ∨
      ∃ word pa bus, ret = some word ∧ m.Maps host va pa ∧ m.bus.SameMemory bus ∧
        bus.asWriteNommu host pa size data params = .ok (word, after) := by
  -- The walk before the access makes reads only.
  rcases asWrite_inv written with ⟨rfl, found⟩ | ⟨pa, walked, word, rfl, found, accessed⟩
  · exact .inl ⟨rfl, by rw [Unmapped, found]; rfl, mmu_keeps found⟩
  · exact .inr ⟨word, pa, walked, rfl, by rw [Maps, found]; rfl, mmu_keeps found, accessed⟩

/-- Every store-conditional has one of the outcomes. -/
theorem execute_sc {host : Host} {m : Machine} {pc nextPc : BitVec 64} {d : Decoded} {size : Nat}
    {retPc : BitVec 64} {after : Machine} (op : d.op.scSize = some size)
    (ran : execute host m pc nextPc d = .ok (retPc, after)) :
    ScOutcome host m pc nextPc d size retPc after := by
  obtain ⟨locals, switched, tail⟩ := bind_eq_ok.mp ran
  -- The two widths are the same case of the switch.
  have update : ({ m, retPc := nextPc, rdVal := host.rdVal } : Locals).update host pc
      (m.hart.reg d.rs1) size (m.hart.reg d.rs2) .lrSc = .ok locals := by
    obtain ⟨operation, rd, rs1, rs2, imm, csrAddr⟩ := d
    cases operation <;> cases op <;> exact switched
  obtain ⟨⟨ret, stored⟩, write, result⟩ := bind_eq_ok.mp update
  cases Except.ok.inj result
  obtain ⟨⟨word, bus⟩, accessed, rest⟩ := bind_eq_ok.mp write
  rcases Machine.asWrite_first accessed with
    ⟨rfl, missing, kept⟩ | ⟨word, pa, middle, rfl, maps, kept, reached⟩
  · cases Except.ok.inj rest
    cases Except.ok.inj tail
    exact .faulted missing rfl kept
  · cases Except.ok.inj rest
    by_cases inside : inRam pa
    · obtain ⟨_, rfl, zero⟩ := Bus.asWriteNommu_ram_ok inside reached
      rw [if_pos rfl] at zero
      subst zero
      have bytes : LittleEndian.store middle.ram.bytes (pa - ramStart) size
          (Bus.ramWord 0 (m.hart.reg d.rs2) size .lrSc) =
            LittleEndian.store m.bus.ram.bytes (pa - ramStart) size (m.hart.reg d.rs2) := by
        rw [Bus.store_ramWord_plain (.inr rfl), kept.ram]
      have written := tail.symm.trans (writeBack_rd rfl rfl)
      obtain ⟨rfl, rfl⟩ := Prod.mk.inj (Except.ok.inj written)
      exact .stored pa maps inside rfl rfl bytes ⟨kept.rom, kept.flash, kept.blk⟩
    · exact .device pa maps inside

/-! ### What happens between load and store -/

/-- An event that writes no byte of RAM: no instruction that stores, and no request to the disk. -/
def Machine.Quiet (event : Event) (m : Machine) : Prop :=
  match event with
  | .hart host => ∀ ready nextPc d, m.Ready host ready nextPc d → d.op.stores = false
  | .blkServe _ => False
  | .timer _ | .input _ | .blkTake => True

/-- A quiet event leaves RAM as it was. -/
theorem quiet_ram {event : Event} {m after : Machine} (quiet : m.Quiet event)
    (stepped : Machine.next event m = .ok after) : after.bus.ram = m.bus.ram := by
  -- Only a hart that stores or a served request can change RAM.
  cases event with
  | hart host =>
    obtain ⟨eid, plic, _, accessed⟩ := step_bus false
      (fun ready nextPc d started storing => (quiet ready nextPc d started).symm.trans storing)
      stepped
    exact accessed.keeps.ram
  | timer host =>
    cases Except.ok.inj stepped
    rfl
  | input byte =>
    obtain ⟨received, _, result⟩ := bind_eq_ok.mp stepped
    cases Except.ok.inj result
    rfl
  | blkTake =>
    cases Except.ok.inj stepped
    change m.bus.workerTake.ram = m.bus.ram
    unfold Bus.workerTake
    split <;> rfl
  | blkServe host => exact quiet.elim

/-- A run of quiet events leaves RAM as it was. -/
theorem quiet_run {events : List Event} {m after : Machine}
    (quiet : Runs.Along Machine.next (fun event m => m.Quiet event) m events)
    (ran : Runs.run Machine.next m events = .ok after) : after.bus.ram = m.bus.ram := by
  refine Runs.run_induction_along (fun later : Machine => later.bus.ram = m.bus.ram)
    (fun event before later kept calm stepped => ?_) rfl quiet ran
  exact (quiet_ram calm stepped).trans kept

/-- The interrupt check and the fetch leave RAM as it was. -/
theorem Machine.Ready.ram {host : Host} {m ready : Machine} {nextPc : BitVec 64} {d : Decoded}
    (started : m.Ready host ready nextPc d) : ready.bus.ram = m.bus.ram := by
  obtain ⟨polled, inst, handled, fetched, _⟩ := started
  obtain ⟨_, _, _, same⟩ := handleInterrupt_bus handled
  have reads := (Machine.fetch_accessed _ fetched).keeps.ram
  rw [reads, same]

/-! ### Load-reserved -/

/-- The low bytes of a sign-extended word are those of the word. -/
theorem signed_byte (data : BitVec 64) {i : Nat} (below : i < 4) :
    (signed 32 data >>> (8 * i)).setWidth 8 = (data >>> (8 * i)).setWidth 8 := by
  apply BitVec.eq_of_getLsbD_eq
  intro j narrow
  have low : 8 * i + j < 32 := by omega
  have inside : 8 * i + j < 64 := by omega
  simp only [signed, BitVec.getLsbD_setWidth, BitVec.getLsbD_ushiftRight,
    BitVec.getLsbD_signExtend, low, inside, decide_true, Bool.true_and, if_true]

/-- A load-reserved leaves the bytes at its address in the destination register. -/
theorem lr_value {host : Host} {m ready loaded : Machine} {nextPc pa : BitVec 64} {d : Decoded}
    {size : Nat} (started : m.Ready host ready nextPc d) (op : d.op.lrSize = some size)
    (named : d.rd ≠ 0) (stepped : m.step host = .ok loaded)
    (maps : ready.Maps host (ready.hart.reg d.rs1) pa) (inside : inRam pa) :
    ∀ i < size, (loaded.hart.reg d.rd >>> (8 * i)).setWidth 8 =
      loaded.bus.ram.bytes (pa + BitVec.ofNat 64 i - ramStart) := by
  obtain ⟨locals, retPc, executed, ran, written, rfl⟩ := started.ends stepped
  -- The two widths differ in the cast of the value, which keeps the bytes read.
  obtain ⟨cast, bytes, load⟩ : ∃ cast : BitVec 64 → BitVec 64,
      (∀ data, ∀ i < size, (cast data >>> (8 * i)).setWidth 8 =
        ((data >>> (8 * i)).setWidth 8 : BitVec 8)) ∧
      ({ m := ready, retPc := nextPc, rdVal := host.rdVal } : Locals).loadReserved host
        ready.hart.pc (ready.hart.reg d.rs1) size cast = .ok locals := by
    obtain ⟨operation, rd, rs1, rs2, imm, csrAddr⟩ := d
    cases operation with
    | lrD =>
      cases op
      exact ⟨id, fun _ _ _ => rfl, ran⟩
    | lrW =>
      cases op
      exact ⟨signed 32, fun data i below => signed_byte data below, ran⟩
    | _ => cases op
  obtain ⟨⟨data, accessed⟩, read, result⟩ := bind_eq_ok.mp load
  obtain ⟨⟨word, bus⟩, reads, rest⟩ := bind_eq_ok.mp read
  obtain ⟨middle, same, throughBus, _⟩ := maps.access size
  obtain ⟨⟨value, last⟩, physical, whole⟩ := map_eq_ok.mp ((throughBus .lrSc).symm.trans reads)
  cases whole
  obtain ⟨valid, rfl, buffer⟩ := Bus.asReadNommu_ram_ok inside physical
  cases Except.ok.inj rest
  cases Except.ok.inj result
  have tail := written.symm.trans (writeBack_rd rfl rfl)
  rw [if_pos named] at tail
  obtain ⟨rfl, rfl⟩ := Prod.mk.inj (Except.ok.inj tail)
  intro i below
  change (Function.update ready.hart.reg d.rd (cast value) d.rd >>> (8 * i)).setWidth 8 =
    last.ram.bytes (pa + BitVec.ofNat 64 i - ramStart)
  -- The register holds the cast of the word read, and the word its bytes.
  rw [Function.update_self, bytes value i below, Bus.bufferRead_byte valid buffer below,
    Machine.ram_offset]

/-! ### The result -/

/--
A store-conditional to RAM stores and returns zero in every state.

The word it replaces is the one a load-reserved has read when nothing was stored in between, and only then can this be relied on.
-/
theorem sc_stores_unreserved :
    (∀ host (m : Machine) pc nextPc (d : Decoded) size retPc after, d.op.scSize = some size →
      execute host m pc nextPc d = .ok (retPc, after) →
      ScOutcome host m pc nextPc d size retPc after) ∧
    (∀ host (m ready loaded : Machine) nextPc pa (d : Decoded) size,
      m.Ready host ready nextPc d → d.op.lrSize = some size → d.rd ≠ 0 →
      m.step host = .ok loaded → ready.Maps host (ready.hart.reg d.rs1) pa → inRam pa →
      ∀ events (before storing : Machine) later laterPc (sc : Decoded),
        Runs.Along Machine.next (fun event m => m.Quiet event) loaded events →
        Runs.run Machine.next loaded events = .ok before →
        before.Ready later storing laterPc sc →
        ∀ i < size, storing.bus.ram.bytes (pa + BitVec.ofNat 64 i - ramStart) =
          (loaded.hart.reg d.rd >>> (8 * i)).setWidth 8) := by
  refine ⟨fun _ _ _ _ _ _ _ _ op ran => execute_sc op ran, ?_⟩
  intro host m ready loaded nextPc pa d size started op named stepped maps inside events before
    storing later laterPc sc quiet ran reaches i below
  -- Quiet steps leave RAM alone, so the bytes are those that the load has seen.
  rw [reaches.ram, quiet_run quiet ran]
  exact (lr_value started op named stepped maps inside i below).symm

/-- Reserves the start of RAM with `lr.w` and stores there with `sc.w`, two instructions later. -/
def reservedProgram : List (BitVec 32) :=
  [0x00100293, 0x01f29293, 0x1002a32f, -- li t0, 1; slli t0, t0, 31; lr.w t1, (t0)
    0x00130313, 0x00000013, 0x1862a3af] -- addi t1, t1, 1; nop; sc.w t2, t1, (t0)

/-- A load-reserved and the store-conditional that follows after two other instructions. -/
theorem sc_stores_unreserved_later :
    ∃ (m ready loaded before storing after : Machine) (nextPc laterPc retPc : BitVec 64)
      (d sc : Decoded),
      m.Ready {} ready nextPc d ∧ d.op = .lrW ∧ m.step {} = .ok loaded ∧
      Runs.run Machine.next loaded (turns 2) = .ok before ∧ before.Ready {} storing laterPc sc ∧
      ScOutcome {} storing storing.hart.pc laterPc sc 4 retPc after ∧
      ∀ i < 4, storing.bus.ram.bytes (0x80000000 + BitVec.ofNat 64 i - ramStart) =
        (loaded.hart.reg d.rd >>> (8 * i)).setWidth 8 := by
  obtain ⟨m, loaded, _, _, stepped, tested⟩ :=
    reached_step_of_test reservedProgram 2
      (fun m loaded =>
        (m.findReady {}).toOption.join.any (fun found =>
          found.2.2.op = .lrW && found.2.2.rd = 6 &&
            (found.1.mmu {} (found.1.hart.reg found.2.2.rs1)).map Prod.fst =
              .ok (some 0x80000000)) &&
        testTurns (fun m => (m.findReady {}).toOption.join.all fun found => !found.2.2.op.stores) 2
          loaded &&
        (Runs.run Machine.next loaded (turns 2)).toOption.any fun before =>
          (before.findReady {}).toOption.join.any fun found =>
            found.2.2.op = .scW &&
              (execute {} found.1 found.1.hart.pc found.2.1 found.2.2).toOption.any fun _ => true)
      (by decide +kernel)
  -- The test names both instructions, the address that the first one reserves, and what is between.
  obtain ⟨both, stores⟩ := Bool.and_eq_true_iff.mp tested
  obtain ⟨reserves, calm⟩ := Bool.and_eq_true_iff.mp both
  obtain ⟨ready, nextPc, d, started, reserving⟩ := Machine.ready_of_test reserves
  obtain ⟨before, ran, stores⟩ := ok_of_test stores
  obtain ⟨storing, laterPc, sc, reaches, conditional⟩ := Machine.ready_of_test stores
  simp only [Bool.and_eq_true, decide_eq_true_eq] at reserving conditional
  obtain ⟨⟨lr, named⟩, maps⟩ := reserving
  obtain ⟨op, completes⟩ := conditional
  obtain ⟨⟨retPc, after⟩, executed, -⟩ := ok_of_test completes
  have quiet : Runs.Along Machine.next (fun event m => m.Quiet event) loaded (turns 2) := by
    refine along_of_test _ (fun m passed ready nextPc d started => ?_) calm
    simpa using started.passes passed
  refine ⟨m, ready, loaded, before, storing, after, nextPc, laterPc, retPc, d, sc, started, lr,
    stepped, ran, reaches, ?_, ?_⟩
  · exact sc_stores_unreserved.1 {} storing _ laterPc sc 4 retPc after (by rw [op]; rfl) executed
  · exact sc_stores_unreserved.2 {} m ready loaded nextPc 0x80000000 d 4 started (by rw [lr]; rfl)
      (by rw [named]; decide) stepped maps (by decide) (turns 2) before storing {} laterPc sc quiet ran
      reaches

/-- Stores 7 with `sc.w` at the start of RAM as the fifth instruction after reset. -/
def unreservedProgram : List (BitVec 32) :=
  [0x00100293, 0x01f29293, 0x00700313, 0x00100393, -- li t0, 1; slli t0, t0, 31; li t1, 7; li t2, 1
    0x1862a3af] -- sc.w t2, t1, (t0)

/-- A store-conditional returns zero in a run in which no load-reserved was executed. -/
theorem sc_needs_no_lr :
    ¬ ∀ start events (m ready after : Machine) nextPc (d : Decoded), Machine.IsReset start →
      Runs.run Machine.next start events = .ok m → m.Ready {} ready nextPc d →
      d.op = .scW → d.rd ≠ 0 → m.step {} = .ok after → after.hart.reg d.rd = 0 →
      ∃ earlier host between, events = earlier ++ .hart host :: between ∧
        ∃ (before reserving : Machine) (lrPc : BitVec 64) (lr : Decoded),
          Runs.run Machine.next start earlier = .ok before ∧
          before.Ready host reserving lrPc lr ∧ lr.op = .lrW := by
  intro always
  obtain ⟨m, after, ran, _, stepped, tested⟩ :=
    reached_step_of_test unreservedProgram 4
      (fun m after => (m.findReady {}).toOption.join.any (fun found =>
        found.2.2.op = .scW && found.2.2.rd = 7 && after.hart.reg 7 = 0))
      (by decide +kernel)
  have unreserved : (List.range 4).all fun count =>
      ((Runs.run Machine.next (Machine.boot unreservedProgram) (turns count) >>=
        Machine.findReady {}).toOption.join.all fun found => found.2.2.op ≠ .lrW) := by
    decide +kernel
  obtain ⟨ready, nextPc, d, started, tested⟩ := Machine.ready_of_test tested
  simp only [Bool.and_eq_true, decide_eq_true_eq] at tested
  obtain ⟨⟨op, named⟩, zero⟩ := tested
  obtain ⟨earlier, host, between, split, before, reserving, lrPc, lr, reached, loads, isLr⟩ :=
    always (Machine.boot unreservedProgram) _ m ready after nextPc d ⟨_, _, _, rfl⟩ ran started op
      (by rw [named]; decide) stepped (by rw [named]; exact zero)
  obtain ⟨few, same, rfl⟩ := turns_split split
  -- The turn of the load-reserved is one of those looked at.
  have none := List.all_eq_true.mp unreserved _ (List.mem_range.mpr few)
  rw [← same, reached, ok_bind, Machine.findReady_eq_some.mpr loads] at none
  exact absurd isLr (of_decide_eq_true none)

end Xemu
