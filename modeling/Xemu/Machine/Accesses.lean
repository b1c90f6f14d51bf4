import Xemu.Machine.Invariant
import Xemu.Machine.Outcome
import Xemu.Machine.Ram

/-! The accesses of the bus that a turn of the main loop is made of, and what they preserve. -/

namespace Xemu

namespace Bus

/-- The states of the devices that some accesses lead to, with writes among them only if allowed. -/
inductive Accessed (host : Host) (stores : Bool) (start : Bus) : Bus → Prop where
  /-- No access was made. -/
  | refl : Accessed host stores start start
  /-- The last access was a read. -/
  | read {bus after : Bus} (before : Accessed host stores start bus) {addr data : BitVec 64}
      {size : Nat} {params : Params}
      (last : bus.asReadNommu host addr size params = .ok (data, after)) :
      Accessed host stores start after
  /-- The last access was a write. -/
  | write (allowed : stores) {bus after : Bus} (before : Accessed host stores start bus)
      {addr data ret : BitVec 64} {size : Nat} {params : Params}
      (last : bus.asWriteNommu host addr size data params = .ok (ret, after)) :
      Accessed host stores start after

namespace Accessed

variable {host : Host} {stores : Bool} {start bus : Bus}

/-- Accesses and one more read are accesses. -/
theorem reads (before : Accessed host stores start bus) (addr : BitVec 64) (size : Nat)
    (params : Params) : Ensures (bus.asReadNommu host addr size params) fun result =>
      Accessed host stores start result.2 :=
  fun _ last => .read before last

/-- Where reads are allowed, reads and writes are. -/
theorem widen (accessed : Accessed host false start bus) : Accessed host stores start bus := by
  induction accessed with
  | refl => exact .refl
  | read before last ih => exact .read ih last
  -- There was no write among them.
  | write allowed before last ih => cases allowed

/-- Accesses after accesses are accesses. -/
theorem trans {after : Bus} (first : Accessed host stores start bus)
    (second : Accessed host stores bus after) : Accessed host stores start after := by
  induction second with
  | refl => exact first
  | read before last ih => exact .read ih last
  | write allowed before last ih => exact .write allowed ih last

/-- A property that no device breaks holds after all accesses. -/
theorem preserves {inv : Bus → Prop} (kept : Invariant inv)
    (accessed : Accessed host stores start bus) (holds : inv start) : inv bus := by
  induction accessed with
  | refl => exact holds
  | read before last ih => exact kept.asReadNommu ih _ _ _ _ last
  | write allowed before last ih => exact kept.asWriteNommu ih _ _ _ _ _ last

/-- Reads alone leave the memories and the disk as they were. -/
theorem keeps (accessed : Accessed host false start bus) : start.SameMemory bus := by
  induction accessed with
  | refl => exact ⟨rfl, rfl, rfl, rfl⟩
  | read before last ih => exact ih.trans (asReadNommu_keeps last)
  | write allowed before last ih => cases allowed

end Accessed

end Bus

open Bus (Accessed)

/-! ### Accesses through the translation -/

namespace Machine

variable {host : Host} {m : Machine}

/-- A translation makes reads only. -/
theorem mmu_accessed (va : BitVec 64) :
    Ensures (m.mmu host va) fun result => Accessed host false m.bus result.2 := by
  refine .ite (fun _ => .ok .refl) fun _ => ?_
  -- Each of the three levels reads an entry and then ends the walk or goes on.
  have start : Accessed host false m.bus m.bus := .refl
  refine .bind (start.reads _ _ _) fun ⟨pte, bus⟩ top => ?_
  refine .ite (fun _ => .ok top) fun _ => .ite (fun _ => .ok top) fun _ => ?_
  refine .bind (top.reads _ _ _) fun ⟨pte, bus⟩ middle => ?_
  refine .ite (fun _ => .ok middle) fun _ => .ite (fun _ => .ok middle) fun _ => ?_
  refine .bind (middle.reads _ _ _) fun ⟨pte, bus⟩ bottom => ?_
  exact .ite (fun _ => .ok bottom) fun _ => .ite (fun _ => .ok bottom) fun _ => .ok bottom

/-- A read through the translation makes reads only. -/
theorem asRead_accessed (va : BitVec 64) (size : Nat) (params : Params) :
    Ensures (m.asRead host va size params) fun result => Accessed host false m.bus result.2 := by
  refine .bind (mmu_accessed va) fun ⟨paddr, bus⟩ walked => ?_
  -- Without a translation the reads of the walk are all there is.
  cases paddr with
  | none => exact .ok walked
  | some paddr =>
    exact .bind (walked.reads _ _ _) fun result reached => .ok reached

/-- A write through the translation makes reads and one write. -/
theorem asWrite_accessed (va : BitVec 64) (size : Nat) (data : BitVec 64) (params : Params) :
    Ensures (m.asWrite host va size data params) fun result =>
      Accessed host true m.bus result.2 := by
  refine .bind (mmu_accessed va) fun ⟨paddr, bus⟩ walked => ?_
  -- Without a translation nothing is written.
  cases paddr with
  | none => exact .ok walked.widen
  | some paddr =>
    exact .bind (fun _ written => Accessed.write rfl walked.widen written) fun result reached =>
      .ok reached

/-- A fetch makes reads only. -/
theorem fetch_accessed :
    Ensures (m.fetch host) fun result => Accessed host false m.bus result.2.2.bus := by
  refine .ite (fun _ => ?_) fun _ => ?_
  · -- An instruction within its page is one read.
    refine .bind (asRead_accessed _ _ _) fun ⟨inst, bus⟩ read => ?_
    cases inst with
    | none => exact .ok read
    | some inst => exact .ok read
  · -- An instruction at the end of a page is two reads, the second after the first.
    refine .bind (asRead_accessed _ _ _) fun ⟨lo, bus⟩ first => ?_
    cases lo with
    | none => exact .ok first
    | some lo =>
      refine .bind (asRead_accessed (m := { m with bus }) _ _ _) fun ⟨hi, bus⟩ second => ?_
      cases hi with
      | none => exact .ok (first.trans second)
      | some hi => exact .ok (first.trans second)

end Machine

/-! ### The accesses of an instruction -/

namespace Locals

variable {host : Host} {locals : Locals} {pc addr data : BitVec 64} {size : Nat}

/-- A read of memory makes its accesses and no more. -/
theorem readMem_accessed {params : Params} {cause : BitVec 64} :
    Ensures (locals.readMem host pc addr size params cause) fun result =>
      Accessed host false locals.m.bus result.2.m.bus := by
  refine .bind (Machine.asRead_accessed _ _ _) fun ⟨data, bus⟩ read => ?_
  -- A fault changes the hart and makes no further access.
  cases data with
  | none => exact .ok read
  | some data => exact .ok read

/-- So does a write. -/
theorem writeMem_accessed {params : Params} :
    Ensures (locals.writeMem host pc addr size data params) fun result =>
      Accessed host true locals.m.bus result.2.m.bus := by
  refine .bind (Machine.asWrite_accessed _ _ _ _) fun ⟨ret, bus⟩ written => ?_
  -- A fault changes the hart and makes no further access.
  cases ret with
  | none => exact .ok written
  | some ret => exact .ok written

/-- An integer load makes the accesses of its read. -/
theorem load_accessed {cast : BitVec 64 → BitVec 64} :
    Ensures (locals.load host pc addr size cast) fun after =>
      Accessed host false locals.m.bus after.m.bus :=
  .bind readMem_accessed fun _ read => .ok read

/-- A load-reserved does. -/
theorem loadReserved_accessed {cast : BitVec 64 → BitVec 64} :
    Ensures (locals.loadReserved host pc addr size cast) fun after =>
      Accessed host false locals.m.bus after.m.bus :=
  .bind readMem_accessed fun _ read => .ok read

/-- A floating-point load does. -/
theorem loadFp_accessed {precision : Nat} :
    Ensures (locals.loadFp host pc addr size precision) fun after =>
      Accessed host false locals.m.bus after.m.bus :=
  .bind readMem_accessed fun _ read => .ok read

/-- A store makes the accesses of its write. -/
theorem store_accessed :
    Ensures (locals.store host pc addr size data) fun after =>
      Accessed host true locals.m.bus after.m.bus :=
  .bind writeMem_accessed fun _ written => .ok written

/-- A conditional store or an atomic update does. -/
theorem update_accessed {params : Params} :
    Ensures (locals.update host pc addr size data params) fun after =>
      Accessed host true locals.m.bus after.m.bus :=
  .bind writeMem_accessed fun _ written => .ok written

/-- An access to a control register makes none. -/
theorem csr_accessed {csrAddr : BitVec 12} {type : CsrOp} :
    Ensures (locals.csr host pc csrAddr data type) fun after =>
      Accessed host false locals.m.bus after.m.bus := by
  refine .andThen fun ⟨ret, hart⟩ => ?_
  -- A control register is part of the hart.
  cases ret with
  | none => exact .ok .refl
  | some ret => exact .ok .refl

end Locals

open Locals in
/-- An instruction makes accesses of the bus, and writes only when it is one that stores. -/
theorem executeOp_accessed {host : Host} {m : Machine} {pc nextPc : BitVec 64} {d : Decoded} :
    Ensures (executeOp host m pc nextPc d) fun locals =>
      Accessed host d.op.stores m.bus locals.m.bus := by
  obtain ⟨op, rd, rs1, rs2, imm, csrAddr⟩ := d
  cases op with
  | lb | lh | lw | ld | lbu | lhu | lwu => exact load_accessed
  | sb | sh | sw | sd | fsd => exact store_accessed
  | fsw => exact .andThen fun _ => store_accessed
  | lrD | lrW => exact loadReserved_accessed
  | scD | amoAddD | amoSwapD | amoXorD | amoOrD | amoAndD | amoMinD | amoMaxD | amoMinuD
  | amoMaxuD | scW | amoAddW | amoSwapW | amoXorW | amoOrW | amoAndW | amoMinW | amoMaxW
  | amoMinuW | amoMaxuW => exact update_accessed
  | flw | fld => exact loadFp_accessed
  | csrrw | csrrwi | csrrs | csrrsi | csrrc | csrrci => exact csr_accessed
  | sraiw | sraw => exact .andThen fun _ => .ok .refl
  -- The remaining operations make no access at all.
  | uret | ebreak => exact .error
  | beq | bne | blt | bge | bltu | bgeu => exact .ok (by dsimp only; split <;> exact .refl)
  | _ => exact .ok .refl

/-! ### Turns and runs -/

/-- The interrupt check polls the platform's interrupt controller and touches no other device. -/
theorem handleInterrupt_bus {m polled : Machine} {pc vector : BitVec 64}
    (handled : m.handleInterrupt pc = .ok (vector, polled)) :
    ∃ eid plic, m.bus.plic.interrupt (intrNextPriv m.hart .external = sMode) = .ok (eid, plic) ∧
      polled.bus = { m.bus with plic } := by
  obtain ⟨⟨type, found⟩, pending, result⟩ := bind_eq_ok.mp handled
  obtain ⟨⟨eid, plic⟩, interrupted, chosen⟩ := bind_eq_ok.mp pending
  refine ⟨eid, plic, interrupted, ?_⟩
  cases Except.ok.inj chosen
  -- Whether the trap is taken concerns the hart alone.
  by_cases none : (if eid ≠ 0 then IntrType.external else m.bus.clint.interrupt) = .none
  · simp only [none, if_true, pure_eq_ok, Except.ok.injEq, Prod.mk.injEq] at result
    exact result.2 ▸ rfl
  · simp only [none, if_false, pure_eq_ok, Except.ok.injEq, Prod.mk.injEq] at result
    exact result.2 ▸ rfl

/--
What a turn does to the devices: a poll, the reads of the fetch, and the accesses of the instruction.

Without writes allowed the instruction must be one that does not store.
-/
theorem step_bus {host : Host} {m after : Machine} (stores : Bool)
    (allowed : ∀ ready nextPc d, m.Ready host ready nextPc d → d.op.stores → stores)
    (stepped : m.step host = .ok after) :
    ∃ eid plic, m.bus.plic.interrupt (intrNextPriv m.hart .external = sMode) = .ok (eid, plic) ∧
      Accessed host stores { m.bus with plic } after.bus := by
  cases step_turn stepped with
  | interrupted vector trapped handled nonzero moved =>
    -- The interrupt ended the turn after the poll.
    obtain ⟨eid, plic, interrupted, same⟩ := handleInterrupt_bus handled
    refine ⟨eid, plic, interrupted, ?_⟩
    rw [moved, ← same]
    exact .refl
  | faulted polled handled vector inst trapped fetched nonzero moved =>
    -- The fetch ended it after its reads.
    obtain ⟨eid, plic, interrupted, same⟩ := handleInterrupt_bus handled
    refine ⟨eid, plic, interrupted, ?_⟩
    rw [moved, ← same]
    exact (Machine.fetch_accessed _ fetched).widen
  | performed ready nextPc d started locals ran retPc executed written moved =>
    have permitted := allowed ready nextPc d started
    obtain ⟨polled, inst, handled, fetched, decoded⟩ := started
    obtain ⟨eid, plic, interrupted, same⟩ := handleInterrupt_bus handled
    refine ⟨eid, plic, interrupted, ?_⟩
    -- The destination is a register, so writing it back leaves the devices alone.
    have executedBus := (writeBack_kept written).2.1
    have instruction := executeOp_accessed _ ran
    have fetch := Machine.fetch_accessed _ fetched
    rw [moved, ← same]
    change Accessed host stores polled.bus executed.bus
    rw [executedBus]
    -- An instruction that does not store needs no permission for writes.
    cases storing : d.op.stores with
    | false => exact fetch.widen.trans (storing ▸ instruction).widen
    | true => exact fetch.widen.trans (permitted storing ▸ storing ▸ instruction)

/-- A property of the devices that neither an access nor a poll nor a device's thread breaks. -/
structure Machine.Invariant (inv : Bus → Prop) : Prop extends Bus.Invariant inv where
  /-- Looking for a pending source preserves it. -/
  poll : ∀ (bus : Bus) supervisor, inv bus →
    Ensures (bus.plic.interrupt supervisor) fun result => inv { bus with plic := result.2 }
  /-- The thread of the local interruptor preserves it. -/
  timer : ∀ host (bus : Bus), inv bus → inv { bus with clint := bus.clint.routine host }
  /-- The thread of the serial port preserves it. -/
  input : ∀ (bus : Bus) byte, inv bus → Ensures (bus.uart.routine bus.plic byte)
    fun result => inv { bus with uart := result.1, plic := result.2 }

namespace Machine.Invariant

variable {inv : Bus → Prop}

/-- One event preserves the property. -/
theorem next (kept : Machine.Invariant inv) {event : Event} {m after : Machine}
    (holds : inv m.bus) (stepped : Machine.next event m = .ok after) : inv after.bus := by
  cases event with
  | hart host =>
    -- A turn may store, so it is a poll and accesses of both kinds.
    obtain ⟨eid, plic, interrupted, accessed⟩ := step_bus true (fun _ _ _ _ _ => rfl) stepped
    exact accessed.preserves kept.toInvariant (kept.poll _ _ holds _ interrupted)
  | timer host =>
    cases Except.ok.inj stepped
    exact kept.timer host _ holds
  | input byte =>
    obtain ⟨⟨uart, plic⟩, received, result⟩ := bind_eq_ok.mp stepped
    cases Except.ok.inj result
    exact kept.input _ _ holds _ received
  | blkTake =>
    cases Except.ok.inj stepped
    -- The thread of the block device is part of its queue work.
    exact Bus.workerTake_keeps (fun blk same => kept.blk _ blk (same ▸ ⟨rfl, rfl, rfl⟩) holds) holds
  | blkServe host =>
    obtain ⟨bus, served, result⟩ := bind_eq_ok.mp stepped
    cases Except.ok.inj result
    have writes := @Bus.Invariant.nestedWriter inv host kept.toInvariant host.fuel
    exact ((kept.toInvariant.queueWork writes).workerServe holds).ensures _ served

/-- The property holds in every reachable state when it holds in the starting ones. -/
theorem reached (kept : Machine.Invariant inv)
    (start : ∀ rom flash disk, inv (reset rom flash disk).bus) {m : Machine} (ran : m.Reached) :
    inv m.bus := by
  refine Runs.reachable_induction (fun m : Machine => inv m.bus) ?_ ?_ ran
  · rintro m ⟨rom, flash, disk, rfl⟩
    exact start rom flash disk
  · -- Every event preserves the property, so every run does.
    exact fun event m after holds stepped => kept.next holds stepped

end Machine.Invariant

end Xemu
