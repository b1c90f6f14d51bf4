import Xemu.Lib.Interleaving
import Xemu.Machine.Content
import Xemu.Machine.Program
import Xemu.Machine.Sources
import Xemu.Proofs.FetchFaults
import Xemu.Proofs.Instructions
import Xemu.Proofs.Interrupt

/-! The emulator runs programs as the instruction set does, whatever its device threads do meanwhile. -/

namespace Xemu

/-! ### The program's view -/

/-- The machine as a program sees it that runs without traps and without address translation. -/
def Machine.isa (m : Machine) : Isa.State where
  pc := m.hart.pc
  reg := m.hart.reg
  mem := m.bus.content
  hartId := m.hart.csr mhartid

/-- Nothing but the program's own instructions changes what the program sees. -/
structure Machine.Settled (m : Machine) : Prop where
  /-- Addresses are physical. -/
  bare : ¬ m.Translated
  /-- No interrupt is taken, whichever mode it would go to. -/
  masked : ∀ mode, ¬ m.hart.GlobalOn mode
  sources : m.bus.SourcesNumbered
  serial : m.bus.uart.irqNum ≠ 0
  /-- The block device has no request, so its thread writes no memory. -/
  idle : m.bus.blk.worker = .idle
  vacant : m.bus.blk.req = none
  whole : m.bus.ram.size = ramSize
  flash : m.bus.flash.size % 8 = 0
  zero : m.hart.reg 0 = 0

/-- A turn of the main loop, which is when the program takes a step. -/
def Event.isTurn : Event → Bool
  | .hart _ => true
  | _ => false

/--
A step of the instruction set that the emulator computes rightly.

Its operands are regular, and it is no addition to register zero, which is taken for the breakpoint.
-/
def Isa.EmulatedStep (layout : Isa.Layout) (s t : Isa.State) : Prop :=
  ∃ op o length, Isa.Fetches layout s op o length ∧ Isa.Executes layout s op o length t ∧
    Isa.Regular op (s.reg o.rs1) (s.reg o.rs2) o.imm ∧
    ¬ Dec16.AddsToZero (LittleEndian.load 16 s.mem s.pc 2)

/-- It is one of the steps of the instruction set. -/
theorem Isa.EmulatedStep.step {layout : Isa.Layout} {s t : Isa.State}
    (taken : Isa.EmulatedStep layout s t) : Isa.Step layout s t := by
  obtain ⟨op, o, length, fetched, executes, -⟩ := taken
  exact ⟨op, o, length, fetched, executes⟩

namespace Machine

variable {host : Host} {m : Machine}

/-- The machine is settled when `main` enters its loop. -/
theorem reset_settled (rom disk : Buffer) {flash : Buffer} (whole : flash.size % 8 = 0) :
    (reset rom flash disk).Settled where
  bare := by simp [Translated, reset]
  masked mode := by
    -- The only register that starts with a value is the one that names the extensions.
    have status : Function.update (fun _ => 0#64) misa misaInitVal (trapStatus mode) = 0 := by
      refine Function.update_of_ne ?_ ..
      unfold trapStatus
      split <;> decide
    rw [Hart.GlobalOn]
    change ¬ bit (Function.update (fun _ => 0#64) misa misaInitVal (trapStatus mode)) _ ≠ 0
    rw [status, not_not]
    simp [bit, bits]
  -- Nothing is pending, and the two devices have the numbers ten and one.
  sources := ⟨⟨rfl, (by decide : Plic.bitOf (fun _ => 0) 0 = false)⟩,
    (by decide : (0xa#32).toNat < 128), (by decide : (1#32).toNat < 128)⟩
  serial := (by decide : (0xa#32) ≠ 0)
  idle := rfl
  vacant := rfl
  whole := rfl
  flash := whole
  zero := rfl

/-! ### The parts of a turn -/

/-- The interrupt check of a settled machine changes at most a claim register. -/
theorem Settled.polled (settled : m.Settled) (pc : BitVec 64) :
    ∃ plic, m.handleInterrupt pc = .ok (0, { m with bus.plic := plic }) ∧
      Settled { m with bus.plic := plic } := by
  obtain ⟨vector, after, handled, taken | ⟨-, rfl, hart⟩⟩ :=
    handleInterrupt_chosen settled.sources.plic pc
  -- Every interrupt is masked, so none is taken and the poll is all that happens.
  · obtain ⟨type, -, -, on, -⟩ := taken
    exact absurd on (settled.masked _)
  · obtain ⟨eid, plic, interrupted, bus⟩ := handleInterrupt_bus handled
    have same : after = { m with bus.plic := plic } := by
      cases after
      cases hart
      cases bus
      rfl
    have sources := sourcesNumbered_invariant.poll m.bus _ settled.sources _ interrupted
    rw [same] at handled
    exact ⟨plic, handled, { settled with sources }⟩

/-- A program's instruction is fetched from where its counter points. -/
theorem Settled.fetched (settled : m.Settled) (even : m.hart.pc.toNat % 2 = 0)
    (code : ∀ index < 4, m.bus.layout.code (m.hart.pc + BitVec.ofNat 64 index)) :
    m.fetch host = .ok (0, LittleEndian.load 32 m.bus.content m.hart.pc 4, m) := by
  have found := @mmu_bare host m settled.bare
  -- An even address is at least two bytes before the end of its page.
  have page : ∀ addr : BitVec 64, addr.toNat % 2 = 0 → addr.toNat % 4096 + 2 ≤ 4096 := by
    intro addr even
    omega
  have second : m.hart.pc + 2 + 1 = m.hart.pc + BitVec.ofNat 64 3 := BitVec.add_assoc ..
  have low := Bus.halfword_content (by simpa using code 0 (by decide)) (code 1 (by decide))
  have high := @Bus.halfword_content m.bus (m.hart.pc + 2) (code 2 (by decide))
    (second ▸ code 3 (by decide))
  have word : LittleEndian.load 32 m.bus.content m.hart.pc 4 =
      LittleEndian.load 16 m.bus.content (m.hart.pc + 2) 2 ++
        LittleEndian.load 16 m.bus.content m.hart.pc 2 := by
    rw [LittleEndian.load_join 2 2, BitVec.setWidth_eq]
    rfl
  suffices delivered : m.fetched host =
      .ok (.word (LittleEndian.load 32 m.bus.content m.hart.pc 4), m.bus) by
    rw [fetch_eq, delivered]
    rfl
  -- An instruction across two pages is fetched by halves, any other at once.
  by_cases across : EndsPage m.hart.pc
  · rw [fetched_across across (found _) low (page _ even)]
    have next : (m.hart.pc + 2).toNat % 2 = 0 := by
      rw [BitVec.toNat_add]
      change (m.hart.pc.toNat + 2) % 2 ^ 64 % 2 = 0
      omega
    rw [asRead, found, ok_bind]
    simp only [Bus.asReadNommu_halfword high (page _ next), ok_bind, pure_eq_ok, word]
    simp [Except.map]
  · have inside : m.hart.pc.toNat % 4096 + 4 ≤ 4096 := by
      rw [EndsPage, halves_iff] at across
      omega
    rw [fetched_within across (found _), Bus.asReadNommu_halfwords low high inside, word]
    simp [Except.map]

/-! ### The effect of an instruction -/

/-- An instruction writes one register and memory at most, and goes on somewhere. -/
def Becomes (host : Host) (m : Machine) (length : BitVec 64) (d : Decoded) (t : Isa.State) : Prop :=
  ∃ retPc rd value mem,
    execute host m m.hart.pc (m.hart.pc + length) d =
      .ok (retPc, ⟨m.hart.assign rd value, m.bus.setMemory mem⟩) ∧
    (setPc ⟨m.hart.assign rd value, m.bus.setMemory mem⟩ retPc).isa = t

/-- The registers after an assignment. -/
theorem assign_reg_eq (hart : Hart) (rd : BitVec 5) (value : BitVec 64) :
    (hart.assign rd value).reg = if rd ≠ 0 then Function.update hart.reg rd value else hart.reg := by
  rw [Hart.assign]
  split <;> rfl

/-- An assignment to a register changes no control register. -/
theorem assign_csr (hart : Hart) (rd : BitVec 5) (value : BitVec 64) :
    (hart.assign rd value).csr = hart.csr := by
  rw [Hart.assign]
  split <;> rfl

/-- What a program sees of an instruction that writes a register only. -/
theorem isa_assign (m : Machine) (rd : BitVec 5) (value retPc : BitVec 64) :
    (setPc ⟨m.hart.assign rd value, m.bus⟩ retPc).isa = (m.isa.assign rd value).goto retPc := by
  simp only [isa, setPc, Isa.State.assign, Isa.State.goto, assign_reg_eq, assign_csr]

section Effects

variable {layout : Isa.Layout} {op : Op} {o : Operands} {length : BitVec 64}

/-- An operation on registers. -/
theorem becomes_compute {format : Format} (known : Isa.onRegisters op)
    (standard : op.format = some format) (fits : format.Fits o.imm)
    (regular : Isa.Regular op (m.hart.reg o.rs1) (m.hart.reg o.rs2) o.imm) :
    m.Becomes host length (.of op o) (m.isa.compute op o length) := by
  have ran := @execute_compute host m m.hart.pc (m.hart.pc + length) op o format known standard fits
    regular
  have unchanged := m.bus.setMemory_memory
  have target : (m.isa.compute op o length).pc = Isa.target op m.hart.pc (m.hart.pc + length)
      (m.hart.reg o.rs1) (m.hart.reg o.rs2) o.imm := rfl
  cases result : Isa.result op m.hart.pc (m.hart.pc + length) (m.hart.reg o.rs1) (m.hart.reg o.rs2)
      o.imm with
  | none =>
    -- Without a result the write is one that register zero ignores.
    refine ⟨(m.isa.compute op o length).pc, 0, 0, m.bus.memory, ?_, ?_⟩
    · rw [ran, result, unchanged, target]
      rfl
    · rw [unchanged, isa_assign]
      simp only [Isa.State.compute, isa, result]
      rfl
  | some value =>
    refine ⟨(m.isa.compute op o length).pc, o.rd, value, m.bus.memory, ?_, ?_⟩
    · rw [ran, result, unchanged, target]
      rfl
    · rw [unchanged, isa_assign]
      simp only [Isa.State.compute, isa, result]
      rfl

/-- A load of memory that a program can read. -/
theorem becomes_load (settled : m.Settled) {size : Nat} {sign : Bool}
    (kind : op.loadKind = some (size, sign))
    (inside : Isa.Aligned m.bus.layout.readable (m.hart.reg o.rs1 + o.imm) size) :
    m.Becomes host length (.of op o) ((m.isa.assign o.rd (extend sign
      (LittleEndian.load (8 * size) m.isa.mem (m.isa.reg o.rs1 + o.imm) size))).goto
        (m.isa.pc + length)) := by
  obtain ⟨valid, switch⟩ := @executeOp_load host m m.hart.pc (m.hart.pc + length) (.of op o) size
    sign kind
  -- Without translation the bus delivers the bytes of the content.
  have read : m.asRead host (m.hart.reg o.rs1 + o.imm) size .none =
      .ok (some (LittleEndian.load 64 m.bus.content (m.hart.reg o.rs1 + o.imm) size), m.bus) := by
    rw [asRead, mmu_bare settled.bare, ok_bind]
    simp only [Bus.asReadNommu_content settled.flash valid inside, ok_bind, pure_eq_ok]
  have narrow := (Bus.validSize_bounds valid).2
  have destination : (Decoded.of op o).rd = o.rd := by
    cases op <;> first | rfl | cases kind
  refine ⟨m.hart.pc + length, o.rd, extend sign
    (LittleEndian.load (8 * size) m.bus.content (m.hart.reg o.rs1 + o.imm) size), m.bus.memory,
    ?_, ?_⟩
  · rw [execute, switch]
    change (Locals.load _ host m.hart.pc (m.hart.reg o.rs1 + o.imm) size _ >>= _) = _
    rw [Locals.load, Locals.readMem, read]
    simp only [ok_bind, pure_eq_ok, Locals.setRd,
      ← LittleEndian.load_widen (show 8 * size ≤ 64 by omega), destination, Bus.setMemory_memory]
    exact writeBack_rd rfl rfl
  · rw [Bus.setMemory_memory, isa_assign]
    rfl

/-- A store to memory that a program can write. -/
theorem becomes_store (settled : m.Settled) {size : Nat} (kind : op.storeWidth = some size)
    (inside : Isa.Aligned m.bus.layout.writable (m.hart.reg o.rs1 + o.imm) size) :
    m.Becomes host length (.of op o) ((m.isa.store (m.isa.reg o.rs1 + o.imm) size
      (m.isa.reg o.rs2)).goto (m.isa.pc + length)) := by
  obtain ⟨valid, switch⟩ := @executeOp_store host m m.hart.pc (m.hart.pc + length) (.of op o) size
    kind
  have placed := Bus.inMemory_of_writable valid inside
  have ran := execute_of_store switch (mmu_bare settled.bare _) settled.whole valid placed
  have destination : (Decoded.of op o).rd = 0 := by
    cases op <;> first | rfl | cases kind
  rw [destination] at ran
  refine ⟨_, 0, host.rdVal, _, ran, ?_⟩
  have content := Bus.content_store settled.whole placed (m.hart.reg o.rs2)
  simp only [isa, setPc, Isa.State.store, Isa.State.goto, assign_csr]
  exact congrArg (fun mem => Isa.State.mk _ _ mem _) content

/-- A read of the number of the hart. -/
theorem becomes_hartId (settled : m.Settled) (named : o.csrAddr = mhartid) (unchanged : o.rs1 = 0) :
    m.Becomes host length (.of .csrrs o) ((m.isa.assign o.rd m.isa.hartId).goto
      (m.isa.pc + length)) := by
  -- Setting no bit of the register leaves it as it is.
  have same : m.hart.setCsr mhartid (m.hart.csr mhartid ||| 0) = m.hart := by
    have whole : m.hart.csr mhartid ||| 0#64 = m.hart.csr mhartid := BitVec.or_zero
    change m.hart.setCsr mhartid (m.hart.csr mhartid ||| 0#64) = _
    rw [whole, Hart.setCsr, Function.update_eq_self]
  refine ⟨m.hart.pc + length, o.rd, m.hart.csr mhartid, m.bus.memory, ?_, ?_⟩
  · have updated : csrUpdate host m.hart mhartid 0 .set =
        .ok (some (m.hart.csr mhartid), m.hart) := by
      rw [csrUpdate, csrRead_stored (by decide)]
      simp only [ok_bind, pure_eq_ok, CsrOp.apply, same]
    rw [execute]
    change (Locals.csr _ host m.hart.pc o.csrAddr (m.hart.reg o.rs1) .set >>= _) = _
    rw [named, unchanged, settled.zero, Locals.csr, updated, Bus.setMemory_memory]
    exact @writeBack_rd { m, retPc := m.hart.pc + length, rdVal := m.hart.csr mhartid } _ rfl rfl
  · rw [Bus.setMemory_memory, isa_assign]
    rfl

end Effects

/-- Whatever instruction the program is about to execute, the emulator executes it. -/
theorem becomes_of_step (settled : m.Settled) {t : Isa.State}
    (taken : Isa.EmulatedStep m.bus.layout m.isa t) :
    ∃ op o length d, Isa.Fetches m.bus.layout m.isa op o length ∧
      decode m.hart.pc (LittleEndian.load 32 m.bus.content m.hart.pc 4) =
        .ok (m.hart.pc + length, d) ∧ m.Becomes host length d t := by
  obtain ⟨op, o, length, fetched, executed, regular, other⟩ := taken
  have low : (LittleEndian.load 32 m.bus.content m.hart.pc 4).setWidth 16 =
      LittleEndian.load 16 m.bus.content m.hart.pc 2 := by
    rw [LittleEndian.load_join 2 2, BitVec.setWidth_eq]
    exact BitVec.setWidth_append_eq_right
  have integer : op ≠ .fsd := by
    rintro rfl
    cases executed with
    | compute known => cases known
    | load kind _ | store kind _ => cases kind
    | hartId read _ _ => cases read
  -- The decoder's output executes as the instruction with its operands does.
  obtain ⟨⟨format, standard, fits⟩, d, decoded, executes⟩ :=
    decode_encodes fetched.encoded integer (low ▸ other) m.hart.pc
  have becomes : m.Becomes host length (.of op o) t := by
    cases executed with
    | compute known => exact becomes_compute known standard fits regular
    | load kind inside => exact becomes_load settled kind inside
    | store kind inside => exact becomes_store settled kind inside
    | hartId read named unchanged =>
      subst read
      exact becomes_hartId settled named unchanged
  obtain ⟨retPc, rd, value, mem, ran, view⟩ := becomes
  exact ⟨op, o, length, d, fetched, decoded, retPc, rd, value, mem,
    (executes _ _ _).trans ran, view⟩

/-! ### Turns and runs -/

/-- An instruction leaves a settled machine settled. -/
theorem Settled.executed (settled : m.Settled) (retPc value : BitVec 64) (rd : BitVec 5)
    (mem : BitVec 64 → BitVec 8) :
    (setPc ⟨m.hart.assign rd value, m.bus.setMemory mem⟩ retPc).Settled := by
  have priv : (m.hart.assign rd value).priv = m.hart.priv := by
    rw [Hart.assign]
    split <;> rfl
  have csr := assign_csr m.hart rd value
  constructor
  case bare =>
    simp only [Translated, setPc, priv, csr]
    exact settled.bare
  case masked =>
    simp only [Hart.GlobalOn, setPc, csr]
    exact settled.masked
  case sources => exact ⟨settled.sources.plic, settled.sources.uart, settled.sources.blk⟩
  case serial => exact settled.serial
  case idle => exact settled.idle
  case vacant => exact settled.vacant
  case whole => exact (Bus.size_setMemory _ _).trans settled.whole
  case flash => exact settled.flash
  -- A result for register zero is dropped.
  case zero =>
    change (m.hart.assign rd value).reg 0 = 0
    rw [assign_reg_eq]
    split
    · rename_i some
      rw [Function.update_of_ne (Ne.symm some), settled.zero]
    · exact settled.zero

/-- No program starts below the ROM. -/
theorem above_of_code (code : m.bus.layout.code m.hart.pc) : ¬ m.hart.pc < 0x1000 := by
  obtain ⟨buffer, memory, -⟩ := (Bus.byteAt_isSome m.bus m.hart.pc).mp code
  have taken : (AddressSpace.route AddressSpace.rootChildren m.hart.pc).1 ≠ .dummy := by
    intro none
    rw [none] at memory
    cases memory
  obtain ⟨region, member, inside, -⟩ := AddressSpace.exists_contains taken
  -- The ROM is the first of the regions.
  have starts : ∀ region ∈ AddressSpace.rootChildren, 0x1000 ≤ region.start := by decide
  simp only [AddressSpace.contains, Bool.and_eq_true, decide_eq_true_eq] at inside
  exact BitVec.not_lt.mpr (BitVec.le_trans (starts region member) inside.1)

/-- The machine is settled and shows the program its state, in a memory laid out in some way. -/
structure Shows (layout : Isa.Layout) (m : Machine) (s : Isa.State) : Prop where
  settled : m.Settled
  isa : m.isa = s
  layout : m.bus.layout = layout

/-- A turn of the main loop is a step of the program. -/
theorem Shows.turn {layout : Isa.Layout} {s t : Isa.State} (shows_ : m.Shows layout s)
    (taken : Isa.EmulatedStep layout s t) :
    ∃ after, m.step host = .ok after ∧ after.Shows layout t := by
  obtain ⟨settled, rfl, rfl⟩ := shows_
  obtain ⟨plic, handled, ready⟩ := settled.polled m.hart.pc
  obtain ⟨op, o, length, d, fetched, decoded, retPc, rd, value, mem, ran, view⟩ :=
    @becomes_of_step host { m with bus.plic := plic } ready _ taken
  have read := @Settled.fetched host _ ready fetched.even fetched.code
  have started : m.Ready host { m with bus.plic := plic } (m.hart.pc + length) d :=
    ⟨_, _, handled, read, decoded⟩
  have first : m.bus.layout.code m.hart.pc := by
    have code : m.bus.layout.code (m.hart.pc + 0#64) := fetched.code 0 (by decide)
    rwa [BitVec.add_zero] at code
  refine ⟨_, ?_, ready.executed retPc value rd mem, view, Bus.layout_congr rfl rfl rfl⟩
  rw [started.step (above_of_code first), ran]
  rfl

/-- A byte that arrives at the serial port is taken over. -/
theorem Settled.received (settled : m.Settled) (byte : BitVec 8) :
    ∃ uart plic, m.bus.uart.routine m.bus.plic byte = .ok (uart, plic) := by
  have small := settled.sources.uart
  have signalled : ∃ plic, m.bus.plic.signal m.bus.uart.irqNum = .ok plic := by
    rw [Plic.signal, Plic.updatePending, if_neg settled.serial, dif_pos (by omega)]
    exact ⟨_, rfl⟩
  obtain ⟨plic, signalled⟩ := signalled
  dsimp only [Uart.routine]
  split
  · exact ⟨_, _, rfl⟩
  · split
    · exact ⟨_, _, rfl⟩
    · split
      · exact ⟨_, plic, by rw [signalled]; rfl⟩
      · exact ⟨_, _, rfl⟩

/-- The number of the serial port never changes. -/
theorem routine_irqNum {uart after : Uart} {plic controller : Plic} {byte : BitVec 8}
    (turned : uart.routine plic byte = .ok (after, controller)) : after.irqNum = uart.irqNum := by
  cases Uart.routine_step turned <;> rfl

/-- A step of a device's thread is none of the program's. -/
theorem Shows.device {layout : Isa.Layout} {s : Isa.State} (shows_ : m.Shows layout s)
    {event : Event} (device : event.isTurn = false) :
    ∃ after, m.next event = .ok after ∧ after.Shows layout s := by
  obtain ⟨settled, rfl, rfl⟩ := shows_
  cases event with
  | hart host => cases device
  | timer host =>
    exact ⟨_, rfl, { settled with sources := sourcesNumbered_invariant.timer host _ settled.sources },
      rfl, rfl⟩
  | input byte =>
    obtain ⟨uart, plic, received⟩ := settled.received byte
    have sources := sourcesNumbered_invariant.input _ byte settled.sources _ received
    refine ⟨{ m with bus.uart := uart, bus.plic := plic }, ?_,
      { settled with sources, serial := (routine_irqNum received) ▸ settled.serial }, rfl, rfl⟩
    rw [next, received]
    rfl
  -- Without a request the thread of the block device has nothing to do.
  | blkTake =>
    have none : m.bus.workerTake = m.bus := by
      rw [Bus.workerTake, settled.idle, settled.vacant]
    exact ⟨m, by rw [next, none], settled, rfl, rfl⟩
  | blkServe host =>
    refine ⟨m, ?_, settled, rfl, rfl⟩
    rw [next, Bus.workerServe, settled.idle]
    rfl

/-- The emulator simulates a program that keeps to instructions it computes rightly. -/
theorem simulates (layout : Isa.Layout) :
    Runs.Simulates next Event.isTurn (Isa.EmulatedStep layout) (Shows layout) where
  advances := by
    rintro (host | _ | _ | _ | _) m s t turn shows_ taken
    · exact shows_.turn taken
    all_goals cases turn
  stutters := fun event m s device shows_ => shows_.device device

end Machine

open Triples

/--
The emulator refines the instruction set over whole runs, for every interleaving with its threads.

The program is any run that the instruction set defines, from what a settled emulator shows of itself,
by steps that the emulator computes rightly. With a turn of the main loop for each step the emulator
completes, however many steps of the device threads stand between the turns, and shows the program's
last state.
-/
theorem program_refined {m : Machine} (settled : m.Settled) {t : Isa.State} {count : Nat}
    (ran : Steps (Isa.EmulatedStep m.bus.layout) count m.isa t) {events : List Event}
    (turns : events.countP Event.isTurn = count) :
    ∃ after, Runs.run Machine.next m events = .ok after ∧ after.Settled ∧ after.isa = t ∧
      after.bus.layout = m.bus.layout := by
  obtain ⟨after, completed, shows_⟩ :=
    (Machine.simulates m.bus.layout).run ⟨settled, rfl, rfl⟩ ran turns
  exact ⟨after, completed, shows_.settled, shows_.isa, shows_.layout⟩

/-- So a program in the ROM that doubles a number runs, while the devices take their own steps. -/
theorem program_refined_doubling :
    let m := Machine.boot [0x00500093, 0x00108133]
    ∃ after, Runs.run Machine.next m
        [.timer {}, .hart {}, .input 0x61, .blkTake, .hart {}, .timer {}] = .ok after ∧
      after.hart.pc = 0x1008 ∧ after.hart.reg 2 = 10 := by
  intro m
  have first : Isa.EmulatedStep m.bus.layout m.isa
      (m.isa.compute .addi { rd := 1, imm := 5 } 4) := by
    refine ⟨.addi, { rd := 1, imm := 5 }, 4, ⟨by decide, ?_, .full rfl ?_ (by decide)⟩,
      .compute rfl, ⟨by decide, by decide, trivial, trivial⟩, by decide⟩
    · exact (by decide : ∀ index < 4, (m.bus.byteAt (0x1000 + BitVec.ofNat 64 index)).isSome)
    · exact (by decide : ((5 : BitVec 64).setWidth 12).signExtend 64 = 5)
  have second : Isa.EmulatedStep m.bus.layout (m.isa.compute .addi { rd := 1, imm := 5 } 4)
      ((m.isa.compute .addi { rd := 1, imm := 5 } 4).compute .add
        { rd := 2, rs1 := 1, rs2 := 1 } 4) := by
    refine ⟨.add, { rd := 2, rs1 := 1, rs2 := 1 }, 4, ⟨by decide, ?_, .full rfl ?_ (by decide)⟩,
      .compute rfl, ⟨by decide, by decide, trivial, trivial⟩, by decide⟩
    · exact (by decide : ∀ index < 4, (m.bus.byteAt (0x1004 + BitVec.ofNat 64 index)).isSome)
    · trivial
  have turns : [Event.timer {}, .hart {}, .input 0x61, .blkTake, .hart {}, .timer {}].countP
      Event.isTurn = 2 := rfl
  obtain ⟨after, ran, -, view, -⟩ := program_refined (Machine.reset_settled _ _ rfl)
    (.head first (.head second (.refl _))) turns
  refine ⟨after, ran, ?_, ?_⟩
  · exact (congrArg Isa.State.pc view).trans (by decide)
  · exact (congrFun (congrArg Isa.State.reg view) 2).trans (by decide)

end Xemu
