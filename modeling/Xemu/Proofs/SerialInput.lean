import Xemu.Lib.Runs
import Xemu.Device.Serial

/-!
The bytes the guest takes from the serial port are those that arrived, if each is taken in time.

No lock keeps the reader thread out of a register access, so an event is one statement of either.
-/

namespace Xemu

/-- The overrun bit of the line status register. -/
def Uart.lsrOe : BitVec 8 := 0x02

/-- How far the guest is in a read of the receive buffer. -/
inductive Taking where
  | idle
  /-- The status is loaded, and is yet to be stored without its bit. -/
  | loaded (lsr : BitVec 8)
  /-- The status is stored, and the buffer is yet to be loaded; the bit was set at first, or not. -/
  | cleared (full : Bool)
  deriving DecidableEq

/-- The read under way found the bit of the status set. -/
def Taking.full : Taking → Bool
  | .idle => false
  | .loaded lsr => lsr &&& Uart.lsrDr != 0
  | .cleared full => full

/-- The read under way is going to store the status. -/
def Taking.storing : Taking → Bool
  | .loaded _ => true
  | _ => false

/-- How far the reader thread is in a turn of its loop. -/
inductive Announcing where
  | idle
  /-- The byte is in the buffer, and the status is yet to be loaded. -/
  | stored
  /-- The status is loaded, and is yet to be stored with its bit. -/
  | loaded (lsr : BitVec 8)
  deriving DecidableEq

/-- The serial port between two statements, and the bytes that went in and came out so far. -/
structure Reception where
  uart : Uart
  plic : Plic := {}
  taking : Taking := .idle
  announcing : Announcing := .idle
  /-- What `getch` returned to the reader thread, in order. -/
  arrived : List (BitVec 8) := []
  /-- What the guest read while the status said it was full, each with the number of its arrival. -/
  taken : List (BitVec 8 × Nat) := []

/-- The statement that runs next, of the guest's access or of the thread. -/
inductive Statement where
  /-- The thread stores a byte that the host has for it. -/
  | input (byte : BitVec 8)
  /-- The thread loads the status. -/
  | load
  /-- The thread stores the status with the bit of a byte, and reports it. -/
  | announce
  /-- The guest reads a register, or begins to read the receive buffer. -/
  | read (addr : BitVec 64)
  /-- The guest stores the status without the bit of a byte. -/
  | clear
  /-- The guest loads the receive buffer. -/
  | finish
  /-- The guest writes a register. -/
  | write (addr data : BitVec 64) (size : Nat)
  /-- The rest of the machine does something to the interrupt controller. -/
  | other (plic : Plic)

namespace Reception

/-- The port as `main` sets it up. -/
def initial : Reception := { uart := .init 0xa }

/-- The status says that the receive buffer is full. -/
def ready (port : Reception) : Bool := port.uart.lsr &&& Uart.lsrDr != 0

/-- The effect of a statement, which is none where the guest or the thread is at another one. -/
def next (statement : Statement) (port : Reception) : Except Stop Reception :=
  match statement with
  | .input byte =>
    -- A thread that has left its loop asks the host for no byte.
    if port.uart.reading && port.announcing == .idle then
      .ok { port with
        uart := port.uart.storeByte byte
        announcing := if byte = 3 then .idle else .stored
        arrived := port.arrived ++ [byte] }
    else .ok port
  | .load =>
    match port.announcing with
    | .stored => .ok { port with announcing := .loaded port.uart.lsr }
    | _ => .ok port
  | .announce =>
    match port.announcing with
    | .loaded lsr => do
      let (uart, plic) ← port.uart.announce port.plic lsr
      return { port with uart, plic, announcing := .idle }
    | _ => .ok port
  | .read addr =>
    match port.taking with
    | .idle =>
      if addr = 0 then .ok { port with taking := .loaded port.uart.lsr }
      else do
        let (_, uart, plic) ← port.uart.read port.plic addr
        return { port with uart, plic }
    | _ => .ok port
  | .clear =>
    match port.taking with
    | .loaded lsr => do
      let (uart, plic) ← port.uart.clearStatus port.plic lsr
      return { port with uart, plic, taking := .cleared (lsr &&& Uart.lsrDr != 0) }
    | _ => .ok port
  | .finish =>
    match port.taking with
    | .cleared full =>
      let entry := (port.uart.rbr, port.arrived.length - 1)
      .ok { port with taking := .idle, taken := if full then port.taken ++ [entry] else port.taken }
    | _ => .ok port
  | .write addr data size =>
    match port.taking with
    | .idle => do
      let (uart, plic) ← port.uart.write port.plic addr data size
      return { port with uart, plic }
    | _ => .ok port
  | .other plic => .ok { port with plic }

/-! ### What is asked of a run -/

/-- The byte in the receive buffer, with the number of its arrival. -/
def last (port : Reception) : BitVec 8 × Nat := (port.uart.rbr, port.arrived.length - 1)

/-- The byte in the buffer is announced, or is going to be, and no read under way takes that back. -/
def announced (port : Reception) : Bool :=
  port.announcing != .idle || port.ready && !port.taking.storing

/-- What the guest is taking from the buffer, and what it can still take from it. -/
def waiting (port : Reception) : List (BitVec 8 × Nat) :=
  (if port.taking.full then [port.last] else []) ++ if port.announced then [port.last] else []

/-- The bytes the guest has or can still take. -/
def received (port : Reception) : List (BitVec 8 × Nat) := port.taken ++ port.waiting

/-- The guest has taken or can take every byte that arrived, in order and once. -/
def Exact (port : Reception) : Prop := port.received = port.arrived.zipIdx

/-- The status tells the guest that a byte was lost. -/
def Overrun (port : Reception) : Prop := port.uart.lsr &&& Uart.lsrOe ≠ 0

/--
A byte arrives only when the guest has taken the one before it, and is announced undisturbed.

It arrives while the status is clear, and no read that found it set is under way; it is not the one
that ends the thread; and its announcement is not stored between the load and the store with which
a read of the buffer clears the status.
-/
def Polled (statement : Statement) (port : Reception) : Prop :=
  match statement with
  | .input byte => port.uart.reading = true → port.announcing = .idle →
    port.ready = false ∧ port.taking.full = false ∧ byte ≠ 3
  | .announce => (∃ lsr, port.announcing = .loaded lsr) → port.taking.storing = false
  | _ => True

/-! ### What one statement does -/

/-- The receive side of the port: its buffer, its status, and whether its thread still runs. -/
structure SameReceiver (before after : Uart) : Prop where
  rbr : after.rbr = before.rbr
  lsr : after.lsr = before.lsr
  reading : after.reading = before.reading

/-- A write leaves the receive side alone. -/
theorem write_receiver {uart after : Uart} {plic controller : Plic} {addr data : BitVec 64}
    {size : Nat} (written : uart.write plic addr data size = .ok (after, controller)) :
    SameReceiver uart after := by
  cases (Uart.write_step written).2 <;> exact ⟨rfl, rfl, rfl⟩

/-- A read of another register than the receive buffer leaves the receive side alone. -/
theorem read_receiver {uart after : Uart} {plic controller : Plic} {addr data : BitVec 64}
    (read : uart.read plic addr = .ok (data, after, controller)) (other : addr ≠ 0) :
    SameReceiver uart after := by
  -- The other registers change the sending side at most.
  cases Uart.read_step read with
  | buffer place _ _ => exact absurd place other
  | acknowledge _ _ => exact ⟨rfl, rfl, rfl⟩
  | other _ _ => exact ⟨rfl, rfl, rfl⟩

/-- Clearing the status changes nothing else of the receive side. -/
theorem clearStatus_receiver {uart after : Uart} {plic controller : Plic} {lsr : BitVec 8}
    (cleared : uart.clearStatus plic lsr = .ok (after, controller)) :
    after.rbr = uart.rbr ∧ after.lsr = lsr &&& ~~~(Uart.lsrDr ||| Uart.lsrBi) := by
  obtain ⟨controller, _, result⟩ := bind_eq_ok.mp cleared
  cases Except.ok.inj result
  exact ⟨rfl, rfl⟩

/-- Nor does announcing a byte in it. -/
theorem announce_receiver {uart after : Uart} {plic controller : Plic} {lsr : BitVec 8}
    (announced : uart.announce plic lsr = .ok (after, controller)) :
    after.rbr = uart.rbr ∧ after.lsr = lsr ||| Uart.lsrDr := by
  unfold Uart.announce at announced
  dsimp only at announced
  split at announced
  · obtain ⟨controller, _, result⟩ := bind_eq_ok.mp announced
    cases Except.ok.inj result
    exact ⟨rfl, rfl⟩
  · cases Except.ok.inj announced
    exact ⟨rfl, rfl⟩

/-- What a statement that runs does to the port. -/
inductive Step (before : Reception) : Statement → Reception → Prop where
  /-- It leaves the receive side alone. -/
  | quiet {statement : Statement} (uart : Uart) (plic : Plic) (polled : Polled statement before)
    (same : SameReceiver before.uart uart) : Step before statement { before with uart, plic }
  /-- A byte arrives. -/
  | arrives (byte : BitVec 8) (running : before.uart.reading = true)
    (idle : before.announcing = .idle) : Step before (.input byte)
      { before with
        uart := before.uart.storeByte byte
        announcing := if byte = 3 then .idle else .stored
        arrived := before.arrived ++ [byte] }
  /-- The thread loads the status. -/
  | loads (stored : before.announcing = .stored) :
    Step before .load { before with announcing := .loaded before.uart.lsr }
  /-- The thread announces the byte. -/
  | announces (lsr : BitVec 8) (uart : Uart) (plic : Plic) (loaded : before.announcing = .loaded lsr)
    (rbr : uart.rbr = before.uart.rbr) (status : uart.lsr = lsr ||| Uart.lsrDr) :
    Step before .announce { before with uart, plic, announcing := .idle }
  /-- The guest begins to read the buffer. -/
  | begins (idle : before.taking = .idle) :
    Step before (.read 0) { before with taking := .loaded before.uart.lsr }
  /-- The guest clears the status. -/
  | clears (lsr : BitVec 8) (uart : Uart) (plic : Plic) (loaded : before.taking = .loaded lsr)
    (rbr : uart.rbr = before.uart.rbr)
    (status : uart.lsr = lsr &&& ~~~(Uart.lsrDr ||| Uart.lsrBi)) :
    Step before .clear { before with uart, plic, taking := .cleared (lsr &&& Uart.lsrDr != 0) }
  /-- The guest has the buffer. -/
  | finishes (full : Bool) (cleared : before.taking = .cleared full) :
    Step before .finish { before with
      taking := .idle
      taken := if full then before.taken ++ [before.last] else before.taken }

/-- A statement that has no effect is one of the steps. -/
theorem Step.none {statement : Statement} {port : Reception} (polled : Polled statement port) :
    Step port statement port :=
  .quiet port.uart port.plic polled ⟨rfl, rfl, rfl⟩

/-- Every statement that runs is one of the steps. -/
theorem next_step {statement : Statement} {before after : Reception}
    (stepped : next statement before = .ok after) : Step before statement after := by
  -- Each statement runs only at its own point of the code, and has no effect elsewhere.
  cases statement with
  | input byte =>
    unfold next at stepped
    dsimp only at stepped
    split at stepped
    · rename_i runs
      cases Except.ok.inj stepped
      simp only [Bool.and_eq_true, beq_iff_eq] at runs
      exact .arrives byte runs.1 runs.2
    · rename_i stays
      cases Except.ok.inj stepped
      simp only [Bool.and_eq_true, beq_iff_eq] at stays
      exact .none fun running idle => absurd ⟨running, idle⟩ stays
  | load =>
    unfold next at stepped
    dsimp only at stepped
    split at stepped
    · cases Except.ok.inj stepped
      exact .loads ‹_›
    · cases Except.ok.inj stepped
      exact .none trivial
  | announce =>
    unfold next at stepped
    dsimp only at stepped
    split at stepped
    · obtain ⟨⟨uart, plic⟩, announced, result⟩ := bind_eq_ok.mp stepped
      cases Except.ok.inj result
      obtain ⟨rbr, lsr⟩ := announce_receiver announced
      exact .announces _ uart plic ‹_› rbr lsr
    · rename_i other
      cases Except.ok.inj stepped
      exact .none fun loaded => absurd loaded.choose_spec (other _)
  | read addr =>
    unfold next at stepped
    dsimp only at stepped
    split at stepped
    · split at stepped
      · rename_i idle buffer
        cases Except.ok.inj stepped
        exact buffer ▸ .begins idle
      · obtain ⟨⟨data, uart, plic⟩, read, result⟩ := bind_eq_ok.mp stepped
        cases Except.ok.inj result
        exact .quiet uart plic trivial (read_receiver read ‹_›)
    · cases Except.ok.inj stepped
      exact .none trivial
  | clear =>
    unfold next at stepped
    dsimp only at stepped
    split at stepped
    · obtain ⟨⟨uart, plic⟩, cleared, result⟩ := bind_eq_ok.mp stepped
      cases Except.ok.inj result
      obtain ⟨rbr, lsr⟩ := clearStatus_receiver cleared
      exact .clears _ uart plic ‹_› rbr lsr
    · cases Except.ok.inj stepped
      exact .none trivial
  | finish =>
    unfold next at stepped
    dsimp only at stepped
    split at stepped
    · cases Except.ok.inj stepped
      exact .finishes _ ‹_›
    · cases Except.ok.inj stepped
      exact .none trivial
  | write addr data size =>
    unfold next at stepped
    dsimp only at stepped
    split at stepped
    · obtain ⟨⟨uart, plic⟩, written, result⟩ := bind_eq_ok.mp stepped
      cases Except.ok.inj result
      exact .quiet uart plic trivial (write_receiver written)
    · cases Except.ok.inj stepped
      exact .none trivial
  | other plic =>
    cases Except.ok.inj stepped
    exact .quiet before.uart plic trivial ⟨rfl, rfl, rfl⟩

/-- No status that is stored, or is going to be, has the overrun bit. -/
structure Silent (port : Reception) : Prop where
  status : port.uart.lsr &&& Uart.lsrOe = 0
  taking : ∀ lsr, port.taking = .loaded lsr → lsr &&& Uart.lsrOe = 0
  announcing : ∀ lsr, port.announcing = .loaded lsr → lsr &&& Uart.lsrOe = 0

/-- No statement sets the overrun bit. -/
theorem Silent.next {statement : Statement} {before after : Reception} (silent : before.Silent)
    (stepped : Reception.next statement before = .ok after) : after.Silent := by
  obtain ⟨status, taking, announcing⟩ := silent
  cases next_step stepped with
  | quiet uart plic _ same => exact ⟨same.lsr ▸ status, taking, announcing⟩
  | arrives byte _ _ =>
    refine ⟨status, taking, fun lsr loaded => ?_⟩
    -- A byte that has just arrived is not announced yet.
    dsimp only at loaded
    split at loaded <;> cases loaded
  | loads _ =>
    refine ⟨status, taking, fun lsr loaded => ?_⟩
    cases loaded
    exact status
  | announces lsr uart plic loaded _ stored =>
    have kept : ∀ lsr : BitVec 8,
      (lsr ||| Uart.lsrDr) &&& Uart.lsrOe = lsr &&& Uart.lsrOe := by decide
    refine ⟨(stored ▸ kept lsr).trans (announcing lsr loaded), taking, fun _ impossible => ?_⟩
    cases impossible
  | begins _ =>
    refine ⟨status, fun lsr loaded => ?_, announcing⟩
    cases loaded
    exact status
  | clears lsr uart plic loaded _ stored =>
    have kept : ∀ lsr : BitVec 8,
      lsr &&& ~~~(Uart.lsrDr ||| Uart.lsrBi) &&& Uart.lsrOe = lsr &&& Uart.lsrOe := by decide
    refine ⟨(stored ▸ kept lsr).trans (taking lsr loaded), fun _ impossible => ?_, announcing⟩
    cases impossible
  | finishes full _ =>
    refine ⟨status, fun _ impossible => ?_, announcing⟩
    cases impossible

/-! ### Bytes that are lost -/

/-- Some byte that arrived is not among those that the guest has or can still take. -/
def Lost (port : Reception) : Prop :=
  ∃ number < port.arrived.length, ∀ entry ∈ port.received, entry.2 ≠ number

/-- A byte waits while it is being taken or is announced, and it is the one that arrived last. -/
theorem mem_waiting {port : Reception} {entry : BitVec 8 × Nat} :
    entry ∈ port.waiting ↔
      entry = port.last ∧ (port.taking.full = true ∨ port.announced = true) := by
  unfold waiting
  cases port.taking.full <;> cases port.announced <;> simp

/-- A byte is announced by the thread that is at it, or by a status that stays. -/
theorem announced_iff {port : Reception} : port.announced = true ↔
    port.announcing ≠ .idle ∨ port.ready = true ∧ port.taking.storing = false := by
  simp [announced]

/-- A status with its bit cleared has no byte. -/
theorem dr_cleared (lsr : BitVec 8) :
    (lsr &&& ~~~(Uart.lsrDr ||| Uart.lsrBi) &&& Uart.lsrDr != 0) = false := by
  revert lsr
  decide

/-- A status with its bit set has one. -/
theorem dr_announced (lsr : BitVec 8) : ((lsr ||| Uart.lsrDr) &&& Uart.lsrDr != 0) = true := by
  revert lsr
  decide

/-- How a statement moves the bytes on: one arrives, or the last one is taken or waits as before. -/
inductive Moves (before after : Reception) : Prop where
  | arrives (arrived : after.arrived.length = before.arrived.length + 1)
      (taken : after.taken = before.taken)
  | stays (arrived : after.arrived = before.arrived) (last : after.last = before.last)
      (taken : after.taken = before.taken ∨
        before.taking.full = true ∧ after.taken = before.taken ++ [before.last])
      (waits : after.taking.full = true ∨ after.announced = true →
        before.taking.full = true ∨ before.announced = true)

/-- Every statement that runs moves the bytes on in one of the two ways. -/
theorem Step.moves {statement : Statement} {before after : Reception}
    (step : Step before statement after) : Moves before after := by
  cases step with
  | quiet uart plic _ same =>
    refine .stays rfl (by rw [last, last, same.rbr]) (.inl rfl) ?_
    simp only [announced_iff, ready, same.lsr]
    exact id
  | arrives byte _ _ => exact .arrives List.length_append rfl
  | loads stored =>
    refine .stays rfl rfl (.inl rfl) fun _ => .inr (announced_iff.mpr (.inl ?_))
    rw [stored]
    decide
  | announces lsr uart plic loaded rbr _ =>
    refine .stays rfl (by rw [last, last, rbr]) (.inl rfl) fun _ =>
      .inr (announced_iff.mpr (.inl ?_))
    rw [loaded]
    intro impossible
    cases impossible
  | begins idle =>
    refine .stays rfl rfl (.inl rfl) fun waits => .inr (announced_iff.mpr ?_)
    -- What is to be taken now is what the status announced.
    rcases waits with full | announced
    · exact .inr ⟨full, idle ▸ rfl⟩
    · exact (announced_iff.mp announced).imp id fun both => by cases both.2
  | clears lsr uart plic loaded rbr status =>
    refine .stays rfl (by rw [last, last, rbr]) (.inl rfl) fun waits => ?_
    rcases waits with full | announced
    · exact .inl (loaded ▸ full)
    · -- The status is clear now, so that it is the thread which announces.
      refine .inr (announced_iff.mpr (.inl ?_))
      rcases announced_iff.mp announced with thread | ⟨set, _⟩
      · exact thread
      · simp only [ready, status, dr_cleared] at set
        cases set
  | finishes full cleared =>
    refine .stays rfl rfl ?_ fun waits => ?_
    · cases full with
      | false => exact .inl rfl
      | true => exact .inr ⟨cleared ▸ rfl, rfl⟩
    · rcases waits with impossible | announced
      · cases impossible
      · exact .inr (announced_iff.mpr ((announced_iff.mp announced).imp id fun both =>
          ⟨both.1, cleared ▸ rfl⟩))

/-- A byte that is lost is never made up for. -/
theorem Lost.next {statement : Statement} {before after : Reception} (lost : before.Lost)
    (stepped : Reception.next statement before = .ok after) : after.Lost := by
  obtain ⟨number, arrived, missing⟩ := lost
  have old : ∀ entry ∈ before.taken, entry.2 ≠ number := fun entry taken =>
    missing entry (List.mem_append_left _ taken)
  have newest : before.taking.full = true ∨ before.announced = true →
      before.last.2 ≠ number := fun waits =>
    missing _ (List.mem_append_right _ (mem_waiting.mpr ⟨rfl, waits⟩))
  cases (next_step stepped).moves with
  | arrives length taken =>
    refine ⟨number, by omega, fun entry member => ?_⟩
    rcases List.mem_append.mp member with already | waits
    · exact old entry (taken ▸ already)
    · -- The byte that waits is a later one.
      rw [(mem_waiting.mp waits).1, last, length]
      omega
  | stays same last taken waits =>
    refine ⟨number, same ▸ arrived, fun entry member => ?_⟩
    rcases List.mem_append.mp member with already | now
    · rcases taken with taken | ⟨full, taken⟩
      · exact old entry (taken ▸ already)
      · rcases List.mem_append.mp (taken ▸ already) with before | now
        · exact old entry before
        · rw [List.mem_singleton.mp now]
          exact newest (.inl full)
    · obtain ⟨rfl, waiting⟩ := mem_waiting.mp now
      rw [last]
      exact newest (waits waiting)

/-! ### Bytes that are kept -/

/--
Every byte is taken or waits, and the thread and the guest do not meet in the buffer.

While the thread is at a byte the status is clear and no read takes one; and the status is the one
that a read under way has loaded, as long as it has not stored it.
-/
structure Kept (port : Reception) : Prop where
  exact : port.Exact
  apart : port.announcing ≠ .idle → port.ready = false ∧ port.taking.full = false
  current : port.taking.storing = true → port.taking.full = port.ready

/-- With nothing taken and nothing announced, nothing waits. -/
theorem waiting_none {port : Reception} (idle : port.taking.full = false)
    (quiet : port.announced = false) : port.waiting = [] := by
  simp [waiting, idle, quiet]

/-- With one of the two, the last byte waits once. -/
theorem waiting_one {port : Reception} (one : port.announced = !port.taking.full) :
    port.waiting = [port.last] := by
  unfold waiting
  rw [one]
  cases port.taking.full <;> rfl

/-- A byte taken by the guest was numbered in the order of the bytes taken. -/
theorem Exact.taken_number {port : Reception} (exact : port.Exact) {entry : BitVec 8 × Nat}
    (taken : entry ∈ port.taken) : entry.2 < port.taken.length := by
  obtain ⟨place, below, rfl⟩ := List.getElem_of_mem taken
  -- At its place among those that arrived stands the byte with the number of the place.
  have here : port.received[place]? = port.arrived.zipIdx[place]? := by rw [exact]
  rw [received, List.getElem?_append_left below, List.getElem?_eq_getElem below,
    List.getElem?_zipIdx] at here
  cases arrived : port.arrived[place]? with
  | none => simp [arrived] at here
  | some byte =>
    simp only [arrived, Option.map_some, Option.some.injEq] at here
    rw [here]
    simpa using below

/-- A statement that is polled for keeps every byte. -/
theorem Kept.next {statement : Statement} {before after : Reception} (kept : before.Kept)
    (polled : Polled statement before) (stepped : Reception.next statement before = .ok after) :
    after.Kept := by
  obtain ⟨exact, apart, current⟩ := kept
  cases next_step stepped with
  | quiet uart plic _ same =>
    have equal : ({ before with uart, plic } : Reception).received = before.received := by
      unfold received waiting announced ready last
      rw [same.rbr, same.lsr]
    have status : ({ before with uart, plic } : Reception).ready = before.ready := by
      unfold ready
      rw [same.lsr]
    exact ⟨equal.trans exact, status ▸ apart, status ▸ current⟩
  | arrives byte running idle =>
    obtain ⟨clear, alone, data⟩ := polled running idle
    -- The buffer was empty, so the bytes taken were all that had arrived.
    have quiet : before.announced = false := by simp [announced, idle, clear]
    have all : before.taken = before.arrived.zipIdx := by
      simpa [Exact, received, waiting_none alone quiet] using exact
    refine ⟨?_, fun _ => ⟨clear, alone⟩, current⟩
    rw [Exact, received, waiting_one ?_, all]
    · simp [last, Uart.storeByte, List.zipIdx_append]
    · simp only [announced, if_neg data, alone]
      rfl
  | loads stored =>
    have busy : before.announcing ≠ .idle := by
      rw [stored]
      decide
    refine ⟨?_, fun _ => apart busy, current⟩
    simpa [Exact, received, waiting, announced, ready, last, stored] using exact
  | announces lsr uart plic loaded rbr status =>
    have busy : before.announcing ≠ .idle := by
      rw [loaded]
      intro impossible
      cases impossible
    obtain ⟨clear, alone⟩ := apart busy
    have undisturbed := polled ⟨lsr, loaded⟩
    have set : ({ before with uart, plic, announcing := .idle } : Reception).ready = true := by
      rw [ready, status, dr_announced]
    refine ⟨?_, fun busy => absurd rfl busy, fun storing => ?_⟩
    · -- The byte waited while the thread was at it, and now it waits in the status.
      rw [Exact, received, waiting_one (by simp [announced, set, undisturbed, alone])]
      rw [Exact, received, waiting_one (by simp [announced, busy, alone])] at exact
      simpa [last, rbr] using exact
    · rw [undisturbed] at storing
      cases storing
  | begins idle =>
    refine ⟨?_, fun busy => ?_, fun _ => rfl⟩
    · cases set : before.ready with
      | false =>
        have clear : before.uart.lsr &&& Uart.lsrDr = 0 := by simpa [ready] using set
        simpa [Exact, received, waiting, announced, ready, last, idle, clear, Taking.full,
          Taking.storing] using exact
      | true =>
        -- What the status announced is now being taken.
        have alone : before.announcing = .idle := by
          by_contra busy
          rw [(apart busy).1] at set
          cases set
        rw [ready] at set
        simpa [Exact, received, waiting, announced, ready, last, idle, alone, set, Taking.full,
          Taking.storing] using exact
    · exact ⟨(apart busy).1, (apart busy).1⟩
  | clears lsr uart plic loaded rbr status =>
    have clear : ({ before with uart, plic, taking := .cleared (lsr &&& Uart.lsrDr != 0) } :
        Reception).ready = false := by
      rw [ready, status, dr_cleared]
    refine ⟨?_, fun busy => ⟨clear, ?_⟩, fun storing => by cases storing⟩
    · have zero : uart.lsr &&& Uart.lsrDr = 0 := by simpa [ready] using clear
      simpa [Exact, received, waiting, announced, ready, last, loaded, rbr, zero, Taking.full,
        Taking.storing] using exact
    · have alone := (apart busy).2
      rwa [loaded] at alone
  | finishes full cleared =>
    refine ⟨?_, fun busy => ⟨(apart busy).1, rfl⟩, fun storing => by cases storing⟩
    cases full with
    | false =>
      simpa [Exact, received, waiting, announced, ready, last, cleared, Taking.full,
        Taking.storing] using exact
    | true =>
      simpa [Exact, received, waiting, announced, ready, last, cleared, Taking.full,
        Taking.storing] using exact

/-- The bytes that are kept are no more than those that arrived, in the order of their numbers. -/
theorem Exact.length {port : Reception} (exact : port.Exact) :
    port.taken.length + port.waiting.length = port.arrived.length := by
  have lengths := congrArg List.length exact
  simpa [received] using lengths

/-- A statement that was not polled for loses a byte. -/
theorem Kept.lost {statement : Statement} {before after : Reception} (kept : before.Kept)
    (unpolled : ¬ Polled statement before) (stepped : Reception.next statement before = .ok after) :
    after.Lost := by
  obtain ⟨exact, apart, current⟩ := kept
  have length := exact.length
  cases next_step stepped with
  | quiet _ _ polled _ => exact absurd polled unpolled
  | loads _ | begins _ | clears _ _ _ _ _ _ | finishes _ _ => exact absurd trivial unpolled
  | arrives byte running idle =>
    -- The byte that waited has lost its place in the buffer, whatever the guest reads now.
    by_cases waited : before.taking.full = true ∨ before.announced = true
    · have some : 0 < before.waiting.length :=
        List.length_pos_of_mem (mem_waiting.mpr ⟨rfl, waited⟩)
      refine ⟨before.arrived.length - 1, ?_, fun entry member => ?_⟩
      · simp only [List.length_append, List.length_singleton]
        omega
      · rcases List.mem_append.mp member with taken | waits
        · have number := exact.taken_number taken
          omega
        · rw [(mem_waiting.mp waits).1]
          simp only [last, List.length_append, List.length_singleton]
          omega
    · -- Into an empty buffer only a control-C is lost, which nothing announces.
      simp only [not_or, Bool.not_eq_true] at waited
      have clear : before.ready = false := by
        by_contra set
        rw [Bool.not_eq_false] at set
        cases storing : before.taking.storing with
        | true => rw [current storing, set] at waited; cases waited.1
        | false => simp [announced, set, storing] at waited
      have control : byte = 3 := by
        by_contra data
        exact unpolled fun _ _ => ⟨clear, waited.1, data⟩
      refine ⟨before.arrived.length, by simp, fun entry member => ?_⟩
      rcases List.mem_append.mp member with taken | waits
      · have number := exact.taken_number taken
        omega
      · rcases (mem_waiting.mp waits).2 with full | thread
        · rw [waited.1] at full
          cases full
        · rcases announced_iff.mp thread with busy | ⟨set, _⟩
          · exact absurd (if_pos control) busy
          · exact absurd (clear.symm.trans set) (by decide)
  | announces lsr uart plic loaded rbr status =>
    have storing : before.taking.storing = true := by
      by_contra undisturbed
      exact unpolled fun _ => Bool.not_eq_true _ ▸ undisturbed
    have busy : before.announcing ≠ .idle := by
      rw [loaded]
      intro impossible
      cases impossible
    have alone := (apart busy).2
    have some : 0 < before.waiting.length :=
      List.length_pos_of_mem (mem_waiting.mpr ⟨rfl, .inr (announced_iff.mpr (.inl busy))⟩)
    -- The read under way takes the announcement back, and the thread is done with the byte.
    refine ⟨before.arrived.length - 1, by dsimp only; omega, fun entry member => ?_⟩
    rcases List.mem_append.mp member with taken | waits
    · have number := exact.taken_number taken
      omega
    · rcases (mem_waiting.mp waits).2 with full | thread
      · exact absurd (alone.symm.trans full) (by decide)
      · rcases announced_iff.mp thread with idle | ⟨_, still⟩
        · exact absurd rfl idle
        · exact absurd (storing.symm.trans still) (by decide)

/-- Where every byte is kept none is lost. -/
theorem Exact.not_lost {port : Reception} (exact : port.Exact) : ¬ port.Lost := by
  rintro ⟨number, below, missing⟩
  refine missing (port.arrived[number], number) ?_ rfl
  rw [exact]
  exact List.mem_zipIdx_iff_getElem?.mpr (List.getElem?_eq_getElem below)

/-! ### Whole runs -/

/-- A run along which every byte is polled for keeps all bytes, and any other run loses one. -/
theorem run_kept {before final : Reception} {statements : List Statement} (kept : before.Kept)
    (ran : Runs.run next before statements = .ok final) :
    (Runs.Along next Polled before statements ∧ final.Exact) ∨
      (¬ Runs.Along next Polled before statements ∧ final.Lost) := by
  induction statements generalizing before with
  | nil =>
    cases Except.ok.inj ran
    exact .inl ⟨trivial, kept.exact⟩
  | cons statement rest ih =>
    obtain ⟨after, stepped, remaining⟩ := Runs.run_cons_inv ran
    by_cases polled : Polled statement before
    · rcases ih (kept.next polled stepped) remaining with ⟨along, exact⟩ | ⟨broken, lost⟩
      · exact .inl ⟨.cons polled stepped along, exact⟩
      · exact .inr ⟨fun along => broken (along.2 after stepped), lost⟩
    · -- From the first loss on a number stays missing.
      refine .inr ⟨fun along => polled along.1, ?_⟩
      exact Runs.run_induction Lost (fun _ _ _ lost next => lost.next next)
        (kept.lost polled stepped) remaining

/-- The port as it is set up has lost nothing. -/
theorem initial_kept : initial.Kept :=
  ⟨rfl, fun busy => absurd rfl busy, fun storing => by cases storing⟩

/-- It tells of no loss either. -/
theorem initial_silent : initial.Silent :=
  ⟨rfl, (fun _ impossible => nomatch impossible), (fun _ impossible => nomatch impossible)⟩

/-! ### Whole accesses and whole turns -/

/-- The statements of an access or of a turn of the thread, one after another. -/
def statements : SerialEvent → List Statement
  | .input byte => [.input byte, .load, .announce]
  | .read addr => if addr = 0 then [.read 0, .clear, .finish] else [.read addr]
  | .write addr data size => [.write addr data size]
  | .other plic => [.other plic]

/-- The port between whole accesses and turns. -/
structure Whole (port : Reception) (serial : Serial) : Prop where
  uart : port.uart = serial.uart
  plic : port.plic = serial.plic
  taking : port.taking = .idle
  announcing : port.announcing = .idle
  arrived : port.arrived = serial.arrived
  taken : port.taken.map Prod.fst = serial.taken

/-- An event that happens as a whole is a run of its statements. -/
theorem run_statements {event : SerialEvent} {before after : Serial} {port : Reception}
    (stepped : Serial.next event before = .ok after) (whole : port.Whole before) :
    ∃ final, Runs.run next port (statements event) = .ok final ∧ final.Whole after := by
  obtain ⟨uart, plic, taking, announcing, arrived, taken⟩ := port
  obtain ⟨rfl, rfl, rfl, rfl, rfl, list⟩ := whole
  cases event with
  | input byte =>
    obtain ⟨⟨last, controller⟩, turned, result⟩ := bind_eq_ok.mp stepped
    cases Except.ok.inj result
    rw [Uart.routine_statements] at turned
    split at turned
    · rename_i running
      split at turned
      · -- A control-C ends the turn with its first statement.
        rename_i control
        cases Except.ok.inj turned
        subst control
        have arrives : before.arrived ++ [3] = if before.uart.reading = true then
          before.arrived ++ [3] else before.arrived := (if_pos running).symm
        refine ⟨{ uart := before.uart.storeByte 3, plic := before.plic, arrived := _, taken }, ?_,
          rfl, rfl, rfl, rfl, arrives, list⟩
        simp [statements, Runs.run, next, running]
      · rename_i data
        have arrives : before.arrived ++ [byte] = if before.uart.reading = true then
          before.arrived ++ [byte] else before.arrived := (if_pos running).symm
        refine ⟨{ uart := last, plic := controller, arrived := _, taken }, ?_, rfl, rfl, rfl, rfl,
          arrives, list⟩
        have status : (before.uart.storeByte byte).lsr = before.uart.lsr := rfl
        simp only [statements, Runs.run, next, running, beq_self_eq_true, Bool.and_self, if_true,
          if_neg data, status, turned, ok_bind, pure_eq_ok]
    · rename_i ended
      cases Except.ok.inj turned
      have arrives : before.arrived = if before.uart.reading = true then
        before.arrived ++ [byte] else before.arrived := (if_neg ended).symm
      refine ⟨{ uart := before.uart, plic := before.plic, arrived := _, taken }, ?_, rfl, rfl, rfl,
        rfl, arrives, list⟩
      simp [statements, Runs.run, next, ended]
  | read addr =>
    obtain ⟨⟨data, last, controller⟩, read, result⟩ := bind_eq_ok.mp stepped
    cases Except.ok.inj result
    by_cases buffer : addr = 0
    · subst buffer
      rw [Uart.read_statements] at read
      obtain ⟨⟨cleared, signalled⟩, clear, same⟩ := map_eq_ok.mp read
      cases same
      -- What the last statement takes is what the whole access returned.
      refine ⟨{ uart := cleared, plic := signalled, arrived := before.arrived, taken := if before.ready
        then taken ++ [(cleared.rbr, before.arrived.length - 1)] else taken }, ?_, rfl, rfl, rfl, rfl,
        rfl, ?_⟩
      · have full : (before.uart.lsr &&& Uart.lsrDr != 0) = before.ready := rfl
        simp only [statements, Runs.run, next, if_true, clear, ok_bind, pure_eq_ok, full]
      · cases before.ready with
        | false => exact list
        | true => simpa using list
    · refine ⟨{ uart := last, plic := controller, arrived := before.arrived, taken }, ?_, rfl, rfl,
        rfl, rfl, rfl, ?_⟩
      · simp only [statements, if_neg buffer, Runs.run, next, read, ok_bind, pure_eq_ok]
      · simp only [decide_eq_false buffer, Bool.false_and, Bool.false_eq_true, if_false]
        exact list
  | write addr data size =>
    obtain ⟨⟨last, controller⟩, written, result⟩ := bind_eq_ok.mp stepped
    cases Except.ok.inj result
    refine ⟨{ uart := last, plic := controller, arrived := before.arrived, taken }, ?_, rfl, rfl, rfl,
      rfl, rfl, list⟩
    simp [statements, Runs.run, next, written]
  | other plic =>
    cases Except.ok.inj stepped
    exact ⟨_, rfl, rfl, rfl, rfl, rfl, rfl, list⟩

/-- A run of whole events is one of their statements. -/
theorem run_whole {events : List SerialEvent} {before after : Serial} {port : Reception}
    (ran : Runs.run Serial.next before events = .ok after) (whole : port.Whole before) :
    ∃ final, Runs.run next port (events.flatMap statements) = .ok final ∧ final.Whole after := by
  -- The induction is on the events, each of which is some statements with nothing between them.
  induction events generalizing before port with
  | nil =>
    cases Except.ok.inj ran
    exact ⟨port, rfl, whole⟩
  | cons event rest ih =>
    obtain ⟨middle, stepped, remaining⟩ := Runs.run_cons_inv ran
    obtain ⟨between, first, kept⟩ := run_statements stepped whole
    obtain ⟨final, later, last⟩ := ih remaining kept
    exact ⟨final, (Runs.run_append first _).trans later, last⟩

end Reception

/-! ### The result -/

open Reception

/-- A byte that arrives before the guest has read the one before it is lost without a sign. -/
theorem serial_byte_lost : ¬ ∀ statements final,
    Runs.run Reception.next .initial statements = .ok final → final.Exact ∨ final.Overrun := by
  intro always
  have ran : Runs.run Reception.next .initial
      [.input 0x61, .load, .announce, .input 0x62, .load, .announce, .read 0, .clear, .finish] =
    .ok { uart := { Uart.init 0xa with rbr := 0x62, iir := 0x01 }
          arrived := [0x61, 0x62], taken := [(0x62, 1)] } := rfl
  rcases always _ _ ran with exact | told
  · exact absurd (show [((0x62 : BitVec 8), 1)] = [(0x61, 0), (0x62, 1)] from exact) (by decide)
  · exact told rfl

/--
The guest gets every byte, or is told of a loss, exactly in the runs where no byte comes too early.

The runs are of single statements: a byte comes too early when the status still announces the one
before it, or when a read is taking that one; one that is a control-C ends the reader thread
instead of being announced; and a read that clears the status while a byte is announced takes the
announcement back.
-/
theorem serial_exact_iff {statements : List Statement} {final : Reception}
    (ran : Runs.run Reception.next .initial statements = .ok final) :
    final.Exact ∨ final.Overrun ↔ Runs.Along Reception.next Polled .initial statements := by
  -- The overrun bit is never set, so being told of a loss is out of the question.
  have silent : final.Silent :=
    Runs.run_induction Silent (fun _ _ _ silent stepped => silent.next stepped) initial_silent ran
  rcases run_kept initial_kept ran with ⟨along, exact⟩ | ⟨broken, lost⟩
  · exact ⟨fun _ => along, fun _ => .inl exact⟩
  · constructor
    · rintro (exact | told)
      · exact absurd lost exact.not_lost
      · exact absurd silent.status told
    · exact fun along => absurd along broken

/-- A byte is read and another one sent while the guest reads the buffer in vain. -/
def polledRun : List Statement :=
  [.input 0x61, .load, .announce, .read 0, .clear, .finish, .read 0, .input 0x62, .clear, .load,
    .announce, .finish, .read 5, .read 0, .clear, .finish]

/-- Two bytes that are each read before the next one arrive as they were sent. -/
theorem serial_exact_polled :
    ∃ final, Runs.run Reception.next .initial polledRun = .ok final ∧
      (final.Exact ∨ final.Overrun) := by
  have along : Runs.Along Reception.next Polled .initial polledRun := by
    refine .cons (fun _ _ => by decide) rfl (.cons trivial rfl (.cons (fun _ => rfl) rfl ?_))
    refine .cons trivial rfl (.cons trivial rfl (.cons trivial rfl (.cons trivial rfl ?_)))
    refine .cons (fun _ _ => by decide) rfl (.cons trivial rfl (.cons trivial rfl ?_))
    refine .cons (fun _ => rfl) rfl (.cons trivial rfl (.cons trivial rfl ?_))
    exact .cons trivial rfl (.cons trivial rfl (.cons trivial rfl trivial))
  exact ⟨_, rfl, (serial_exact_iff rfl).mpr along⟩

end Xemu
