import Mathlib.Data.List.TakeDrop
import Xemu.Lib.Runs
import Xemu.Device.Source
import Xemu.Device.Serial

/-! Whether a written byte is followed by another interrupt, and how much of a queue is sent without it. -/

namespace Xemu

namespace Serial

/-- The source of the serial port in the interrupt controller. -/
def source : Fin 128 := 0xa

/-- An interrupt of the serial port waits in the interrupt controller. -/
def signalled (serial : Serial) : Bool := Plic.bitOf serial.plic.pending source

/-- The transmitter or a cause before it is identified, and the interrupt waits. -/
structure Reports (serial : Serial) : Prop where
  identified : serial.uart.iir &&& Uart.iirNoInt = 0 ∧ serial.uart.iir &&& Uart.iirId ≠ Uart.iirMsi
  waits : serial.signalled

/-- The event writes a byte to be sent while the interrupt of the transmitter is enabled. -/
def Sends (event : SerialEvent) (serial : Serial) : Prop :=
  (∃ data, event = .write 0 data 1) ∧ serial.uart.lcr &&& Uart.lcrDlab = 0 ∧
    serial.uart.ier &&& Uart.ierThri ≠ 0

/-- After a byte was written the port reports its transmitter as empty again. -/
def Rearms (event : SerialEvent) (serial : Serial) : Prop :=
  Sends event serial → ∀ after, next event serial = .ok after → after.Reports

/-- Before a byte is written the port still reports its transmitter, or a cause before it. -/
def Unacknowledged (event : SerialEvent) (serial : Serial) : Prop :=
  Sends event serial → serial.Reports

/-- What was printed, in order. -/
def sent (serial : Serial) : List (BitVec 8) := serial.uart.printed.reverse

/-! ### A byte written -/

/-- The port after a byte was printed. -/
def print (serial : Serial) (byte : BitVec 8) : Serial :=
  { serial with uart := serial.uart.transmitted byte }

section Sending

variable {serial : Serial}

/-- With the divisor latch closed a write of the data register prints, and reports nothing. -/
theorem next_send (closed : serial.uart.lcr &&& Uart.lcrDlab = 0) (data : BitVec 64) :
    next (.write 0 data 1) serial = .ok (serial.print (data.setWidth 8)) := by
  have stored : serial.uart.write serial.plic 0 data 1 =
      .ok (serial.uart.transmitted (data.setWidth 8), serial.plic) := if_neg (not_not.mpr closed)
  exact bind_of_ok stored rfl

/-- After a byte was written the port reports what it reported before. -/
theorem rearms_iff (event : SerialEvent) (serial : Serial) :
    Rearms event serial ↔ Unacknowledged event serial := by
  -- The write leaves the identification and the controller as they are, in both directions.
  constructor
  · rintro rearms ⟨⟨data, rfl⟩, closed, enabled⟩
    obtain ⟨identified, waits⟩ := rearms ⟨⟨data, rfl⟩, closed, enabled⟩ _ (next_send closed data)
    exact ⟨identified, waits⟩
  · rintro still ⟨⟨data, rfl⟩, closed, enabled⟩ after stepped
    obtain ⟨identified, waits⟩ := still ⟨⟨data, rfl⟩, closed, enabled⟩
    cases Except.ok.inj ((next_send closed data).symm.trans stepped)
    exact ⟨identified, waits⟩

end Sending

/-! ### A driver -/

/-- The writes that send some bytes. -/
def fill (bytes : List (BitVec 8)) : List SerialEvent :=
  bytes.map fun byte => .write 0 (byte.setWidth 64) 1

/-- The address of the claim and complete register of the supervisor. -/
def claimAddr : BitVec 64 := 0x201004

/--
What a driver does in an interrupt: it claims the source, and sends a batch if the transmitter is the cause.

The hart has put the number of the source into the claim register when it took the interrupt.
-/
def handle (batch : Nat) (serial : Serial) (queue : List (BitVec 8)) :
    Except Stop (Serial × List (BitVec 8)) := do
  let (id, plic) ← (serial.plic.setClaim true 0xa).read claimAddr
  let (iir, uart, plic) ← serial.uart.read plic 2
  let cause : BitVec 8 := iir.setWidth 8 &&& (Uart.iirId ||| Uart.iirNoInt)
  let bytes := if cause = Uart.iirThri then queue.take batch else []
  let serial ← Runs.run next { serial with uart, plic } (fill bytes)
  let plic ← serial.plic.write claimAddr id
  return ({ serial with plic }, queue.drop bytes.length)

/--
The turns of a driver that sends from a queue: it serves an interrupt if one waits.

After each of its turns other things happen to the port.
-/
def drive (batch : Nat) : List (List SerialEvent) → Serial → List (BitVec 8) →
    Except Stop (Serial × List (BitVec 8))
  | [], serial, queue => .ok (serial, queue)
  | events :: turns, serial, queue => do
    let (serial, queue) ←
      if serial.signalled then handle batch serial queue else .ok (serial, queue)
    let serial ← Runs.run next serial events
    drive batch turns serial queue

/--
What raises no interrupt and sends no byte.

An interrupt is raised by a byte that is announced, by a read of the receive buffer, by a change of the
enable register, and by a signal from elsewhere.
-/
def Quiet (event : SerialEvent) (serial : Serial) : Prop :=
  match event with
  | .input byte => serial.uart.reading = true → byte ≠ 3 → serial.uart.ier &&& Uart.ierRdi = 0
  | .read addr => addr ≠ 0
  | .write addr data _ => addr ≠ 0 ∧ (addr = 1 → serial.uart.lcr &&& Uart.lcrDlab = 0 →
    (serial.uart.ier.setWidth 64 ^^^ data) &&& 0x0f = 0)
  | .other plic => Plic.bitOf plic.pending source = false

/-- The port after the interrupt of its transmitter was claimed and acknowledged. -/
def acknowledge (serial : Serial) (plic : Plic) : Serial :=
  { serial with uart := serial.uart.acknowledged, plic }

/-- The driver has enabled the interrupt of the transmitter, which is the one that waits. -/
structure Raised (serial : Serial) : Prop where
  closed : serial.uart.lcr &&& Uart.lcrDlab = 0
  enabled : serial.uart.ier &&& Uart.ierThri ≠ 0
  identified : serial.uart.iir = Uart.iirThri
  waits : serial.signalled

section Driver

variable {serial : Serial}

/-- Bytes are printed in order, and neither the identification nor the controller changes. -/
theorem run_fill (closed : serial.uart.lcr &&& Uart.lcrDlab = 0) (bytes : List (BitVec 8)) :
    ∃ after, Runs.run next serial (fill bytes) = .ok after ∧ after.sent = serial.sent ++ bytes ∧
      after.plic = serial.plic := by
  -- Each byte is printed by a port whose latch is closed as that of the first was.
  induction bytes generalizing serial with
  | nil => exact ⟨serial, rfl, (List.append_nil _).symm, rfl⟩
  | cons byte rest ih =>
    have stepped := next_send closed (byte.setWidth 64)
    have later : (serial.print ((byte.setWidth 64).setWidth 8)).uart.lcr &&& Uart.lcrDlab = 0 :=
      closed
    obtain ⟨after, ran, printed, kept⟩ := ih later
    refine ⟨after, (Runs.run_cons_ok stepped _).trans ran, printed.trans ?_, kept⟩
    simp [sent, print, Uart.transmitted]

/-- A claim takes the interrupt out of the controller. -/
theorem claimed (plic : Plic) : ∃ after, (plic.setClaim true 0xa).read claimAddr = .ok (0xa, after) ∧
    Plic.bitOf after.pending source = false ∧ after.scc = 0xa := by
  -- The bit of the source lies in the first word.
  have cleared : (plic.setClaim true 0xa).clearPendingBit 0xa = .ok { plic with
      scc := 0xa
      pending := Function.update plic.pending 0 (plic.pending 0 &&& ~~~(1#32 <<< 10)) } := rfl
  refine ⟨_, bind_of_ok cleared rfl, ?_, rfl⟩
  rw [Plic.clearPendingBit_bitOf cleared,
    show decide (BitVec.ofNat 32 source ≠ 0xa) = false by decide, Bool.and_false]

/-- The driver sends one batch, after which no interrupt waits. -/
theorem handle_raised (raised : serial.Raised) (batch : Nat) (queue : List (BitVec 8)) :
    ∃ after, handle batch serial queue = .ok (after, queue.drop batch) ∧
      after.sent = serial.sent ++ queue.take batch ∧ after.signalled = false := by
  obtain ⟨controller, claim, taken, number⟩ := claimed serial.plic
  -- The identification shows the transmitter, and reading it acknowledges that.
  have identified : serial.uart.read controller 2 =
      .ok (0x02, (serial.acknowledge controller).uart, controller) := by
    change (if serial.uart.iir &&& Uart.iirId = Uart.iirThri then _ else _) = _
    rw [raised.identified]
    rfl
  have closed : (serial.acknowledge controller).uart.lcr &&& Uart.lcrDlab = 0 := raised.closed
  obtain ⟨after, ran, printed, kept⟩ := run_fill closed (queue.take batch)
  have completed : after.plic.write claimAddr 0xa = .ok { after.plic with scc := 0 } := by
    rw [kept]
    change (if controller.scc ≠ 0xa then _ else _) = _
    rw [number]
    rfl
  have left : queue.drop (queue.take batch).length = queue.drop batch := by
    rw [List.length_take]
    rcases Nat.le_total batch queue.length with short | long
    · rw [Nat.min_eq_left short]
    · rw [Nat.min_eq_right long, List.drop_length, List.drop_eq_nil_of_le long]
  refine ⟨{ after with plic := { after.plic with scc := 0 } }, ?_, printed, ?_⟩
  · refine bind_of_ok claim ?_
    refine bind_of_ok identified ?_
    refine bind_of_ok ran ?_
    refine bind_of_ok completed ?_
    rw [← left]
    rfl
  · -- Neither the bytes nor the completion set the bit that the claim cleared.
    change Plic.bitOf after.plic.pending source = false
    rw [kept]
    exact taken

/-- A byte that is not announced is not signalled either. -/
theorem routine_quiet {uart after : Uart} {plic controller : Plic} {byte : BitVec 8}
    (quiet : uart.reading = true → byte ≠ 3 → uart.ier &&& Uart.ierRdi = 0)
    (turned : uart.routine plic byte = .ok (after, controller)) :
    controller = plic ∧ after.printed = uart.printed := by
  -- One of the steps signals, and it is the one excluded.
  cases Uart.routine_step turned with
  | report reading more enabled _ => exact absurd (quiet reading more) enabled
  | ended _ | control _ _ | store _ _ _ => exact ⟨rfl, rfl⟩

/-- Of the reads that of the receive buffer alone signals an interrupt. -/
theorem read_quiet {uart after : Uart} {plic controller : Plic} {addr data : BitVec 64}
    (other : addr ≠ 0) (read : uart.read plic addr = .ok (data, after, controller)) :
    controller = plic ∧ after.printed = uart.printed := by
  cases Uart.read_step read with
  | buffer place _ _ => exact absurd place other
  | acknowledge _ _ | other _ _ => exact ⟨rfl, rfl⟩

/-- Of the writes that of the enable register alone signals an interrupt, if it changes one of four bits. -/
theorem write_quiet {uart after : Uart} {plic controller : Plic} {addr data : BitVec 64}
    {size : Nat} (other : addr ≠ 0) (quiet : addr = 1 → uart.lcr &&& Uart.lcrDlab = 0 →
      (uart.ier.setWidth 64 ^^^ data) &&& 0x0f = 0)
    (written : uart.write plic addr data size = .ok (after, controller)) :
    controller = plic ∧ after.printed = uart.printed := by
  -- A change of the enable bits is excluded, and so is a byte to be sent.
  cases (Uart.write_step written).2 with
  | transmit place _ => exact absurd place other
  | enable place closed changed _ => exact absurd (quiet place closed) changed
  | divisor _ _ _ | same _ _ _ | identification _ | lineControl _ | modemControl _
  | modemStatus _ | scratch _ => exact ⟨rfl, rfl⟩

/-- A quiet event neither lets an interrupt wait nor sends a byte. -/
theorem next_quiet {event : SerialEvent} {after : Serial} (silent : serial.signalled = false)
    (quiet : Quiet event serial) (stepped : next event serial = .ok after) :
    after.signalled = false ∧ after.sent = serial.sent := by
  -- The port and the controller are all that an event reaches.
  cases event with
  | input byte =>
    obtain ⟨⟨uart, plic⟩, turned, result⟩ := bind_eq_ok.mp stepped
    cases Except.ok.inj result
    obtain ⟨rfl, printed⟩ := routine_quiet quiet turned
    exact ⟨silent, congrArg List.reverse printed⟩
  | read addr =>
    obtain ⟨⟨data, uart, plic⟩, read, result⟩ := bind_eq_ok.mp stepped
    cases Except.ok.inj result
    obtain ⟨rfl, printed⟩ := read_quiet quiet read
    exact ⟨silent, congrArg List.reverse printed⟩
  | write addr data size =>
    obtain ⟨⟨uart, plic⟩, written, result⟩ := bind_eq_ok.mp stepped
    cases Except.ok.inj result
    obtain ⟨rfl, printed⟩ := write_quiet quiet.1 quiet.2 written
    exact ⟨silent, congrArg List.reverse printed⟩
  | other plic =>
    cases Except.ok.inj stepped
    exact ⟨quiet, rfl⟩

/-- In quiet surroundings a driver for whom no interrupt waits sends nothing. -/
theorem drive_silent (silent : serial.signalled = false) {batch : Nat}
    {turns : List (List SerialEvent)} {queue rest : List (BitVec 8)} {after : Serial}
    (quiet : Runs.Along next Quiet serial turns.flatten)
    (driven : drive batch turns serial queue = .ok (after, rest)) :
    rest = queue ∧ after.sent = serial.sent := by
  induction turns generalizing serial with
  | nil =>
    cases Except.ok.inj driven
    exact ⟨rfl, rfl⟩
  | cons events turns ih =>
    rw [drive, silent, if_neg (by decide), ok_bind] at driven
    obtain ⟨later, ran, remaining⟩ := bind_eq_ok.mp driven
    rw [List.flatten_cons] at quiet
    -- What happens between two turns lets no interrupt wait, so the next turn is like this one.
    obtain ⟨still, same⟩ := Runs.run_induction_along
      (fun state => state.signalled = false ∧ state.sent = serial.sent)
      (fun event before after holds calm stepped => by
        obtain ⟨waits, sent⟩ := next_quiet holds.1 calm stepped
        exact ⟨waits, sent.trans holds.2⟩) ⟨silent, rfl⟩ quiet.take ran
    obtain ⟨left, sent⟩ := ih still (quiet.drop ran) remaining
    exact ⟨left, sent.trans same⟩

/-- A driver whose interrupt was raised sends one batch, and in quiet surroundings no other. -/
theorem drive_raised (raised : serial.Raised) {batch : Nat} {events : List SerialEvent}
    {turns : List (List SerialEvent)} {queue rest : List (BitVec 8)} {after : Serial}
    (quiet : ∀ handled left, handle batch serial queue = .ok (handled, left) →
      Runs.Along next Quiet handled (events :: turns).flatten)
    (driven : drive batch (events :: turns) serial queue = .ok (after, rest)) :
    rest = queue.drop batch ∧ after.sent = serial.sent ++ queue.take batch := by
  obtain ⟨handled, served, printed, silent⟩ := handle_raised raised batch queue
  -- From the state the handler leaves on, its turn is that of a driver that has nothing to do.
  have remaining : drive batch (events :: turns) handled (queue.drop batch) = .ok (after, rest) := by
    rw [drive, if_pos raised.waits, served] at driven
    rw [drive, silent]
    exact driven
  obtain ⟨left, sent⟩ := drive_silent silent (quiet _ _ served) remaining
  exact ⟨left, sent.trans printed⟩

end Driver

/-- The port once a driver has enabled the interrupt of the transmitter. -/
def enabledPort : Serial :=
  { uart := { Uart.init 0xa with ier := 0x02, iir := 0x02, thrPending := true }
    plic := { pending := Function.update (fun _ => 0) (Plic.word source) 0x400 } }

/-- Enabling the interrupt raises it. -/
theorem enabledPort_reached : Runs.run next .initial [.write 1 0x02 1] = .ok enabledPort := rfl

/-- The interrupt is the only one that waits. -/
theorem enabledPort_raised : enabledPort.Raised where
  closed := rfl
  enabled := by decide
  identified := rfl
  waits := by decide

end Serial

/-- A byte written after the interrupt was acknowledged is not followed by another, nor is a second batch. -/
theorem transmitter_not_rearmed :
    (¬ ∀ events, Runs.Along Serial.next Serial.Rearms .initial events) ∧
      ∀ count after, Serial.drive 1 (List.replicate count []) .enabledPort [0x61, 0x62] ≠
        .ok (after, []) := by
  constructor
  · intro always
    -- The identification is read between enabling the interrupt and writing the byte.
    have along := always [.write 1 0x02 1, .read 2, .write 0 0x61 1]
    have rearmed := ((along.2 _ rfl).2 _ rfl).1 ⟨⟨_, rfl⟩, rfl, by decide⟩ _ rfl
    exact absurd rearmed.identified.1 (by decide)
  · rintro (_ | count) after driven
    · cases Except.ok.inj driven
    · rw [List.replicate_succ] at driven
      -- Nothing else happens to the port, so that its surroundings are quiet.
      have left := (Serial.drive_raised Serial.enabledPort_raised (fun handled _ _ => by
        rw [List.flatten_cons, List.flatten_replicate_nil]
        trivial) driven).1
      cases left

/--
Every byte written is followed by a report of the transmitter exactly in the runs where each is
written while one is still there.

Writing a byte raises none, so that a driver which sends a batch in each interrupt sends the first one
only, unless something else raises an interrupt: it comes to the end of a queue exactly when that is no
longer than a batch.
-/
theorem transmit_session_iff (events : List SerialEvent) {start : Serial} (raised : start.Raised)
    {batch : Nat} {queue rest : List (BitVec 8)} {between : List SerialEvent}
    {turns : List (List SerialEvent)} {after : Serial}
    (quiet : ∀ handled left, Serial.handle batch start queue = .ok (handled, left) →
      Runs.Along Serial.next Serial.Quiet handled (between :: turns).flatten)
    (driven : Serial.drive batch (between :: turns) start queue = .ok (after, rest)) :
    (Runs.Along Serial.next Serial.Rearms .initial events ↔
      Runs.Along Serial.next Serial.Unacknowledged .initial events) ∧
    rest = queue.drop batch ∧ after.sent = start.sent ++ queue.take batch ∧
      (rest = [] ↔ queue.length ≤ batch) := by
  constructor
  · -- The write changes nothing that is reported, so the two conditions are the same at each step.
    constructor
    · exact .mono fun event serial => (Serial.rearms_iff event serial).mp
    · exact .mono fun event serial => (Serial.rearms_iff event serial).mpr
  · obtain ⟨left, printed⟩ := Serial.drive_raised raised quiet driven
    exact ⟨left, printed, left ▸ List.drop_eq_nil_iff⟩

/-- A byte written before the interrupt is acknowledged, and a queue of one batch. -/
theorem transmit_session_iff_batch :
    Runs.Along Serial.next Serial.Rearms .initial [.write 1 0x02 1, .write 0 0x61 1] ∧
      ∃ after, Serial.drive 2 [[.read 5], []] .enabledPort [0x61, 0x62] = .ok (after, []) ∧
        after.sent = [0x61, 0x62] := by
  -- The driver reads the line status between its two turns.
  have driven : ∃ after rest, Serial.drive 2 [[.read 5], []] .enabledPort [0x61, 0x62] =
      .ok (after, rest) := ⟨_, _, rfl⟩
  obtain ⟨after, rest, driven⟩ := driven
  have quiet : ∀ handled left, Serial.handle 2 .enabledPort [0x61, 0x62] = .ok (handled, left) →
      Runs.Along Serial.next Serial.Quiet handled [SerialEvent.read 5] :=
    fun _ _ _ => ⟨(by decide : (5 : BitVec 64) ≠ 0), fun _ _ => trivial⟩
  have both := transmit_session_iff [.write 1 0x02 1, .write 0 0x61 1] Serial.enabledPort_raised
    quiet driven
  obtain ⟨rfl, sent, _⟩ := both.2
  refine ⟨both.1.mpr (.cons ?_ Serial.enabledPort_reached (.cons ?_ rfl trivial)), after, driven,
    sent⟩
  · rintro ⟨_, _, enabled⟩
    exact absurd rfl enabled
  · exact fun _ => ⟨⟨rfl, by decide⟩, by decide⟩

end Xemu
