import Xemu.Lib.LastWritten
import Xemu.Lib.Runs
import Xemu.Device.Serial

/-! Accesses to the divisor of the serial port, whose bytes share their addresses with other registers. -/

namespace Xemu

namespace Uart

/-- The divisor takes the place of the registers at the first two addresses. -/
def Latched (uart : Uart) : Prop := uart.lcr &&& lcrDlab ≠ 0

instance (uart : Uart) : Decidable uart.Latched := inferInstanceAs (Decidable (_ ≠ _))

/-- The high or the low byte of the divisor. -/
def divisorByte (uart : Uart) (high : Bool) : BitVec 8 :=
  (uart.divider >>> if high then 8 else 0).setWidth 8

/-- The port with one byte of its divisor replaced. -/
def setDivisorByte (uart : Uart) (high : Bool) (byte : BitVec 8) : Uart :=
  { uart with
    divider := if high then byte ++ uart.divisorByte false else uart.divisorByte true ++ byte }

end Uart

/-- An access to one of the two addresses: the high one is that of the high byte. -/
inductive LatchAccess where
  | read (high : Bool)
  | write (high : Bool) (data : BitVec 64)

namespace LatchAccess

/-- The address of a byte of the divisor. -/
def offset (high : Bool) : BitVec 64 := if high then 1 else 0

/-- What the code does: the value read, or zero after a write, and the devices afterwards. -/
def perform (access : LatchAccess) (uart : Uart) (plic : Plic) :
    Except Stop (BitVec 64 × Uart × Plic) :=
  match access with
  | read high => uart.read plic (offset high)
  | write high data => do
    let (uart, plic) ← uart.write plic (offset high) data 1
    return (0, uart, plic)

/-- What the access has to do with the divisor. -/
def onDivisor (access : LatchAccess) (uart : Uart) : BitVec 64 × Uart :=
  match access with
  | read high => ((uart.divisorByte high).setWidth 64, uart)
  | write high data => (0, uart.setDivisorByte high (data.setWidth 8))

/-- The access concerns the divisor alone, and no interrupt controller takes notice of it. -/
def Right (access : LatchAccess) (uart : Uart) : Prop :=
  ∀ plic, access.perform uart plic = .ok ((access.onDivisor uart).1, (access.onDivisor uart).2, plic)

/--
The register at the address of a read holds what the divisor does, and reading it has no effect.

That is so of the receive buffer when no byte and no break is announced, the transmitter interrupt is
disabled, and no interrupt is identified.
-/
def Safe (access : LatchAccess) (uart : Uart) : Prop :=
  match access with
  | read false => uart.rbr = uart.divisorByte false ∧
    uart.lsr &&& (Uart.lsrDr ||| Uart.lsrBi) = 0 ∧ uart.ier &&& Uart.ierThri = 0 ∧
      uart.iir = Uart.iirNoInt
  | read true => uart.ier = uart.divisorByte true
  | write _ _ => True

/-! ### Single accesses -/

section Access

variable {uart : Uart}

/-- The mask of the low byte of a divisor keeps the lower eight bits. -/
theorem getLsbD_lowMask {i : Nat} (below : i < 16) : (0xFF : BitVec 16).getLsbD i = decide (i < 8) :=
  (by decide : ∀ i : Fin 16, (0xFF : BitVec 16).getLsbD i = decide (i.val < 8)) ⟨i, below⟩

/-- The mask of the high byte of a divisor keeps the upper eight bits. -/
theorem getLsbD_highMask {i : Nat} (below : i < 16) : (0xFF00 : BitVec 16).getLsbD i = decide (8 ≤ i) :=
  (by decide : ∀ i : Fin 16, (0xFF00 : BitVec 16).getLsbD i = decide (8 ≤ i.val)) ⟨i, below⟩

/-- The masks of the code keep the high byte and put the new one under it. -/
theorem lowByte_replaced (uart : Uart) (data : BitVec 64) :
    (uart.divider &&& 0xFF00) ||| (data.setWidth 16 &&& 0xFF) =
      uart.divisorByte true ++ (data.setWidth 8 : BitVec 8) := by
  -- Bit by bit, the lower half is the new byte and the upper half the old one.
  apply BitVec.eq_of_getLsbD_eq
  intro i below
  rw [BitVec.getLsbD_append, BitVec.getLsbD_or, BitVec.getLsbD_and, BitVec.getLsbD_and,
    getLsbD_highMask below, getLsbD_lowMask below]
  by_cases lower : i < 8
  · simp [lower, below, Nat.not_le.mpr lower]
  · -- An upper bit is that bit of the old divisor.
    have above : 8 + (i - 8) = i := by omega
    simp [lower, Uart.divisorByte, above, show 8 ≤ i by omega, show i - 8 < 8 by omega]

/-- The masks of the code keep the low byte and put the new one over it. -/
theorem highByte_replaced (uart : Uart) (data : BitVec 64) :
    ((data.setWidth 16 &&& 0xFF) <<< 8) ||| (uart.divider &&& 0x00FF) =
      (data.setWidth 8 : BitVec 8) ++ uart.divisorByte false := by
  -- Bit by bit, the lower half is the old one and the upper half the new byte.
  apply BitVec.eq_of_getLsbD_eq
  intro i below
  change (((data.setWidth 16 &&& 0xFF) <<< 8) ||| (uart.divider &&& 0xFF)).getLsbD i = _
  rw [BitVec.getLsbD_append, BitVec.getLsbD_or, BitVec.getLsbD_and, getLsbD_lowMask below,
    BitVec.getLsbD_shiftLeft, BitVec.getLsbD_and]
  by_cases lower : i < 8
  · simp [lower, below, Uart.divisorByte]
  · have small : i - 8 < 16 := by omega
    rw [getLsbD_lowMask small]
    simp [lower, below, small, show i - 8 < 8 by omega]

/-- With the latch open a write replaces a byte of the divisor. -/
theorem write_right (latched : uart.Latched) (high : Bool) (data : BitVec 64) :
    (write high data).Right uart := by
  -- Neither write looks at the interrupt controller.
  intro plic
  cases high with
  | false =>
    have stored : uart.write plic 0 data 1 = .ok (uart.setDivisorByte false (data.setWidth 8), plic) := by
      refine (if_pos latched).trans ?_
      rw [lowByte_replaced]
      rfl
    exact bind_of_ok stored rfl
  | true =>
    have stored : uart.write plic 1 data 1 = .ok (uart.setDivisorByte true (data.setWidth 8), plic) := by
      refine (if_pos latched).trans ?_
      rw [highByte_replaced]
      rfl
    exact bind_of_ok stored rfl

/-- A byte is found again in a word it was widened to. -/
theorem setWidth_byte {one two : BitVec 8} :
    (one.setWidth 64 : BitVec 64) = two.setWidth 64 ↔ one = two := by
  -- Cutting the word back to a byte undoes the widening.
  refine ⟨fun same => ?_, fun same => by rw [same]⟩
  have narrowed := congrArg (fun word : BitVec 64 => (word.setWidth 8 : BitVec 8)) same
  simpa using narrowed

/-- A read of the high byte is one of the enable register, whatever the latch. -/
theorem readHigh_right_iff : (read true).Right uart ↔ (read true).Safe uart := by
  -- The code returns the enable register and changes nothing.
  have code : ∀ plic, (read true).perform uart plic = .ok (uart.ier.setWidth 64, uart, plic) :=
    fun _ => rfl
  constructor
  · intro right
    have result := Except.ok.inj ((code {}).symm.trans (right {}))
    exact setWidth_byte.mp (congrArg Prod.fst result)
  · intro safe plic
    rw [code]
    exact congrArg (fun value => Except.ok (value, uart, plic)) (setWidth_byte.mpr safe)

/-- A signal never goes unnoticed where nothing is pending. -/
theorem signal_noticed (id : BitVec 32) : ({} : Plic).signal id ≠ .ok {} := by
  intro unnoticed
  unfold Plic.signal Plic.updatePending at unnoticed
  split at unnoticed
  · cases unnoticed
  · split at unnoticed
    · rename_i inside
      -- The bit of the source is set in its word, and in the other state it is not.
      have words := congrArg Plic.pending (Except.ok.inj unnoticed)
      have word := congrFun words ⟨id.toNat / 32, inside⟩
      have bit := congrArg (fun word => word.getLsbD (id.toNat % 32)) word
      simp [Function.update_self, show id.toNat % 32 < 32 by omega] at bit
    · cases unnoticed

/-- The bits that a read of the receive buffer clears were not set if nothing changes. -/
theorem lsr_kept_iff (lsr : BitVec 8) :
    lsr &&& ~~~(Uart.lsrDr ||| Uart.lsrBi) = lsr ↔ lsr &&& (Uart.lsrDr ||| Uart.lsrBi) = 0 := by
  revert lsr
  decide +kernel

/-- A read of the low byte takes a byte from the receive buffer, whatever the latch. -/
theorem readLow_eq (uart : Uart) (plic : Plic) : (read false).perform uart plic =
    (uart.taken.signalUnlessNone plic >>= fun plic =>
      .ok (uart.rbr.setWidth 64, uart.taken, plic)) := rfl

/-- That is a read of the divisor where the byte is the same and there is nothing to take. -/
theorem readLow_right_iff : (read false).Right uart ↔ (read false).Safe uart := by
  by_cases enabled : uart.ier &&& Uart.ierThri = 0
  · -- Without the transmitter interrupt nothing is identified, and so nothing signalled.
    have quiet : uart.taken.iir = Uart.iirNoInt := if_neg (not_not.mpr enabled)
    have code : ∀ plic, (read false).perform uart plic =
        .ok (uart.rbr.setWidth 64, uart.taken, plic) := by
      intro plic
      rw [readLow_eq, Uart.signalUnlessNone, if_neg (not_not.mpr quiet), ok_bind]
    constructor
    · intro right
      have result := Except.ok.inj ((code {}).symm.trans (right {}))
      have port : uart.taken = uart := congrArg (fun result => result.2.1) result
      exact ⟨setWidth_byte.mp (congrArg Prod.fst result),
        (lsr_kept_iff _).mp (congrArg Uart.lsr port), enabled, port ▸ quiet⟩
    · rintro ⟨byte, clear, _, none⟩ plic
      have port : uart.taken = uart := by
        rw [Uart.taken, (lsr_kept_iff _).mpr clear, if_neg (not_not.mpr enabled), ← none]
      rw [code, port, setWidth_byte.mpr byte]
      rfl
  · refine iff_of_false (fun right => ?_) fun safe => enabled safe.2.2.1
    -- The transmitter is reported, which a controller with nothing pending takes notice of.
    have reported : uart.taken.iir = Uart.iirThri := if_pos enabled
    have read := right {}
    rw [readLow_eq, Uart.signalUnlessNone, reported, if_pos (by decide)] at read
    obtain ⟨controller, signalled, result⟩ := bind_eq_ok.mp read
    have kept : controller = {} := congrArg (fun result => result.2.2) (Except.ok.inj result)
    rw [kept] at signalled
    exact signal_noticed _ signalled

/-- An access concerns the divisor alone exactly where it is safe. -/
theorem right_iff_safe (latched : uart.Latched) (access : LatchAccess) :
    access.Right uart ↔ access.Safe uart := by
  -- Only the reads have a condition.
  cases access with
  | write high data => exact iff_of_true (write_right latched high data) trivial
  | read high =>
    cases high with
    | false => exact readLow_right_iff
    | true => exact readHigh_right_iff

end Access

/-! ### Sessions -/

/-- The devices after an access. -/
def next (access : LatchAccess) (state : Uart × Plic) : Except Stop (Uart × Plic) :=
  (access.perform state.1 state.2).map Prod.snd

/-- The byte of the divisor that an access writes. -/
def written : LatchAccess → Bool → Option (BitVec 8)
  | read _, _ => none
  | write high data, key => if key = high then some (data.setWidth 8) else none

/-- The latch is opened, the divisor is accessed, and the latch is closed again. -/
def session (opening closing : BitVec 64) (accesses : List LatchAccess) (uart : Uart)
    (plic : Plic) : Except Stop (Uart × Plic) := do
  let (uart, plic) ← uart.write plic 3 opening 1
  let (uart, plic) ← Runs.run next (uart, plic) accesses
  uart.write plic 3 closing 1

section Session

variable {uart : Uart} {plic : Plic}

/-- Of two bytes put together the lower one is in the low half. -/
theorem lower_append (upper lower : BitVec 8) :
    ((upper ++ lower : BitVec 16) >>> 0).setWidth 8 = lower := by
  apply BitVec.eq_of_getLsbD_eq
  intro i below
  rw [BitVec.getLsbD_setWidth, BitVec.getLsbD_ushiftRight, BitVec.getLsbD_append]
  simp [below]

/-- The upper one is in the high half. -/
theorem upper_append (upper lower : BitVec 8) :
    ((upper ++ lower : BitVec 16) >>> 8).setWidth 8 = upper := by
  apply BitVec.eq_of_getLsbD_eq
  intro i below
  rw [BitVec.getLsbD_setWidth, BitVec.getLsbD_ushiftRight, BitVec.getLsbD_append]
  simp [below]

/-- A byte of the divisor is the one just put there, or the one that was there. -/
theorem divisorByte_set (uart : Uart) (high key : Bool) (byte : BitVec 8) :
    (uart.setDivisorByte high byte).divisorByte key =
      if key = high then byte else uart.divisorByte key := by
  -- The two bytes lie side by side, whichever of them is new.
  cases high with
  | false =>
    cases key with
    | false => exact lower_append _ _
    | true => exact upper_append _ _
  | true =>
    cases key with
    | false => exact lower_append _ _
    | true => exact upper_append _ _

/-- No access to the two addresses changes the control register. -/
theorem next_lcr {access : LatchAccess} {state after : Uart × Plic}
    (stepped : next access state = .ok after) : after.1.lcr = state.1.lcr := by
  obtain ⟨⟨value, uart, plic⟩, performed, rfl⟩ := map_eq_ok.mp stepped
  cases access with
  | read high => cases Uart.read_step performed <;> rfl
  | write high data =>
    obtain ⟨⟨port, controller⟩, stored, result⟩ := bind_eq_ok.mp performed
    cases Except.ok.inj result
    cases (Uart.write_step stored).2 with
    | lineControl place =>
      -- The control register has an address of its own.
      cases high <;> exact absurd place (by decide)
    | divisor _ _ _ | transmit _ _ | enable _ _ _ _ | same _ _ _ | identification _
    | modemControl _ | modemStatus _ | scratch _ => rfl

/-- The devices are those of some state but for the divisor. -/
def SameButDivisor (uart : Uart) (plic : Plic) (state : Uart × Plic) : Prop :=
  state = ({ uart with divider := state.1.divider }, plic)

/-- What is asked of the accesses of a session. -/
def SafeAt (access : LatchAccess) (state : Uart × Plic) : Prop := access.Safe state.1

/-- A safe access changes the divisor as it is asked to, and nothing else. -/
theorem next_safe (latched : uart.Latched) {access : LatchAccess} {state : Uart × Plic}
    (same : SameButDivisor uart plic state) (safe : access.SafeAt state) :
    access.perform state.1 state.2 = .ok ((access.onDivisor state.1).1,
        (access.onDivisor state.1).2, state.2) ∧
      ∃ after, next access state = .ok after ∧ SameButDivisor uart plic after ∧
        ∀ key, after.1.divisorByte key = (written access key).getD (state.1.divisorByte key) := by
  -- The latch stays open, for the control register is not among what changes.
  have open_ : state.1.Latched := by
    rw [same]
    exact latched
  have performed := (right_iff_safe open_ access).mpr safe state.2
  refine ⟨performed, ((access.onDivisor state.1).2, state.2), ?_, ?_, ?_⟩
  · rw [next, performed]
    rfl
  · rw [same]
    cases access with
    | read high => rfl
    | write high data => rfl
  · intro key
    cases access with
    | read high => rfl
    | write high data =>
      rw [onDivisor, divisorByte_set, written]
      split <;> rfl

/-- Safe accesses leave the bytes of the divisor that were written last, and nothing else changed. -/
theorem run_safe (latched : uart.Latched) {accesses : List LatchAccess}
    (along : Runs.Along next SafeAt (uart, plic) accesses) :
    ∃ state, Runs.run next (uart, plic) accesses = .ok state ∧ SameButDivisor uart plic state ∧
      ∀ key, state.1.divisorByte key =
        (Runs.lastWritten written accesses key).getD (uart.divisorByte key) := by
  -- The devices but for the divisor are the invariant, and its bytes the store that is written.
  have start : SameButDivisor uart plic (uart, plic) := rfl
  obtain ⟨state, ran, same⟩ := along.completes (SameButDivisor uart plic)
    (fun access state same safe => by
      obtain ⟨_, after, stepped, kept, _⟩ := next_safe latched same safe
      exact ⟨after, stepped, kept⟩) start
  have bytes := Runs.run_lastWritten (SameButDivisor uart plic) (fun _ => True)
    (fun state key => state.1.divisorByte key) (fun access state after same safe stepped => by
      obtain ⟨_, other, reached, kept, changed⟩ := next_safe latched same safe
      cases Except.ok.inj (stepped.symm.trans reached)
      exact ⟨kept, fun key _ => changed key⟩) start along ran
  exact ⟨state, ran, same, fun key => bytes.2 key trivial⟩

/-- In a session of safe accesses a read returns the byte that was written last. -/
theorem read_last (latched : uart.Latched) {before rest : List LatchAccess} {high : Bool}
    (along : Runs.Along next SafeAt (uart, plic) (before ++ read high :: rest)) :
    ∃ state, Runs.run next (uart, plic) before = .ok state ∧
      (read high).perform state.1 state.2 = .ok (((Runs.lastWritten written before high).getD
        (uart.divisorByte high)).setWidth 64, state.1, state.2) := by
  -- The accesses before the read leave the byte, and the read itself is safe there.
  obtain ⟨state, ran, same, bytes⟩ := run_safe latched along.take
  refine ⟨state, ran, ?_⟩
  rw [← bytes]
  exact (next_safe latched same (along.drop ran).1).1

/-- After a session of safe accesses the port is as before it but for the divisor. -/
theorem session_safe {opening closing : BitVec 64}
    (opens : (opening.setWidth 8 : BitVec 8) &&& Uart.lcrDlab ≠ 0) {accesses : List LatchAccess}
    (along : Runs.Along next SafeAt ({ uart with lcr := opening.setWidth 8 }, plic) accesses) :
    ∃ after, session opening closing accesses uart plic = .ok (after, plic) ∧
      after = { uart with lcr := closing.setWidth 8, divider := after.divider } ∧
      ∀ key, after.divisorByte key =
        (Runs.lastWritten written accesses key).getD (uart.divisorByte key) := by
  have latched : Uart.Latched { uart with lcr := opening.setWidth 8 } := opens
  obtain ⟨⟨last, controller⟩, ran, same, bytes⟩ := run_safe latched along
  have kept := congrArg Prod.fst same
  cases (congrArg Prod.snd same : controller = plic)
  dsimp only at kept
  refine ⟨{ last with lcr := closing.setWidth 8 }, ?_, ?_, bytes⟩
  · -- Opening and closing write the control register alone.
    change (Runs.run next ({ uart with lcr := opening.setWidth 8 }, plic) accesses >>= _) = _
    rw [ran]
    rfl
  · rw [kept]

end Session

end LatchAccess

/-- A read of the divisor takes the byte that waits in the receive buffer. -/
theorem latch_read_takes_byte :
    ∃ serial, Runs.run Serial.next .initial [.input 0x41, .write 3 0x80 1] = .ok serial ∧
      serial.uart.Latched ∧ ¬ (LatchAccess.read false).Right serial.uart := by
  refine ⟨⟨{ Uart.init 0xa with rbr := 0x41, lsr := 0x61, lcr := 0x80 }, {}, [0x41], []⟩, rfl,
    by decide, fun right => ?_⟩
  -- The status announced the byte, and after the read it does not.
  exact absurd (LatchAccess.readLow_right_iff.mp right).2.1 (by decide)

/--
With the latch open an access concerns the divisor alone exactly where it is safe.

Writes always are, and reads are where the other register at their address holds the same byte and
reading it has no effect; a session of such accesses leaves all but the divisor as it was.
-/
theorem latch_accesses_iff (uart : Uart) (latched : uart.Latched) (plic : Plic) :
    (∀ access : LatchAccess, access.Right uart ↔ access.Safe uart) ∧
    (∀ accesses, Runs.Along LatchAccess.next (fun access state => access.Right state.1)
        (uart, plic) accesses ↔
      Runs.Along LatchAccess.next LatchAccess.SafeAt (uart, plic) accesses) ∧
    (∀ before high rest, Runs.Along LatchAccess.next LatchAccess.SafeAt (uart, plic)
        (before ++ .read high :: rest) →
      ∃ state, Runs.run LatchAccess.next (uart, plic) before = .ok state ∧
        (LatchAccess.read high).perform state.1 state.2 =
          .ok (((Runs.lastWritten LatchAccess.written before high).getD
            (uart.divisorByte high)).setWidth 64, state.1, state.2)) ∧
    ∀ (before : Uart) (opening closing : BitVec 64) (accesses : List LatchAccess),
      uart = { before with lcr := opening.setWidth 8 } →
      Runs.Along LatchAccess.next LatchAccess.SafeAt (uart, plic) accesses →
      ∃ after, LatchAccess.session opening closing accesses before plic = .ok (after, plic) ∧
        after = { before with lcr := closing.setWidth 8, divider := after.divider } ∧
        ∀ key, after.divisorByte key =
          (Runs.lastWritten LatchAccess.written accesses key).getD (before.divisorByte key) := by
  refine ⟨LatchAccess.right_iff_safe latched, fun accesses => ?_,
    fun before high rest along => LatchAccess.read_last latched along, ?_⟩
  -- No access opens or closes the latch, so what holds of one access holds along all of them.
  · refine Runs.along_iff_of_invariant (fun state => state.1.Latched) ?_ ?_ latched
    · intro access state after holds stepped
      rw [Uart.Latched, LatchAccess.next_lcr stepped]
      exact holds
    · exact fun access state holds => LatchAccess.right_iff_safe holds access
  · rintro before opening closing accesses rfl along
    exact LatchAccess.session_safe latched along

/-- The rate of the line is set by a session of two writes, and nothing but that changes. -/
theorem latch_accesses_iff_rate :
    ∃ after, LatchAccess.session 0x80 0x03 [.write false 0x01, .write true 0x00] (.init 0xa) {} =
        .ok (after, {}) ∧
      after = { Uart.init 0xa with lcr := 0x03, divider := after.divider } ∧
      after.divisorByte false = 0x01 ∧ after.divisorByte true = 0x00 := by
  -- Writes are safe wherever they are made.
  have along : Runs.Along LatchAccess.next LatchAccess.SafeAt ({ Uart.init 0xa with lcr := 0x80 }, {})
      [.write false 0x01, .write true 0x00] := .cons trivial rfl (.cons trivial rfl trivial)
  obtain ⟨after, done, kept, bytes⟩ := (latch_accesses_iff { Uart.init 0xa with lcr := 0x80 }
    (by decide) {}).2.2.2 (.init 0xa) 0x80 0x03 _ rfl along
  exact ⟨after, done, kept, bytes false, bytes true⟩

end Xemu
