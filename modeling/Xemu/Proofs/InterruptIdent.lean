import Xemu.Lib.Runs
import Xemu.Device.Serial

/-! Whether the interrupt identification of the serial port agrees with the causes that are there. -/

namespace Xemu

/-! ### Causes -/

/-- The causes for an interrupt of the serial port that are there and enabled. -/
structure UartCauses where
  received : Bool
  line : Bool
  transmitter : Bool
  modem : Bool

/-- There is an enabled cause. -/
def UartCauses.any (causes : UartCauses) : Bool :=
  causes.received || causes.line || causes.transmitter || causes.modem

/-- The errors and the break in the line status. -/
def Uart.lsrErrors : BitVec 8 := 0x1E

/-- The changes in the modem status. -/
def Uart.msrChanges : BitVec 8 := 0x0F

/-- The cause of a received byte, for what the enable and line status registers hold. -/
def Uart.receivedCause (ier lsr : BitVec 8) : Bool := ier &&& ierRdi != 0 && lsr &&& lsrDr != 0

/-- The cause of an error on the line. -/
def Uart.lineCause (ier lsr : BitVec 8) : Bool := ier &&& ierRlsi != 0 && lsr &&& lsrErrors != 0

/-- The cause of an empty transmitter, unless that was acknowledged. -/
def Uart.transmitterCause (ier : BitVec 8) (thrPending : Bool) : Bool :=
  ier &&& ierThri != 0 && thrPending

/-- The cause of a change at the modem. -/
def Uart.modemCause (ier msr : BitVec 8) : Bool := ier &&& ierMsi != 0 && msr &&& msrChanges != 0

/-- The enabled causes that are there. -/
def Uart.causes (uart : Uart) : UartCauses where
  received := receivedCause uart.ier uart.lsr
  line := lineCause uart.ier uart.lsr
  transmitter := transmitterCause uart.ier uart.thrPending
  modem := modemCause uart.ier uart.msr

/--
An identification agrees with the causes.

A received byte is reported, by itself or as line status, and without any cause none is.
-/
structure Identifies (iir : BitVec 8) (causes : UartCauses) : Prop where
  received : causes.received = true → iir &&& Uart.iirNoInt = 0 ∧
    (iir &&& Uart.iirId = Uart.iirRdi ∨ iir &&& Uart.iirId = Uart.iirRlsi)
  quiet : causes.any = false → iir &&& Uart.iirNoInt ≠ 0

/-- An identification of an interrupt agrees when there is a cause, if it does not hide a byte. -/
theorem identifies_pending {iir : BitVec 8} {causes : UartCauses} (pending : iir &&& Uart.iirNoInt = 0)
    (reported : causes.received = true →
      iir &&& Uart.iirId = Uart.iirRdi ∨ iir &&& Uart.iirId = Uart.iirRlsi) :
    Identifies iir causes ↔ causes.any = true := by
  constructor
  · intro agrees
    -- Without a cause nothing may be identified.
    by_contra none
    exact agrees.quiet (eq_false_of_ne_true none) pending
  · intro some
    refine ⟨fun received => ⟨pending, reported received⟩, fun none => ?_⟩
    rw [some] at none
    cases none

/-- That no interrupt is identified agrees when no byte was received. -/
theorem identifies_noInt {causes : UartCauses} :
    Identifies Uart.iirNoInt causes ↔ causes.received = false := by
  -- A cause that is no received byte may go unreported.
  constructor
  · intro agrees
    by_contra received
    exact absurd (agrees.received (eq_true_of_ne_false received)).1 (by decide)
  · intro none
    refine ⟨fun received => ?_, fun _ => by decide⟩
    rw [none] at received
    cases received

/-- What the identification register reads as agrees with the causes. -/
def Uart.Consistent (uart : Uart) : Prop := Identifies uart.iir uart.causes

/-! ### What an access has to find -/

namespace Uart

/-- The first condition that is enabled is one whose cause is there. -/
structure FirstThere (uart : Uart) : Prop where
  line : uart.ier &&& ierRlsi ≠ 0 → uart.causes.any = true
  modem : uart.ier &&& ierRlsi = 0 → uart.causes.received = false →
    uart.causes.transmitter = false → uart.ier &&& ierMsi ≠ 0 → uart.causes.modem = true

/--
The state in which a read leaves an identification that agrees with the causes.

A read that changes neither needs the identification to be settled already.
-/
def ReadAgrees (uart : Uart) (settled : Prop) (addr : BitVec 64) : Prop :=
  match addr.toNat with
  -- Taking the byte reports the transmitter wherever that is enabled.
  | 0 => uart.ier &&& ierThri ≠ 0 → lineCause uart.ier (uart.lsr &&& ~~~(lsrDr ||| lsrBi)) ∨
    uart.causes.transmitter ∨ uart.causes.modem
  -- Acknowledging the transmitter reports nothing in its place.
  | 2 => if uart.iir &&& iirId = iirThri then uart.causes.received = false else settled
  | _ => settled

/-- The state in which a write leaves an identification that agrees with the causes. -/
def WriteAgrees (uart : Uart) (settled : Prop) (addr data : BitVec 64) : Prop :=
  match addr.toNat with
  -- Filling the transmitter takes its cause away, and not what reports it.
  | 0 => if uart.lcr &&& lcrDlab ≠ 0 then settled
    else Identifies uart.iir { uart.causes with transmitter := false }
  -- The identification is looked for by what is enabled.
  | 1 => if uart.lcr &&& lcrDlab ≠ 0 then settled
    else if (uart.ier.setWidth 64 ^^^ data) &&& 0x0f ≠ 0 then (uart.enabling data).FirstThere
    else settled
  -- A write for the buffers lands in the identification.
  | 2 => Identifies (data.setWidth 8) uart.causes
  | 6 => Identifies uart.iir { uart.causes with modem := modemCause uart.ier (data.setWidth 8) }
  | _ => settled

/-- The state in which the reader thread leaves an identification that agrees with the causes. -/
def InputAgrees (uart : Uart) (settled : Prop) (byte : BitVec 8) : Prop :=
  (uart.reading = true ∧ byte ≠ 3 ∧ uart.ier &&& ierRdi ≠ 0) ∨ settled

end Uart

/-- What has to be so before an event for the identification to agree with the causes after it. -/
def SerialEvent.Finds (settled : Prop) (event : SerialEvent) (serial : Serial) : Prop :=
  match event with
  | .input byte => serial.uart.InputAgrees settled byte
  | .read addr => serial.uart.ReadAgrees settled addr
  | .write addr data _ => serial.uart.WriteAgrees settled addr data
  | .other _ => settled

/-! ### The bits of the status registers -/

namespace Uart

/-- Taking a byte clears the status bit of it, whatever else that held. -/
theorem taken_dr (lsr : BitVec 8) : lsr &&& ~~~(lsrDr ||| lsrBi) &&& lsrDr = 0 := by
  revert lsr
  decide +kernel

/-- A received byte sets its bit. -/
theorem received_dr (lsr : BitVec 8) : (lsr ||| lsrDr) &&& lsrDr ≠ 0 := by
  revert lsr
  decide +kernel

/-- A received byte is no error. -/
theorem received_errors (lsr : BitVec 8) : (lsr ||| lsrDr) &&& lsrErrors = lsr &&& lsrErrors := by
  revert lsr
  decide +kernel

/-- The enable bits are in the half of the register that is compared. -/
theorem unchanged_bits {ier mask : BitVec 8} {data : BitVec 64}
    (same : (ier.setWidth 64 ^^^ data) &&& 0x0f#64 = 0#64) (low : mask &&& 0x0f#8 = mask) :
    (data.setWidth 8 : BitVec 8) &&& mask = ier &&& mask := by
  have half : ∀ i : Fin 8, (0x0f#64).getLsbD i = (0x0f#8).getLsbD i := by decide
  apply BitVec.eq_of_getLsbD_eq
  intro i below
  -- A bit of the mask is one of the four, in which the two words are the same.
  have bit := congrArg (fun word => word.getLsbD i) same
  have inside := congrArg (fun word => word.getLsbD i) low
  have place := half ⟨i, below⟩
  simp only [BitVec.getLsbD_and, BitVec.getLsbD_xor, BitVec.getLsbD_setWidth, below,
    show i < 64 by omega, decide_true, Bool.true_and, BitVec.getLsbD_zero] at bit inside place ⊢
  rw [place] at bit
  revert bit inside
  generalize (0x0f#8).getLsbD i = chosen
  cases ier.getLsbD i <;> cases data.getLsbD i <;> cases mask.getLsbD i <;> cases chosen <;> decide

/-- With the same enable bits the causes are the same. -/
theorem causes_congr {uart after : Uart} (lsr : after.lsr = uart.lsr) (msr : after.msr = uart.msr)
    (thrPending : after.thrPending = uart.thrPending)
    (bits : ∀ mask : BitVec 8, mask &&& 0x0f#8 = mask → after.ier &&& mask = uart.ier &&& mask) :
    after.causes = uart.causes := by
  -- Each cause looks at one of the four enable bits.
  have rdi := bits ierRdi (by decide)
  have rlsi := bits ierRlsi (by decide)
  have thri := bits ierThri (by decide)
  have msi := bits ierMsi (by decide)
  simp only [causes, receivedCause, lineCause, transmitterCause, modemCause, lsr, msr, thrPending,
    rdi, rlsi, thri, msi]

/-! ### What the accesses leave -/

/-- Taking a byte leaves agreement when something is there for an enabled transmitter to stand for. -/
theorem taken_agrees (uart : Uart) : uart.taken.Consistent ↔
    (uart.ier &&& ierThri ≠ 0 → lineCause uart.ier (uart.lsr &&& ~~~(lsrDr ||| lsrBi)) ∨
      uart.causes.transmitter ∨ uart.causes.modem) := by
  -- The byte is taken, and the identification is that of the transmitter or none.
  have none : receivedCause uart.ier (uart.lsr &&& ~~~(lsrDr ||| lsrBi)) = false := by
    rw [receivedCause, taken_dr]
    simp
  change Identifies (if uart.ier &&& ierThri ≠ 0 then iirThri else iirNoInt)
    { uart.causes with
      received := receivedCause uart.ier (uart.lsr &&& ~~~(lsrDr ||| lsrBi))
      line := lineCause uart.ier (uart.lsr &&& ~~~(lsrDr ||| lsrBi)) } ↔ _
  rw [none]
  split
  · rename_i enabled
    rw [identifies_pending (by decide) fun impossible => by cases impossible]
    simp only [UartCauses.any, Bool.false_or, Bool.or_eq_true, or_assoc]
    exact ⟨fun some _ => some, fun some => some enabled⟩
  · rename_i disabled
    rw [identifies_noInt]
    exact ⟨fun _ enabled => absurd enabled disabled, fun _ => rfl⟩

/-- A read leaves agreement exactly in the states that were named. -/
theorem read_agrees {uart after : Uart} {plic controller : Plic} {addr data : BitVec 64}
    (read : uart.read plic addr = .ok (data, after, controller)) :
    after.Consistent ↔ uart.ReadAgrees uart.Consistent addr := by
  -- Each step of a read has its own condition.
  cases read_step read with
  | buffer place _ _ =>
    subst place
    exact uart.taken_agrees
  | acknowledge place shown =>
    subst place
    change Identifies iirNoInt { uart.causes with
      transmitter := transmitterCause uart.ier false } ↔ if _ then _ else _
    rw [if_pos shown, identifies_noInt]
  | other place unshown =>
    unfold ReadAgrees
    split
    case h_1 zero => exact absurd (addr_eq zero) place
    case h_2 two => rw [if_neg (unshown (addr_eq two))]
    case h_3 => exact Iff.rfl

/-- What is identified by what is enabled agrees exactly when the first condition is there. -/
theorem identify_agrees (uart : Uart) : Identifies uart.identify uart.causes ↔ uart.FirstThere := by
  unfold identify
  split
  · -- Line status may stand for a byte, so that it only needs some cause.
    rename_i enabled
    rw [identifies_pending (by decide) fun _ => .inr (by decide)]
    exact ⟨fun some => ⟨fun _ => some, fun disabled => absurd disabled enabled⟩,
      fun first => first.line enabled⟩
  rename_i disabled
  have noLine : uart.ier &&& ierRlsi = 0 := by simpa using disabled
  have line : uart.causes.line = false := by simp [causes, lineCause, noLine]
  split
  · rename_i there
    have received : uart.causes.received = true := by
      simpa [causes, receivedCause] using there
    rw [identifies_pending (by decide) fun _ => .inl (by decide)]
    refine ⟨fun _ => ⟨fun enabled => absurd noLine enabled, fun _ none => ?_⟩, fun _ => ?_⟩
    · rw [received] at none
      cases none
    · simp [UartCauses.any, received]
  rename_i absent
  have received : uart.causes.received = false := by
    simpa [causes, receivedCause] using absent
  split
  · rename_i there
    have transmitter : uart.causes.transmitter = true := by
      simpa [causes, transmitterCause] using there
    rw [identifies_pending (by decide) fun some => absurd some (by rw [received]; decide)]
    refine ⟨fun _ => ⟨fun enabled => absurd noLine enabled, fun _ _ none => ?_⟩, fun _ => ?_⟩
    · rw [transmitter] at none
      cases none
    · simp [UartCauses.any, transmitter]
  rename_i acknowledged
  have transmitter : uart.causes.transmitter = false := by
    simpa [causes, transmitterCause] using acknowledged
  have any : uart.causes.any = uart.causes.modem := by
    simp [UartCauses.any, received, line, transmitter]
  split
  · rename_i enabled
    rw [identifies_pending (by decide) fun some => absurd some (by rw [received]; decide),
      any]
    exact ⟨fun some => ⟨fun enabled => absurd noLine enabled, fun _ _ _ _ => some⟩,
      fun first => first.modem noLine received transmitter enabled⟩
  · rename_i enabled
    rw [identifies_noInt]
    exact ⟨fun _ => ⟨fun line => absurd noLine line, fun _ _ _ modem => absurd modem enabled⟩,
      fun _ => received⟩

/-- A write leaves agreement exactly in the states that were named. -/
theorem write_agrees {uart after : Uart} {plic controller : Plic} {addr data : BitVec 64}
    {size : Nat} (written : uart.write plic addr data size = .ok (after, controller)) :
    after.Consistent ↔ uart.WriteAgrees uart.Consistent addr data := by
  -- The first two registers lie behind the divisor latch, and each other one is stored.
  cases (write_step written).2 with
  | divisor place latch divider =>
    rcases place with rfl | rfl
    · exact (iff_of_eq (if_pos latch)).symm
    · exact (iff_of_eq (if_pos latch)).symm
  | transmit place closed =>
    subst place
    change Identifies uart.iir { uart.causes with
      transmitter := transmitterCause uart.ier false } ↔ if uart.lcr &&& lcrDlab ≠ 0 then _ else _
    rw [if_neg (not_not.mpr closed), transmitterCause, Bool.and_false]
  | enable place closed changed signalled =>
    subst place
    change _ ↔ if uart.lcr &&& lcrDlab ≠ 0 then _ else _
    rw [if_neg (not_not.mpr closed), if_pos changed]
    exact identify_agrees _
  | same place closed unchanged =>
    subst place
    change _ ↔ if uart.lcr &&& lcrDlab ≠ 0 then _ else _
    rw [if_neg (not_not.mpr closed), if_neg (not_not.mpr unchanged)]
    -- The causes depend on the enable bits, which are those that were compared.
    have causes : Uart.causes { uart with ier := data.setWidth 8 } = uart.causes :=
      causes_congr rfl rfl rfl fun _ low => unchanged_bits unchanged low
    unfold Consistent
    rw [causes]
  | identification place | lineControl place | modemControl place | modemStatus place
  | scratch place =>
    subst place
    exact Iff.rfl

/-- A turn of the reader thread leaves agreement exactly in the states that were named. -/
theorem routine_agrees {uart after : Uart} {plic controller : Plic} {byte : BitVec 8}
    (turned : uart.routine plic byte = .ok (after, controller)) :
    after.Consistent ↔ uart.InputAgrees uart.Consistent byte := by
  unfold InputAgrees
  cases routine_step turned with
  | ended left => simp [left]
  | control reading last =>
    rw [last]
    simp [Consistent, causes]
  | report reading more enabled signalled =>
    -- The byte is there and reported.
    refine ⟨fun _ => .inl ⟨reading, more, enabled⟩, fun _ => ?_⟩
    have received : receivedCause uart.ier (uart.lsr ||| lsrDr) = true := by
      rw [receivedCause, bne_iff_ne.mpr enabled, bne_iff_ne.mpr (received_dr _), Bool.and_true]
    change Identifies iirRdi _
    refine (identifies_pending (by decide) fun _ => .inl (by decide)).mpr ?_
    simp [UartCauses.any, causes, stored, received]
  | store reading more disabled =>
    -- Without its interrupt the byte changes no cause.
    have same : (uart.stored byte).causes = uart.causes := by
      simp [causes, stored, receivedCause, lineCause, received_errors, disabled]
    unfold Consistent
    rw [same]
    exact ⟨.inr, fun found => found.resolve_left fun reported => reported.2.2 disabled⟩

end Uart

/-- An event leaves agreement exactly when it finds what was named for it. -/
theorem next_agrees {event : SerialEvent} {serial after : Serial}
    (step : Serial.next event serial = .ok after) :
    after.uart.Consistent ↔ event.Finds serial.uart.Consistent serial := by
  -- The port is what the event makes of it, and the rest of the state has no part in it.
  cases event with
  | input byte =>
    obtain ⟨⟨uart, plic⟩, turned, result⟩ := bind_eq_ok.mp step
    cases Except.ok.inj result
    exact Uart.routine_agrees turned
  | read addr =>
    obtain ⟨⟨data, uart, plic⟩, read, result⟩ := bind_eq_ok.mp step
    cases Except.ok.inj result
    exact Uart.read_agrees read
  | write addr data size =>
    obtain ⟨⟨uart, plic⟩, written, result⟩ := bind_eq_ok.mp step
    cases Except.ok.inj result
    exact Uart.write_agrees written
  | other plic =>
    cases Except.ok.inj step
    exact Iff.rfl

/-! ### Whole runs -/

namespace Serial

/-- After an event, should it complete, the identification agrees with the causes. -/
def LeavesAgreement (event : SerialEvent) (serial : Serial) : Prop :=
  ∀ after, next event serial = .ok after → after.uart.Consistent

/-- The identification after the set-up reports the modem, whose interrupt is not enabled. -/
theorem initial_unsettled : ¬ initial.uart.Consistent :=
  fun agrees => agrees.quiet (by decide) (by decide)

/-- An event that completes leaves agreement exactly when it finds what it needs. -/
theorem leavesAgreement_iff {event : SerialEvent} {serial after : Serial}
    (step : next event serial = .ok after) :
    LeavesAgreement event serial ↔ event.Finds serial.uart.Consistent serial := by
  rw [← next_agrees step]
  constructor
  · exact fun leaves => leaves after step
  · intro agrees other reached
    cases Except.ok.inj (step.symm.trans reached)
    exact agrees

/-- Once settled, the identification is so after every event when each keeps it settled. -/
theorem settled_along {serial final : Serial} {events : List SerialEvent}
    (settled : serial.uart.Consistent) (ran : Runs.run next serial events = .ok final) :
    Runs.Along next LeavesAgreement serial events ↔
      Runs.Along next (fun event serial => event.Finds True serial) serial events := by
  refine Runs.along_iff_of_run (fun serial => serial.uart.Consistent) ?_ ?_ settled ran
  · intro event before after agrees step
    rw [leavesAgreement_iff step, eq_true agrees]
  · exact fun event before after _ leaves step => leaves after step

/--
The identification agrees with the causes after every event of a run from the set-up exactly when
its first event settles it and each later event keeps it settled.

It does not agree before the first event.
-/
theorem identification_iff {first : SerialEvent} {rest : List SerialEvent} {final : Serial}
    (ran : Runs.run next initial (first :: rest) = .ok final) :
    ¬ initial.uart.Consistent ∧ (Runs.Along next LeavesAgreement initial (first :: rest) ↔
      first.Finds False initial ∧ ∀ after, next first initial = .ok after →
        Runs.Along next (fun event serial => event.Finds True serial) after rest) := by
  refine ⟨initial_unsettled, ?_⟩
  obtain ⟨after, stepped, remaining⟩ := Runs.run_cons_inv ran
  -- The identification is not settled at first, so the first event has to settle it.
  have start := leavesAgreement_iff stepped
  rw [eq_false initial_unsettled] at start
  constructor
  · intro along
    refine ⟨start.mp along.1, fun other reached => ?_⟩
    cases Except.ok.inj (stepped.symm.trans reached)
    exact (settled_along (along.1 after stepped) remaining).mp (along.2 after stepped)
  · intro ⟨settles, keeps⟩
    have leaves := start.mpr settles
    refine .cons leaves stepped ?_
    exact (settled_along (leaves after stepped) remaining).mpr (keeps after stepped)

/-- A guest that enables the interrupt of a received byte, sees one reported, takes and prints it. -/
def echoRun : List SerialEvent := [.write 1 1 1, .input 0x61, .read 2, .read 0, .write 0 0x61 1]

/-- In such a run the identification agrees with the causes after every event. -/
theorem identification_echo : Runs.Along next LeavesAgreement initial echoRun := by
  -- The enable register is written first, and each event after it keeps agreement.
  refine (identification_iff rfl).2.mpr ⟨?_, fun after step => ?_⟩
  · show (initial.uart.enabling 1).FirstThere
    exact ⟨by decide, by decide⟩
  · cases Except.ok.inj step
    refine .cons ?_ rfl <| .cons ?_ rfl <| .cons ?_ rfl <| .cons ?_ rfl trivial
    · exact .inl (by decide)
    · trivial
    · exact fun enabled => absurd rfl enabled
    · exact identifies_noInt.mpr rfl

/-- Before the first event the identification does not agree with the causes. -/
theorem identification_initial : ¬ ∀ events final,
    Runs.run next initial events = .ok final → final.uart.Consistent :=
  fun always => initial_unsettled (always [] initial rfl)

end Serial

end Xemu
