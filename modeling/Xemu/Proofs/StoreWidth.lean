import Xemu.Machine.Program
import Xemu.Machine.Ram

/-! Which bits of a stored word reach memory and the registers of the devices. -/

namespace Xemu

/-! ### Words that agree in their low bits -/

/-- Two words have the same bits below some place. -/
def AgreeBelow (count : Nat) (data other : BitVec 64) : Prop :=
  ∀ i < count, data.getLsbD i = other.getLsbD i

namespace AgreeBelow

variable {count : Nat} {data other : BitVec 64}

/-- Words that agree below some place agree as narrower words. -/
theorem setWidth (agree : AgreeBelow count data other) {w : Nat} (narrow : w ≤ count) :
    data.setWidth w = other.setWidth w := by
  apply BitVec.eq_of_getLsbD_eq
  intro i below
  rw [BitVec.getLsbD_setWidth, BitVec.getLsbD_setWidth, agree i (by omega)]

/-- Words that agree in all of their bits are the same. -/
theorem eq (agree : AgreeBelow count data other) (whole : 64 ≤ count) : data = other :=
  BitVec.eq_of_getLsbD_eq fun i below => agree i (by omega)

/-- Words that agree in so many bytes have the same bytes there. -/
theorem byte {size : Nat} (agree : AgreeBelow (8 * size) data other) {index : Nat}
    (inside : index < size) :
    ((data >>> (8 * index)).setWidth 8 : BitVec 8) = (other >>> (8 * index)).setWidth 8 := by
  apply BitVec.eq_of_getLsbD_eq
  intro i below
  rw [BitVec.getLsbD_setWidth, BitVec.getLsbD_setWidth, BitVec.getLsbD_ushiftRight,
    BitVec.getLsbD_ushiftRight, agree _ (by omega)]

/-- Words that agree below some place agree under a mask with no bit above it. -/
theorem mask (agree : AgreeBelow count data other) (num : Nat) (narrow : num ≤ count)
    (mask : BitVec 64) (ones : mask = (1#64 <<< num) - 1#64) : data &&& mask = other &&& mask := by
  apply BitVec.eq_of_getLsbD_eq
  intro i below
  rw [BitVec.getLsbD_and, BitVec.getLsbD_and, BitField.getLsbD_mask num i mask ones]
  by_cases low : i < num
  · rw [agree i (by omega)]
  · simp [low]

end AgreeBelow

/-! ### What a register sees of a word -/

/-- What a register that a word turns on or off sees of it. -/
def asFlag (data : BitVec 64) : BitVec 64 := (BitVec.ofBool (data != 0)).setWidth 64

/-- Two words turn such a register on or off alike when both are zero or neither is. -/
theorem asFlag_inj {data other : BitVec 64} :
    asFlag data = asFlag other ↔ (data != 0) = (other != 0) := by
  unfold asFlag
  cases data != 0 <;> cases other != 0 <;> decide

/-- What the local interruptor sees of a word: whether it is zero, or all of a deadline. -/
def Clint.observed (addr data : BitVec 64) : Option (BitVec 64) :=
  if addr = 0x0000 then some (asFlag data)
  else if addr = 0x4000 then some data
  else none

/-- The enable and threshold registers of the platform's interrupt controller. -/
def Plic.isWord (addr : BitVec 64) : Prop :=
  (0x2000 ≤ addr.toNat ∧ addr.toNat ≤ 0x2010) ∨ (0x2080 ≤ addr.toNat ∧ addr.toNat ≤ 0x2090) ∨
    addr = 0x200000 ∨ addr = 0x201000

instance (addr : BitVec 64) : Decidable (Plic.isWord addr) :=
  inferInstanceAs (Decidable (_ ∨ _ ∨ _ ∨ _))

/-- What that controller sees of a word: its low half, or whether that is the claimed number. -/
def Plic.observed (plic : Plic) (addr data : BitVec 64) : Option (BitVec 64) :=
  if addr.toNat % 4 ≠ 0 then none
  else if isWord addr then some ((data.setWidth 32).setWidth 64)
  else if addr = 0x200004 then if plic.mcc = data.setWidth 32 then some 0 else none
  else if addr = 0x201004 then if plic.scc = data.setWidth 32 then some 0 else none
  else none

/-- What the host bridge sees of a word: the sixteen bits of its command register. -/
def PciHost.observed (addr data : BitVec 64) : Option (BitVec 64) :=
  if addr = 0x04 then some ((data.setWidth 16).setWidth 64) else none

/-- What the block device sees of a word, in the registers that see more than its low half. -/
def VirtioDev.observed (vdev : VirtioDev) (addr data : BitVec 64) : Option (BitVec 64) :=
  match addr.toNat with
  | 0x014 | 0x024 => some (asFlag data)
  | 0x020 => if vdev.guestFeaturesSel then none else some data
  -- A selection out of range leaves the register as it is.
  | 0x030 => some ((if data < 1024 then data.setWidth 16 else vdev.queueSel).setWidth 64)
  -- The page number takes the ring down, is refused, or places the ring.
  | 0x040 =>
    if data = 0 then some 0
    else if vdev.vq.vring.num = 0 ∨ data <<< vdev.guestPageShift.toNat = 0 ∨
        vdev.vq.vring.align = 0 then none
    else some (data <<< vdev.guestPageShift.toNat)
  | _ => none

/--
What a device sees of a word besides the bytes that a store of some size writes.

The memories, the serial port and all other registers see those bytes alone.
-/
def Bus.observed (bus : Bus) (addr : BitVec 64) (size : Nat) (data : BitVec 64) :
    Option (BitVec 64) :=
  let (device, addr) := AddressSpace.route AddressSpace.rootChildren addr
  match device with
  | .clint => Clint.observed addr data
  | .plic => bus.plic.observed addr data
  | .pciHost => PciHost.observed addr data
  | .virtio slot =>
    if size ≠ 4 then none
    -- Without a backend only a selection in range looks for it.
    else if slot.val ≠ 0 then if addr = 0x030 ∧ data < 1024 then some 0 else none
    else bus.blk.vdev.observed addr data
  | _ => none

/-! ### Memories and the serial port -/

variable {size : Nat} {data other : BitVec 64}

/-- A write of a buffer depends on the bytes written only. -/
theorem Buffer.write_congr {buffer : Buffer} {addr : BitVec 64}
    (same : ∀ index < size, ((data >>> (8 * index)).setWidth 8 : BitVec 8) =
      (other >>> (8 * index)).setWidth 8) :
    buffer.write addr size data = buffer.write addr size other := by
  rw [Buffer.write, Buffer.write, LittleEndian.store_congr same]

/-- The bytes an update leaves in RAM depend on the bytes of the operand only. -/
theorem ramWord_byte (agree : AgreeBelow (8 * size) data other) (old : BitVec 64)
    (params : Params) {index : Nat} (inside : index < size) :
    ((Bus.ramWord old data size params >>> (8 * index)).setWidth 8 : BitVec 8) =
      (Bus.ramWord old other size params >>> (8 * index)).setWidth 8 := by
  unfold Bus.ramWord
  split
  · -- A doubleword is all of its operand.
    rw [agree.eq (by omega)]
  · split
    · rw [agree.setWidth (w := 32) (by omega)]
    · exact agree.byte inside

/-- A write of RAM depends on the bytes of the word only. -/
theorem ramWrite_congr (agree : AgreeBelow (8 * size) data other) (ram : Buffer)
    (addr : BitVec 64) (params : Params) :
    ramWrite ram addr data size params = ramWrite ram addr other size params := by
  rw [Bus.ramWrite_eq, Bus.ramWrite_eq]
  refine bind_congr fun old => ?_
  rw [Buffer.write_congr fun index inside => ramWord_byte agree old params inside]

/-- A write of the flash depends on the bytes of the word only. -/
theorem flashWrite_congr (agree : AgreeBelow (8 * size) data other) (flash : Buffer)
    (addr : BitVec 64) (params : Params) :
    flashWrite flash addr data size params = flashWrite flash addr other size params := by
  unfold flashWrite
  rw [Buffer.write_congr fun index inside => agree.byte inside]

/-- A write of the serial port depends on the one byte of the word only. -/
theorem Uart.write_congr (agree : AgreeBelow (8 * size) data other) (uart : Uart) (plic : Plic)
    (addr : BitVec 64) : uart.write plic addr data size = uart.write plic addr other size := by
  unfold Uart.write
  split
  · rfl
  · rename_i one
    -- Every register has eight bits or takes eight bits of the word.
    have narrow : data.setWidth 8 = other.setWidth 8 := agree.setWidth (by omega)
    have half : data.setWidth 16 &&& 0xFF = other.setWidth 16 &&& 0xFF := by
      have wide := congrArg (·.setWidth 16)
        (agree.mask 8 (by omega) 0xFF (by decide))
      rw [BitVec.setWidth_and, BitVec.setWidth_and] at wide
      exact wide
    have nibble : ∀ ier : BitVec 64, (ier ^^^ data) &&& 0x0f = (ier ^^^ other) &&& 0x0f := by
      intro ier
      have changed : AgreeBelow (8 * size) (ier ^^^ data) (ier ^^^ other) := fun i below => by
        rw [BitVec.getLsbD_xor, BitVec.getLsbD_xor, agree i below]
      exact changed.mask 4 (by omega) 0x0f (by decide)
    simp only [Uart.writeIer, narrow, half, nibble]

/-! ### Devices that see more than the bytes stored -/

/-- A write of the local interruptor leads to one state exactly when it sees one thing. -/
theorem Clint.write_iff (host : Host) (clint : Clint) (addr : BitVec 64) :
    clint.write host addr data = clint.write host addr other ↔
      Clint.observed addr data = Clint.observed addr other := by
  unfold Clint.write Clint.observed
  by_cases software : addr = 0x0000
  · rw [if_pos software, if_pos software, if_pos software, if_pos software, Option.some.injEq,
      asFlag_inj, Except.ok.injEq]
    exact ⟨congrArg Clint.softwareIntr, fun same => by rw [same]⟩
  · rw [if_neg software, if_neg software, if_neg software, if_neg software]
    by_cases timer : addr = 0x4000
    · rw [if_pos timer, if_pos timer, if_pos timer, if_pos timer, Option.some.injEq]
      refine ⟨fun same => ?_, fun same => by rw [same]⟩
      -- The deadline is kept as it is, whichever way the comparison goes.
      have deadline := congrArg (Except.map Clint.mtimecmp) same
      split at deadline <;> split at deadline <;> exact Except.ok.inj deadline
    · -- No other address is a register.
      rw [if_neg timer, if_neg timer, if_neg timer, if_neg timer]
      exact ⟨fun _ => rfl, fun _ => rfl⟩

/-- A register that keeps a cut-down word leads to one state exactly when it sees one thing. -/
theorem kept_iff {State : Type} {w : Nat} (narrow : w ≤ 64) (set : BitVec w → State)
    (keeps : Function.Injective set) (one two : BitVec w) :
    (Except.ok (set one) : Except Stop State) = .ok (set two) ↔
      (some (one.setWidth 64) : Option (BitVec 64)) = some (two.setWidth 64) := by
  rw [Except.ok.injEq, keeps.eq_iff, Option.some.injEq]
  refine ⟨fun same => by rw [same], fun same => ?_⟩
  -- Nothing is lost by widening.
  have back := congrArg (·.setWidth w) same
  simpa only [BitVec.setWidth_setWidth_of_le _ narrow, BitVec.setWidth_eq] using back

/-- A test of a word leads to one of two ends exactly as it turns out. -/
theorem test_iff {State : Type} {yes no : Except Stop State} (apart : yes ≠ no) (one two : Prop)
    [Decidable one] [Decidable two] :
    (if one then yes else no) = (if two then yes else no) ↔
      (if one then some 0 else none : Option (BitVec 64)) = if two then some 0 else none := by
  by_cases first : one <;> by_cases second : two <;> simp [first, second, apart, apart.symm]

/-- A write of the interrupt controller leads to one state exactly when it sees one thing. -/
theorem Plic.write_iff (agree : AgreeBelow 8 data other) (plic : Plic) (addr : BitVec 64) :
    plic.write addr data = plic.write addr other ↔
      plic.observed addr data = plic.observed addr other := by
  unfold Plic.write Plic.observed
  by_cases aligned : addr.toNat % 4 ≠ 0
  · simp only [if_pos aligned]
  · simp only [if_neg aligned]
    by_cases priority : addr.toNat ≤ 0x210
    · -- A priority has three bits, and its register is none of the others.
      have low : data.setWidth 32 &&& 0x7 = other.setWidth 32 &&& 0x7 := by
        have wide := congrArg (·.setWidth 32)
          (agree.mask 3 (by omega) 0x7 (by decide))
        rw [BitVec.setWidth_and, BitVec.setWidth_and] at wide
        exact wide
      have above : ∀ register : BitVec 64, 0x210 < register.toNat → addr ≠ register :=
        fun register beyond same => by
          rw [same] at priority
          omega
      have word : ¬ isWord addr := by
        rintro (range | range | range | range)
        · omega
        · omega
        · exact above _ (by decide) range
        · exact above _ (by decide) range
      simp only [if_pos priority, if_neg word, if_neg (above 0x200004 (by decide)),
        if_neg (above 0x201004 (by decide)), iff_true]
      rw [low]
    · simp only [if_neg priority]
      by_cases machine : 0x2000 ≤ addr.toNat ∧ addr.toNat ≤ 0x2010
      · have word : isWord addr := .inl machine
        simp only [dif_pos machine, if_pos word]
        exact kept_iff (w := 32) (by omega)
          (fun word => { plic with
            mie := Function.update plic.mie ⟨(addr.toNat - 0x2000) / 4, by omega⟩ word })
          (fun one two same => Function.update_injective plic.mie _ (congrArg Plic.mie same)) _ _
      · simp only [dif_neg machine]
        by_cases supervisor : 0x2080 ≤ addr.toNat ∧ addr.toNat ≤ 0x2090
        · have word : isWord addr := .inr (.inl supervisor)
          simp only [dif_pos supervisor, if_pos word]
          exact kept_iff (w := 32) (by omega)
            (fun word => { plic with
              sie := Function.update plic.sie ⟨(addr.toNat - 0x2080) / 4, by omega⟩ word })
            (fun one two same => Function.update_injective plic.sie _ (congrArg Plic.sie same)) _ _
        · simp only [dif_neg supervisor]
          by_cases first : addr = 0x200000
          · have word : isWord addr := .inr (.inr (.inl first))
            simp only [if_pos first, if_pos word]
            exact kept_iff (w := 32) (by omega) (fun word => { plic with mpt := word })
              (fun one two same => congrArg Plic.mpt same) _ _
          · simp only [if_neg first]
            by_cases second : addr = 0x201000
            · have word : isWord addr := .inr (.inr (.inr second))
              simp only [if_pos second, if_pos word]
              exact kept_iff (w := 32) (by omega) (fun word => { plic with spt := word })
                (fun one two same => congrArg Plic.spt same) _ _
            · have word : ¬ isWord addr := by
                rintro (range | range | range | range)
                · exact machine range
                · exact supervisor range
                · exact first range
                · exact second range
              simp only [if_neg second, if_neg word]
              by_cases claim : addr = 0x200004
              · simp only [if_pos claim, ne_eq, ite_not]
                exact test_iff (by simp) _ _
              · simp only [if_neg claim]
                by_cases claim : addr = 0x201004
                · simp only [if_pos claim, ne_eq, ite_not]
                  exact test_iff (by simp) _ _
                · simp only [if_neg claim]

/-- A write of the host bridge leads to one state exactly when it sees one thing. -/
theorem PciHost.write_iff (pciHost : PciHost) (addr : BitVec 64) :
    pciHost.write addr data = pciHost.write addr other ↔
      PciHost.observed addr data = PciHost.observed addr other := by
  unfold PciHost.write PciHost.observed
  by_cases command : addr = 0x04
  · simp only [if_pos command]
    exact kept_iff (w := 16) (by omega) (fun word => { pciHost with command := word })
      (fun one two same => congrArg PciHost.command same) _ _
  · simp only [if_neg command]

/-- Setting up the ring leads to one state exactly when it is refused or placed alike. -/
theorem vringInit_iff (vdev : VirtioDev) (one two : BitVec 64) :
    (do return { vdev with vq.vring := ← vringInit vdev.vq.vring one vdev.guestPageShift } :
        Except Stop VirtioDev) =
      (do return { vdev with vq.vring := ← vringInit vdev.vq.vring two vdev.guestPageShift }) ↔
    (if vdev.vq.vring.num = 0 ∨ one <<< vdev.guestPageShift.toNat = 0 ∨ vdev.vq.vring.align = 0
        then none else some (one <<< vdev.guestPageShift.toNat)) =
      if vdev.vq.vring.num = 0 ∨ two <<< vdev.guestPageShift.toNat = 0 ∨ vdev.vq.vring.align = 0
        then none else some (two <<< vdev.guestPageShift.toNat) := by
  simp only [vringInit]
  generalize one <<< vdev.guestPageShift.toNat = first
  generalize two <<< vdev.guestPageShift.toNat = second
  -- Either write may be refused, and a placed ring starts where it was placed.
  split
  · split
    · simp
    · simp
  · split
    · simp
    · simp only [ok_bind, pure_eq_ok, Except.ok.injEq, Option.some.injEq]
      exact ⟨congrArg fun after : VirtioDev => after.vq.vring.desc, fun same => by rw [same]⟩

/-- A ring that is set up is not one that is taken down, for it does not start at zero. -/
theorem vringInit_ne (vdev : VirtioDev) (pfn : BitVec 64) :
    (do return { vdev with vq.vring := ← vringInit vdev.vq.vring pfn vdev.guestPageShift } :
        Except Stop VirtioDev) ≠ .ok { vdev with vq.vring.desc := 0 } ∧
    (if vdev.vq.vring.num = 0 ∨ pfn <<< vdev.guestPageShift.toNat = 0 ∨ vdev.vq.vring.align = 0
        then none else some (pfn <<< vdev.guestPageShift.toNat)) ≠ some 0 := by
  simp only [vringInit]
  -- Only whether the page starts at zero matters.
  generalize pfn <<< vdev.guestPageShift.toNat = desc
  split
  · simp
  · rename_i placed
    have start : desc ≠ 0 := fun zero => placed (.inr (.inl zero))
    simp only [ok_bind, pure_eq_ok, ne_eq, Except.ok.injEq, Option.some.injEq]
    exact ⟨fun same => start (congrArg (fun after : VirtioDev => after.vq.vring.desc) same), start⟩

/-- A write of the block device's own registers leads to one state exactly when it sees one thing. -/
theorem VirtioDev.mmioWrite_iff (agree : AgreeBelow 32 data other) (vdev : VirtioDev)
    (addr : BitVec 64) :
    vdev.mmioWrite addr data = vdev.mmioWrite addr other ↔
      vdev.observed addr data = vdev.observed addr other := by
  have low : data.setWidth 32 = other.setWidth 32 := agree.setWidth (by omega)
  unfold VirtioDev.mmioWrite VirtioDev.observed
  generalize addr.toNat = register
  dsimp only
  split
  · -- The selection of the device's features.
    change _ ↔ some (asFlag data) = some (asFlag other)
    rw [Option.some.injEq, asFlag_inj, Except.ok.injEq]
    exact ⟨congrArg VirtioDev.hostFeaturesSel, fun same => by rw [same]⟩
  · -- The driver's features, which are kept in full unless the upper word is selected.
    change _ ↔ (if vdev.guestFeaturesSel then none else some data) =
      if vdev.guestFeaturesSel then none else some other
    by_cases upper : vdev.guestFeaturesSel
    · simp only [if_pos upper]
    · simp only [if_neg upper, Option.some.injEq, Except.ok.injEq]
      exact ⟨congrArg VirtioDev.guestFeatures, fun same => by rw [same]⟩
  · change _ ↔ some (asFlag data) = some (asFlag other)
    rw [Option.some.injEq, asFlag_inj, Except.ok.injEq]
    exact ⟨congrArg VirtioDev.guestFeaturesSel, fun same => by rw [same]⟩
  · -- The page size takes the lower word.
    exact ⟨fun _ => rfl, fun _ => by rw [low]⟩
  · -- The selection of a queue, which keeps the register when it is out of range.
    have selects : ∀ word : BitVec 64,
        (if word < 1024 then { vdev with queueSel := word.setWidth 16 } else vdev) =
          { vdev with queueSel := if word < 1024 then word.setWidth 16 else vdev.queueSel } := by
      intro word
      split <;> rfl
    rw [selects, selects]
    exact kept_iff (w := 16) (by omega) (fun word => { vdev with queueSel := word })
      (fun one two same => congrArg VirtioDev.queueSel same) _ _
  · -- The page number of the ring, where zero takes it down.
    change (if data ≠ 0 then _ else _) = (if other ≠ 0 then _ else _) ↔
      (if data = 0 then _ else _) = (if other = 0 then _ else _)
    by_cases first : data = 0
    · by_cases second : other = 0
      · exact ⟨fun _ => by rw [first, second], fun _ => by rw [first, second]⟩
      · have apart := vringInit_ne vdev other
        rw [if_neg (not_not.mpr first), if_pos second, if_pos first, if_neg second]
        exact ⟨fun same => absurd same.symm apart.1, fun same => absurd same.symm apart.2⟩
    · by_cases second : other = 0
      · have apart := vringInit_ne vdev data
        rw [if_pos first, if_neg (not_not.mpr second), if_neg first, if_pos second]
        exact ⟨fun same => absurd same apart.1, fun same => absurd same apart.2⟩
      · rw [if_pos first, if_pos second, if_neg first, if_neg second]
        exact vringInit_iff vdev data other
  · exact ⟨fun _ => rfl, fun _ => by rw [low]⟩
  · exact ⟨fun _ => rfl, fun _ => by rw [low]⟩
  · -- An acknowledgement and the status take eight bits.
    have byte : data.setWidth 8 = other.setWidth 8 := agree.setWidth (by omega)
    exact ⟨fun _ => rfl, fun _ => by rw [BitVec.setWidth_not (by omega),
      BitVec.setWidth_not (by omega), byte]⟩
  · exact ⟨fun _ => rfl, fun _ => by
      rw [agree.mask 8 (by omega) 0xFF (by decide)]⟩
  · -- No other register sees anything, for there is none.
    refine ⟨fun _ => ?_, fun _ => rfl⟩
    split <;> first | rfl | contradiction

/-- A slot without a backend sees whether a word selects a queue in range. -/
theorem mmioWriteMissing_iff (addr : BitVec 64) :
    VirtioDev.mmioWriteMissing addr data = VirtioDev.mmioWriteMissing addr other ↔
      (if addr = 0x030 ∧ data < 1024 then some 0 else none : Option (BitVec 64)) =
        if addr = 0x030 ∧ other < 1024 then some 0 else none := by
  by_cases select : addr = 0x030
  · subst select
    simp only [true_and]
    exact test_iff (by simp) _ _
  · -- Every other register is missing whatever the word is.
    have register : addr.toNat ≠ 0x030 := fun same => select (BitVec.eq_of_toNat_eq same)
    simp only [select, false_and, if_false, iff_true]
    unfold VirtioDev.mmioWriteMissing
    split
    · contradiction
    all_goals rfl

/-- A result put into a larger state is the same exactly when it was the same before. -/
theorem stored_iff {Part State : Type} (set : Part → State) (keeps : Function.Injective set)
    (one two : Except Stop Part) :
    (one >>= fun part => .ok (set part)) = (two >>= fun part => .ok (set part)) ↔ one = two := by
  refine ⟨fun same => ?_, fun same => by rw [same]⟩
  cases one <;> cases two
  · exact congrArg _ (Except.error.inj same)
  · cases same
  · cases same
  · exact congrArg _ (keeps (Except.ok.inj same))

/-- A write of a virtio slot leads to one state exactly when the slot sees one thing. -/
theorem mmioWrite_iff (agree : AgreeBelow (8 * size) data other) (host : Host)
    (write : Bus.Writer) (fuel : Nat) (bus : Bus) (slot : Fin 8) (addr : BitVec 64) :
    bus.mmioWrite host write fuel slot addr data size =
        bus.mmioWrite host write fuel slot addr other size ↔
      (if size ≠ 4 then none
        else if slot.val ≠ 0 then if addr = 0x030 ∧ data < 1024 then some 0 else none
        else bus.blk.vdev.observed addr data) =
      (if size ≠ 4 then none
        else if slot.val ≠ 0 then if addr = 0x030 ∧ other < 1024 then some 0 else none
        else bus.blk.vdev.observed addr other) := by
  unfold Bus.mmioWrite
  by_cases wrong : size ≠ 4
  · simp only [if_pos wrong, throw_eq_error, error_bind]
  · simp only [if_neg wrong, pure_eq_ok]
    by_cases missing : slot.val ≠ 0
    · simp only [if_pos missing, ← mmioWriteMissing_iff]
      -- Nothing is stored in such a slot.
      exact stored_iff (fun _ => bus) (fun _ _ _ => rfl) _ _
    · simp only [if_neg missing]
      by_cases notify : addr = VirtioDev.queueNotify
      · -- A notification takes no word at all.
        subst notify
        exact ⟨fun _ => rfl, fun _ => rfl⟩
      · simp only [if_neg notify]
        rw [← VirtioDev.mmioWrite_iff fun i below => agree i (by omega)]
        exact stored_iff (fun vdev => { bus with blk.vdev := vdev })
          (fun one two same => congrArg (fun after : Bus => after.blk.vdev) same) _ _

/-- The devices after a write are the same exactly when what the written one was given is. -/
theorem written_iff {Part : Type} (set : Part → Bus) (keeps : Function.Injective set)
    (one two : Except Stop Part) :
    (one >>= fun part => pure ((0 : BitVec 64), set part)).map Prod.snd =
        (two >>= fun part => pure ((0 : BitVec 64), set part)).map Prod.snd ↔ one = two := by
  -- Leaving out the value returned leaves what is stored.
  have devices : ∀ comp : Except Stop Part,
      (comp >>= fun part => pure ((0 : BitVec 64), set part)).map Prod.snd =
        comp >>= fun part => .ok (set part) := by
    intro comp
    cases comp <;> rfl
  rw [devices, devices]
  exact stored_iff set keeps one two

/--
Two words that agree in the bytes a store writes lead to one state exactly when their device sees one thing.
-/
theorem store_width_iff (host : Host) (bus : Bus) (addr : BitVec 64) (valid : Bus.validSize size)
    (agree : AgreeBelow (8 * size) data other) (params : Params) :
    (bus.asWriteNommu host addr size data params).map Prod.snd =
        (bus.asWriteNommu host addr size other params).map Prod.snd ↔
      bus.observed addr size data = bus.observed addr size other := by
  have bounds := Bus.validSize_bounds valid
  have byte : AgreeBelow 8 data other := fun i below => agree i (by omega)
  unfold Bus.asWriteNommu Bus.asWriteNommuWith Bus.observed
  rw [valid, Bus.writeFrom_route, Bus.writeFrom_route]
  generalize AddressSpace.route AddressSpace.rootChildren addr = target
  obtain ⟨device, addr⟩ := target
  cases device with
  -- These write no word, whichever it is.
  | dummy | rom | rtc => exact ⟨fun _ => rfl, fun _ => rfl⟩
  | ram =>
    refine ⟨fun _ => rfl, fun _ => ?_⟩
    simp only [Bus.deviceWrite, ramWrite_congr agree]
  | flash =>
    refine ⟨fun _ => rfl, fun _ => ?_⟩
    simp only [Bus.deviceWrite, flashWrite_congr agree]
  | uart =>
    refine ⟨fun _ => rfl, fun _ => ?_⟩
    simp only [Bus.deviceWrite, Uart.write_congr agree]
  -- The others are the devices with registers that may see more.
  | clint =>
    refine Iff.trans ?_ (Clint.write_iff host bus.clint addr)
    exact written_iff (fun clint => { bus with clint })
      (fun one two same => congrArg Bus.clint same) _ _
  | plic =>
    refine Iff.trans ?_ (Plic.write_iff byte bus.plic addr)
    exact written_iff (fun plic => { bus with plic })
      (fun one two same => congrArg Bus.plic same) _ _
  | pciHost =>
    refine Iff.trans ?_ (PciHost.write_iff bus.pciHost addr)
    exact written_iff (fun pciHost => { bus with pciHost })
      (fun one two same => congrArg Bus.pciHost same) _ _
  | virtio slot =>
    refine Iff.trans ?_ (mmioWrite_iff agree host (Bus.nestedWriter host host.fuel) host.fuel bus slot addr)
    exact written_iff (fun bus => bus) (fun one two same => same) _ _

/-- The software line does not tell a word from one that differs above the four bytes stored. -/
theorem store_width_iff_line :
    ((Machine.boot []).bus.asWriteNommu {} 0x02000000 4 0x100000001 .none).map Prod.snd =
      ((Machine.boot []).bus.asWriteNommu {} 0x02000000 4 1 .none).map Prod.snd := by
  have agree : ∀ i < 8 * 4, (0x100000001#64).getLsbD i = (1#64).getLsbD i := by decide
  exact (store_width_iff {} (Machine.boot []).bus 0x02000000 (by decide) agree .none).mpr
    (by decide)

/-- A word store of zero raises the software line when the upper half of its register is not zero. -/
theorem upper_half_raises_line :
    ¬ ∀ host (bus : Bus) addr size data other params, Bus.validSize size →
      AgreeBelow (8 * size) data other →
      (bus.asWriteNommu host addr size data params).map Prod.snd =
        (bus.asWriteNommu host addr size other params).map Prod.snd := by
  intro always
  -- The two words agree in the bits that are stored, and the line tells them apart.
  have agree : ∀ i < 8 * 4, (0x100000000#64).getLsbD i = (0#64).getLsbD i := by decide
  have same := always {} (Machine.boot []).bus 0x02000000 4 0x100000000 0 .none (by decide) agree
  have raised : ((Machine.boot []).bus.asWriteNommu {} 0x02000000 4 0x100000000 .none).map
      (fun result => result.2.clint.softwareIntr) = .ok true := by decide +kernel
  have lowered : ((Machine.boot []).bus.asWriteNommu {} 0x02000000 4 0 .none).map
      (fun result => result.2.clint.softwareIntr) = .ok false := by decide +kernel
  obtain ⟨one, first, raised⟩ := map_eq_ok.mp raised
  obtain ⟨two, second, lowered⟩ := map_eq_ok.mp lowered
  rw [first, second] at same
  have devices : one.2 = two.2 := Except.ok.inj same
  rw [devices, lowered] at raised
  cases raised

end Xemu
