import Xemu.Machine.Compute
import Xemu.Proofs.ByteMemory
import Xemu.Proofs.PageBoundary

/-! What of the floating-point registers a store and a load of them keep. -/

namespace Xemu

/-! ### Numbers a format represents -/

/-- The number is an integer of so many bits, scaled by a power of two. -/
def Significant (precision n : Nat) : Prop := ∃ m e, m < 2 ^ precision ∧ n = m * 2 ^ e

/-- The unit of a conversion divides a number exactly when the format represents it. -/
theorem significant_iff {precision n : Nat} :
    Significant precision n ↔ n % 2 ^ (n.log2 + 1 - precision) = 0 := by
  have below : n < 2 ^ (n.log2 + 1) := Nat.lt_log2_self
  constructor
  · rintro ⟨m, e, narrow, rfl⟩
    -- The integer has so many bits at most, so the unit is no more than the scale.
    by_cases zero : m = 0
    · simp [zero]
    · have scale := Nat.two_pow_pos e
      have bits : (m * 2 ^ e).log2 < precision + e := by
        rw [Nat.log2_lt (Nat.mul_ne_zero zero scale.ne'), Nat.pow_add]
        exact Nat.mul_lt_mul_of_pos_right narrow scale
      apply Nat.mod_eq_zero_of_dvd
      exact (Nat.pow_dvd_pow 2 (by omega)).trans (Nat.dvd_mul_left _ m)
  · intro whole
    refine ⟨n / 2 ^ (n.log2 + 1 - precision), n.log2 + 1 - precision, ?_, ?_⟩
    · -- What is left of the number has the bits above the unit.
      rw [Nat.div_lt_iff_lt_mul (Nat.two_pow_pos _), ← Nat.pow_add]
      exact below.trans_le (Nat.pow_le_pow_right (by decide) (by omega))
    · exact (Nat.div_mul_cancel (Nat.dvd_of_mod_eq_zero whole)).symm

/-- A conversion keeps exactly the numbers that the format represents. -/
theorem roundTo_eq_iff {precision n : Nat} :
    roundTo precision n = n ↔ Significant precision n := by
  rw [significant_iff]
  have unit := Nat.two_pow_pos (n.log2 + 1 - precision)
  have split := Nat.div_add_mod n (2 ^ (n.log2 + 1 - precision))
  have small := Nat.mod_lt n unit
  unfold roundTo
  dsimp only
  generalize 2 ^ (n.log2 + 1 - precision) = unit at *
  constructor
  · intro same
    -- Both neighbours are multiples of the unit.
    apply Nat.mod_eq_zero_of_dvd
    rw [← same]
    split
    · exact Nat.dvd_mul_left ..
    · exact Nat.dvd_mul_left ..
  · intro whole
    rw [if_neg (by omega)]
    exact Nat.div_mul_cancel (Nat.dvd_of_mod_eq_zero whole)

/-- A conversion does not go above a power of two that the number is below. -/
theorem roundTo_le {precision n k : Nat} (some : 0 < precision) (below : n < 2 ^ k) :
    roundTo precision n ≤ 2 ^ k := by
  -- The unit divides that power, which is therefore no less than the upper neighbour.
  have fine : n.log2 + 1 - precision ≤ k := by
    by_cases zero : n = 0
    · rw [zero, Nat.log2_zero]
      omega
    · have bits := (Nat.log2_lt zero).mpr below
      omega
  have split : 2 ^ (n.log2 + 1 - precision) * 2 ^ (k - (n.log2 + 1 - precision)) = 2 ^ k := by
    rw [← Nat.pow_add]
    congr 1
    omega
  have quotient : n / 2 ^ (n.log2 + 1 - precision) < 2 ^ (k - (n.log2 + 1 - precision)) := by
    rw [Nat.div_lt_iff_lt_mul (Nat.two_pow_pos _), Nat.mul_comm, split]
    exact below
  have upper : (n / 2 ^ (n.log2 + 1 - precision) + 1) * 2 ^ (n.log2 + 1 - precision) ≤ 2 ^ k := by
    rw [← split, Nat.mul_comm]
    exact Nat.mul_le_mul_left _ quotient
  unfold roundTo
  dsimp only
  split
  · exact upper
  · exact (Nat.mul_le_mul_right _ (Nat.le_succ _)).trans upper

/-! ### The instructions -/

/-- The word that `FSW` stores for the content of the integer register, where C defines it. -/
def fswWord (value : BitVec 64) : Option (BitVec 32) :=
  (floatToU64 (roundTo 24 value.toNat)).toOption.map fun data => data.setWidth 32

section Instructions

variable {host : Host} {m : Machine} {pc nextPc va value : BitVec 64} {d : Decoded} {bus : Bus} {size : Nat}

/-- A floating-point load writes the value it read, converted to the format and back. -/
theorem execute_loadFp {precision : Nat}
    (switch : executeOp host m pc nextPc d =
      ({ m, retPc := nextPc, rdVal := host.rdVal } : Locals).loadFp host pc va size precision)
    (read : m.asRead host va size .none = .ok (some value, bus)) :
    execute host m pc nextPc d = (floatToU64 (roundTo precision value.toNat)).map fun data =>
      (nextPc, { hart := m.hart.setFreg d.rd data, bus }) := by
  rw [execute, switch, Locals.loadFp, Locals.readMem, read]
  simp only [ok_bind, pure_eq_ok, Locals.setFrd, Locals.writeBack]
  rfl

end Instructions

/-! ### Saving what was restored -/

/-- A load reads a value, and a store of the register it names goes to RAM somewhere. -/
structure Exchange (host later : Host) (m : Machine) (load store : Decoded) (size : Nat)
    (value paddr : BitVec 64) (bus walked : Bus) : Prop where
  same : store.rs2 = load.rd
  read : m.asRead host (m.hart.reg load.rs1 + load.imm) size .none = .ok (some value, bus)
  found : { m with bus }.mmu later (m.hart.reg store.rs1 + store.imm) = .ok (some paddr, walked)
  whole : walked.ram.size = ramSize
  placed : InMemory paddr size

/-- Both instructions complete, and the store leaves the value the load has read. -/
def Restores (host later : Host) (m : Machine) (load store : Decoded) (size : Nat)
    (value paddr : BitVec 64) (walked : Bus) : Prop :=
  ∃ loaded stored, (∀ pc nextPc, execute host m pc nextPc load = .ok (nextPc, loaded)) ∧
    (∀ pc nextPc, execute later loaded pc nextPc store = .ok (nextPc, stored)) ∧
    stored.bus.memory = LittleEndian.store walked.memory paddr size value

section Pair

variable {host later : Host} {m : Machine} {load store : Decoded} {size : Nat}
  {value paddr : BitVec 64} {bus walked : Bus}

/-- Stores of words leave the same memory when the words have the same bytes. -/
theorem store_eq_iff (mem : BitVec 64 → BitVec 8) (addr : BitVec 64) {data other : BitVec 64}
    (narrow : size ≤ 8) :
    LittleEndian.store mem addr size data = LittleEndian.store mem addr size other ↔
      data.setWidth (8 * size) = other.setWidth (8 * size) := by
  constructor
  · intro same
    -- The bytes stored are found again where they were put.
    have loaded := congrArg (fun mem => LittleEndian.load 64 mem addr size) same
    have fits : size ≤ 2 ^ 64 := by omega
    simp only [LittleEndian.load_store_same fits] at loaded
    have narrowed := congrArg (BitVec.setWidth (8 * size)) loaded
    have wide : ∀ word : BitVec 64, ((word.setWidth (8 * size)).setWidth 64).setWidth (8 * size) =
        word.setWidth (8 * size) := fun word => by
      rw [BitVec.setWidth_setWidth_of_le _ (by omega), BitVec.setWidth_eq]
    rwa [wide, wide] at narrowed
  · exact fun same => LittleEndian.store_congr (LittleEndian.bytes_eq_iff.mpr same)

/-- A store of a word gives a value back exactly when it has the bytes of that. -/
theorem Exchange.restores_iff (setting : Exchange host later m load store size value paddr bus walked)
    (valid : Bus.validSize size) {hart : Hart} (data : BitVec 64)
    (loaded : ∀ pc nextPc, execute host m pc nextPc load = .ok (nextPc, { hart, bus }))
    (found : { hart, bus : Machine }.mmu later (m.hart.reg store.rs1 + store.imm) =
      { m with bus }.mmu later (m.hart.reg store.rs1 + store.imm))
    (switch : ∀ pc nextPc, executeOp later { hart, bus } pc nextPc store =
      ({ m := { hart, bus }, retPc := nextPc, rdVal := later.rdVal } : Locals).store later pc
        (m.hart.reg store.rs1 + store.imm) size data) :
    Restores host later m load store size value paddr walked ↔
      data.setWidth (8 * size) = value.setWidth (8 * size) := by
  have stored := fun pc nextPc => Machine.execute_of_store (switch pc nextPc)
    (found.trans setting.found) setting.whole valid setting.placed
  rw [← store_eq_iff walked.memory paddr (Bus.validSize_bounds valid).2]
  constructor
  · rintro ⟨first, second, loads, stores, memory⟩
    -- Both instructions have one result.
    cases Except.ok.inj ((loaded 0 0).symm.trans (loads 0 0))
    cases Except.ok.inj ((stored 0 0).symm.trans (stores 0 0))
    rwa [Bus.memory_setMemory] at memory
  · intro same
    exact ⟨_, _, loaded, stored, (Bus.memory_setMemory _ _).trans same⟩

/-- A double saved after it was restored is the same exactly when its bits are few enough. -/
theorem Exchange.double (setting : Exchange host later m load store 8 value paddr bus walked)
    (loads : load.op = .fld) (stores : store.op = .fsd) :
    Restores host later m load store 8 value paddr walked ↔ Significant 53 value.toNat := by
  have loaded : ∀ pc nextPc, execute host m pc nextPc load =
      (floatToU64 (roundTo 53 value.toNat)).map fun data =>
        (nextPc, { hart := m.hart.setFreg load.rd data, bus }) := by
    intro pc nextPc
    refine execute_loadFp ?_ setting.read
    rw [executeOp, loads]
  have range := value.isLt
  rw [← roundTo_eq_iff]
  by_cases fits : roundTo 53 value.toNat < 2 ^ 64
  · have converted : floatToU64 (roundTo 53 value.toNat) =
        .ok (BitVec.ofNat 64 (roundTo 53 value.toNat)) := if_pos fits
    rw [converted] at loaded
    rw [setting.restores_iff rfl (BitVec.ofNat 64 (roundTo 53 value.toNat)) loaded rfl]
    · -- All eight bytes are those of the value when the number is.
      rw [BitVec.setWidth_eq, BitVec.setWidth_eq, ← BitVec.toNat_inj, BitVec.toNat_ofNat,
        Nat.mod_eq_of_lt fits]
    · intro pc nextPc
      have saved : (m.hart.setFreg load.rd (BitVec.ofNat 64 (roundTo 53 value.toNat))).freg
          store.rs2 = BitVec.ofNat 64 (roundTo 53 value.toNat) := by
        rw [setting.same]
        exact Function.update_self ..
      rw [executeOp, stores]
      simp only [saved]
      rfl
  · -- The conversion back is undefined for a number that rounds up to the next power of two.
    have undefined : floatToU64 (roundTo 53 value.toNat) =
        .error (.undefined "conversion of a floating-point value out of range") := if_neg fits
    rw [undefined] at loaded
    refine iff_of_false ?_ (by omega)
    rintro ⟨first, second, loads, -⟩
    cases (loaded 0 0).symm.trans (loads 0 0)

/-- A single saved after it was restored is the same exactly when the integer register says so. -/
theorem Exchange.single {word : BitVec 32}
    (setting : Exchange host later m load store 4 (word.setWidth 64) paddr bus walked)
    (loads : load.op = .flw) (stores : store.op = .fsw) :
    Restores host later m load store 4 (word.setWidth 64) paddr walked ↔
      fswWord (m.hart.reg load.rd) = some word := by
  have loaded : ∀ pc nextPc, execute host m pc nextPc load =
      (floatToU64 (roundTo 24 (word.setWidth 64).toNat)).map fun data =>
        (nextPc, { hart := m.hart.setFreg load.rd data, bus }) := by
    intro pc nextPc
    refine execute_loadFp ?_ setting.read
    rw [executeOp, loads]
  -- The load of a word is always defined.
  have small : (word.setWidth 64).toNat < 2 ^ 32 := by
    rw [BitVec.toNat_setWidth]
    have range := word.isLt
    omega
  have fits : roundTo 24 (word.setWidth 64).toNat < 2 ^ 64 :=
    (roundTo_le (by decide) small).trans_lt (by decide)
  have converted : floatToU64 (roundTo 24 (word.setWidth 64).toNat) = .ok _ := if_pos fits
  rw [converted] at loaded
  rw [fswWord, ← setting.same]
  cases operand : floatToU64 (roundTo 24 (m.hart.reg store.rs2).toNat) with
  | error stop =>
    refine iff_of_false ?_ (by simp [Except.toOption])
    rintro ⟨first, second, loads, executed, -⟩
    cases Except.ok.inj ((loaded 0 0).symm.trans (loads 0 0))
    have executed := executed 0 0
    rw [execute, executeOp, stores] at executed
    simp only [Hart.setFreg_reg, operand] at executed
    cases executed
  | ok data =>
    rw [setting.restores_iff rfl data loaded rfl]
    · simp [Except.toOption]
    · intro pc nextPc
      rw [executeOp, stores]
      simp only [Hart.setFreg_reg, operand, ok_bind]

end Pair

/-! ### The integer register of the same number -/

/-- A store leaves the devices alike when the integer register with its number holds another value. -/
def StoresAlike (host : Host) (m : Machine) (store : Decoded) (other : BitVec 64) : Prop :=
  ∀ pc nextPc,
    (execute host { m with hart := m.hart.setReg store.rs2 other } pc nextPc store).map
        (fun result => result.2.bus) =
      (execute host m pc nextPc store).map fun result => result.2.bus

section Alike

variable {host : Host} {m : Machine} {store : Decoded} {pc nextPc va data other : BitVec 64}
  {size : Nat}

/-- All that a store does to the devices is its write. -/
theorem execute_store_bus
    (switch : executeOp host m pc nextPc store =
      ({ m, retPc := nextPc, rdVal := host.rdVal } : Locals).store host pc va size data) :
    (execute host m pc nextPc store).map (fun result => result.2.bus) =
      (m.asWrite host va size data .none).map Prod.snd := by
  rw [execute, switch, Locals.store, Locals.writeMem]
  cases written : m.asWrite host va size data .none with
  | error stop => rfl
  | ok result =>
    obtain ⟨_ | ret, bus⟩ := result
    · rfl
    · -- Without a fault the tail of the function writes a register at most.
      simp only [ok_bind, pure_eq_ok]
      rw [writeBack_rd rfl rfl]
      rfl

/-- The address of a store does not change with a register it does not name. -/
theorem setReg_other (apart : store.rs1 ≠ store.rs2) :
    (m.hart.setReg store.rs2 other).reg store.rs1 = m.hart.reg store.rs1 :=
  Function.update_of_ne apart ..

/-- A store of a double does not look at the integer register. -/
theorem fsd_alike (stores : store.op = .fsd) (apart : store.rs1 ≠ store.rs2) :
    StoresAlike host m store other := by
  intro pc nextPc
  have switch : ∀ hart, executeOp host { m with hart } pc nextPc store =
      ({ m := { m with hart }, retPc := nextPc, rdVal := host.rdVal } : Locals).store host pc
        (hart.reg store.rs1 + store.imm) 8 (hart.freg store.rs2) := by
    intro hart
    rw [executeOp, stores]
  -- The address and the operand are the same, and so are the registers that translation reads.
  rw [execute_store_bus (switch _), execute_store_bus (m := m) (switch m.hart), setReg_other apart]
  rfl

/-- Putting bytes into RAM shows which they are. -/
theorem setMemory_inj {bus : Bus} {mem other : BitVec 64 → BitVec 8} :
    bus.setMemory mem = bus.setMemory other ↔ mem = other := by
  constructor
  · intro same
    have bytes := congrArg Bus.memory same
    rwa [Bus.memory_setMemory, Bus.memory_setMemory] at bytes
  · exact congrArg bus.setMemory

/-- Conversions that end alike are seen alike by functions that tell the same words apart. -/
theorem floatToU64_map_iff {α β : Type} (first second : Nat) (one : BitVec 64 → α)
    (other : BitVec 64 → β) (alike : ∀ x y, one x = one y ↔ other x = other y) :
    (floatToU64 first).map one = (floatToU64 second).map one ↔
      (floatToU64 first).toOption.map other = (floatToU64 second).toOption.map other := by
  -- A conversion out of range stops the emulator in one way only.
  unfold floatToU64
  split <;> split <;> simp [Except.map, Except.toOption, alike]

/-- A store of a single leaves the devices alike exactly when both values give the same word. -/
theorem fsw_alike_iff {paddr : BitVec 64} {walked : Bus} (stores : store.op = .fsw)
    (apart : store.rs1 ≠ store.rs2)
    (found : m.mmu host (m.hart.reg store.rs1 + store.imm) = .ok (some paddr, walked))
    (whole : walked.ram.size = ramSize) (placed : InMemory paddr 4) :
    StoresAlike host m store other ↔ fswWord other = fswWord (m.hart.reg store.rs2) := by
  -- What the store does to the devices, for any content of the register.
  have effect : ∀ hart : Hart, hart.reg store.rs1 = m.hart.reg store.rs1 →
      { m with hart }.mmu host (m.hart.reg store.rs1 + store.imm) = .ok (some paddr, walked) →
      ∀ pc nextPc, (execute host { m with hart } pc nextPc store).map (fun result => result.2.bus) =
        (floatToU64 (roundTo 24 (hart.reg store.rs2).toNat)).map fun data =>
          walked.setMemory (LittleEndian.store walked.memory paddr 4 data) := by
    intro hart address same pc nextPc
    cases operand : floatToU64 (roundTo 24 (hart.reg store.rs2).toNat) with
    | error stop =>
      rw [execute, executeOp, stores]
      simp only [operand]
      rfl
    | ok data =>
      obtain ⟨old, written⟩ := Machine.asWrite_memory data same whole rfl placed
      have switch : executeOp host { m with hart } pc nextPc store =
          ({ m := { m with hart }, retPc := nextPc, rdVal := host.rdVal } : Locals).store host pc
            (m.hart.reg store.rs1 + store.imm) 4 data := by
        rw [executeOp, stores]
        simp only [operand, ok_bind, address]
      rw [execute_store_bus switch, written]
      rfl
  have altered := effect (m.hart.setReg store.rs2 other) (setReg_other apart) found
  have plain := effect m.hart rfl found
  have held : (m.hart.setReg store.rs2 other).reg store.rs2 = other := Function.update_self ..
  rw [held] at altered
  have compared := floatToU64_map_iff (roundTo 24 other.toNat)
    (roundTo 24 (m.hart.reg store.rs2).toNat)
    (fun data : BitVec 64 => walked.setMemory (LittleEndian.store walked.memory paddr 4 data))
    (fun data => data.setWidth 32) fun one two => by
      rw [setMemory_inj]
      exact store_eq_iff _ _ (by decide)
  rw [fswWord, fswWord, ← compared]
  constructor
  · exact fun alike => (altered 0 0).symm.trans ((alike 0 0).trans (plain 0 0))
  · exact fun same pc nextPc => (altered pc nextPc).trans (same.trans (plain pc nextPc).symm)

end Alike

/-! ### The result -/

/--
Saving what was restored gives doubles back that have 53 significant bits at most.

A single comes back only if the integer register, cut to 24 significant bits, has it in its low
word. A store of a double does not look at that register, and one of a single sees that word of it.
-/
theorem fp_state_lossless_iff (host : Host) (m : Machine) (store : Decoded) :
    (∀ later load value paddr bus walked,
      Exchange host later m load store 8 value paddr bus walked → load.op = .fld →
      store.op = .fsd →
        (Restores host later m load store 8 value paddr walked ↔ Significant 53 value.toNat)) ∧
    (∀ later load (word : BitVec 32) paddr bus walked,
      Exchange host later m load store 4 (word.setWidth 64) paddr bus walked → load.op = .flw →
      store.op = .fsw →
        (Restores host later m load store 4 (word.setWidth 64) paddr walked ↔
          fswWord (m.hart.reg load.rd) = some word)) ∧
    (∀ other, store.op = .fsd → store.rs1 ≠ store.rs2 → StoresAlike host m store other) ∧
    ∀ other paddr walked, store.op = .fsw → store.rs1 ≠ store.rs2 →
      m.mmu host (m.hart.reg store.rs1 + store.imm) = .ok (some paddr, walked) →
      walked.ram.size = ramSize → InMemory paddr 4 →
        (StoresAlike host m store other ↔ fswWord other = fswWord (m.hart.reg store.rs2)) :=
  ⟨fun _ _ _ _ _ _ setting => setting.double, fun _ _ _ _ _ _ setting => setting.single,
    fun _ => fsd_alike, fun _ _ _ => fsw_alike_iff⟩

/-- A load of the first eight bytes of the ROM, and a store to the first eight of RAM. -/
def spillMachine (words : List (BitVec 32)) : Machine :=
  ((Machine.boot words).writeRd 1 0x1000).writeRd 2 0x80000000

/-- The load of that machine. -/
def spillLoad : Decoded := ⟨.fld, 8, 1, 0, 0, 0⟩

/-- The store of that machine. -/
def spillStore : Decoded := ⟨.fsd, 0, 2, 8, 0, 0⟩

/-- What the ROM holds is loaded, and the store goes to RAM. -/
theorem exchange_of_rom (words : List (BitVec 32)) (value : BitVec 64)
    (read : ((spillMachine words).asRead {} 0x1000 8 .none).map Prod.fst = .ok (some value)) :
    ∃ bus, Exchange {} {} (spillMachine words) spillLoad spillStore 8 value 0x80000000 bus bus := by
  obtain ⟨⟨_, bus⟩, accessed, rfl⟩ := map_eq_ok.mp read
  have address : (spillMachine words).hart.reg spillLoad.rs1 + spillLoad.imm = 0x1000 := rfl
  -- Whether or not the address has a translation, a read keeps the memories.
  have kept : (spillMachine words).bus.SameMemory bus := by
    rcases Machine.asRead_first accessed with ⟨_, _, kept⟩ | ⟨_, _, _, _, kept⟩
    · exact kept
    · exact kept
  exact ⟨bus, rfl, address ▸ accessed, Machine.mmu_bare (fun translated => translated.1 rfl) _,
    kept.ram ▸ rfl, by decide, by decide⟩

/-- The pattern of the double one has few significant bits, and comes back. -/
theorem fp_state_lossless_iff_integer :
    ∃ bus, Restores {} {} (spillMachine [0, 0x3FF00000]) spillLoad spillStore 8 0x3FF0000000000000
      0x80000000 bus := by
  obtain ⟨bus, setting⟩ := exchange_of_rom [0, 0x3FF00000] 0x3FF0000000000000
    (by decide +kernel)
  exact ⟨bus, ((fp_state_lossless_iff {} _ _).1 _ _ _ _ _ _ setting rfl rfl).mpr
    ⟨0x3FF, 52, by decide, by decide⟩⟩

/-- The pattern of the double after it has too many, and the load rounds them away. -/
theorem double_rounded :
    ¬ ∀ host later m load store value paddr bus walked,
      Exchange host later m load store 8 value paddr bus walked → load.op = .fld →
      store.op = .fsd → Restores host later m load store 8 value paddr walked := by
  intro always
  obtain ⟨bus, setting⟩ := exchange_of_rom [1, 0x3FF00000] 0x3FF0000000000001
    (by decide +kernel)
  have kept := (setting.double rfl rfl).mp (always _ _ _ _ _ _ _ _ _ setting rfl rfl)
  exact absurd (significant_iff.mp kept) (by decide)

end Xemu
