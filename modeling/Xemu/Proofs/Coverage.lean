import Xemu.Machine.Execute
import Xemu.Machine.Invariant

/-! The decoders produce two operations that the executor has no case for. -/

namespace Xemu

/-! ### Stops outside the two default cases -/

namespace Stop

/-- The stops other than those of the `default` cases of `execute` and `trap_exit`. -/
structure Covered (stop : Stop) : Prop where
  op : stop ≠ badOp
  exit : stop ≠ badExit

/-- An ordinary stop is none of the two. -/
theorem Ordinary.covered {stop : Stop} (ordinary : stop.Ordinary) : stop.Covered :=
  ⟨ordinary.op, ordinary.exit⟩

/-- The missing backend is none of the two. -/
theorem noBackend_covered : noBackend.Covered :=
  ⟨fun same => Stop.noConfusion same, fun same => Stop.noConfusion same⟩

/-- A look behind the configuration record is none of the two. -/
theorem outsideRecord_covered : outsideRecord.Covered :=
  ⟨fun same => Stop.noConfusion same, fun same => Stop.noConfusion same⟩

/-- The division by a queue size of zero is none of the two. -/
theorem zeroModulus_covered : zeroModulus.Covered :=
  ⟨fun same => Stop.noConfusion same, fun same => Stop.noConfusion same⟩

end Stop

/-- A computation that reaches neither of the two panics. -/
abbrev Covers {α : Type} (comp : Except Stop α) : Prop := Ends comp (fun _ => True) Stop.Covered

/-- A computation with ordinary stops reaches neither panic. -/
theorem covers_of_orderly {α : Type} {comp : Except Stop α} (orderly : Orderly comp) : Covers comp :=
  orderly.mono (fun _ holds => holds) fun _ => Stop.Ordinary.covered

/-- A computation that may miss a backend reaches neither panic. -/
theorem covers_of_slot {α : Type} {comp : Except Stop α}
    (ends : Ends comp (fun _ => True) SlotStop) : Covers comp :=
  ends.mono (fun _ holds => holds) fun _ stop => stop.elim Stop.Ordinary.covered fun missing =>
    missing ▸ Stop.noBackend_covered

namespace Bus

variable {host : Host} {write : Writer}

/-- A read through the bus reaches neither panic. -/
theorem asReadNommu_covers (bus : Bus) (addr : BitVec 64) (size : Nat) (params : Params) :
    Covers (bus.asReadNommu host addr size params) :=
  (asReadNommu_ends host bus addr size params).mono (fun _ holds => holds) fun _ stop =>
    stop.elim Stop.Ordinary.covered fun missing => missing.elim
      (fun word => word.2 ▸ Stop.noBackend_covered) fun byte => byte.2 ▸ Stop.outsideRecord_covered

/-- Queue work reaches neither panic when its writer does not. -/
theorem queueWork_covers (writes : ∀ bus addr size data, Covers (write bus addr size data)) :
    QueueWork host (fun _ => True) Stop.Covered write where
  ordinary _ := Stop.Ordinary.covered
  kept _ _ _ _ _ := fun _ _ => trivial
  narrow size _ bus addr data _ := writes bus addr size data
  halves bus addr data _ := writes bus addr 4 data
  blk _ _ _ _ _ _ := trivial
  thread _ _ _ _ := trivial
  signal _ _ := fun _ _ => trivial
  divides _ _ _ := Stop.zeroModulus_covered
  record := Stop.outsideRecord_covered

/-- A write to a slot reaches neither, when the writer it works with does not. -/
theorem mmioWrite_covers (writes : ∀ bus addr size data, Covers (write bus addr size data))
    (fuel : Nat) (bus : Bus) (slot : Fin 8) (addr data : BitVec 64) (size : Nat) :
    Covers (mmioWrite host write fuel bus slot addr data size) := by
  refine .ite (fun _ => .error (Stop.Ordinary.covered (by simp))) fun _ => .ite (fun _ => ?_) fun _ => ?_
  · exact .bind (covers_of_slot (VirtioDev.mmioWriteMissing_ends addr data)) fun _ _ =>
      .ok trivial
  · -- A notification is queue work, and every other register belongs to the device.
    refine .ite (fun _ => (queueWork_covers writes).notifyLoop fuel trivial) fun _ => ?_
    exact .bind (covers_of_orderly (bus.blk.vdev.mmioWrite_orderly addr data)) fun _ _ => .ok trivial

/-- A write through the bus reaches neither, when that writer does not. -/
theorem asWriteNommuWith_covers (writes : ∀ bus addr size data, Covers (write bus addr size data))
    (fuel : Nat) (bus : Bus) (addr : BitVec 64) (size : Nat) (data : BitVec 64) (params : Params) :
    Covers (bus.asWriteNommuWith host write fuel addr size data params) := by
  refine .ite (fun _ => .error (Stop.Ordinary.covered (by simp))) fun _ => ?_
  rw [writeFrom_route]
  cases (AddressSpace.route AddressSpace.rootChildren addr).1 with
  | virtio slot =>
    exact .bind (mmioWrite_covers writes _ _ _ _ _ _) fun bus _ => .ok trivial
  | dummy | rtc | pciHost | plic | clint | rom | flash | ram | uart =>
    exact covers_of_orderly (deviceWrite_orderly (by simp) _ _ _ _ _ _ _ _)

/-- The writer of any level reaches neither, by induction on the levels. -/
theorem nestedWriter_covers (fuel : Nat) (bus : Bus) (addr : BitVec 64) (size : Nat)
    (data : BitVec 64) : Covers (nestedWriter host fuel bus addr size data) := by
  induction fuel generalizing bus addr size data with
  | zero => exact .error (Stop.Ordinary.covered (by simp))
  | succ fuel ih =>
    -- The writer of one level hands the writer of the level below to the devices.
    exact .bind (asWriteNommuWith_covers ih fuel _ _ _ _ _) fun result _ => .ok trivial

/-- A write through the bus reaches neither panic. -/
theorem asWriteNommu_covers (bus : Bus) (addr : BitVec 64) (size : Nat) (data : BitVec 64)
    (params : Params) : Covers (bus.asWriteNommu host addr size data params) :=
  asWriteNommuWith_covers (nestedWriter_covers host.fuel) _ _ _ _ _ _

end Bus

namespace Machine

variable {host : Host} {m : Machine}

/-- A walk reaches neither panic. -/
theorem mmu_covers (vaddr : BitVec 64) : Covers (m.mmu host vaddr) := by
  refine .ite (fun _ => .ok trivial) fun _ => ?_
  -- Each level reads one entry, and only the read may stop.
  refine .bind (Bus.asReadNommu_covers _ _ _ _) fun _ _ => .ite (fun _ => .ok trivial) fun _ => ?_
  refine .ite (fun _ => .ok trivial) fun _ => ?_
  refine .bind (Bus.asReadNommu_covers _ _ _ _) fun _ _ => .ite (fun _ => .ok trivial) fun _ => ?_
  refine .ite (fun _ => .ok trivial) fun _ => ?_
  refine .bind (Bus.asReadNommu_covers _ _ _ _) fun _ _ => .ite (fun _ => .ok trivial) fun _ => ?_
  exact .ite (fun _ => .ok trivial) fun _ => .ok trivial

/-- A read of a virtual address reaches neither. -/
theorem asRead_covers (vaddr : BitVec 64) (size : Nat) (params : Params) :
    Covers (m.asRead host vaddr size params) := by
  refine .bind (mmu_covers vaddr) fun ⟨paddr, bus⟩ _ => ?_
  cases paddr with
  | none => exact .ok trivial
  | some paddr => exact .bind (Bus.asReadNommu_covers _ _ _ _) fun _ _ => .ok trivial

/-- A write to one reaches neither. -/
theorem asWrite_covers (vaddr : BitVec 64) (size : Nat) (data : BitVec 64) (params : Params) :
    Covers (m.asWrite host vaddr size data params) := by
  refine .bind (mmu_covers vaddr) fun ⟨paddr, bus⟩ _ => ?_
  cases paddr with
  | none => exact .ok trivial
  | some paddr => exact .bind (Bus.asWriteNommu_covers _ _ _ _ _) fun _ _ => .ok trivial

end Machine

/-! ### The cases of the switch -/

/-- The shift whose amount may be undefined reaches neither. -/
theorem sraWord_covers (word : BitVec 32) (amount : BitVec 64) : Covers (sraWord word amount) :=
  .ite (fun _ => .ok trivial) fun _ => .error (Stop.Ordinary.covered (by simp))

/-- The conversion that may be undefined reaches neither. -/
theorem floatToU64_covers (value : Nat) : Covers (floatToU64 value) :=
  .ite (fun _ => .ok trivial) fun _ => .error (Stop.Ordinary.covered (by simp))

/-- A look at a control register reaches neither. -/
theorem csrRead_covers (host : Host) (hart : Hart) (addr : BitVec 12) :
    Covers (csrRead host hart addr) := by
  refine .ite (fun _ => .ok trivial) fun _ => .ite (fun _ => .ok trivial) fun _ => ?_
  refine .ite (fun _ => .ok trivial) fun _ => .ite (fun _ => .ok trivial) fun _ => ?_
  refine .ite (fun _ => .ok trivial) fun _ => .ite (fun _ => ?_) fun _ => .ok trivial
  exact .error (Stop.Ordinary.covered (by simp))

/-- An update of one reaches neither. -/
theorem csrUpdate_covers (host : Host) (hart : Hart) (addr : BitVec 12) (data : BitVec 64)
    (type : CsrOp) : Covers (csrUpdate host hart addr data type) := by
  refine .bind (csrRead_covers host hart addr) fun ret _ => ?_
  cases ret with
  | none => exact .ok trivial
  | some ret => exact .ok trivial

namespace Locals

variable {locals : Locals} {host : Host} {pc addr data : BitVec 64} {size : Nat}

/-- A read of memory with its exception reaches neither. -/
theorem readMem_covers (params : Params) (cause : BitVec 64) :
    Covers (locals.readMem host pc addr size params cause) := by
  refine .bind (Machine.asRead_covers addr size params) fun ⟨data, bus⟩ _ => ?_
  cases data with
  | none => exact .ok trivial
  | some data => exact .ok trivial

/-- A write to memory with its exception reaches neither. -/
theorem writeMem_covers (params : Params) :
    Covers (locals.writeMem host pc addr size data params) := by
  refine .bind (Machine.asWrite_covers addr size data params) fun ⟨ret, bus⟩ _ => ?_
  cases ret with
  | none => exact .ok trivial
  | some ret => exact .ok trivial

/-- An integer load reaches neither. -/
theorem load_covers (cast : BitVec 64 → BitVec 64) :
    Covers (locals.load host pc addr size cast) :=
  .bind (readMem_covers _ _) fun _ _ => .ok trivial

/-- A store reaches neither. -/
theorem store_covers : Covers (locals.store host pc addr size data) :=
  .bind (writeMem_covers _) fun _ _ => .ok trivial

/-- A load-reserved reaches neither. -/
theorem loadReserved_covers (cast : BitVec 64 → BitVec 64) :
    Covers (locals.loadReserved host pc addr size cast) :=
  .bind (readMem_covers _ _) fun _ _ => .ok trivial

/-- A conditional store or an atomic update reaches neither. -/
theorem update_covers (params : Params) :
    Covers (locals.update host pc addr size data params) :=
  .bind (writeMem_covers _) fun _ _ => .ok trivial

/-- A floating-point load reaches neither. -/
theorem loadFp_covers (precision : Nat) :
    Covers (locals.loadFp host pc addr size precision) :=
  .bind (readMem_covers _ _) fun _ _ => .ok trivial

/-- An access to a control register reaches neither. -/
theorem csr_covers (csrAddr : BitVec 12) (type : CsrOp) :
    Covers (locals.csr host pc csrAddr data type) := by
  refine .bind (csrUpdate_covers _ _ _ _ _) fun ⟨ret, hart⟩ _ => ?_
  cases ret with
  | none => exact .ok trivial
  | some ret => exact .ok trivial

/-- The result is written back without either. -/
theorem writeBack_covers (rd : BitVec 5) : Covers (locals.writeBack rd) := by
  refine .ite (fun _ => .ok trivial) fun _ => .ite (fun _ => ?_) fun _ => ?_
  · exact .bind (floatToU64_covers _) fun _ _ => .ok trivial
  · exact .ite (fun _ => .ok trivial) fun _ => .ok trivial

end Locals

open Locals in
/-- The switch of `execute` has a case for every operation but two. -/
theorem executeOp_covers {d : Decoded} (breakpoint : d.op ≠ .ebreak) (return_ : d.op ≠ .uret)
    (host : Host) (m : Machine) (pc nextPc : BitVec 64) :
    Covers (executeOp host m pc nextPc d) := by
  obtain ⟨op, rd, rs1, rs2, imm, csrAddr⟩ := d
  cases op with
  | lb | lh | lw | ld | lbu | lhu | lwu => exact load_covers _
  | sb | sh | sw | sd | fsd => exact store_covers
  | fsw => exact .bind (floatToU64_covers _) fun _ _ => store_covers
  | lrD | lrW => exact loadReserved_covers _
  | scD | amoAddD | amoSwapD | amoXorD | amoOrD | amoAndD | amoMinD | amoMaxD | amoMinuD
  | amoMaxuD | scW | amoAddW | amoSwapW | amoXorW | amoOrW | amoAndW | amoMinW | amoMaxW
  | amoMinuW | amoMaxuW => exact update_covers _
  | flw | fld => exact loadFp_covers _
  | csrrw | csrrwi | csrrs | csrrsi | csrrc | csrrci => exact csr_covers _ _
  | sraiw | sraw => exact .bind (sraWord_covers _ _) fun _ _ => .ok trivial
  -- The remaining operations assign locals or leave the hart, and do not stop.
  | uret => exact absurd rfl return_
  | ebreak => exact absurd rfl breakpoint
  | _ => exact .ok trivial

/-- The executor reaches one of the two panics exactly for the two operations without a case. -/
theorem execute_covers_iff (host : Host) (m : Machine) (pc nextPc : BitVec 64) (d : Decoded) :
    Covers (execute host m pc nextPc d) ↔ d.op ≠ .ebreak ∧ d.op ≠ .uret := by
  constructor
  · intro covers
    obtain ⟨op, rd, rs1, rs2, imm, csrAddr⟩ := d
    -- Each of the two stops before anything else is looked at.
    refine ⟨?_, ?_⟩
    · rintro rfl
      exact absurd rfl (covers.stopped _ rfl).op
    · rintro rfl
      exact absurd rfl (covers.stopped _ rfl).exit
  · rintro ⟨breakpoint, return_⟩
    exact .bind (executeOp_covers breakpoint return_ host m pc nextPc) fun locals _ =>
      locals.writeBack_covers _

/-! ### The words without a case -/

/-- The words of a system instruction that names no control register, by their upper field. -/
structure IsSystem (inst : BitVec 32) (number : Nat) : Prop where
  opcode : (inst.extractLsb 6 0).toNat = 0x73
  funct3 : (inst.extractLsb 14 12).toNat = 0
  upper : (inst.extractLsb 31 20).toNat = number

/-- The words with the low half of a 16-bit breakpoint, whatever its second register field. -/
structure IsShortBreak (inst : BitVec 32) : Prop where
  quadrant : (inst.extractLsb 1 0).toNat = 2
  funct4 : (inst.extractLsb 15 12).toNat = 9
  register : (inst.extractLsb 11 7).toNat = 0

/-- The upper field is made of `funct7` and the second register field. -/
theorem upper_eq_fields (inst : BitVec 32) :
    (inst.extractLsb 31 20).toNat =
      32 * (inst.extractLsb 31 25).toNat + (bits inst 24 20).toNat := by
  simp only [bits, BitVec.extractLsb_toNat, BitVec.toNat_setWidth, Nat.shiftRight_eq_div_pow]
  omega

/-- The upper field of a 16-bit word is made of its `funct3` and one more bit. -/
theorem funct4_eq_fields (half : BitVec 16) :
    (half.extractLsb 15 12).toNat =
      2 * (half.extractLsb 15 13).toNat + (half.getLsbD 12).toNat := by
  have lowest : (half.getLsbD 12).toNat = half.toNat / 2 ^ 12 % 2 := by
    rw [BitVec.getLsbD, Nat.toNat_testBit]
  simp only [BitVec.extractLsb_toNat, Nat.shiftRight_eq_div_pow, lowest]
  omega

/-- The low two bits of a word tell its length. -/
theorem long_iff (inst : BitVec 32) : inst &&& 0x3 = 0x3 ↔ inst.toNat % 4 = 3 := by
  rw [← BitVec.toNat_inj, BitVec.toNat_and]
  change inst.toNat &&& (2 ^ 2 - 1) = 3 ↔ _
  rw [Nat.and_two_pow_sub_one_eq_mod]

section Words

variable {inst : BitVec 32} {half : BitVec 16} {d : Decoded}

/-- A system word without a control register is decoded by the switch of its own. -/
theorem dec32_priv (decoded : Dec32.dec32 inst = .ok d)
    (opcode : (inst.extractLsb 6 0).toNat = 0x73) (funct3 : (inst.extractLsb 14 12).toNat = 0) :
    Dec32.privOp inst (inst.extractLsb 31 25) = .ok d.op := by
  -- The opcode leads to the system switch, and the function to the privileged one.
  dsimp only [Dec32.dec32] at decoded
  rw [opcode] at decoded
  obtain ⟨⟨op, imm⟩, named, result⟩ := bind_eq_ok.mp decoded
  cases Except.ok.inj result
  unfold Dec32.systemOp at named
  rw [funct3] at named
  obtain ⟨priv, found, same⟩ := bind_eq_ok.mp named
  cases Except.ok.inj same
  exact found

/-- The switch without a control register names an operation without a case by the upper field. -/
theorem privOp_uncovered {funct7 : BitVec 7} {op : Op} (named : Dec32.privOp inst funct7 = .ok op) :
    (op = .ebreak ↔ funct7.toNat = 0 ∧ (bits inst 24 20).toNat = 1) ∧
      (op = .uret ↔ funct7.toNat = 0 ∧ (bits inst 24 20).toNat = 2) := by
  dsimp only [Dec32.privOp] at named
  split at named
  case h_1 funct =>
    split at named
    -- With a zero `funct7` the second register field decides.
    case h_1 rs2 => cases named; simp [funct, rs2]
    case h_2 rs2 => cases named; simp [funct, rs2]
    case h_3 rs2 => cases named; simp [funct, rs2]
    case h_4 => cases named
  case h_2 funct =>
    split at named
    · cases named
      simp [funct]
    · split at named <;> cases named
      simp [funct]
  case h_3 funct => cases named; simp [funct]
  case h_4 funct => cases named; simp [funct]
  case h_5 => cases named

/-- The 32-bit words decoded as one of the two operations. -/
theorem dec32_uncovered (decoded : Dec32.dec32 inst = .ok d) :
    (d.op = .ebreak ↔ IsSystem inst 1) ∧ (d.op = .uret ↔ IsSystem inst 2) := by
  have upper := upper_eq_fields inst
  have bound := (bits inst 24 20).isLt
  have field : (bits inst 24 20).toNat < 32 := by
    rw [bits, BitVec.toNat_setWidth]
    omega
  by_cases priv : (inst.extractLsb 6 0).toNat = 0x73 ∧ (inst.extractLsb 14 12).toNat = 0
  · obtain ⟨breakpoint, return_⟩ := privOp_uncovered (dec32_priv decoded priv.1 priv.2)
    rw [breakpoint, return_]
    constructor
    · exact ⟨fun named => ⟨priv.1, priv.2, by omega⟩, fun system => by have := system.upper; omega⟩
    · exact ⟨fun named => ⟨priv.1, priv.2, by omega⟩, fun system => by have := system.upper; omega⟩
  · -- Every other word belongs to a class without the two.
    have other : d.op ≠ .ebreak ∧ d.op ≠ .uret := by
      cases Dec32.dec32_class decoded with
      | plain plain => exact Op.not_uncovered plain
      | relative relative _ => constructor <;> (intro same; rw [same] at relative; cases relative)
      | system opcode funct3 _ => exact absurd ⟨opcode, funct3⟩ priv
    exact ⟨iff_of_false other.1 fun system => priv ⟨system.opcode, system.funct3⟩,
      iff_of_false other.2 fun system => priv ⟨system.opcode, system.funct3⟩⟩

/-- The moves and jumps of quadrant two include the breakpoint. -/
theorem dec16_move (decoded : Dec16.dec16 half = .ok d) (quadrant : (half.extractLsb 1 0).toNat = 2)
    (funct3 : (half.extractLsb 15 13).toNat = 4) : d = Dec16.moveOrJump half := by
  dsimp only [Dec16.dec16] at decoded
  rw [quadrant] at decoded
  dsimp only [Dec16.quadrant2] at decoded
  rw [funct3] at decoded
  exact (Except.ok.inj decoded).symm

/-- A move or jump is a breakpoint when it has the bit of a call and no register. -/
theorem moveOrJump_uncovered (half : BitVec 16) :
    ((Dec16.moveOrJump half).op = .ebreak ↔
      half.getLsbD 12 ∧ (half.extractLsb 11 7).toNat = 0) ∧
      (Dec16.moveOrJump half).op ≠ .uret := by
  have zero : Dec16.fullReg half = 0 ↔ (half.extractLsb 11 7).toNat = 0 := by
    rw [Dec16.fullReg, ← BitVec.toNat_inj]
    rfl
  rw [← zero]
  dsimp only [Dec16.moveOrJump]
  split
  case isTrue set =>
    split
    · -- With a register the word is an addition or a call.
      rename_i register
      refine ⟨iff_of_false ?_ fun both => register both.2, ?_⟩
      all_goals split <;> exact fun same => Op.noConfusion same
    · rename_i register
      exact ⟨iff_of_true rfl ⟨set, Decidable.not_not.mp register⟩, fun same => Op.noConfusion same⟩
  case isFalse clear =>
    refine ⟨iff_of_false ?_ fun both => clear both.1, ?_⟩
    all_goals split <;> exact fun same => Op.noConfusion same

/-- The 16-bit words decoded as a breakpoint. -/
theorem dec16_uncovered (decoded : Dec16.dec16 half = .ok d) :
    (d.op = .ebreak ↔ (half.extractLsb 1 0).toNat = 2 ∧ (half.extractLsb 15 12).toNat = 9 ∧
      (half.extractLsb 11 7).toNat = 0) ∧ d.op ≠ .uret := by
  have upper := funct4_eq_fields half
  have bit := Bool.toNat_le (half.getLsbD 12)
  by_cases move : (half.extractLsb 1 0).toNat = 2 ∧ (half.extractLsb 15 13).toNat = 4
  · rw [dec16_move decoded move.1 move.2]
    obtain ⟨breakpoint, other⟩ := moveOrJump_uncovered half
    refine ⟨breakpoint.trans ⟨fun ⟨set, register⟩ => ⟨move.1, ?_, register⟩, fun short => ?_⟩, other⟩
    · rw [upper, move.2, set]
      rfl
    · refine ⟨?_, short.2.2⟩
      -- With an odd field the bit is set.
      cases set : half.getLsbD 12 with
      | true => rfl
      | false =>
        have four := short.2.1
        rw [upper, move.2, set] at four
        exact absurd four (by decide)
  · have other : d.op ≠ .ebreak ∧ d.op ≠ .uret := by
      cases Dec16.dec16_class decoded with
      | plain plain => exact Op.not_uncovered plain
      | relative relative _ => constructor <;> (intro same; rw [same] at relative; cases relative)
      | ebreak quadrant funct3 _ _ _ => exact absurd ⟨quadrant, funct3⟩ move
    exact ⟨iff_of_false other.1 fun short => move ⟨short.1, by omega⟩, other.2⟩

/-- The words decoded as a breakpoint, and as a return from a user trap. -/
theorem decode_uncovered {pc nextPc : BitVec 64} (decoded : decode pc inst = .ok (nextPc, d)) :
    (d.op = .ebreak ↔ IsSystem inst 1 ∨ IsShortBreak inst) ∧ (d.op = .uret ↔ IsSystem inst 2) := by
  have opcode : (inst.extractLsb 6 0).toNat = inst.toNat % 128 := by
    simp [BitVec.extractLsb_toNat]
  have quadrant : (inst.extractLsb 1 0).toNat = inst.toNat % 4 := by
    simp [BitVec.extractLsb_toNat]
  have long_of_system {number : Nat} (system : IsSystem inst number) : inst.toNat % 4 = 3 := by
    have := system.opcode
    omega
  unfold decode at decoded
  split at decoded
  · rename_i long
    obtain ⟨full, found, result⟩ := bind_eq_ok.mp decoded
    cases Except.ok.inj result
    obtain ⟨breakpoint, return_⟩ := dec32_uncovered found
    -- A full word does not end in the two bits of a short one.
    have four := (long_iff inst).mp long
    refine ⟨breakpoint.trans ⟨.inl, fun either => either.resolve_right fun short => ?_⟩, return_⟩
    have := short.quadrant
    omega
  · rename_i short
    obtain ⟨half, found, result⟩ := bind_eq_ok.mp decoded
    cases Except.ok.inj result
    obtain ⟨breakpoint, other⟩ := dec16_uncovered found
    have three : ¬ inst.toNat % 4 = 3 := fun three => short ((long_iff inst).mpr three)
    refine ⟨?_, iff_of_false other fun system => three (long_of_system system)⟩
    -- The fields of the low half are fields of the word.
    simp only [BitVec.extractLsb_toNat, Nat.shiftRight_eq_div_pow] at breakpoint
    rw [breakpoint]
    constructor
    · rintro ⟨low, funct4, register⟩
      refine .inr ⟨?_, ?_, ?_⟩
      all_goals
        simp only [BitVec.extractLsb_toNat, Nat.shiftRight_eq_div_pow]
        omega
    · rintro (system | ⟨low, funct4, register⟩)
      · exact absurd (long_of_system system) three
      · simp only [BitVec.extractLsb_toNat, Nat.shiftRight_eq_div_pow] at low funct4 register
        omega

end Words

/--
The executor has a case for what a word decodes to exactly if the word is no breakpoint, of either
length, and no return from a user trap.
-/
theorem decoded_covered_iff {pc nextPc : BitVec 64} {inst : BitVec 32} {d : Decoded}
    (decoded : decode pc inst = .ok (nextPc, d)) (host : Host) (m : Machine) :
    (execute host m pc nextPc d ≠ .error (.panic "execute: bad op (%s) at: %x\n") ∧
      execute host m pc nextPc d ≠ .error (.panic "trap_exit: bad op(0x%x)\n")) ↔
      ¬ IsSystem inst 1 ∧ ¬ IsShortBreak inst ∧ ¬ IsSystem inst 2 := by
  obtain ⟨breakpoint, return_⟩ := decode_uncovered decoded
  have cases_of_word : (d.op ≠ .ebreak ∧ d.op ≠ .uret) ↔
      ¬ IsSystem inst 1 ∧ ¬ IsShortBreak inst ∧ ¬ IsSystem inst 2 := by
    rw [ne_eq, ne_eq, breakpoint, return_, not_or, and_assoc]
  rw [← cases_of_word, ← execute_covers_iff host m pc nextPc d]
  -- The two messages are the only stops that tell of a missing case.
  constructor
  · rintro ⟨op, exit⟩
    refine ⟨fun _ _ => trivial, fun stop stopped => ⟨?_, ?_⟩⟩
    · rintro rfl
      exact op stopped
    · rintro rfl
      exact exit stopped
  · intro covers
    exact ⟨fun stopped => (covers.stopped _ stopped).op rfl,
      fun stopped => (covers.stopped _ stopped).exit rfl⟩

/-- A `NOP` in its 32-bit form has a case. -/
theorem decoded_covered_iff_nop :
    (execute {} (.reset (.zeroed 0) (.zeroed 0) (.zeroed 0)) 0x1000 0x1004
        { op := .addi, rd := 0, rs1 := 0, rs2 := 0, imm := 0, csrAddr := 0 } ≠
          .error (.panic "execute: bad op (%s) at: %x\n") ∧
      execute {} (.reset (.zeroed 0) (.zeroed 0) (.zeroed 0)) 0x1000 0x1004
        { op := .addi, rd := 0, rs1 := 0, rs2 := 0, imm := 0, csrAddr := 0 } ≠
          .error (.panic "trap_exit: bad op(0x%x)\n")) ↔
      ¬ IsSystem 0x00000013 1 ∧ ¬ IsShortBreak 0x00000013 ∧ ¬ IsSystem 0x00000013 2 :=
  decoded_covered_iff (rfl : decode 0x1000 0x00000013 = .ok (0x1004, _)) _ _

/-- A breakpoint of either length and a return from a user trap stop the emulator. -/
theorem breakpoints_stop :
    (∃ d, decode 0x1000 0x00100073 = .ok (0x1004, d) ∧ ∀ host m,
      execute host m 0x1000 0x1004 d = .error (.panic "execute: bad op (%s) at: %x\n")) ∧
    (∃ d, decode 0x1000 0x00009002 = .ok (0x1002, d) ∧ ∀ host m,
      execute host m 0x1000 0x1002 d = .error (.panic "execute: bad op (%s) at: %x\n")) ∧
    ∃ d, decode 0x1000 0x00200073 = .ok (0x1004, d) ∧ ∀ host m,
      execute host m 0x1000 0x1004 d = .error (.panic "trap_exit: bad op(0x%x)\n") :=
  ⟨⟨_, rfl, fun _ _ => rfl⟩, ⟨_, rfl, fun _ _ => rfl⟩, ⟨_, rfl, fun _ _ => rfl⟩⟩

end Xemu
