import Xemu.Machine.BusWrite

/-! Bus accesses that reach RAM, and what every other access leaves of it. -/

namespace Xemu

/-- The first address of RAM. -/
def ramStart : BitVec 64 := 0x80000000

/-- The last address of RAM. -/
def ramLast : BitVec 64 := 0xFFFFFFFF

/-- An address that the bus takes to RAM. -/
def inRam (addr : BitVec 64) : Prop := ramStart ≤ addr ∧ addr ≤ ramLast

instance (addr : BitVec 64) : Decidable (inRam addr) := inferInstanceAs (Decidable (_ ∧ _))

namespace AddressSpace

/-- The loop over a list ends where a search through it does. -/
theorem route_find (children : List AddressSpace) (addr : BitVec 64) :
    route children addr =
      match children.find? fun child => child.contains addr with
      | none => (.dummy, addr)
      | some child => (child.device, addr - child.start) := by
  induction children with
  | nil => rfl
  | cons child rest ih =>
    by_cases inside : child.contains addr
    · simp [route, inside]
    · simp [route, inside, ih]

/-- A child that contains an address takes it, because no other child does. -/
theorem route_contains {region : AddressSpace} {addr : BitVec 64}
    (member : region ∈ rootChildren) (inside : region.contains addr) :
    route rootChildren addr = (region.device, addr - region.start) := by
  -- The bounds of the children are apart from each other.
  have apart : ∀ one ∈ rootChildren, ∀ two ∈ rootChildren, one = two ∨
      one.last < two.start ∨ two.last < one.start := by decide
  rw [route_find]
  cases found : rootChildren.find? fun child => child.contains addr with
  | none => exact absurd inside (List.find?_eq_none.mp found region member)
  | some child =>
    have taken : child.contains addr := by simpa using List.find?_some found
    have same : child = region := by
      simp only [contains, Bool.and_eq_true, decide_eq_true_eq, BitVec.le_def] at inside taken
      rcases apart child (List.mem_of_find?_eq_some found) region member with same | before | after
      · exact same
      · rw [BitVec.lt_def] at before
        omega
      · rw [BitVec.lt_def] at after
        omega
    rw [same]

/-- What some device other than the root takes lies in one of the children. -/
theorem exists_contains {addr : BitVec 64} (taken : (route rootChildren addr).1 ≠ .dummy) :
    ∃ region ∈ rootChildren, region.contains addr ∧
      route rootChildren addr = (region.device, addr - region.start) := by
  rw [route_find] at taken ⊢
  cases found : rootChildren.find? fun child => child.contains addr with
  | none =>
    rw [found] at taken
    exact absurd rfl taken
  | some child =>
    exact ⟨child, List.mem_of_find?_eq_some found, by simpa using List.find?_some found, rfl⟩

/-- An address in RAM is taken by RAM, whichever regions stand before it among the children. -/
theorem route_ram {addr : BitVec 64} (inside : inRam addr) :
    route rootChildren addr = (.ram, addr - ramStart) := by
  have holds : AddressSpace.contains ⟨ramStart, ramLast, .ram⟩ addr = true := by
    simpa [contains, inRam] using inside
  exact route_contains (by decide) holds

/-- What RAM takes has its offset from the start of RAM. -/
theorem route_ramStart {addr : BitVec 64} (taken : (route rootChildren addr).1 = .ram) :
    (route rootChildren addr).2 = addr - ramStart := by
  obtain ⟨region, member, -, found⟩ := exists_contains (by rw [taken]; exact by decide)
  -- Among the children of the root there is one region of RAM.
  have start : ∀ region ∈ rootChildren, region.device = .ram → region.start = ramStart := by decide
  rw [found] at taken ⊢
  rw [start region member taken]

end AddressSpace

namespace Bus

/-- A read of RAM through the bus is a read of the buffer, and changes nothing. -/
theorem asReadNommu_ram {host : Host} {bus : Bus} {addr : BitVec 64} {size : Nat}
    (valid : validSize size) (inside : inRam addr) (params : Params) :
    bus.asReadNommu host addr size params =
      (do return (← bus.ram.read (addr - ramStart) size, bus)) := by
  rw [asReadNommu, readFrom_route, AddressSpace.route_ram inside, valid]
  rfl

/-- A write of RAM through the bus is a write of the buffer, and changes nothing else. -/
theorem asWriteNommu_ram {host : Host} {bus : Bus} {addr data : BitVec 64} {size : Nat}
    (valid : validSize size) (inside : inRam addr) (params : Params) :
    bus.asWriteNommu host addr size data params = (do
      let (ret, ram) ← ramWrite bus.ram (addr - ramStart) data size params
      return (ret, { bus with ram })) := by
  rw [asWriteNommu, asWriteNommuWith, writeFrom_route, AddressSpace.route_ram inside, valid]
  rfl

/-- Two states of the devices with the same memories and the same disk. -/
structure SameMemory (before after : Bus) : Prop where
  ram : after.ram = before.ram
  rom : after.rom = before.rom
  flash : after.flash = before.flash
  blk : after.blk = before.blk

/-- Keeping the memories twice is keeping them. -/
theorem SameMemory.trans {first second third : Bus} (before : first.SameMemory second)
    (after : second.SameMemory third) : first.SameMemory third :=
  ⟨after.ram.trans before.ram, after.rom.trans before.rom, after.flash.trans before.flash,
    after.blk.trans before.blk⟩

/-- A read through the bus may change a device but never a byte of memory. -/
theorem asReadNommu_keeps {host : Host} {bus after : Bus} {addr data : BitVec 64} {size : Nat}
    {params : Params} (read : bus.asReadNommu host addr size params = .ok (data, after)) :
    bus.SameMemory after := by
  rw [asReadNommu] at read
  split at read
  · cases read
  · rw [readFrom_route] at read
    cases device : (AddressSpace.route AddressSpace.rootChildren addr).1 with
    | dummy =>
      rw [device] at read
      cases read
    | rtc | pciHost | plic | clint | rom | flash | ram | uart | virtio =>
      rw [device] at read
      -- A handler that returns has changed at most its own registers and the controller's.
      obtain ⟨result, accessed, returned⟩ := bind_eq_ok.mp read
      cases Except.ok.inj returned
      exact ⟨rfl, rfl, rfl, rfl⟩

/-- The word a write leaves in RAM, from the word that was there and the operand. -/
def ramWord (old data : BitVec 64) (size : Nat) (params : Params) : BitVec 64 :=
  if size = 8 then amo old data params
  else if size = 4 then (amo (old.setWidth 32) (data.setWidth 32) params).setWidth 64
  else data

/-- Without arithmetic the bytes of the word written are those of the operand. -/
theorem store_ramWord_plain {bytes : BitVec 64 → BitVec 8} {addr old data : BitVec 64} {size : Nat}
    {params : Params} (plain : params = .none ∨ params = .lrSc) :
    LittleEndian.store bytes addr size (ramWord old data size params) =
      LittleEndian.store bytes addr size data := by
  apply LittleEndian.store_congr
  intro index inside
  -- Both parameters make the update return its second operand, at either width.
  have operand : ∀ {w : Nat} (a b : BitVec w), amo a b params = b := by
    rcases plain with rfl | rfl <;> exact fun _ _ => rfl
  simp only [ramWord, operand]
  split
  · rfl
  · split
    · -- A word is cut down and widened again, which keeps its four bytes.
      apply BitVec.eq_of_getLsbD_eq
      intro i below
      simp [below, show 8 * index + i < 32 by omega, show 8 * index + i < 64 by omega]
    · rfl

/-- A write of RAM reads the old word unless it is conditional, and then writes the new one. -/
theorem ramWrite_eq (ram : Buffer) (addr data : BitVec 64) (size : Nat) (params : Params) :
    ramWrite ram addr data size params =
      ((if params ≠ .lrSc then ram.read addr size else .ok 0) >>= fun old =>
        ram.write addr size (ramWord old data size params) >>= fun ram => pure (old, ram)) := by
  cases params <;> rfl

/-- A write of RAM that completes stores its word, and returns what was there or zero. -/
theorem ramWrite_stores {ram after : Buffer} {addr data ret : BitVec 64} {size : Nat}
    {params : Params} (written : ramWrite ram addr data size params = .ok (ret, after)) :
    after = { ram with
      bytes := LittleEndian.store ram.bytes addr size (ramWord ret data size params) } ∧
      (if params = .lrSc then ret = 0 else ram.read addr size = .ok ret) := by
  rw [ramWrite_eq] at written
  obtain ⟨old, read, rest⟩ := bind_eq_ok.mp written
  obtain ⟨stored, fits, result⟩ := bind_eq_ok.mp rest
  unfold Buffer.write at fits
  split at fits
  · cases Except.ok.inj fits
    cases Except.ok.inj result
    refine ⟨rfl, ?_⟩
    -- A store-conditional returns zero without a read, anything else what it read.
    by_cases conditional : params = .lrSc
    · rw [if_neg (not_not.mpr conditional)] at read
      rw [if_pos conditional]
      exact (Except.ok.inj read).symm
    · rw [if_pos conditional] at read
      rwa [if_neg conditional]
  · cases fits

/-- An access the bus admits has at least one byte and at most eight. -/
theorem validSize_bounds {size : Nat} (valid : validSize size) : 0 < size ∧ size ≤ 8 := by
  simp only [validSize, Bool.or_eq_true, beq_iff_eq] at valid
  omega

/-- A completed read of a buffer returns the bytes from its address on. -/
theorem bufferRead_byte {buffer : Buffer} {addr data : BitVec 64} {size index : Nat}
    (valid : validSize size) (read : buffer.read addr size = .ok data) (below : index < size) :
    (data >>> (8 * index)).setWidth 8 = buffer.bytes (addr + BitVec.ofNat 64 index) := by
  have wide := (validSize_bounds valid).2
  unfold Buffer.read at read
  split at read
  · cases Except.ok.inj read
    exact LittleEndian.load_byte below (by omega)
  · cases read

/-- A read that completes in RAM returns the word there and leaves everything as it was. -/
theorem asReadNommu_ram_ok {host : Host} {bus after : Bus} {addr data : BitVec 64} {size : Nat}
    {params : Params} (inside : inRam addr)
    (read : bus.asReadNommu host addr size params = .ok (data, after)) :
    validSize size ∧ after = bus ∧ bus.ram.read (addr - ramStart) size = .ok data := by
  have valid : validSize size := by
    -- A size the bus does not admit stops the emulator.
    by_contra bad
    rw [asReadNommu, Bool.eq_false_iff.mpr bad] at read
    cases read
  rw [asReadNommu_ram valid inside] at read
  obtain ⟨word, buffer, result⟩ := bind_eq_ok.mp read
  cases Except.ok.inj result
  exact ⟨valid, rfl, buffer⟩

/-- A write that completes in RAM stores its word there and leaves everything else as it was. -/
theorem asWriteNommu_ram_ok {host : Host} {bus after : Bus} {addr data ret : BitVec 64}
    {size : Nat} {params : Params} (inside : inRam addr)
    (written : bus.asWriteNommu host addr size data params = .ok (ret, after)) :
    validSize size ∧
      after = { bus with ram.bytes :=
        LittleEndian.store bus.ram.bytes (addr - ramStart) size (ramWord ret data size params) } ∧
      (if params = .lrSc then ret = 0 else bus.ram.read (addr - ramStart) size = .ok ret) := by
  have valid : validSize size := by
    -- A size the bus does not admit stops the emulator.
    by_contra bad
    rw [asWriteNommu, asWriteNommuWith, Bool.eq_false_iff.mpr bad] at written
    cases written
  rw [asWriteNommu_ram valid inside] at written
  obtain ⟨⟨old, ram⟩, stored, result⟩ := bind_eq_ok.mp written
  cases Except.ok.inj result
  obtain ⟨rfl, returned⟩ := ramWrite_stores stored
  exact ⟨valid, rfl, returned⟩

end Bus

end Xemu
