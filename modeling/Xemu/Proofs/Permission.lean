import Xemu.Proofs.Translation

/-! Which accesses complete under translation: those whose walk finds a leaf, whatever it permits. -/

namespace Xemu

open PageWalk

/-! ### The accesses of an instruction -/

/-- The virtual address an instruction accesses, if it accesses memory. -/
def Decoded.access (d : Decoded) (hart : Hart) : Option (BitVec 64) :=
  match d.op with
  | .lb | .lh | .lw | .ld | .lbu | .lhu | .lwu | .sb | .sh | .sw | .sd | .flw | .fld | .fsw
  | .fsd => some (hart.reg d.rs1 + d.imm)
  | .lrD | .lrW | .scD | .scW | .amoAddD | .amoSwapD | .amoXorD | .amoOrD | .amoAndD | .amoMinD
  | .amoMaxD | .amoMinuD | .amoMaxuD | .amoAddW | .amoSwapW | .amoXorW | .amoOrW | .amoAndW
  | .amoMinW | .amoMaxW | .amoMinuW | .amoMaxuW => some (hart.reg d.rs1)
  | _ => none

/-- The page fault of an instruction, where the source records the one the architecture names. -/
def Op.pageFault : Op → Option (BitVec 64)
  | .lb | .lh | .lw | .ld | .lbu | .lhu | .lwu => some causeLoadPageFault
  | .sb | .sh | .sw | .sd | .fsw | .fsd | .scD | .scW | .amoAddD | .amoSwapD | .amoXorD
  | .amoOrD | .amoAndD | .amoMinD | .amoMaxD | .amoMinuD | .amoMaxuD | .amoAddW | .amoSwapW
  | .amoXorW | .amoOrW | .amoAndW | .amoMinW | .amoMaxW | .amoMinuW | .amoMaxuW =>
    some causeStorePageFault
  | _ => none

/-- What an instruction asks of the memory at the physical address it has come to. -/
inductive BusAccess where
  | read (size : Nat) (params : Params)
  | write (size : Nat) (data : BitVec 64) (params : Params)

/-- The access made at a physical address: the value that comes back, and the bus after it. -/
def BusAccess.run (access : BusAccess) (host : Host) (bus : Bus) (pa : BitVec 64) :
    Except Stop (BitVec 64 × Bus) :=
  match access with
  | .read size params => bus.asReadNommu host pa size params
  | .write size data params => bus.asWriteNommu host pa size data params

/-- The access that an instruction asks for, with the operand it stores. -/
def Decoded.busAccess (d : Decoded) (hart : Hart) : Option BusAccess :=
  let rs2 := hart.reg d.rs2
  match d.op with
  | .lb | .lbu => some (.read 1 .none)
  | .lh | .lhu => some (.read 2 .none)
  | .lw | .lwu | .flw => some (.read 4 .none)
  | .ld | .fld => some (.read 8 .none)
  | .lrW => some (.read 4 .lrSc)
  | .lrD => some (.read 8 .lrSc)
  | .sb => some (.write 1 rs2 .none)
  | .sh => some (.write 2 rs2 .none)
  | .sw => some (.write 4 rs2 .none)
  | .sd => some (.write 8 rs2 .none)
  -- The operand is converted first, and without a result there is no access.
  | .fsw => (floatToU64 (roundTo 24 rs2.toNat)).toOption.map (.write 4 · .none)
  | .fsd => some (.write 8 (hart.freg d.rs2) .none)
  | .scW => some (.write 4 rs2 .lrSc)
  | .scD => some (.write 8 rs2 .lrSc)
  | .amoAddW => some (.write 4 rs2 .amoAdd)
  | .amoAddD => some (.write 8 rs2 .amoAdd)
  | .amoSwapW => some (.write 4 rs2 .amoSwap)
  | .amoSwapD => some (.write 8 rs2 .amoSwap)
  | .amoXorW => some (.write 4 rs2 .amoXor)
  | .amoXorD => some (.write 8 rs2 .amoXor)
  | .amoOrW => some (.write 4 rs2 .amoOr)
  | .amoOrD => some (.write 8 rs2 .amoOr)
  | .amoAndW => some (.write 4 rs2 .amoAnd)
  | .amoAndD => some (.write 8 rs2 .amoAnd)
  | .amoMinW => some (.write 4 rs2 .amoMin)
  | .amoMinD => some (.write 8 rs2 .amoMin)
  | .amoMaxW => some (.write 4 rs2 .amoMax)
  | .amoMaxD => some (.write 8 rs2 .amoMax)
  | .amoMinuW => some (.write 4 rs2 .amoMinu)
  | .amoMinuD => some (.write 8 rs2 .amoMinu)
  | .amoMaxuW => some (.write 4 rs2 .amoMaxu)
  | .amoMaxuD => some (.write 8 rs2 .amoMaxu)
  | _ => none

/-- What an instruction does with the value that came back. -/
def Op.deliver (op : Op) (locals : Locals) (value : BitVec 64) : Locals :=
  match op with
  | .lb => { locals with rdVal := signed 8 value }
  | .lh => { locals with rdVal := signed 16 value }
  | .lw | .lrW => { locals with rdVal := signed 32 value }
  | .lbu => { locals with rdVal := unsigned 8 value }
  | .lhu => { locals with rdVal := unsigned 16 value }
  | .lwu => { locals with rdVal := unsigned 32 value }
  | .flw => locals.setFrd (roundTo 24 value.toNat)
  | .fld => locals.setFrd (roundTo 53 value.toNat)
  | .sb | .sh | .sw | .sd | .fsw | .fsd => locals
  -- A doubleword, and what a conditional store or an update returns, is kept as it is.
  | _ => { locals with rdVal := value }

/-- Delivering a value assigns one of the two destinations and nothing else. -/
theorem Op.deliver_frame (op : Op) (locals : Locals) (value : BitVec 64) :
    (op.deliver locals value).m = locals.m ∧ (op.deliver locals value).retPc = locals.retPc ∧
      (op.deliver locals value).hasExcept = locals.hasExcept := by
  cases op <;> exact ⟨rfl, rfl, rfl⟩

/--
What comes of an access: it is made at the address a leaf gives, or it faults after the walk.

A completed access is the one the instruction asks for, made in the state the walk left, and its
value is what the instruction goes on with. A fault leaves the hart in the handler and every memory
as it was.
-/
inductive AccessOutcome (host : Host) (m : Machine) (pc nextPc addr : BitVec 64) (d : Decoded)
    (locals : Locals) : Prop where
  /-- The walk found a leaf, and the access was made at its address without an exception. -/
  | completed (leaf : Leaf) (walked last : Bus) (access : BusAccess) (value : BitVec 64)
      (found : m.walk host addr = .ok (some leaf, walked))
      (asked : d.busAccess m.hart = some access)
      (made : access.run host walked (leaf.address addr) = .ok (value, last))
      (quiet : locals.hasExcept = false)
      (delivered : locals = d.op.deliver
        { m := { m with bus := last }, retPc := nextPc, rdVal := host.rdVal } value)
  /-- The walk found no leaf, and the instruction raised its page fault. -/
  | faulted (found : m.walk host addr = .ok (none, locals.m.bus))
      (kept : m.bus.SameMemory locals.m.bus) (flag : locals.hasExcept) (cause : BitVec 64)
      (named : ∀ expected, d.op.pageFault = some expected → cause = expected)
      (raised : raiseExcept m.hart pc cause addr = (locals.retPc, locals.m.hart))

namespace AccessOutcome

variable {host : Host} {m : Machine} {pc nextPc addr : BitVec 64} {d : Decoded} {after : Locals}

/-- A fault raised in the state that the walk left is an outcome, whatever is assigned after it. -/
theorem of_fault {bus : Bus} {cause value : BitVec 64}
    (found : m.walk host addr = .ok (none, bus))
    (named : ∀ expected, d.op.pageFault = some expected → cause = expected) :
    AccessOutcome host m pc nextPc addr d (d.op.deliver
      (({ m := { m with bus }, retPc := nextPc, rdVal := host.rdVal } : Locals).fault pc cause addr)
      value) := by
  obtain ⟨machine, goesOn, flags⟩ := d.op.deliver_frame
    (({ m := { m with bus }, retPc := nextPc, rdVal := host.rdVal } : Locals).fault pc cause addr)
    value
  refine .faulted (machine ▸ found) (machine ▸ Machine.walk_keeps found) (flags.trans rfl) cause
    named ?_
  rw [machine, goesOn]
  rfl

/-- A value delivered in the state that the access left is an outcome. -/
theorem of_access {leaf : Leaf} {walked last : Bus} {access : BusAccess} {value : BitVec 64}
    (found : m.walk host addr = .ok (some leaf, walked)) (asked : d.busAccess m.hart = some access)
    (made : access.run host walked (leaf.address addr) = .ok (value, last)) :
    AccessOutcome host m pc nextPc addr d (d.op.deliver
      { m := { m with bus := last }, retPc := nextPc, rdVal := host.rdVal } value) :=
  .completed leaf walked last access value found asked made (d.op.deliver_frame _ _).2.2 rfl

/-- The outcome of a call of `as_read` with its test of the exception flag. -/
theorem of_readMem (translated : m.Translated) {size : Nat} {params : Params}
    {cause data : BitVec 64} (asked : d.busAccess m.hart = some (.read size params))
    (named : ∀ expected, d.op.pageFault = some expected → cause = expected)
    (ran : ({ m, retPc := nextPc, rdVal := host.rdVal } : Locals).readMem host pc addr size params
      cause = .ok (data, after)) :
    AccessOutcome host m pc nextPc addr d (d.op.deliver after data) := by
  obtain ⟨⟨read, bus⟩, accessed, result⟩ := bind_eq_ok.mp ran
  -- The access returns nothing exactly when the walk found no leaf.
  rcases Machine.asRead_cases translated accessed with
    ⟨rfl, found⟩ | ⟨value, leaf, walked, rfl, found, reached⟩
  · cases Except.ok.inj result
    exact of_fault found named
  · cases Except.ok.inj result
    exact of_access found asked reached

/-- The outcome of a call of `as_write` with its test of the exception flag. -/
theorem of_writeMem (translated : m.Translated) {size : Nat} {params : Params}
    {data ret : BitVec 64} (asked : d.busAccess m.hart = some (.write size data params))
    (named : ∀ expected, d.op.pageFault = some expected → causeStorePageFault = expected)
    (ran : ({ m, retPc := nextPc, rdVal := host.rdVal } : Locals).writeMem host pc addr size data
      params = .ok (ret, after)) :
    AccessOutcome host m pc nextPc addr d (d.op.deliver after ret) := by
  obtain ⟨⟨written, bus⟩, accessed, result⟩ := bind_eq_ok.mp ran
  rcases Machine.asWrite_cases translated accessed with
    ⟨rfl, found⟩ | ⟨value, leaf, walked, rfl, found, reached⟩
  · cases Except.ok.inj result
    exact of_fault found named
  · cases Except.ok.inj result
    exact of_access found asked reached

/-- The outcome of an integer load, which delivers the value in its cast. -/
theorem of_load (translated : m.Translated) {size : Nat} {cast : BitVec 64 → BitVec 64}
    (asked : d.busAccess m.hart = some (.read size .none))
    (named : ∀ expected, d.op.pageFault = some expected → causeLoadPageFault = expected)
    (delivers : ∀ locals value, d.op.deliver locals value = { locals with rdVal := cast value })
    (ran : ({ m, retPc := nextPc, rdVal := host.rdVal } : Locals).load host pc addr size cast =
      .ok after) :
    AccessOutcome host m pc nextPc addr d after := by
  obtain ⟨⟨data, locals⟩, read, result⟩ := bind_eq_ok.mp ran
  cases Except.ok.inj result
  exact delivers locals data ▸ of_readMem translated asked named read

/-- The outcome of a load-reserved. -/
theorem of_loadReserved (translated : m.Translated) {size : Nat} {cast : BitVec 64 → BitVec 64}
    (asked : d.busAccess m.hart = some (.read size .lrSc))
    (named : ∀ expected, d.op.pageFault = some expected → causeStorePageFault = expected)
    (delivers : ∀ locals value, d.op.deliver locals value = { locals with rdVal := cast value })
    (ran : ({ m, retPc := nextPc, rdVal := host.rdVal } : Locals).loadReserved host pc addr size
      cast = .ok after) :
    AccessOutcome host m pc nextPc addr d after := by
  obtain ⟨⟨data, locals⟩, read, result⟩ := bind_eq_ok.mp ran
  cases Except.ok.inj result
  exact delivers locals data ▸ of_readMem translated asked named read

/-- The outcome of a floating-point load, which delivers the value rounded. -/
theorem of_loadFp (translated : m.Translated) {size precision : Nat}
    (asked : d.busAccess m.hart = some (.read size .none))
    (named : ∀ expected, d.op.pageFault = some expected → causeStorePageFault = expected)
    (delivers : ∀ locals value,
      d.op.deliver locals value = locals.setFrd (roundTo precision value.toNat))
    (ran : ({ m, retPc := nextPc, rdVal := host.rdVal } : Locals).loadFp host pc addr size
      precision = .ok after) :
    AccessOutcome host m pc nextPc addr d after := by
  obtain ⟨⟨data, locals⟩, read, result⟩ := bind_eq_ok.mp ran
  cases Except.ok.inj result
  exact delivers locals data ▸ of_readMem translated asked named read

/-- The outcome of a store, which delivers nothing. -/
theorem of_store (translated : m.Translated) {size : Nat} {data : BitVec 64}
    (asked : d.busAccess m.hart = some (.write size data .none))
    (named : ∀ expected, d.op.pageFault = some expected → causeStorePageFault = expected)
    (delivers : ∀ locals value, d.op.deliver locals value = locals)
    (ran : ({ m, retPc := nextPc, rdVal := host.rdVal } : Locals).store host pc addr size data =
      .ok after) :
    AccessOutcome host m pc nextPc addr d after := by
  obtain ⟨⟨ret, locals⟩, written, result⟩ := bind_eq_ok.mp ran
  cases Except.ok.inj result
  exact delivers after ret ▸ of_writeMem translated asked named written

/-- The outcome of a conditional store or an atomic update, which deliver what they return. -/
theorem of_update (translated : m.Translated) {size : Nat} {data : BitVec 64} {params : Params}
    (asked : d.busAccess m.hart = some (.write size data params))
    (named : ∀ expected, d.op.pageFault = some expected → causeStorePageFault = expected)
    (delivers : ∀ locals value, d.op.deliver locals value = { locals with rdVal := value })
    (ran : ({ m, retPc := nextPc, rdVal := host.rdVal } : Locals).update host pc addr size data
      params = .ok after) :
    AccessOutcome host m pc nextPc addr d after := by
  obtain ⟨⟨ret, locals⟩, written, result⟩ := bind_eq_ok.mp ran
  cases Except.ok.inj result
  exact delivers locals ret ▸ of_writeMem translated asked named written

end AccessOutcome

/-- A store to the address given, made with the word in register zero. -/
def storeWord (addr : BitVec 64) : Decoded :=
  { op := .sw, rd := 0, rs1 := 0, rs2 := 0, imm := addr, csrAddr := 0 }

end Xemu
