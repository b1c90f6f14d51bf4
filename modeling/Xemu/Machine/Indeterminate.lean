import Xemu.Decode.Destination
import Xemu.Machine.Execute

/-! The indeterminate content of an unassigned local reaches no memory access and no device. -/

namespace Xemu

/-- The host that leaves another content in the local of `execute`. -/
def Host.withRdVal (host : Host) (rdVal : BitVec 64) : Host := { host with rdVal }

section Accesses

variable (host : Host) (rdVal : BitVec 64)

/-! ### Memory accesses -/

namespace Bus

/-- A read passes only the clock of the host on. -/
theorem asReadNommu_rdVal : asReadNommu (host.withRdVal rdVal) = asReadNommu host := rfl

/-- Chunks of a blob are read alike. -/
theorem readChunks_rdVal (chunk : Nat) :
    readChunks (host.withRdVal rdVal) chunk = readChunks host chunk := by
  funext left
  -- The loop ends with the same bytes at once, or goes on after the same read.
  induction left with
  | zero => rfl
  | succ left ih =>
    funext bus addr
    rw [readChunks, readChunks, ih]
    rfl

/-- So is a blob. -/
theorem asReadBlob_rdVal : asReadBlob (host.withRdVal rdVal) = asReadBlob host := by
  funext bus addr size
  simp only [asReadBlob, readChunks_rdVal]

/-- An indirect chain is a row of blobs. -/
theorem readIndirectFrom_rdVal (table : BitVec 64) :
    readIndirectFrom (host.withRdVal rdVal) table = readIndirectFrom host table := by
  funext room
  -- Every descriptor of the chain is read the same way.
  induction room with
  | zero =>
    funext bus offset iov inLen
    rw [readIndirectFrom, readIndirectFrom, asReadBlob_rdVal]
  | succ room ih =>
    funext bus offset iov inLen
    rw [readIndirectFrom, readIndirectFrom, asReadBlob_rdVal, ih]

/-- The queue is popped by such reads. -/
theorem vqueuePop_rdVal : vqueuePop (host.withRdVal rdVal) = vqueuePop host := by
  funext write bus
  -- The head, the descriptor and the table it stands for are read with the same host.
  have tables : vringDescReadIndirect (host.withRdVal rdVal) = vringDescReadIndirect host := by
    funext bus head table len
    simp only [vringDescReadIndirect, readIndirectFrom_rdVal]
  have heads : vqueueGetHead (host.withRdVal rdVal) = vqueueGetHead host := rfl
  simp only [vqueuePop, asReadNommu_rdVal, asReadBlob_rdVal, heads, tables]

/-- A request is served by such reads, and by writes of the device. -/
theorem handleRequest_rdVal : handleRequest (host.withRdVal rdVal) = handleRequest host := by
  funext write bus req
  -- Of the host the requests use the fuel and the reads, which do not depend on the value.
  have writes : handleWrite (host.withRdVal rdVal) = handleWrite host := by
    funext write bus req sector
    unfold handleWrite
    rw [asReadBlob_rdVal]
  have requests : doRequest (host.withRdVal rdVal) = doRequest host := by
    funext write bus req
    unfold doRequest
    rw [asReadBlob_rdVal, writes]
  simp only [handleRequest, workerServe, requests]

/-- A notification pops and serves. -/
theorem notifyLoop_rdVal (write : Writer) :
    notifyLoop (host.withRdVal rdVal) write = notifyLoop host write := by
  funext left
  -- A request that is popped is the same one, and so is what remains to be popped.
  induction left with
  | zero => rfl
  | succ left ih =>
    funext bus
    rw [notifyLoop, notifyLoop, vqueuePop_rdVal, handleRequest_rdVal, ih]

/-- A write reaches its device in the same way, for whatever the device writes. -/
theorem asWriteNommuWith_rdVal :
    asWriteNommuWith (host.withRdVal rdVal) = asWriteNommuWith host := by
  funext write fuel bus addr size data params
  -- The host reaches the devices through the notification only.
  have slots : mmioWrite (host.withRdVal rdVal) = mmioWrite host := by
    funext write fuel bus slot addr data size
    unfold mmioWrite
    rw [notifyLoop_rdVal]
  have devices : deviceWrite (host.withRdVal rdVal) = deviceWrite host := by
    funext write fuel bus device addr data size params
    unfold deviceWrite
    rw [slots]
    rfl
  rw [asWriteNommuWith, asWriteNommuWith, writeFrom_route, writeFrom_route, devices]

/-- The writes that a device makes are writes in turn. -/
theorem nestedWriter_rdVal : nestedWriter (host.withRdVal rdVal) = nestedWriter host := by
  funext fuel
  -- The devices of one level write through the next.
  induction fuel with
  | zero => rfl
  | succ fuel ih =>
    funext bus addr size data
    rw [nestedWriter, nestedWriter, asWriteNommuWith_rdVal, ih]

/-- A write reaches the same device, which does the same work. -/
theorem asWriteNommu_rdVal : asWriteNommu (host.withRdVal rdVal) = asWriteNommu host := by
  funext bus addr size data params
  rw [asWriteNommu, asWriteNommu, asWriteNommuWith_rdVal, nestedWriter_rdVal]
  rfl

end Bus

namespace Machine

/-- A translated read is made of reads. -/
theorem asRead_rdVal (m : Machine) : m.asRead (host.withRdVal rdVal) = m.asRead host := rfl

/-- A translated write is made of reads and a write. -/
theorem asWrite_rdVal (m : Machine) : m.asWrite (host.withRdVal rdVal) = m.asWrite host := by
  funext vaddr size data params
  unfold asWrite
  rw [Bus.asWriteNommu_rdVal]
  rfl

end Machine

end Accesses

/-! ### The cases of the switch -/

namespace Locals

/-- The locals with another content of `rd_val`. -/
def withRdVal (locals : Locals) (rdVal : BitVec 64) : Locals := { locals with rdVal }

variable {host : Host} (locals : Locals) {rdVal pc addr data : BitVec 64} {size : Nat}

/-- A read of memory carries the local along. -/
theorem readMem_rdVal (params : Params) (cause : BitVec 64) :
    (locals.withRdVal rdVal).readMem (host.withRdVal rdVal) pc addr size params cause =
      (locals.readMem host pc addr size params cause).map
        fun result => (result.1, result.2.withRdVal rdVal) := by
  rw [readMem, readMem, Machine.asRead_rdVal]
  -- Of the outcomes only the fault looks at the locals, and not at this one.
  change (locals.m.asRead host addr size params >>= _) = _
  cases locals.m.asRead host addr size params with
  | error stop => rfl
  | ok result => obtain ⟨_ | data, bus⟩ := result <;> rfl

/-- So does a write. -/
theorem writeMem_rdVal (params : Params) :
    (locals.withRdVal rdVal).writeMem (host.withRdVal rdVal) pc addr size data params =
      (locals.writeMem host pc addr size data params).map
        fun result => (result.1, result.2.withRdVal rdVal) := by
  rw [writeMem, writeMem, Machine.asWrite_rdVal]
  -- The same outcomes as those of a read.
  change (locals.m.asWrite host addr size data params >>= _) = _
  cases locals.m.asWrite host addr size data params with
  | error stop => rfl
  | ok result => obtain ⟨_ | ret, bus⟩ := result <;> rfl

/-- A load assigns the local, whatever it held. -/
theorem load_rdVal (cast : BitVec 64 → BitVec 64) :
    (locals.withRdVal rdVal).load (host.withRdVal rdVal) pc addr size cast =
      locals.load host pc addr size cast := by
  rw [load, load, readMem_rdVal]
  cases locals.readMem host pc addr size .none causeLoadPageFault <;> rfl

/-- So does a load-reserved. -/
theorem loadReserved_rdVal (cast : BitVec 64 → BitVec 64) :
    (locals.withRdVal rdVal).loadReserved (host.withRdVal rdVal) pc addr size cast =
      locals.loadReserved host pc addr size cast := by
  rw [loadReserved, loadReserved, readMem_rdVal]
  cases locals.readMem host pc addr size .lrSc causeStorePageFault <;> rfl

/-- An atomic operation assigns it as well. -/
theorem update_rdVal (params : Params) :
    (locals.withRdVal rdVal).update (host.withRdVal rdVal) pc addr size data params =
      locals.update host pc addr size data params := by
  rw [update, update, writeMem_rdVal]
  cases locals.writeMem host pc addr size data params <;> rfl

/-- And so does an instruction on a control register. -/
theorem csr_rdVal (csrAddr : BitVec 12) (type : CsrOp) :
    (locals.withRdVal rdVal).csr (host.withRdVal rdVal) pc csrAddr data type =
      locals.csr host pc csrAddr data type := by
  -- What a register gives may depend on the host, as the time does, but not on the local.
  have read : csrUpdate (host.withRdVal rdVal) = csrUpdate host := rfl
  rw [csr, csr, read]
  change (csrUpdate host locals.m.hart csrAddr data type >>= _) = _
  cases csrUpdate host locals.m.hart csrAddr data type with
  | error stop => rfl
  | ok result => obtain ⟨_ | ret, hart⟩ := result <;> rfl

/-- A store leaves the local as it was. -/
theorem store_rdVal :
    (locals.withRdVal rdVal).store (host.withRdVal rdVal) pc addr size data =
      (locals.store host pc addr size data).map (·.withRdVal rdVal) := by
  rw [store, store, writeMem_rdVal]
  cases locals.writeMem host pc addr size data .none <;> rfl

/-- A floating-point load assigns another register, and leaves the local. -/
theorem loadFp_rdVal (precision : Nat) :
    (locals.withRdVal rdVal).loadFp (host.withRdVal rdVal) pc addr size precision =
      (locals.loadFp host pc addr size precision).map (·.withRdVal rdVal) := by
  rw [loadFp, loadFp, readMem_rdVal]
  cases locals.readMem host pc addr size .none causeStorePageFault <;> rfl

end Locals

section Switch

variable {host : Host} {m : Machine} {pc nextPc rdVal : BitVec 64} {d : Decoded}

open Locals in
/-- An operation with an integer destination computes what it leaves in the local. -/
theorem executeOp_assigns (integer : d.op.destination = some .integer) :
    executeOp (host.withRdVal rdVal) m pc nextPc d = executeOp host m pc nextPc d := by
  obtain ⟨op, rd, rs1, rs2, imm, csrAddr⟩ := d
  let start : Locals := { m, retPc := nextPc, rdVal := host.rdVal }
  cases op with
  | lb | lh | lw | ld | lbu | lhu | lwu => exact load_rdVal start _
  | lrD | lrW => exact loadReserved_rdVal start _
  | scD | amoAddD | amoSwapD | amoXorD | amoOrD | amoAndD | amoMinD | amoMaxD | amoMinuD
  | amoMaxuD | scW | amoAddW | amoSwapW | amoXorW | amoOrW | amoAndW | amoMinW | amoMaxW
  | amoMinuW | amoMaxuW => exact update_rdVal start _
  | csrrw | csrrwi | csrrs | csrrsi | csrrc | csrrci => exact csr_rdVal start _ _
  | nop | beq | bne | blt | bge | bltu | bgeu | sb | sh | sw | sd | fsw | fsd | fence | fenceI
  | ecall | ebreak | uret | sret | mret | wfi | sfenceVma | flw | fld | fmvWX => cases integer
  -- What is left assigns a value computed from registers.
  | _ => rfl

open Locals in
/-- Any other operation leaves in the local what it found there. -/
theorem executeOp_leaves (other : d.op.destination ≠ some .integer) :
    executeOp (host.withRdVal rdVal) m pc nextPc d =
      (executeOp host m pc nextPc d).map (·.withRdVal rdVal) := by
  obtain ⟨op, rd, rs1, rs2, imm, csrAddr⟩ := d
  let start : Locals := { m, retPc := nextPc, rdVal := host.rdVal }
  cases op with
  -- Stores and floating-point loads go through a helper, and a branch assigns the address.
  | sb | sh | sw | sd | fsd => exact store_rdVal start
  | fsw =>
    -- The conversion of the operand comes first, and may stop.
    simp only [executeOp]
    cases floatToU64 (roundTo 24 (m.hart.reg rs2).toNat) with
    | error stop => rfl
    | ok data => exact store_rdVal start
  | flw | fld => exact loadFp_rdVal start _
  | beq | bne | blt | bge | bltu | bgeu =>
    simp only [executeOp, branch]
    split <;> rfl
  | nop | fence | fenceI | ecall | ebreak | uret | sret | mret | wfi | sfenceVma | fmvWX => rfl
  | _ => exact absurd rfl other

end Switch

end Xemu
