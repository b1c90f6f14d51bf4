import Mathlib.Logic.Function.Basic
import Xemu.Util

/-! The platform-level interrupt controller, its registers, and the choice of a pending source. -/

namespace Xemu

/-- The registers of `plic_t`. -/
structure Plic where
  /-- The priority of each of the 127 sources, and the unused entry zero. -/
  priority : Fin 128 → BitVec 32 := fun _ => 0
  /-- The machine-mode priority threshold. -/
  mpt : BitVec 32 := 0
  /-- The supervisor-mode priority threshold. -/
  spt : BitVec 32 := 0
  /-- The machine-mode claim and complete register. -/
  mcc : BitVec 32 := 0
  /-- The supervisor-mode claim and complete register. -/
  scc : BitVec 32 := 0
  /-- The machine-mode enable words. -/
  mie : Fin 5 → BitVec 32 := fun _ => 0
  /-- The supervisor-mode enable words. -/
  sie : Fin 5 → BitVec 32 := fun _ => 0
  /-- The pending words. -/
  pending : Fin 5 → BitVec 32 := fun _ => 0

namespace Plic

/--
An assignment to one pending word, at the index `_bit_pos` computes.

Zero is refused in the caller's own name, before `_bit_pos` would refuse it too.
-/
def updatePending (plic : Plic) (refused : String) (id : BitVec 32)
    (change : BitVec 32 → BitVec 32) : Except Stop Plic :=
  -- Number zero is refused, and a number past the words is not.
  if id = 0 then .error (.panic refused)
  else if inside : id.toNat / 32 < 5 then
    let index : Fin 5 := ⟨id.toNat / 32, inside⟩
    .ok { plic with pending := Function.update plic.pending index (change (plic.pending index)) }
  else .error (.undefined "index outside the pending words")

/-- The function `plic_signal`. -/
def signal (plic : Plic) (id : BitVec 32) : Except Stop Plic :=
  plic.updatePending "plic_signal: interrupt number cannot be 0\n" id fun word =>
    word ||| (1#32 <<< (id.toNat % 32))

/-- The function `clear_pending_bit`. -/
def clearPendingBit (plic : Plic) (id : BitVec 32) : Except Stop Plic :=
  plic.updatePending "clear_pending_bit: interrupt number cannot be 0\n" id fun word =>
    word &&& ~~~(1#32 <<< (id.toNat % 32))

/-- The function `plic_read`, in which a claim clears the pending bit of the source it returns. -/
def read (plic : Plic) (addr : BitVec 64) : Except Stop (BitVec 64 × Plic) :=
  if addr.toNat % 4 ≠ 0 then .error (.panic "plic_read: addr 0x%lx not align to 4-bytes\n")
  else if inside : 0x2080 ≤ addr.toNat ∧ addr.toNat ≤ 0x2090 then
    .ok ((plic.sie ⟨(addr.toNat - 0x2080) / 4, by omega⟩).setWidth 64, plic)
  -- The two claim registers differ: the machine panics on an empty one.
  else if addr = 0x200004 then
    if plic.mcc = 0 then .error (.panic "plic_read: bad claim mcc(%u)\n")
    else do
      let plic ← plic.clearPendingBit plic.mcc
      -- The register keeps the number, so a second read claims it again.
      return (plic.mcc.setWidth 64, plic)
  else if addr = 0x201004 then
    if plic.scc = 0 then .ok (0, plic)
    else do
      let plic ← plic.clearPendingBit plic.scc
      return (plic.scc.setWidth 64, plic)
  else .error (.panic "plic_read: need to be implemented! 0x%lx, %lu\n")

/-- The function `plic_write`. -/
def write (plic : Plic) (addr data : BitVec 64) : Except Stop Plic :=
  if addr.toNat % 4 ≠ 0 then .error (.panic "plic_write: addr 0x%lx not align to 4-bytes\n")
  else if addr.toNat ≤ 0x210 then
    -- The range admits five words past the end of the array.
    if inside : addr.toNat / 4 < 128 then
      .ok { plic with
        priority := Function.update plic.priority ⟨addr.toNat / 4, inside⟩
          (data.setWidth 32 &&& 0x7) }
    else .error (.undefined "index outside the priorities")
  else if inside : 0x2000 ≤ addr.toNat ∧ addr.toNat ≤ 0x2010 then
    .ok { plic with
      mie := Function.update plic.mie ⟨(addr.toNat - 0x2000) / 4, by omega⟩ (data.setWidth 32) }
  else if inside : 0x2080 ≤ addr.toNat ∧ addr.toNat ≤ 0x2090 then
    .ok { plic with
      sie := Function.update plic.sie ⟨(addr.toNat - 0x2080) / 4, by omega⟩ (data.setWidth 32) }
  else if addr = 0x200000 then .ok { plic with mpt := data.setWidth 32 }
  else if addr = 0x201000 then .ok { plic with spt := data.setWidth 32 }
  else if addr = 0x200004 then
    -- A completion must name the source the register holds now.
    if plic.mcc ≠ data.setWidth 32 then .error (.panic "plic_write: bad complete (%u, %u)\n")
    else .ok { plic with mcc := 0 }
  else if addr = 0x201004 then
    if plic.scc ≠ data.setWidth 32 then .error (.panic "plic_write: bad complete (%u, %u)\n")
    else .ok { plic with scc := 0 }
  else .error (.panic "plic_write: need to be implemented! [0x%lx]: %lx (%lu)\n")

/-- The loop of `first_one`, with the number of places still to look at. -/
def firstOneFrom : Nat → Nat → BitVec 32 → Except Stop Nat
  | 0, _, _ => .error (.panic "first_one: bad bits 0x%x\n")
  | left + 1, ret, bits =>
    -- The word is shifted, so its lowest bit is always the one to test.
    if bits &&& 1 ≠ 0 then .ok ret else firstOneFrom left (ret + 1) (bits >>> 1)

/-- The function `first_one`: the place of the lowest set bit. -/
def firstOne (bits : BitVec 32) : Except Stop Nat := firstOneFrom 32 0 bits

/-- The loop of `plic_interrupt` over the words still to look at. -/
def scan (plic : Plic) (xie : Fin 5 → BitVec 32) (xpt : BitVec 32) :
    List (Fin 5) → Except Stop (Option (Fin 128))
  | [] => .ok none
  | i :: rest => do
    let bits := plic.pending i &&& xie i
    -- A word with nothing pending and enabled is passed over.
    if bits ≠ 0 then
      let place ← firstOne bits
      if inside : i.val * 32 + place < 128 then
        let id : Fin 128 := ⟨i.val * 32 + place, inside⟩
        -- Only this one source of the word is compared with the threshold.
        if plic.priority id > xpt then return some id
        plic.scan xie xpt rest
      else throw (.undefined "index outside the priorities")
    else plic.scan xie xpt rest

/-- The function `plic_interrupt`, for the mode it targets: the source, and the claim register set. -/
def interrupt (plic : Plic) (supervisor : Bool) : Except Stop (BitVec 32 × Plic) := do
  let xie := if supervisor then plic.sie else plic.mie
  let xpt := if supervisor then plic.spt else plic.mpt
  match ← plic.scan xie xpt [0, 1, 2, 3, 4] with
  | none => return (0, plic)
  | some id =>
    let id : BitVec 32 := BitVec.ofNat 32 id
    -- A poll overwrites the claim register, whether or not it was completed.
    return (id, if supervisor then { plic with scc := id } else { plic with mcc := id })

end Plic

end Xemu
