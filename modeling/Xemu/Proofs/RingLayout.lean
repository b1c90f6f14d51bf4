import Xemu.Lib.Rounding
import Xemu.Machine.Chain

/-! Where `vring_init` puts the three areas of a queue. -/

namespace Xemu.Vring

/-! ### The areas of a queue -/

/-- The bytes of the descriptor table. -/
def descBytes (vring : Vring) : Nat := 16 * vring.num.toNat

/-- The bytes of the available ring, with the word behind it that tells when to interrupt. -/
def availBytes (vring : Vring) : Nat := 6 + 2 * vring.num.toNat

/-- The bytes of the used ring, with the word behind it that tells when to notify. -/
def usedBytes (vring : Vring) : Nat := 6 + 8 * vring.num.toNat

/-- The areas of a queue have no byte in common, and the used ring is where drivers look for it. -/
structure LaidOut (vring : Vring) : Prop where
  descAvail : Apart vring.desc vring.descBytes vring.avail vring.availBytes
  descUsed : Apart vring.desc vring.descBytes vring.used vring.usedBytes
  availUsed : Apart vring.avail vring.availBytes vring.used vring.usedBytes
  aligned : vring.used.toNat % vring.align.toNat = 0
  legacy : vring.used.toNat =
    Rounding.up (vring.desc.toNat + vring.descBytes + vring.availBytes) vring.align.toNat

/-- The address behind the elements of the available ring, for a page that the guest gives. -/
def elementsEnd (vring : Vring) (pfn : BitVec 64) (pageShift : BitVec 32) : Nat :=
  pfn.toNat * 2 ^ pageShift.toNat + 16 * vring.num.toNat + (4 + 2 * vring.num.toNat)

/-! ### What is computed -/

/-- Alignment is rounding up, as long as the sum fits a word. -/
theorem toNat_vringAlign {addr align : BitVec 64} (pos : 0 < align.toNat)
    (fits : addr.toNat + align.toNat ≤ 2 ^ 64) :
    (vringAlign addr align).toNat = Rounding.up addr.toNat align.toNat := by
  -- The sum does not wrap around, and one is taken from it.
  have sum : (addr + align - 1).toNat = addr.toNat + align.toNat - 1 := by
    rw [BitVec.toNat_sub, BitVec.toNat_add]
    change (2 ^ 64 - 1 + _) % 2 ^ 64 = _
    omega
  -- The multiple is not above the sum, so it fits too.
  have bound := Nat.div_mul_le_self (addr.toNat + align.toNat - 1) align.toNat
  rw [vringAlign, BitVec.toNat_mul, BitVec.toNat_udiv, sum, Rounding.up, Nat.mod_eq_of_lt]
  omega

section Init

variable {vring after : Vring} {pfn : BitVec 64} {pageShift : BitVec 32}

/-- The areas follow each other as they are computed, where no address wraps around. -/
theorem vringInit_areas (accepted : vringInit vring pfn pageShift = .ok after)
    (fits : vring.elementsEnd pfn pageShift + vring.align.toNat ≤ 2 ^ 64) :
    0 < vring.align.toNat ∧ after.num = vring.num ∧ after.align = vring.align ∧
      after.desc.toNat = pfn.toNat * 2 ^ pageShift.toNat ∧
      after.avail.toNat = after.desc.toNat + vring.descBytes ∧
      after.used.toNat =
        Rounding.up (vring.elementsEnd pfn pageShift) vring.align.toNat := by
  unfold vringInit at accepted
  dsimp only at accepted
  split at accepted
  · cases accepted
  · rename_i setUp
    rw [not_or, not_or] at setUp
    have pos : 0 < vring.align.toNat := by
      rw [Nat.pos_iff_ne_zero]
      exact fun zero => setUp.2.2 (BitVec.eq_of_toNat_eq zero)
    cases Except.ok.inj accepted
    unfold elementsEnd at fits
    have small := vring.num.isLt
    -- Each address is the one before it and the bytes in between.
    have desc : (pfn <<< pageShift.toNat).toNat = pfn.toNat * 2 ^ pageShift.toNat := by
      rw [BitVec.toNat_shiftLeft, Nat.shiftLeft_eq]
      omega
    have avail : (pfn <<< pageShift.toNat + vring.num.setWidth 64 * 16).toNat =
        (pfn <<< pageShift.toNat).toNat + vring.descBytes := by
      rw [Bus.setWidth_entry, BitVec.toNat_add, BitVec.toNat_ofNat, desc, descBytes]
      omega
    have elements : (pfn <<< pageShift.toNat + vring.num.setWidth 64 * 16 +
        (4 + 2 * vring.num.setWidth 64)).toNat = vring.elementsEnd pfn pageShift := by
      rw [BitVec.toNat_add, avail, desc, BitVec.toNat_add, BitVec.toNat_mul, BitVec.toNat_setWidth,
        elementsEnd, descBytes]
      change (_ + (4 + 2 * _ % 2 ^ 64) % 2 ^ 64) % 2 ^ 64 = _
      omega
    have align : (vring.align.setWidth 64).toNat = vring.align.toNat := by
      rw [BitVec.toNat_setWidth]
      have word := vring.align.isLt
      omega
    refine ⟨pos, rfl, rfl, desc, avail, ?_⟩
    rw [toNat_vringAlign (by rw [align]; exact pos) (by rw [elements, align]; exact fits), elements,
      align]

/--
The areas are laid out as they should be exactly when two bytes are left before the used ring.

These are the two bytes of the word behind the available ring, which the code does not count.
-/
theorem laidOut_iff (accepted : vringInit vring pfn pageShift = .ok after)
    (fits : vring.elementsEnd pfn pageShift + vring.align.toNat ≤ 2 ^ 64) :
    after.LaidOut ↔ 0 < vring.elementsEnd pfn pageShift % vring.align.toNat ∧
      vring.elementsEnd pfn pageShift % vring.align.toNat + 2 ≤ vring.align.toNat := by
  obtain ⟨pos, num, align, desc, avail, used⟩ := vringInit_areas accepted fits
  -- What the elements end at is two bytes short of the end of the area.
  have above := Rounding.le_up (n := vring.elementsEnd pfn pageShift) pos
  have behind : after.desc.toNat + after.descBytes + after.availBytes =
      vring.elementsEnd pfn pageShift + 2 := by
    rw [desc, descBytes, availBytes, num, elementsEnd]
    omega
  rw [← Rounding.add_le_up pos (by decide)]
  constructor
  · intro laidOut
    -- The used ring starts behind the elements of the available ring, so it starts behind its word.
    have apart := laidOut.availUsed
    rw [Apart, avail, used, availBytes, usedBytes, num] at apart
    have counted : vring.elementsEnd pfn pageShift =
        pfn.toNat * 2 ^ pageShift.toNat + 16 * vring.num.toNat + (4 + 2 * vring.num.toNat) := rfl
    rw [desc, descBytes] at apart
    omega
  · intro room
    -- With that room the word fits too, so both ends are rounded to the same multiple.
    have legacy := (Rounding.up_eq_up pos (Nat.le_add_right _ 2)).mpr room
    refine ⟨.inl ?_, .inl ?_, .inl ?_, ?_, ?_⟩
    · rw [avail, descBytes, descBytes, num]
    · rw [used]
      omega
    · rw [used, avail]
      rw [descBytes, num] at behind
      rw [descBytes]
      omega
    · rw [used, align]
      exact Rounding.up_mod
    · rw [used, align, behind, legacy]

/-- The elements of the two rings never meet, whatever the alignment. -/
theorem rings_apart (accepted : vringInit vring pfn pageShift = .ok after)
    (fits : vring.elementsEnd pfn pageShift + vring.align.toNat ≤ 2 ^ 64) :
    Apart after.avail after.availSize after.used (after.usedSize + 2) := by
  obtain ⟨pos, num, align, desc, avail, used⟩ := vringInit_areas accepted fits
  -- The used ring is rounded up from the end of the elements, so it starts behind them.
  have above := Rounding.le_up (n := vring.elementsEnd pfn pageShift) pos
  left
  rw [avail, used, desc, descBytes, availSize, num]
  exact above

end Init

/-- A queue of eight descriptors, whose used ring starts a page after its descriptors. -/
def pageQueue : Vring :=
  { num := 8, align := 4096, desc := 0x80000000, avail := 0x80000080, used := 0x80001000 }

/-- A queue with the alignment of a page is laid out as it should be. -/
theorem laidOut_page : pageQueue.LaidOut := by
  have accepted : vringInit { num := 8, align := 4096 } 0x80000 12 = .ok pageQueue := by decide
  exact (laidOut_iff accepted (by decide)).mpr (by decide)

/-- With a small alignment the used ring starts within the available ring. -/
theorem used_overlaps :
    ¬ ∀ (vring after : Vring) (pfn : BitVec 64) (pageShift : BitVec 32),
      vringInit vring pfn pageShift = .ok after →
      vring.elementsEnd pfn pageShift + vring.align.toNat ≤ 2 ^ 64 → after.LaidOut := by
  intro always
  have laidOut := always { num := 8, align := 4 } _ 0x80000 12 rfl (by decide)
  exact absurd laidOut.availUsed (by decide)

end Xemu.Vring
