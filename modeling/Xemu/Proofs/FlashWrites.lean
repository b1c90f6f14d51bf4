import Mathlib.Order.Basic
import Mathlib.Order.OrderDual
import Xemu.Proofs.AtomicUpdates

/-! A write means the same in flash as in RAM only where its update leaves the operand. -/

namespace Xemu

/-! ### Updates that leave the operand -/

section Operand

variable {w : Nat} (old data : BitVec w)

/-- Words are equal when they have the same bit in every place. -/
theorem eq_iff_places {one other : BitVec w} :
    one = other ↔ ∀ i < w, one.getLsbD i = other.getLsbD i :=
  ⟨fun same i _ => congrArg (fun word => word.getLsbD i) same, BitVec.eq_of_getLsbD_eq⟩

/-- A disjunction is its right side when that has every bit of the left one. -/
theorem or_eq_right_iff : old ||| data = data ↔ old &&& ~~~data = 0 := by
  rw [eq_iff_places, eq_iff_places]
  refine forall₂_congr fun i below => ?_
  -- In each place there are four cases.
  simp only [BitVec.getLsbD_or, BitVec.getLsbD_and, BitVec.getLsbD_not, below]
  cases old.getLsbD i <;> cases data.getLsbD i <;> simp

/-- A conjunction is its right side when the left one has every bit of that. -/
theorem and_eq_right_iff : old &&& data = data ↔ data &&& ~~~old = 0 := by
  rw [eq_iff_places, eq_iff_places]
  refine forall₂_congr fun i below => ?_
  simp only [BitVec.getLsbD_and, BitVec.getLsbD_not, below]
  cases old.getLsbD i <;> cases data.getLsbD i <;> simp

/-- A better operand replaces the old word, so the operand is left unless the old word is better. -/
theorem choice_eq_operand_iff {n : Type} [LinearOrder n] (value : BitVec w → n)
    (injective : Function.Injective value) {better : Prop} [Decidable better]
    (compared : better ↔ value data < value old) :
    (if better then data else old) = data ↔ value data ≤ value old := by
  by_cases holds : better
  · rw [if_pos holds]
    exact iff_of_true rfl (compared.mp holds).le
  · -- Then the old word stays, which is the operand only if they are equal.
    rw [if_neg holds, ← injective.eq_iff]
    have upper := not_lt.mp (mt compared.mpr holds)
    exact ⟨fun same => same.ge, fun lower => le_antisymm upper lower⟩

/-- The old words that an access in flash and in RAM treats alike. -/
def FlashAgrees (params : Params) : Prop :=
  match params with
  | .none | .amoSwap => True
  -- A store-conditional returns zero in RAM, and the old word in flash.
  | .lrSc => old = 0
  | .amoAdd | .amoXor => old = 0
  | .amoOr => old &&& ~~~data = 0
  | .amoAnd => data &&& ~~~old = 0
  | .amoMin => data.toInt ≤ old.toInt
  | .amoMax => old.toInt ≤ data.toInt
  | .amoMinu => data.toNat ≤ old.toNat
  | .amoMaxu => old.toNat ≤ data.toNat

/-- Of the updates without a condition these are the ones that leave the operand. -/
theorem amo_eq_operand_iff {params : Params} (unconditional : params ≠ .lrSc) :
    amo old data params = data ↔ FlashAgrees old data params := by
  cases params with
  | none | amoSwap => exact iff_of_true rfl trivial
  | lrSc => exact absurd rfl unconditional
  | amoAdd => exact BitVec.add_left_eq_self
  | amoXor =>
    change old ^^^ data = data ↔ old = 0
    -- The operand cancels on both sides.
    have cancelled : old ^^^ data = 0#w ^^^ data ↔ old = 0#w := BitVec.xor_left_inj data
    rwa [BitVec.zero_xor] at cancelled
  | amoOr => exact or_eq_right_iff old data
  | amoAnd => exact and_eq_right_iff old data
  | amoMin =>
    exact choice_eq_operand_iff old data BitVec.toInt (fun _ _ => BitVec.eq_of_toInt_eq)
      BitVec.slt_iff_toInt_lt
  | amoMinu =>
    exact choice_eq_operand_iff old data BitVec.toNat (fun _ _ => BitVec.eq_of_toNat_eq)
      BitVec.lt_def
  -- The greater numbers are the better ones in the opposite order.
  | amoMax =>
    exact choice_eq_operand_iff old data (OrderDual.toDual ∘ BitVec.toInt)
      (fun _ _ => BitVec.eq_of_toInt_eq) BitVec.slt_iff_toInt_lt
  | amoMaxu =>
    exact choice_eq_operand_iff old data (OrderDual.toDual ∘ BitVec.toNat)
      (fun _ _ => BitVec.eq_of_toNat_eq) BitVec.lt_def

end Operand

/-! ### The two handlers -/

/-- The width of an atomic access. -/
def AtomicSize (size : Nat) : Prop := size = 8 ∨ size = 4

/-- The word RAM writes, in the width of the access. -/
theorem setWidth_ramWord {old data : BitVec 64} {size : Nat} (atomic : AtomicSize size)
    (params : Params) :
    (Bus.ramWord old data size params).setWidth (8 * size) =
      amo (old.setWidth (8 * size)) (data.setWidth (8 * size)) params := by
  rcases atomic with rfl | rfl
  · rw [Bus.ramWord, if_pos rfl]
    simp
  · rw [Bus.ramWord, if_neg (by decide), if_pos rfl]
    simp

section Handlers

variable {flash ram : Buffer} {addr offset data : BitVec 64} {size : Nat} {params : Params}

/-- An access in one page that starts in the region of the flash ends in it. -/
theorem page_inside (atomic : AtomicSize size) (region : addr.toNat < flashSpaceSize)
    (page : inSamePage addr size) : addr.toNat + size ≤ flashSpaceSize := by
  have below : addr.toNat < 0x4000000 := region
  have last : (addr + BitVec.ofNat 64 size - 1).toNat = addr.toNat + size - 1 := by
    rcases atomic with rfl | rfl <;> bv_omega
  have frames := congrArg BitVec.toNat (eq_of_beq page)
  rw [BitVec.toNat_ushiftRight, BitVec.toNat_ushiftRight, last, Nat.shiftRight_eq_div_pow,
    Nat.shiftRight_eq_div_pow] at frames
  -- The region is made of whole pages.
  change addr.toNat + size ≤ 0x4000000
  omega

/-- A write inside the loaded flash stores the operand and returns the old word, always. -/
theorem flashWrite_inside (atomic : AtomicSize size) (region : addr.toNat < flashSpaceSize)
    (loaded : addr.toNat + size ≤ flash.size) (page : inSamePage addr size) :
    flashWrite flash addr data size params = .ok (LittleEndian.load 64 flash.bytes addr size,
      { flash with bytes := LittleEndian.store flash.bytes addr size data }) := by
  have pointer : flashPtr flash addr size = .ok true := by
    rw [flashPtr, if_neg (Nat.not_lt.mpr (page_inside atomic region page)), decide_eq_true loaded]
  have sized : size = 8 ∨ size = 4 ∨ size = 2 ∨ size = 1 := by
    rcases atomic with rfl | rfl <;> simp
  rw [flashWrite, pointer, ok_bind, page]
  simp only [Bool.not_true, Bool.or_self, Bool.false_eq_true, if_false, if_pos sized, Buffer.read,
    Buffer.write, if_pos loaded, ok_bind, pure_eq_ok]

/-- What a write to RAM returns, and takes for the old word. -/
def ramReturn (ram : Buffer) (offset : BitVec 64) (size : Nat) (params : Params) : BitVec 64 :=
  if params = .lrSc then 0 else LittleEndian.load 64 ram.bytes offset size

/-- A write inside RAM stores the updated word, and returns the old one unless it is conditional. -/
theorem ramWrite_inside (fits : offset.toNat + size ≤ ram.size) :
    ramWrite ram offset data size params = .ok (ramReturn ram offset size params, { ram with
      bytes := LittleEndian.store ram.bytes offset size
        (Bus.ramWord (ramReturn ram offset size params) data size params) }) := by
  rw [Bus.ramWrite_eq, ramReturn]
  by_cases conditional : params = .lrSc
  · rw [if_neg (not_not.mpr conditional), if_pos conditional, ok_bind, Buffer.write, if_pos fits]
    rfl
  · rw [if_pos conditional, if_neg conditional, Buffer.read, if_pos fits, ok_bind, Buffer.write,
      if_pos fits]
    rfl

/--
An access to the flash returns what it returns on a RAM with the same bytes, and leaves the same.

The other bytes stay as they are in both.
-/
def SameWrite (flash ram : Buffer) (addr offset data : BitVec 64) (size : Nat) (params : Params) :
    Prop :=
  ∃ ret flashAfter ramAfter, flashWrite flash addr data size params = .ok (ret, flashAfter) ∧
    ramWrite ram offset data size params = .ok (ret, ramAfter) ∧
    (∀ index < size, flashAfter.bytes (addr + BitVec.ofNat 64 index) =
      ramAfter.bytes (offset + BitVec.ofNat 64 index)) ∧
    (∀ at_ : BitVec 64, size ≤ (at_ - addr).toNat → flashAfter.bytes at_ = flash.bytes at_) ∧
    ∀ at_ : BitVec 64, size ≤ (at_ - offset).toNat → ramAfter.bytes at_ = ram.bytes at_

/--
The flash is written like a RAM exactly where the update leaves the operand.

A store-conditional agrees where the old word is the zero that RAM returns.
-/
theorem same_write_iff (atomic : AtomicSize size) (region : addr.toNat < flashSpaceSize)
    (loaded : addr.toNat + size ≤ flash.size) (page : inSamePage addr size)
    (fits : offset.toNat + size ≤ ram.size)
    (same : ∀ index < size, ram.bytes (offset + BitVec.ofNat 64 index) =
      flash.bytes (addr + BitVec.ofNat 64 index)) :
    SameWrite flash ram addr offset data size params ↔
      FlashAgrees (LittleEndian.load (8 * size) flash.bytes addr size) (data.setWidth (8 * size))
        params := by
  have wide : size ≤ 2 ^ 64 := by rcases atomic with rfl | rfl <;> decide
  have narrow : 8 * size ≤ 64 := by rcases atomic with rfl | rfl <;> decide
  have old (w : Nat) : LittleEndian.load w ram.bytes offset size =
      LittleEndian.load w flash.bytes addr size := LittleEndian.load_congr same
  -- Both writes are determined, so only the value returned and the bytes written are compared.
  have compared : SameWrite flash ram addr offset data size params ↔
      LittleEndian.load 64 flash.bytes addr size = ramReturn ram offset size params ∧
        data.setWidth (8 * size) = amo ((ramReturn ram offset size params).setWidth (8 * size))
          (data.setWidth (8 * size)) params := by
    rw [← setWidth_ramWord atomic, ← LittleEndian.bytes_eq_iff]
    constructor
    · rintro ⟨ret, flashAfter, ramAfter, inFlash, inMemory, bytes, -⟩
      obtain ⟨returned, rfl⟩ := Prod.mk.inj (Except.ok.inj
        (inFlash.symm.trans (flashWrite_inside atomic region loaded page)))
      obtain ⟨kept, rfl⟩ := Prod.mk.inj (Except.ok.inj (inMemory.symm.trans (ramWrite_inside fits)))
      refine ⟨returned.symm.trans kept, fun index inside => ?_⟩
      have byte := bytes index inside
      dsimp only at byte
      rwa [LittleEndian.store_inside inside wide, LittleEndian.store_inside inside wide] at byte
    · rintro ⟨returned, bytes⟩
      refine ⟨_, _, _, flashWrite_inside atomic region loaded page,
        returned ▸ ramWrite_inside fits, fun index inside => ?_,
        fun at_ outside => LittleEndian.store_outside outside,
        fun at_ outside => LittleEndian.store_outside outside⟩
      dsimp only
      rw [LittleEndian.store_inside inside wide, LittleEndian.store_inside inside wide, returned]
      exact bytes index inside
  rw [compared]
  by_cases conditional : params = .lrSc
  · -- The store itself is the same, and the values returned when the old word is zero.
    subst conditional
    have returned : ramReturn ram offset size .lrSc = 0 := if_pos rfl
    rw [returned]
    refine (and_iff_left rfl).trans ⟨fun none => ?_, fun none => ?_⟩
    · change LittleEndian.load (8 * size) flash.bytes addr size = 0
      rw [LittleEndian.load_widen narrow, none]
      simp
    · change LittleEndian.load (8 * size) flash.bytes addr size = 0 at none
      rw [LittleEndian.load_widen (w := 64) (v := 8 * size) le_rfl, none]
      simp
  · have returned : ramReturn ram offset size params = LittleEndian.load 64 flash.bytes addr size :=
      (if_neg conditional).trans (old 64)
    rw [returned, ← LittleEndian.load_widen narrow, eq_comm (a := data.setWidth (8 * size)),
      amo_eq_operand_iff _ _ conditional]
    exact and_iff_right rfl

end Handlers

/-- A plain store to the start of the flash is one to the start of a RAM of as many zeros. -/
theorem same_write_iff_store :
    SameWrite (.zeroed 0x100) (.zeroed 0x100) 0 0 0x1122334455667788 8 .none ↔
      FlashAgrees (LittleEndian.load (8 * 8) (Buffer.zeroed 0x100).bytes 0 8)
        (BitVec.setWidth (8 * 8) 0x1122334455667788#64) .none :=
  same_write_iff (.inl rfl) (by decide) (by decide) rfl (by decide) fun _ _ => rfl

/-- An addition of zero to a flash of ones leaves zeros there, and leaves the ones in RAM. -/
theorem flash_forgets_addition :
    ¬ SameWrite ⟨fun _ => 1, 0x100⟩ ⟨fun _ => 1, 0x100⟩ 0 0 0 8 .amoAdd := by
  rintro ⟨ret, flashAfter, ramAfter, inFlash, inMemory, bytes, -⟩
  -- The flash stores the zero it was given, and RAM the sum of zero and what was there.
  have first : flashAfter.bytes 0 = 0 := by
    have ran := inFlash.symm.trans (flashWrite_inside (.inl rfl) (by decide) (by decide) rfl)
    rw [(Prod.mk.inj (Except.ok.inj ran)).2]
    decide
  have second : ramAfter.bytes 0 = 1 := by
    have ran := inMemory.symm.trans (ramWrite_inside (by decide))
    rw [(Prod.mk.inj (Except.ok.inj ran)).2]
    decide
  have same : flashAfter.bytes 0 = ramAfter.bytes 0 := bytes 0 (by decide)
  rw [first, second] at same
  cases same

end Xemu
