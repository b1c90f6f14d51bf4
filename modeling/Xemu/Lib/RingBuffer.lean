import Mathlib.Data.BitVec
import Mathlib.Data.Nat.ModEq

/-! Rings of slots that are filled in order, and the wrapping indices that count along them. -/

namespace RingBuffer

/-! ### Indices -/

section Index

variable {w size first second : Nat}

/-- An index that wraps at a multiple of the size still selects the slot of its count. -/
theorem slot_index (divides : size ∣ 2 ^ w) (count : Nat) :
    (BitVec.ofNat w count).toNat % size = count % size := by
  rw [BitVec.toNat_ofNat, Nat.mod_mod_of_dvd count divides]

/-- The index of the next count is the next index. -/
theorem index_succ (count : Nat) : BitVec.ofNat w (count + 1) = BitVec.ofNat w count + 1 :=
  BitVec.ofNat_add count 1

/-- Counts that differ by less than a whole turn of the index are told apart by it. -/
theorem index_eq_iff (order : first ≤ second) (near : second < first + 2 ^ w) :
    BitVec.ofNat w second = BitVec.ofNat w first ↔ second = first := by
  refine ⟨fun same => ?_, fun same => same ▸ rfl⟩
  have remainders := congrArg BitVec.toNat same
  rw [BitVec.toNat_ofNat, BitVec.toNat_ofNat] at remainders
  -- The difference is a multiple of the turn and smaller than it.
  have turns : 2 ^ w ∣ second - first := (Nat.modEq_iff_dvd' order).mp remainders.symm
  have none := Nat.eq_zero_of_dvd_of_lt turns (by omega)
  omega

/-- Different positions within one turn of the ring have different slots. -/
theorem slot_ne (before : first < second) (near : second < first + size) :
    first % size ≠ second % size := by
  intro same
  have turns : size ∣ second - first := (Nat.modEq_iff_dvd' before.le).mp same
  have none := Nat.eq_zero_of_dvd_of_lt turns (by omega)
  omega

end Index

/-! ### Entries -/

variable {α : Type*}

/-- The entries of a list from a position on lie in the slots of their positions. -/
def Holds (size : Nat) (slots : Nat → α) (entries : List α) (oldest : Nat) : Prop :=
  ∀ position (inside : position < entries.length), oldest ≤ position →
    slots (position % size) = entries[position]

/-- Entries were written behind a position, and those before it were kept from the oldest on. -/
structure Adds (size : Nat) (slots after : Nat → α) (oldest count : Nat) (more : List α) :
    Prop where
  kept : ∀ position, oldest ≤ position → position < count →
    after (position % size) = slots (position % size)
  written : ∀ offset (inside : offset < more.length),
    after ((count + offset) % size) = more[offset]

variable {size count oldest later : Nat} {slots after : Nat → α} {entries more : List α}

/-- A ring without entries holds them wherever it starts. -/
theorem Holds.nil : Holds size slots [] oldest := by
  intro position inside
  cases inside

/-- A ring that holds some entries holds the later ones of them. -/
theorem Holds.mono (holds : Holds size slots entries oldest) (order : oldest ≤ later) :
    Holds size slots entries later :=
  fun position inside reached => holds position inside (order.trans reached)

/-- The entries do not depend on what lies behind the slots. -/
theorem Holds.congr (holds : Holds size slots entries oldest) (some : 0 < size)
    (same : ∀ slot < size, after slot = slots slot) : Holds size after entries oldest :=
  fun position inside reached =>
    (same _ (Nat.mod_lt position some)).trans (holds position inside reached)

/-- Entries that are written behind the last one are appended to the list. -/
theorem Holds.append (holds : Holds size slots entries oldest)
    (adds : Adds size slots after oldest entries.length more) :
    Holds size after (entries ++ more) oldest := by
  intro position inside reached
  rw [List.length_append] at inside
  by_cases older : position < entries.length
  · rw [List.getElem_append_left older, adds.kept position reached older]
    exact holds position older reached
  · -- A position behind the old entries is one of the new ones.
    have offset : position = entries.length + (position - entries.length) := by omega
    rw [List.getElem_append_right (Nat.le_of_not_lt older)]
    have written := adds.written (position - entries.length) (by omega)
    rwa [← offset] at written

/-- Writing one slot and no other adds an entry, as long as the ring has room for it. -/
theorem Adds.single {value : α} (room : count < oldest + size)
    (written : after (count % size) = value)
    (others : ∀ slot < size, slot ≠ count % size → after slot = slots slot) :
    Adds size slots after oldest count [value] := by
  refine ⟨fun position reached before => ?_, fun offset inside => ?_⟩
  · -- An entry that still counts lies in another slot than the one that was written.
    exact others _ (Nat.mod_lt position (by omega)) (slot_ne before (by omega))
  · have first : offset = 0 := by
      rw [List.length_singleton] at inside
      omega
    subst first
    exact written

end RingBuffer
