import Mathlib.Algebra.Group.Nat.Defs

/-! Words read from and written to a byte memory, least significant byte first. -/

namespace LittleEndian

variable {a w : Nat}

/-- The word of the `count` bytes from an address on, zero-extended to the word's width. -/
def load (w : Nat) (mem : BitVec a → BitVec 8) (addr : BitVec a) : Nat → BitVec w
  | 0 => 0
  | count + 1 =>
    -- The byte at the address is the lowest one, and the later bytes lie above it.
    (mem addr).setWidth w ||| (load w mem (addr + 1) count <<< 8)

/-- The memory after the `count` low bytes of a word are written from an address on. -/
def store (mem : BitVec a → BitVec 8) (addr : BitVec a) (count : Nat) (data : BitVec w) :
    BitVec a → BitVec 8 :=
  fun at_ =>
    -- The distance from the first address says which byte of the word lands here.
    let index := (at_ - addr).toNat
    if index < count then (data >>> (8 * index)).setWidth 8 else mem at_

/-- A byte outside the written range keeps its value. -/
theorem store_outside {mem : BitVec a → BitVec 8} {addr at_ : BitVec a} {count : Nat}
    {data : BitVec w} (outside : count ≤ (at_ - addr).toNat) :
    store mem addr count data at_ = mem at_ :=
  if_neg (Nat.not_lt.mpr outside)

/-- A byte inside the written range is the corresponding byte of the word. -/
theorem store_inside {mem : BitVec a → BitVec 8} {addr : BitVec a} {count index : Nat}
    {data : BitVec w} (inside : index < count) (fits : count ≤ 2 ^ a) :
    store mem addr count data (addr + BitVec.ofNat a index) =
      (data >>> (8 * index)).setWidth 8 := by
  -- The distance is the index itself, because the range does not reach around the address space.
  have distance : (addr + BitVec.ofNat a index - addr).toNat = index := by
    rw [BitVec.add_comm, BitVec.add_sub_cancel, BitVec.toNat_ofNat]
    exact Nat.mod_eq_of_lt (by omega)
  simp only [store, distance, if_pos inside]

/-- Each bit of a loaded word is a bit of the byte it was read from. -/
theorem getLsbD_load (mem : BitVec a → BitVec 8) (addr : BitVec a) (count i : Nat) :
    (load w mem addr count).getLsbD i =
      (decide (i < w) && decide (i < 8 * count) &&
        (mem (addr + BitVec.ofNat a (i / 8))).getLsbD (i % 8)) := by
  induction count generalizing addr i with
  | zero => simp [load]
  | succ count ih =>
    -- The lowest byte supplies the first eight bits, and the rest is the load one address on.
    by_cases low : i < 8
    · have quotient : i / 8 = 0 := by omega
      have remainder : i % 8 = i := by omega
      simp [load, low, quotient, remainder, show i < 8 * (count + 1) by omega]
    · -- Eight places up, the byte is the one that the shorter load finds one address on.
      have quotient : i / 8 = (i - 8) / 8 + 1 := by omega
      have remainder : i % 8 = (i - 8) % 8 := by omega
      have along : addr + 1 + BitVec.ofNat a ((i - 8) / 8) = addr + BitVec.ofNat a (i / 8) := by
        rw [quotient, Nat.add_comm, BitVec.ofNat_add, BitVec.add_assoc]
        rfl
      have beyond : (mem addr).getLsbD i = false := BitVec.getLsbD_of_ge _ _ (by omega)
      simp only [load, BitVec.getLsbD_or, BitVec.getLsbD_setWidth, beyond, Bool.and_false,
        BitVec.getLsbD_shiftLeft, low, decide_false, Bool.not_false, Bool.and_true, Bool.false_or,
        ih, along, remainder]
      by_cases wide : i < w
      · -- Inside the word the shifted load has this bit, and the counts of bytes differ by one.
        simp [wide, show i - 8 < w by omega, show i - 8 < 8 * count ↔ i < 8 * (count + 1) by omega]
      · simp [wide]

/-- A byte of a loaded word is the byte of memory at that distance from the address. -/
theorem load_byte {mem : BitVec a → BitVec 8} {addr : BitVec a} {count index : Nat}
    (inside : index < count) (fits : 8 * count ≤ w) :
    ((load w mem addr count) >>> (8 * index)).setWidth 8 = mem (addr + BitVec.ofNat a index) := by
  apply BitVec.eq_of_getLsbD_eq
  intro i below
  -- Each bit of the byte is a bit of the word, and dividing its place finds the byte again.
  have quotient : (8 * index + i) / 8 = index := by omega
  have remainder : (8 * index + i) % 8 = i := by omega
  simp only [BitVec.getLsbD_setWidth, BitVec.getLsbD_ushiftRight, getLsbD_load, below, quotient,
    remainder, show 8 * index + i < w by omega, show 8 * index + i < 8 * count by omega,
    decide_true, Bool.true_and]

/-- A loaded word depends only on the bytes it covers, wherever these are. -/
theorem load_congr {mem other : BitVec a → BitVec 8} {addr place : BitVec a} {count : Nat}
    (same : ∀ index < count, mem (addr + BitVec.ofNat a index) =
      other (place + BitVec.ofNat a index)) : load w mem addr count = load w other place count := by
  apply BitVec.eq_of_getLsbD_eq
  intro i below
  rw [getLsbD_load, getLsbD_load]
  by_cases inside : i < 8 * count
  · -- A bit of the word lies in one of the bytes that agree.
    rw [same (i / 8) (by omega)]
  · -- Above the bytes read both words are zero.
    simp [inside]

/-- A word of the same bytes is the same number in any width that holds them. -/
theorem load_widen {v : Nat} {mem : BitVec a → BitVec 8} {addr : BitVec a} {count : Nat}
    (narrow : 8 * count ≤ v) :
    load w mem addr count = (load v mem addr count).setWidth w := by
  apply BitVec.eq_of_getLsbD_eq
  intro i below
  -- The bits above the bytes are zero in both, and the others lie in the narrow word.
  rw [BitVec.getLsbD_setWidth, getLsbD_load, getLsbD_load]
  by_cases inside : i < 8 * count
  · simp [inside, below, show i < v by omega]
  · simp [inside]

/-- Bytes and those behind them are one word, with the later ones above. -/
theorem load_join {mem : BitVec a → BitVec 8} {addr : BitVec a} (first second : Nat) :
    load w mem addr (first + second) =
      (load (8 * second) mem (addr + BitVec.ofNat a first) second ++
        load (8 * first) mem addr first).setWidth w := by
  apply BitVec.eq_of_getLsbD_eq
  intro i below
  rw [BitVec.getLsbD_setWidth, BitVec.getLsbD_append, getLsbD_load, getLsbD_load, getLsbD_load]
  by_cases lower : i < 8 * first
  · simp [lower, below, show i < 8 * (first + second) by omega]
  · -- A bit of a later byte is counted from the first of these on.
    have place : addr + BitVec.ofNat a first + BitVec.ofNat a ((i - 8 * first) / 8) =
        addr + BitVec.ofNat a (i / 8) := by
      rw [BitVec.add_assoc, ← BitVec.ofNat_add]
      congr 2
      omega
    have bit : (i - 8 * first) % 8 = i % 8 := by omega
    have count : i - 8 * first < 8 * second ↔ i < 8 * (first + second) := by omega
    simp [lower, below, place, bit, count]

/-- A store depends only on the bytes of the word that it writes. -/
theorem store_congr {mem : BitVec a → BitVec 8} {addr : BitVec a} {count : Nat}
    {data other : BitVec w}
    (same : ∀ index < count, ((data >>> (8 * index)).setWidth 8 : BitVec 8) =
      (other >>> (8 * index)).setWidth 8) :
    store mem addr count data = store mem addr count other := by
  funext at_
  simp only [store]
  split
  · -- An address in the range gets a byte of the word, and these agree.
    rename_i inside
    exact same _ inside
  · rfl

/-- A store takes its bytes from the low end of a word, however wide the word is. -/
theorem store_setWidth {v : Nat} {mem : BitVec a → BitVec 8} {addr : BitVec a} {count : Nat}
    {data : BitVec v} (wide : 8 * count ≤ w) :
    store mem addr count (data.setWidth w) = store mem addr count data := by
  funext at_
  simp only [store]
  split
  · rename_i inside
    generalize (at_ - addr).toNat = index at inside ⊢
    apply BitVec.eq_of_getLsbD_eq
    intro i below
    -- Each bit of a byte lies within the width.
    simp [below, show 8 * index + i < w by omega]
  · rfl

/-- Words have the same low bytes when they are the same number in that width. -/
theorem bytes_eq_iff {count : Nat} {data other : BitVec w} :
    (∀ index < count, ((data >>> (8 * index)).setWidth 8 : BitVec 8) =
      (other >>> (8 * index)).setWidth 8) ↔
      data.setWidth (8 * count) = other.setWidth (8 * count) := by
  constructor
  · intro same
    apply BitVec.eq_of_getLsbD_eq
    intro i below
    -- A bit of the number is one of the byte it lies in.
    have byte := congrArg (fun byte => byte.getLsbD (i % 8)) (same (i / 8) (by omega))
    have whole : 8 * (i / 8) + i % 8 = i := Nat.div_add_mod i 8
    simpa [below, Nat.mod_lt, whole] using byte
  · intro same index inside
    apply BitVec.eq_of_getLsbD_eq
    intro i below
    have bit := congrArg (fun number => number.getLsbD (8 * index + i)) same
    simpa [below, show 8 * index + i < 8 * count by omega] using bit

/-- Loading a range that was just written gives back the low bytes of the word written. -/
theorem load_store_same {mem : BitVec a → BitVec 8} {addr : BitVec a} {count : Nat}
    {data : BitVec w} (fits : count ≤ 2 ^ a) :
    load w (store mem addr count data) addr count =
      (data.setWidth (8 * count)).setWidth w := by
  apply BitVec.eq_of_getLsbD_eq
  intro i below
  rw [getLsbD_load]
  by_cases inside : i < 8 * count
  · -- A bit of the word went to one of the bytes written, and comes back from there.
    have whole : 8 * (i / 8) + i % 8 = i := by omega
    rw [store_inside (by omega) fits]
    simp [inside, below, Nat.mod_lt, whole]
  · -- Above the bytes written both sides are zero.
    simp [inside]

/-- A word that a store does not reach is loaded as before. -/
theorem load_store_apart {v : Nat} {mem : BitVec a → BitVec 8} {addr other : BitVec a}
    {count size : Nat} {data : BitVec v} (fits : addr.toNat + count ≤ 2 ^ a)
    (otherFits : other.toNat + size ≤ 2 ^ a)
    (apart : addr.toNat + count ≤ other.toNat ∨ other.toNat + size ≤ addr.toNat) :
    load w (store mem other size data) addr count = load w mem addr count := by
  refine load_congr fun index inside => store_outside ?_
  have place : (addr + BitVec.ofNat a index).toNat = addr.toNat + index := by
    rw [BitVec.toNat_add, BitVec.toNat_ofNat, Nat.add_mod_mod]
    exact Nat.mod_eq_of_lt (by omega)
  rw [BitVec.toNat_sub, place]
  rcases apart with below | above
  · -- The word ends before the store, so the distance wraps around.
    rw [Nat.mod_eq_of_lt (by omega)]
    omega
  · have wrapped : 2 ^ a - other.toNat + (addr.toNat + index) =
        2 ^ a + (addr.toNat + index - other.toNat) := by omega
    rw [wrapped, Nat.add_mod_left, Nat.mod_eq_of_lt (by omega)]
    omega

end LittleEndian
