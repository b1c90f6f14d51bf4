import Mathlib.Algebra.Group.Nat.Defs
import Mathlib.Data.BitVec
import Mathlib.Data.List.GetD
import Xemu.Lib.LittleEndian

/-! Lists of bytes copied out of a byte memory and into it. -/

namespace Bytes

variable {a w : Nat}

/-- The bytes of a word, lowest first. -/
def ofWord (data : BitVec w) (count : Nat) : List (BitVec 8) :=
  (List.range count).map fun index => (data >>> (8 * index)).setWidth 8

/-- The bytes from an address on. -/
def get (mem : BitVec a → BitVec 8) (addr : BitVec a) (count : Nat) : List (BitVec 8) :=
  (List.range count).map fun index => mem (addr + BitVec.ofNat a index)

/-- The memory after a list of bytes is written from an address on. -/
def put (mem : BitVec a → BitVec 8) (addr : BitVec a) (data : List (BitVec 8)) :
    BitVec a → BitVec 8 :=
  fun at_ => data.getD (at_ - addr).toNat (mem at_)

@[simp] theorem length_ofWord (data : BitVec w) (count : Nat) :
    (ofWord data count).length = count := by
  simp [ofWord]

@[simp] theorem length_get (mem : BitVec a → BitVec 8) (addr : BitVec a) (count : Nat) :
    (get mem addr count).length = count := by
  simp [get]

@[simp] theorem put_nil (mem : BitVec a → BitVec 8) (addr : BitVec a) : put mem addr [] = mem :=
  rfl

/-- A byte that the list does not reach keeps its value. -/
theorem put_outside {mem : BitVec a → BitVec 8} {addr at_ : BitVec a} {data : List (BitVec 8)}
    (outside : data.length ≤ (at_ - addr).toNat) : put mem addr data at_ = mem at_ :=
  List.getD_eq_default _ _ outside

/-- A byte that the list reaches is the list's own at that distance. -/
theorem put_inside {mem : BitVec a → BitVec 8} {addr : BitVec a} {data : List (BitVec 8)}
    {index : Nat} (inside : index < data.length) (fits : data.length ≤ 2 ^ a) :
    put mem addr data (addr + BitVec.ofNat a index) = data[index] := by
  -- The distance is the index itself, because the list does not reach around the memory.
  have distance : (addr + BitVec.ofNat a index - addr).toNat = index := by
    rw [BitVec.add_comm, BitVec.add_sub_cancel, BitVec.toNat_ofNat]
    exact Nat.mod_eq_of_lt (by omega)
  rw [put, distance, List.getD_eq_getElem _ _ inside]

/-- Two lists written one behind the other are written as one list. -/
theorem put_append (mem : BitVec a → BitVec 8) (addr : BitVec a) (data more : List (BitVec 8))
    (fits : data.length + more.length ≤ 2 ^ a) :
    put (put mem addr data) (addr + BitVec.ofNat a data.length) more =
      put mem addr (data ++ more) := by
  cases more with
  | nil => simp
  | cons byte rest =>
    funext at_
    have room : data.length < 2 ^ a := by
      simp only [List.length_cons] at fits
      omega
    have along : at_ - (addr + BitVec.ofNat a data.length) =
        at_ - addr - BitVec.ofNat a data.length := by
      rw [sub_add_eq_sub_sub]
    have bound : (at_ - addr).toNat < 2 ^ a := (at_ - addr).isLt
    simp only [put, along]
    generalize at_ - addr = distance at bound
    have width : (BitVec.ofNat a data.length).toNat = data.length := by
      rw [BitVec.toNat_ofNat, Nat.mod_eq_of_lt room]
    by_cases early : distance.toNat < data.length
    · -- Before the second list the distance to it wraps, past everything it reaches.
      have far : (byte :: rest).length ≤ (distance - BitVec.ofNat a data.length).toNat := by
        rw [BitVec.toNat_sub, width, Nat.mod_eq_of_lt (by omega)]
        omega
      rw [List.getD_eq_default _ _ far, List.getD_append _ _ _ _ early]
    · have near : (distance - BitVec.ofNat a data.length).toNat =
          distance.toNat - data.length := by
        rw [BitVec.toNat_sub_of_le (by rw [BitVec.le_def, width]; omega), width]
      have later : data.length ≤ distance.toNat := Nat.le_of_not_lt early
      rw [near, List.getD_append_right _ _ _ _ later, List.getD_eq_default _ _ later]

/-- The bytes of two stretches one behind the other. -/
theorem get_add (mem : BitVec a → BitVec 8) (addr : BitVec a) (count more : Nat) :
    get mem addr (count + more) =
      get mem addr count ++ get mem (addr + BitVec.ofNat a count) more := by
  simp [get, List.range_add, BitVec.ofNat_add, BitVec.add_assoc]

/-- Storing a word writes its bytes. -/
theorem store_eq_put (mem : BitVec a → BitVec 8) (addr : BitVec a) (count : Nat)
    (data : BitVec w) :
    LittleEndian.store mem addr count data = put mem addr (ofWord data count) := by
  funext at_
  simp only [LittleEndian.store, put]
  generalize (at_ - addr).toNat = distance
  by_cases inside : distance < count
  · simp [ofWord, inside]
  · rw [if_neg inside, List.getD_eq_default _ _ (by simpa using inside)]

/-- The bytes of a loaded word are the bytes of memory. -/
theorem ofWord_load {mem : BitVec a → BitVec 8} {addr : BitVec a} {count : Nat}
    (narrow : 8 * count ≤ w) :
    ofWord (LittleEndian.load w mem addr count) count = get mem addr count := by
  refine List.map_congr_left fun index listed => ?_
  exact LittleEndian.load_byte (List.mem_range.mp listed) narrow

/-- A word loaded from a list of bytes of memory is the word in memory. -/
theorem load_get {mem : BitVec a → BitVec 8} {addr offset : BitVec a} {size count : Nat}
    {other : BitVec 8} (inside : offset.toNat + count ≤ size) (fits : size ≤ 2 ^ a) :
    LittleEndian.load w (fun at_ => (get mem addr size).getD at_.toNat other) offset count =
      LittleEndian.load w mem (addr + offset) count := by
  refine LittleEndian.load_congr fun index below => ?_
  -- The offset of a byte of the word does not wrap around, and is its position in the list.
  have position : (offset + BitVec.ofNat a index).toNat = offset.toNat + index := by
    rw [BitVec.toNat_add, BitVec.toNat_ofNat, Nat.mod_eq_of_lt (show index < 2 ^ a by omega)]
    exact Nat.mod_eq_of_lt (by omega)
  have listed : offset.toNat + index < (get mem addr size).length := by
    rw [length_get]
    omega
  simp only [position, List.getD_eq_getElem _ _ listed]
  simp only [get, List.getElem_map, List.getElem_range, BitVec.ofNat_add, BitVec.ofNat_toNat,
    BitVec.setWidth_eq, BitVec.add_assoc]

/-- What lies outside a stretch lies outside every part of it. -/
theorem outside_part {addr at_ : BitVec a} {size from_ count : Nat}
    (outside : size ≤ (at_ - addr).toNat) (part : from_ + count ≤ size) :
    count ≤ (at_ - (addr + BitVec.ofNat a from_)).toNat := by
  have bound : (at_ - addr).toNat < 2 ^ a := (at_ - addr).isLt
  rw [sub_add_eq_sub_sub]
  generalize at_ - addr = distance at outside bound
  have width : (BitVec.ofNat a from_).toNat = from_ := by
    rw [BitVec.toNat_ofNat, Nat.mod_eq_of_lt (by omega)]
  rw [BitVec.toNat_sub_of_le (by rw [BitVec.le_def, width]; omega), width]
  omega

end Bytes
