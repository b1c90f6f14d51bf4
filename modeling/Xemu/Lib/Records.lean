import Mathlib.Data.List.Basic
import Mathlib.Tactic.Ring

/-! Records of a file: numbers of some bytes each, lowest byte first, at fixed places. -/

namespace Records

/-- The number that some bytes are, lowest first. -/
def number : List (BitVec 8) → Nat
  | [] => 0
  | byte :: rest => byte.toNat + 256 * number rest

/-- So many bytes of a number, lowest first. -/
def digits : Nat → Nat → List (BitVec 8)
  | 0, _ => []
  | count + 1, value => BitVec.ofNat 8 value :: digits count (value / 256)

/-- The number in so many bytes at a place. -/
def field (bytes : List (BitVec 8)) (offset count : Nat) : Nat :=
  number ((bytes.drop offset).take count)

variable {bytes rest : List (BitVec 8)} {offset count value : Nat}

@[simp] theorem length_digits (count value : Nat) : (digits count value).length = count := by
  induction count generalizing value with
  | zero => rfl
  | succ count ih => simp [digits, ih]

/-- A number that the bytes can hold is read back. -/
theorem number_digits (small : value < 256 ^ count) : number (digits count value) = value := by
  -- The induction takes the lowest byte off.
  induction count generalizing value with
  | zero =>
    have zero : value = 0 := by simpa using small
    rw [zero]
    rfl
  | succ count ih =>
    have shorter : value / 256 < 256 ^ count := by
      rw [Nat.pow_succ] at small
      omega
    have low : (BitVec.ofNat 8 value).toNat = value % 256 := BitVec.toNat_ofNat ..
    rw [digits, number, ih shorter, low]
    omega

/-- A field in front of other bytes. -/
theorem field_append_left (inside : offset + count ≤ bytes.length) (rest : List (BitVec 8)) :
    field (bytes ++ rest) offset count = field bytes offset count := by
  have starts : offset ≤ bytes.length := by omega
  have ends : count ≤ (bytes.drop offset).length := by
    rw [List.length_drop]
    omega
  rw [field, field, List.drop_append_of_le_length starts, List.take_append_of_le_length ends]

/-- A field behind other bytes. -/
theorem field_append_right (behind : bytes.length ≤ offset) (rest : List (BitVec 8)) (count : Nat) :
    field (bytes ++ rest) offset count = field rest (offset - bytes.length) count := by
  rw [field, field, List.drop_append, List.drop_eq_nil_of_le behind, List.nil_append]

/-- A field that begins a record. -/
theorem field_digits (small : value < 256 ^ count) (rest : List (BitVec 8)) :
    field (digits count value ++ rest) 0 count = value := by
  rw [field_append_left (by simp), field, List.drop_zero,
    List.take_of_length_le (Nat.le_of_eq (length_digits ..)), number_digits small]

/-! ### Records of many fields -/

/-- Some numbers one behind the other, each in so many bytes. -/
def record (fields : List (Nat × Nat)) : List (BitVec 8) :=
  fields.flatMap fun field => digits field.1 field.2

variable {fields : List (Nat × Nat)}

@[simp] theorem length_record (fields : List (Nat × Nat)) :
    (record fields).length = (fields.map Prod.fst).sum := by
  simp [record, List.length_flatMap]

/-- A number of a record is read back from its place, behind the numbers before it. -/
theorem field_record {i : Nat} (listed : fields[i]? = some (count, value)) (small : value < 256 ^ count)
    (place : ((fields.take i).map Prod.fst).sum = offset) : field (record fields) offset count = value := by
  obtain ⟨inside, same⟩ := List.getElem?_eq_some_iff.mp listed
  have split : fields = fields.take i ++ (count, value) :: fields.drop (i + 1) := by
    rw [← same, ← List.drop_eq_getElem_cons inside, List.take_append_drop]
  have whole : record fields =
      record (fields.take i) ++ (digits count value ++ record (fields.drop (i + 1))) := by
    conv_lhs => rw [split]
    simp [record]
  have behind : (record (fields.take i)).length = offset := by
    rw [length_record, place]
  rw [whole, field_append_right (Nat.le_of_eq behind), behind, Nat.sub_self, field_digits small]

/-- A field of what is left of some bytes. -/
theorem field_drop (bytes : List (BitVec 8)) (start offset count : Nat) :
    field (bytes.drop start) offset count = field bytes (start + offset) count := by
  rw [field, field, List.drop_drop]

/-- A field of a record among others of the same size. -/
theorem field_flatMap {Record : Type} {encode : Record → List (BitVec 8)} {size : Nat}
    (sized : ∀ record, (encode record).length = size) {records : List Record} {i : Nat}
    (inside : i < records.length) (fits : offset + count ≤ size) :
    field (records.flatMap encode) (size * i + offset) count = field (encode records[i]) offset count := by
  -- The induction passes one record at a time, each of the same size.
  induction records generalizing i with
  | nil => exact absurd inside (Nat.not_lt_zero _)
  | cons first rest ih =>
    rw [List.flatMap_cons]
    cases i with
    | zero => simpa using field_append_left (by rw [sized]; exact fits) _
    | succ i =>
      have shift : size * (i + 1) + offset - size = size * i + offset := by
        rw [Nat.mul_succ]
        omega
      have behind : (encode first).length ≤ size * (i + 1) + offset := by
        rw [sized, Nat.mul_succ]
        omega
      rw [field_append_right behind, sized, shift]
      exact ih (Nat.lt_of_succ_lt_succ inside)

end Records
