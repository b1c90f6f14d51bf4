import Mathlib.Data.List.TakeWhile

/-! Strings that end at their first zero, alone and packed one behind the other. -/

namespace CStrings

variable {Byte : Type*} [Zero Byte] [DecidableEq Byte]

/-- The string at the start of a buffer, if it ends inside. -/
def first : List Byte → Option (List Byte)
  | [] => none
  | byte :: rest => if byte = 0 then some [] else (first rest).map (byte :: ·)

/-- The strings that make up a buffer, of which the first one was begun already. -/
def splitFrom : List Byte → List Byte → Option (List (List Byte))
  | begun, [] => if begun = [] then some [] else none
  | begun, byte :: rest =>
    if byte = 0 then (splitFrom [] rest).map (begun :: ·) else splitFrom (begun ++ [byte]) rest

/-- The strings that make up a buffer, if the last one ends with it. -/
def split (buffer : List Byte) : Option (List (List Byte)) := splitFrom [] buffer

/-- The strings one behind the other, each with its end. -/
def pack (strings : List (List Byte)) : List Byte := strings.flatMap (· ++ [0])

variable {string begun buffer rest : List Byte} {strings : List (List Byte)}

/-- A string is read up to its end. -/
theorem first_append (clean : 0 ∉ string) (rest : List Byte) :
    first (string ++ 0 :: rest) = some string := by
  induction string with
  | nil => simp [first]
  | cons byte string ih =>
    rw [List.mem_cons, not_or] at clean
    simp [first, ih clean.2, Ne.symm clean.1]

/-- A string that was begun goes on up to its end. -/
theorem splitFrom_append (clean : 0 ∉ string) (begun rest : List Byte) :
    splitFrom begun (string ++ 0 :: rest) = (split rest).map ((begun ++ string) :: ·) := by
  induction string generalizing begun with
  | nil => simp [splitFrom, split]
  | cons byte string ih =>
    rw [List.mem_cons, not_or] at clean
    simp [splitFrom, ih clean.2, Ne.symm clean.1]

/-- Packed strings are split into themselves. -/
theorem split_pack (clean : ∀ string ∈ strings, 0 ∉ string) : split (pack strings) = some strings := by
  induction strings with
  | nil => simp [split, pack, splitFrom]
  | cons string strings ih =>
    rw [List.forall_mem_cons] at clean
    have later := ih clean.2
    rw [split, pack] at later
    simp [split, pack, splitFrom_append clean.1, later]

end CStrings
