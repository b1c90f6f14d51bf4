import Xemu.Lib.BitField

/-! How a run of the emulator stops, what it takes from the host, and the bit macros. -/

namespace Xemu

/-- The ways in which the emulator process ends, or in which its C code has no defined result. -/
inductive Stop where
  /-- A call of `panic`, with the format string it prints. -/
  | panic (text : String)
  /-- An operation the C language leaves undefined, such as an index outside an array. -/
  | undefined (what : String)
  /-- A thread that waits for itself and never continues. -/
  | deadlock
  /-- The bound on the nested queue work of one store was reached before the work ended. -/
  | fuel
  deriving DecidableEq, Repr

section Outcomes

variable {α β : Type}

/-- A sequence of two computations completes when both do, the second with the first one's result. -/
theorem bind_eq_ok {first : Except Stop α} {next : α → Except Stop β} {result : β} :
    (first >>= next) = .ok result ↔ ∃ middle, first = .ok middle ∧ next middle = .ok result := by
  -- A computation that stops makes the whole sequence stop with the same error.
  cases first with
  | error stop => simp [Bind.bind, Except.bind]
  | ok middle => simp [Bind.bind, Except.bind]

/-- A sequence goes on with the result of its first computation. -/
theorem bind_of_ok {first : Except Stop α} {middle : α} (done : first = .ok middle)
    {next : α → Except Stop β} {result : Except Stop β} (rest : next middle = result) :
    (first >>= next) = result := by
  rw [done]
  exact rest

/-- A choice between two first computations goes on with the result of the one that is made. -/
theorem choice_of_ok {cond : Prop} [Decidable cond] {first second : Except Stop α} {middle : α}
    (done : (if cond then first else second) = .ok middle) {next : α → Except Stop β}
    {result : Except Stop β} (rest : next middle = result) :
    (if cond then first >>= next else second >>= next) = result := by
  split at done
  · rename_i holds
    rw [if_pos holds]
    exact bind_of_ok done rest
  · rename_i fails
    rw [if_neg fails]
    exact bind_of_ok done rest

/-- A mapped computation completes when it does, with the image of its result. -/
theorem map_eq_ok {comp : Except Stop α} {f : α → β} {result : β} :
    comp.map f = .ok result ↔ ∃ middle, comp = .ok middle ∧ f middle = result := by
  cases comp with
  | error stop => simp [Except.map]
  | ok middle => simp [Except.map]

/-- A test of the result that succeeds is one of a computation that completes. -/
theorem ok_of_test {comp : Except Stop α} {test : α → Bool} (tested : comp.toOption.any test) :
    ∃ result, comp = .ok result ∧ test result := by
  cases comp with
  | error stop => cases tested
  | ok result => exact ⟨result, rfl, tested⟩

@[simp] theorem ok_bind (middle : α) (next : α → Except Stop β) :
    (Except.ok middle >>= next) = next middle := rfl

@[simp] theorem error_bind (stop : Stop) (next : α → Except Stop β) :
    ((Except.error stop : Except Stop α) >>= next) = .error stop := rfl

@[simp] theorem pure_eq_ok (result : α) : (pure result : Except Stop α) = .ok result := rfl

@[simp] theorem throw_eq_error (stop : Stop) : (throw stop : Except Stop α) = .error stop := rfl

end Outcomes

/-- A word whose number is positive is not zero. -/
theorem ne_zero_of_toNat_pos {w : Nat} {word : BitVec w} (positive : 0 < word.toNat) : word ≠ 0 := by
  rintro rfl
  simp at positive

/--
What one step takes from outside the emulator.

These are the host's clocks, the stack contents C leaves in an unassigned local, and the bound on queue work.
-/
structure Host where
  /-- The value `cpu_get_clock` returns. -/
  clock : BitVec 64 := 0
  /-- The value `cpu_get_host_ticks` returns. -/
  ticks : BitVec 64 := 0
  /-- The value `get_clock_realtime` returns. -/
  realtime : BitVec 64 := 0
  /-- The initial content of the local `rd_val` of `execute`. -/
  rdVal : BitVec 64 := 0
  /-- How much nested or repeated queue work one store may do. -/
  fuel : Nat := 0

/-- The 128-bit product of two factors divided by a third number. -/
def muldiv64 (a : BitVec 64) (b c : BitVec 32) : BitVec 64 :=
  -- The product is taken before the division, so nothing is lost to either.
  (a.setWidth 128 * b.setWidth 128 / c.setWidth 128).setWidth 64

/-- The real-time counter: the emulator's clock in units of a tenth of a microsecond. -/
def cpuReadRtc (host : Host) : BitVec 64 :=
  muldiv64 host.clock 10000000 1000000000

/-- The macro `BITS`: the bits from `low` up to `high`, as a 64-bit number. -/
def bits {w : Nat} (src : BitVec w) (high low : Nat) : BitVec 64 :=
  (src.extractLsb high low).setWidth 64

/-- The macro `BIT`: one bit, as a 64-bit number. -/
def bit {w : Nat} (src : BitVec w) (index : Nat) : BitVec 64 :=
  bits src index index

/-- The macro `EXPAND_BIT`: a run of ones as long as asked if the bit is set, and zero if not. -/
def expandBit {w : Nat} (src : BitVec w) (index num : Nat) : BitVec 64 :=
  -- A field that is not set contributes nothing to a sign extension.
  if src.getLsbD index then ((1#64 <<< num) - 1#64) else 0

/-- The macro `TO_WORD`: the low word, sign-extended by hand. -/
def toWord (n : BitVec 64) : BitVec 64 :=
  -- The upper word is filled with copies of the sign bit.
  (expandBit n 31 32 <<< 32) ||| bits n 31 0

/-- The macro `_BITS_MASK`: ones from `low` up to `high`. -/
def bitsMask (high low : Nat) : BitVec 64 :=
  ((1#64 <<< (high - low + 1)) - 1#64) <<< low

/-- The macro `SET_BITS`: a number with the bits from `low` up to `high` replaced. -/
def setBits (dest : BitVec 64) (high low : Nat) (value : BitVec 64) : BitVec 64 :=
  (dest &&& ~~~bitsMask high low) ||| (value <<< low)

/-- The macro `SET_BIT`: a number with one bit replaced. -/
def setBit (dest : BitVec 64) (index : Nat) (value : BitVec 64) : BitVec 64 :=
  (dest &&& ~~~(1#64 <<< index)) ||| (value <<< index)

/-- The macro `IN_SAME_PAGE`: the first and the last byte of an access lie in one page. -/
def inSamePage (addr : BitVec 64) (size : Nat) : Bool :=
  addr >>> 12 == (addr + BitVec.ofNat 64 size - 1) >>> 12

/-- Each bit of a cut-out field is the source's bit that many places up. -/
theorem getLsbD_bits {w : Nat} (src : BitVec w) (high low i : Nat) :
    (bits src high low).getLsbD i =
      (decide (i < 64) && decide (i ≤ high - low) && src.getLsbD (low + i)) := by
  simp only [bits, BitVec.getLsbD_setWidth, BitVec.getLsbD_extractLsb, Bool.and_assoc,
    Nat.lt_succ_iff]

/-- A single cut-out bit has nothing above its lowest place. -/
theorem getLsbD_bit {w : Nat} (src : BitVec w) (index i : Nat) :
    (bit src index).getLsbD i = (decide (i = 0) && src.getLsbD index) := by
  rw [bit, getLsbD_bits]
  by_cases lowest : i = 0 <;> simp [lowest]

/-- A single bit as a number is zero or one. -/
theorem bit_eq {w : Nat} (src : BitVec w) (index : Nat) :
    bit src index = if src.getLsbD index then 1 else 0 := by
  apply BitVec.eq_of_getLsbD_eq
  intro i below
  -- Only the lowest place can hold anything, and there it holds the bit itself.
  rw [getLsbD_bit]
  cases src.getLsbD index with
  | false => simp
  | true => simp [BitVec.getLsbD_one, Bool.and_comm]

/-- An expanded bit is that bit in each place of the run. -/
theorem getLsbD_expandBit {w : Nat} (src : BitVec w) (index num i : Nat) :
    (expandBit src index num).getLsbD i =
      (decide (i < 64) && decide (i < num) && src.getLsbD index) := by
  unfold expandBit
  -- A bit that is set gives the mask of ones, and one that is clear gives zero.
  cases set : src.getLsbD index with
  | false => simp
  | true => simpa [set] using BitField.getLsbD_ones num i

/-- Setting a bit changes that place alone. -/
theorem getLsbD_setBit (dest : BitVec 64) (value : Bool) {index : Nat} (inside : index < 64)
    (i : Nat) :
    (setBit dest index (if value then 1 else 0)).getLsbD i =
      if i = index then value else dest.getLsbD i := by
  rcases Nat.lt_trichotomy i index with under | rfl | past
  · -- Below its place the shifted value has only zeros.
    rw [if_neg (Nat.ne_of_lt under)]
    cases value <;> simp [setBit, under, show i < 64 by omega]
  · cases value <;> simp [setBit, inside]
  · rw [if_neg (Nat.ne_of_gt past)]
    by_cases below : i < 64
    · have above : i - index ≠ 0 := by omega
      cases value <;> simp [setBit, above, below, show ¬ i < index by omega]
    · simp [BitVec.getLsbD_of_ge _ i (Nat.le_of_not_lt below)]

/-- Setting a field changes its places alone. -/
theorem getLsbD_setBits (dest : BitVec 64) {w : Nat} (value : BitVec w) (low : Nat)
    (some : 0 < w) (inside : low + w ≤ 64) (i : Nat) :
    (setBits dest (low + w - 1) low (value.setWidth 64)).getLsbD i =
      if low ≤ i ∧ i < low + w then value.getLsbD (i - low) else dest.getLsbD i := by
  -- A bit is in the field, below it, above it, or behind the word.
  have width : low + w - 1 - low + 1 = w := by omega
  simp only [setBits, bitsMask, width, BitVec.getLsbD_or, BitVec.getLsbD_and, BitVec.getLsbD_not,
    BitVec.getLsbD_shiftLeft, BitField.getLsbD_ones, BitVec.getLsbD_setWidth]
  by_cases below : i < 64
  · by_cases above : low ≤ i
    · by_cases under : i < low + w
      · simp [below, above, under, show i - low < w by omega, show ¬ i < low by omega,
          show i - low < 64 by omega]
      · simp [below, under, show ¬ i - low < w by omega, show w ≤ i - low by omega]
    · simp [below, above, show i < low by omega]
  · rw [if_neg (by omega)]
    simp [below, BitVec.getLsbD_of_ge _ i (Nat.le_of_not_lt below)]

end Xemu
