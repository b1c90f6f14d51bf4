import Xemu.Boot.Bios
import Xemu.Lib.Copying
import Xemu.Lib.Triples

/-! The program that the hart starts with moves two images into memory and jumps to one of them. -/

namespace Xemu.Bios

open Triples

variable {place : Nat → BitVec 64} {layout : Isa.Layout} {s : Isa.State}
  {source target : BitVec 64} {count : Nat}

/-! ### Lines -/

/-- What is reached from the effect of the line at the counter is reached. -/
theorem reaches_line {index : Nat} {line : BiosLine} {post : Isa.State → Prop}
    (here : s.pc = place index) (listed : start[index]? = some line) (can : line.Can layout s)
    (rest : Reaches (Step place layout) (line.effect place index s) post) :
    Reaches (Step place layout) s post :=
  .head ⟨index, line, listed, here, can, rfl⟩ rest

/-- Eight bytes below the end of a stretch of words is the end of a shorter one. -/
theorem back_word (base : BitVec 64) (left : Nat) :
    base + BitVec.ofNat 64 (8 * (left + 1)) + (-8) = base + BitVec.ofNat 64 (8 * left) := by
  have split : BitVec.ofNat 64 (8 * (left + 1)) = BitVec.ofNat 64 (8 * left) + 8#64 := by
    rw [Nat.mul_succ, BitVec.ofNat_add]
  rw [split, ← BitVec.sub_eq_add_neg, ← BitVec.add_assoc]
  exact BitVec.add_sub_cancel ..

/-! ### Copying -/

/-- A stretch of whole words can be copied in the memory. -/
structure Movable (layout : Isa.Layout) (source target : BitVec 64) (count : Nat) : Prop where
  some : 0 < count
  readable : ∀ index < count, layout.readable (source + BitVec.ofNat 64 index)
  writable : ∀ index < count, layout.writable (target + BitVec.ofNat 64 index)
  sourceAligned : source.toNat % 8 = 0
  targetAligned : target.toNat % 8 = 0
  /-- What is read was not written before. -/
  apart : ∀ index < count, count ≤ (source + BitVec.ofNat 64 index - target).toNat
  /-- The end of the loop is decided by a comparison of signed numbers. -/
  upper : target.toNat + count ≤ 2 ^ 63

/-- A word of a stretch is aligned as its start is, and lies in the stretch. -/
theorem aligned_word {region : BitVec 64 → Prop} {base : BitVec 64} {left : Nat}
    (whole : ∀ index < count, region (base + BitVec.ofNat 64 index)) (aligned : base.toNat % 8 = 0)
    (within : 8 * (left + 1) ≤ count) :
    Isa.Aligned region (base + BitVec.ofNat 64 (8 * left)) 8 := by
  constructor
  · rw [BitVec.toNat_add, BitVec.toNat_ofNat]
    omega
  · intro index below
    rw [BitVec.add_assoc, ← BitVec.ofNat_add]
    exact whole _ (by omega)

/-- A word that is still to be copied is read as it was before the copy. -/
theorem source_word {mem : BitVec 64 → BitVec 8} {left : Nat}
    (movable : Movable layout source target count) (within : 8 * (left + 1) ≤ count) :
    LittleEndian.load 64 (Bytes.copied mem source target (8 * (left + 1)) count)
        (source + BitVec.ofNat 64 (8 * left)) 8 =
      LittleEndian.load 64 mem (source + BitVec.ofNat 64 (8 * left)) 8 := by
  refine LittleEndian.load_congr fun index below => ?_
  rw [BitVec.add_assoc, ← BitVec.ofNat_add]
  exact Bytes.copied_outside (movable.apart _ (by omega))

/-- The registers that the subroutine uses for itself. -/
def scratch (r : BitVec 5) : Prop := r = t0 ∨ r = t1 ∨ r = t2 ∨ r = t3

instance : DecidablePred scratch := fun _ => inferInstanceAs (Decidable (_ ∨ _))

/-- The other registers and the number of the hart are those of the caller. -/
structure Kept (entry s : Isa.State) : Prop where
  reg : ∀ r, ¬ scratch r → s.reg r = entry.reg r
  hartId : s.hartId = entry.hartId

/-- An assignment to one of its own registers keeps those of the caller. -/
theorem Kept.assign {entry : Isa.State} (kept : Kept entry s) {rd : BitVec 5} (own : scratch rd)
    {value : BitVec 64} : Kept entry (s.assign rd value) where
  reg r other := by
    have apart : r ≠ rd := fun same => other (same ▸ own)
    rw [Isa.State.assign_other _ _ _ apart]
    exact kept.reg r other
  hartId := kept.hartId

/-- Going on elsewhere keeps them. -/
theorem Kept.goto {entry : Isa.State} (kept : Kept entry s) {pc : BitVec 64} :
    Kept entry (s.goto pc) := ⟨kept.reg, kept.hartId⟩

/-- A store keeps them. -/
theorem Kept.store {entry : Isa.State} (kept : Kept entry s) {addr value : BitVec 64} {size : Nat} :
    Kept entry (s.store addr size value) := ⟨kept.reg, kept.hartId⟩

/--
At one of the lines of the subroutine, in the course of a copy.

The ends stand behind as many words as given first, and the words behind those given second are
copied.
-/
structure Moving (place : Nat → BitVec 64) (entry : Isa.State) (source target : BitVec 64)
    (count index ends left : Nat) (s : Isa.State) : Prop where
  kept : Kept entry s
  pc : s.pc = place index
  first : s.reg t0 = target
  targetEnd : s.reg t1 = target + BitVec.ofNat 64 (8 * ends)
  sourceEnd : s.reg t3 = source + BitVec.ofNat 64 (8 * ends)
  mem : s.mem = Bytes.copied entry.mem source target (8 * left) count

section Turn

variable {entry : Isa.State} {left : Nat}

/-- The ends move down by a word. -/
theorem ends_back : Triple (Step place layout)
    (Moving place entry source target count loop (left + 1) (left + 1))
    (Moving place entry source target count (loop + 2) left (left + 1)) := by
  -- Two lines are run, and each takes a word off one of the ends.
  intro s moving
  refine reaches_line moving.pc rfl trivial (reaches_line rfl rfl trivial (.here ?_))
  dsimp only [BiosLine.effect]
  constructor
  case kept =>
    refine .goto (.assign (.goto (.assign moving.kept ?_)) ?_) <;> decide
  case pc => rfl
  case mem => exact moving.mem
  all_goals
    simp (disch := decide) only [Isa.State.assign_same, Isa.State.assign_other, Isa.State.goto_reg,
      moving.first, moving.targetEnd, moving.sourceEnd, back_word]

/-- The word at the ends is copied. -/
theorem word_moved (movable : Movable layout source target count)
    (within : 8 * (left + 1) ≤ count) : Triple (Step place layout)
    (Moving place entry source target count (loop + 2) left (left + 1))
    (Moving place entry source target count (loop + 4) left left) := by
  intro s moving
  have upper := movable.upper
  have read : Isa.Aligned layout.readable (s.reg t3 + 0) 8 := by
    rw [moving.sourceEnd, add_zero]
    exact aligned_word movable.readable movable.sourceAligned within
  have written : Isa.Aligned layout.writable (s.reg t1 + 0) 8 := by
    rw [moving.targetEnd, add_zero]
    exact aligned_word movable.writable movable.targetAligned within
  refine reaches_line moving.pc rfl read (reaches_line rfl rfl ?_ (.here ?_))
  · dsimp only [BiosLine.Can, BiosLine.effect]
    simp (disch := decide) only [Isa.State.assign_other, Isa.State.goto_reg]
    exact written
  dsimp only [BiosLine.effect]
  constructor
  case kept =>
    refine .goto (.store (.goto (.assign moving.kept ?_)))
    decide
  case pc => rfl
  case mem =>
    simp (disch := decide) only [Isa.State.assign_same, Isa.State.assign_other, Isa.State.goto_reg,
      Isa.State.goto_mem, Isa.State.store_mem, Isa.State.assign_mem, moving.targetEnd,
      moving.sourceEnd, moving.mem, add_zero]
    -- The words above this one are copied, and this one was not written before it was read.
    rw [source_word movable within]
    exact Bytes.store_copied within (by omega) (by decide)
  all_goals
    simp (disch := decide) only [Isa.State.assign_other, Isa.State.goto_reg, Isa.State.store_reg,
      moving.first, moving.targetEnd, moving.sourceEnd]

/-- The loop goes on while a word is left. -/
theorem loop_tested (movable : Movable layout source target count) (within : 8 * left < count) :
    Triple (Step place layout) (Moving place entry source target count (loop + 4) left left)
      (Moving place entry source target count (if left = 0 then loop + 5 else loop) left left) := by
  intro s moving
  have upper := movable.upper
  -- Neither end has its sign bit set, so the comparison is that of the numbers of words.
  have more : (s.reg t0).slt (s.reg t1) ↔ left ≠ 0 := by
    have small : (target + BitVec.ofNat 64 (8 * left)).toNat = target.toNat + 8 * left := by
      rw [BitVec.toNat_add, BitVec.toNat_ofNat]
      omega
    rw [moving.first, moving.targetEnd, BitVec.slt_iff_toInt_lt, BitVec.toInt_eq_toNat_cond,
      BitVec.toInt_eq_toNat_cond, small, if_pos (by omega), if_pos (by omega)]
    omega
  refine reaches_line moving.pc rfl trivial (.here ?_)
  dsimp only [BiosLine.effect]
  refine { moving with kept := moving.kept.goto, pc := ?_ }
  by_cases done : left = 0
  · rw [if_pos done, if_neg fun less => more.mp less done]
    rfl
  · rw [if_neg done, if_pos (more.mpr done)]
    rfl

/-- From the label `_loop` on everything that is left is copied. -/
theorem loop_copies (movable : Movable layout source target count) : Triple (Step place layout)
    (fun s => ∃ left, 0 < left ∧ 8 * left ≤ count ∧
      Moving place entry source target count loop left left s)
    (Moving place entry source target count (loop + 5) 0 0) := by
  have upper := movable.upper
  -- The distance between the two ends of the target goes down by a word in every turn.
  refine Triple.loop (fun s => (s.reg t1 - s.reg t0).toNat) fun bound => ?_
  rintro s ⟨⟨left, some, within, moving⟩, measured⟩
  obtain ⟨left, rfl⟩ : ∃ fewer, left = fewer + 1 := ⟨left - 1, by omega⟩
  have distance : ∀ {words index : Nat} {t : Isa.State}, 8 * words ≤ count →
      Moving place entry source target count index words words t →
      (t.reg t1 - t.reg t0).toNat = 8 * words := by
    intro words index t below moving
    rw [moving.first, moving.targetEnd, add_sub_cancel_left, BitVec.toNat_ofNat]
    omega
  refine ((ends_back.seq (word_moved movable within)).seq (loop_tested movable (by omega)) s
    moving).mono fun t ended => ?_
  by_cases done : left = 0
  · subst done
    exact .inl ended
  · rw [if_neg done] at ended
    refine .inr ⟨⟨left, by omega, by omega, ended⟩, ?_⟩
    have before := distance within moving
    have after := distance (by omega) ended
    omega

end Turn

/-! ### The subroutine -/

/-- The size that the subroutine is given, rounded up to whole words. -/
def rounded (size : BitVec 64) : BitVec 64 := (size + 7) &&& ~~~7

/-- The mask clears the three lowest bits. -/
theorem and_wordMask (x : BitVec 64) : x &&& 0xFFFFFFFFFFFFFFF8#64 = (x >>> 3) <<< 3 := by
  have mask : ∀ i : Fin 64, (0xFFFFFFFFFFFFFFF8#64).getLsbD i = decide (3 ≤ i.val) := by decide
  apply BitVec.eq_of_getLsbD_eq
  intro i below
  have bit := mask ⟨i, below⟩
  simp only at bit
  rw [BitVec.getLsbD_and, bit]
  by_cases low : 3 ≤ i
  · simp [low, below, show 3 + (i - 3) = i by omega]
  · simp [low, show i < 3 by omega]

/-- So the size is rounded up, unless it is one of the last below the width of a register. -/
theorem toNat_rounded {size : BitVec 64} (small : size.toNat + 7 < 2 ^ 64) :
    (rounded size).toNat = (size.toNat + 7) / 8 * 8 := by
  have sum : (size + 7).toNat = size.toNat + 7 := by
    rw [BitVec.toNat_add]
    exact Nat.mod_eq_of_lt small
  have mask : (~~~7 : BitVec 64) = 0xFFFFFFFFFFFFFFF8#64 := by decide
  rw [rounded, mask, and_wordMask, BitVec.toNat_shiftLeft, BitVec.toNat_ushiftRight, sum,
    Nat.shiftRight_eq_div_pow, Nat.shiftLeft_eq]
  omega

/-- It is a whole number of words in any case. -/
theorem rounded_words (size : BitVec 64) : (rounded size).toNat % 8 = 0 := by
  have mask : (~~~7 : BitVec 64) = 0xFFFFFFFFFFFFFFF8#64 := by decide
  rw [rounded, mask, and_wordMask, BitVec.toNat_shiftLeft, Nat.shiftLeft_eq]
  omega

/-- The subroutine enters its loop with the ends of both stretches. -/
theorem relocate_starts (here : s.pc = place relocate) :
    Reaches (Step place layout) s (Moving place s (s.reg t5) (s.reg t6) (rounded (s.reg t4)).toNat
      loop ((rounded (s.reg t4)).toNat / 8) ((rounded (s.reg t4)).toNat / 8)) := by
  -- The rounded size is one of whole words, all of which are still to be moved.
  have whole : 8 * ((rounded (s.reg t4)).toNat / 8) = (rounded (s.reg t4)).toNat :=
    Nat.mul_div_cancel' (Nat.dvd_of_mod_eq_zero (rounded_words _))
  refine reaches_line here rfl trivial (reaches_line rfl rfl trivial (reaches_line rfl rfl trivial
    (reaches_line rfl rfl trivial (reaches_line rfl rfl trivial (reaches_line rfl rfl trivial
      (reaches_line rfl rfl trivial (.here ?_)))))))
  dsimp only [BiosLine.effect]
  constructor
  case kept =>
    refine .goto (.assign (.goto (.assign (.goto (.assign (.goto (.assign (.goto (.assign
      (.goto (.assign (.goto (.assign ⟨fun _ _ => rfl, rfl⟩ ?_)) ?_)) ?_)) ?_)) ?_)) ?_)) ?_) <;>
        decide
  case pc => rfl
  case mem => rw [whole, Bytes.copied_none]; rfl
  case first =>
    simp (disch := decide) only [Isa.State.assign_same, Isa.State.assign_other, Isa.State.goto_reg]
  all_goals
    rw [whole, BitVec.ofNat_toNat, BitVec.setWidth_eq]
    simp (disch := decide) only [Isa.State.assign_same, Isa.State.assign_other, Isa.State.goto_reg,
      rounded]

/-- The subroutine returns with the stretch copied. -/
theorem relocate_copies (movable : Movable layout (s.reg t5) (s.reg t6) (rounded (s.reg t4)).toNat)
    (here : s.pc = place relocate) (even : (s.reg 1).toNat % 2 = 0) :
    Reaches (Step place layout) s fun t => Kept s t ∧ t.pc = s.reg 1 ∧
      t.mem = Bytes.copied s.mem (s.reg t5) (s.reg t6) 0 (rounded (s.reg t4)).toNat := by
  refine (relocate_starts here).bind fun t moving => ?_
  have some := movable.some
  have words := rounded_words (s.reg t4)
  refine Reaches.bind (loop_copies movable t ⟨_, by omega, by omega, moving⟩) fun u moved => ?_
  -- The address behind the call is still where the call left it.
  have link : u.reg 1 = s.reg 1 := moved.kept.reg 1 (by decide)
  have returns : (u.reg 1).toNat % 2 = 0 := by rwa [link]
  exact reaches_line moved.pc rfl returns (.here ⟨moved.kept.goto, link, moved.mem⟩)

/-! ### The program -/

/-- The number of bytes that the program moves for the payload, whose header has its size. -/
def payloadCount (mem : BitVec 64 → BitVec 8) : Nat :=
  (rounded (LittleEndian.load 64 mem (payloadLoadAddr + 16) 8)).toNat

/-- The number of bytes that it moves for the firmware, whose size was recorded below it. -/
def sbiCount (mem : BitVec 64 → BitVec 8) : Nat :=
  (rounded (LittleEndian.load 64 mem (sbiLoadAddr + (-8)) 8)).toNat

/-- Both images can be moved, and the second is not where the first is moved to. -/
structure Startable (layout : Isa.Layout) (mem : BitVec 64 → BitVec 8) : Prop where
  payloadSize : Isa.Aligned layout.readable (payloadLoadAddr + 16) 8
  payload : Movable layout payloadLoadAddr payloadLinkAddr (payloadCount mem)
  sbiSize : Isa.Aligned layout.readable (sbiLoadAddr + (-8)) 8
  sbi : Movable layout sbiLoadAddr sbiLinkAddr (sbiCount mem)
  apart : ∀ index < sbiCount mem + 8,
    payloadCount mem ≤ (sbiLoadAddr + (-8) + BitVec.ofNat 64 index - payloadLinkAddr).toNat

/-- The memory with the first image moved. -/
def payloadMoved (mem : BitVec 64 → BitVec 8) : BitVec 64 → BitVec 8 :=
  Bytes.copied mem payloadLoadAddr payloadLinkAddr 0 (payloadCount mem)

/-- The memory with both images moved. -/
def bothMoved (mem : BitVec 64 → BitVec 8) : BitVec 64 → BitVec 8 :=
  Bytes.copied (payloadMoved mem) sbiLoadAddr sbiLinkAddr 0 (sbiCount mem)

/-- Up to the second call the size of the second image is still the recorded one. -/
theorem sbiCount_moved {mem : BitVec 64 → BitVec 8} (startable : Startable layout mem) :
    LittleEndian.load 64 (payloadMoved mem) (sbiLoadAddr + (-8)) 8 =
      LittleEndian.load 64 mem (sbiLoadAddr + (-8)) 8 :=
  LittleEndian.load_congr fun index _ =>
    Bytes.copied_outside (startable.apart index (by omega))

/-- At the subroutine, called from the line before one, with the arguments for the firmware set. -/
structure Called (place : Nat → BitVec 64) (entry : Isa.State) (mem : BitVec 64 → BitVec 8)
    (back : Nat) (size source target : BitVec 64) (s : Isa.State) : Prop where
  pc : s.pc = place relocate
  link : s.reg 1 = place back
  size : s.reg t4 = size
  source : s.reg t5 = source
  target : s.reg t6 = target
  hart : s.reg a0 = entry.hartId
  tree : s.reg a1 = dtbLoadAddr
  hartId : s.hartId = entry.hartId
  mem : s.mem = mem

/-- The lines up to the first call. -/
theorem first_call (startable : Startable layout s.mem) (here : s.pc = place 0) :
    Reaches (Step place layout) s (Called place s s.mem 6
      (LittleEndian.load 64 s.mem (payloadLoadAddr + 16) 8) payloadLoadAddr payloadLinkAddr) := by
  -- Six lines are run, of which only the load of the size asks for something.
  refine reaches_line here rfl trivial (reaches_line rfl rfl trivial (reaches_line rfl rfl trivial
    (reaches_line rfl rfl trivial (reaches_line rfl rfl ?_ (reaches_line rfl rfl trivial
      (.here ?_))))))
  · dsimp only [BiosLine.Can, BiosLine.effect]
    simp (disch := decide) only [Isa.State.assign_same, Isa.State.goto_reg]
    exact startable.payloadSize
  · dsimp only [BiosLine.effect]
    constructor
    case pc | hartId | mem => rfl
    all_goals
      simp (disch := decide) only [Isa.State.assign_same, Isa.State.assign_other,
        Isa.State.goto_reg, Isa.State.goto_mem, Isa.State.assign_mem]

/-- The lines between the calls. -/
theorem second_call {entry : Isa.State} (startable : Startable layout entry.mem)
    (here : s.pc = place 6) (hart : s.reg a0 = entry.hartId) (tree : s.reg a1 = dtbLoadAddr)
    (hartId : s.hartId = entry.hartId) (mem : s.mem = payloadMoved entry.mem) :
    Reaches (Step place layout) s (Called place entry (payloadMoved entry.mem) 10
      (LittleEndian.load 64 entry.mem (sbiLoadAddr + (-8)) 8) sbiLoadAddr sbiLinkAddr) := by
  -- Four lines are run, of which only the load of the size asks for something.
  refine reaches_line here rfl trivial (reaches_line rfl rfl trivial (reaches_line rfl rfl ?_
    (reaches_line rfl rfl trivial (.here ?_))))
  · dsimp only [BiosLine.Can, BiosLine.effect]
    simp (disch := decide) only [Isa.State.assign_same, Isa.State.goto_reg]
    exact startable.sbiSize
  · dsimp only [BiosLine.effect]
    constructor
    case pc => rfl
    case hartId => exact hartId
    case mem => exact mem
    all_goals
      simp (disch := decide) only [Isa.State.assign_same, Isa.State.assign_other,
        Isa.State.goto_reg, Isa.State.goto_mem, Isa.State.assign_mem, hart, tree, mem,
        sbiCount_moved startable]

/-- A call comes back with the stretch copied and what the firmware is given. -/
theorem Called.returns {entry : Isa.State} {mem : BitVec 64 → BitVec 8} {back : Nat}
    {size : BitVec 64} (called : Called place entry mem back size source target s)
    (movable : Movable layout source target (rounded size).toNat)
    (even : (place back).toNat % 2 = 0) :
    Reaches (Step place layout) s fun t => t.pc = place back ∧ t.reg t6 = target ∧
      t.reg a0 = entry.hartId ∧ t.reg a1 = dtbLoadAddr ∧ t.hartId = entry.hartId ∧
      t.mem = Bytes.copied mem source target 0 (rounded size).toNat := by
  obtain ⟨pc, link, rfl, rfl, rfl, hart, tree, hartId, rfl⟩ := called
  refine (relocate_copies movable pc (by rwa [link])).mono fun t returned => ?_
  obtain ⟨kept, back, copied⟩ := returned
  exact ⟨back.trans link, kept.reg t6 (by decide), (kept.reg a0 (by decide)).trans hart,
    (kept.reg a1 (by decide)).trans tree, kept.hartId.trans hartId, copied⟩

/-- The program moves both images and jumps to the second, with its two arguments. -/
theorem start_runs (startable : Startable layout s.mem) (here : s.pc = place 0)
    (first : (place 6).toNat % 2 = 0) (second : (place 10).toNat % 2 = 0) :
    Reaches (Step place layout) s fun t => t.pc = sbiLinkAddr ∧ t.reg a0 = s.hartId ∧
      t.reg a1 = dtbLoadAddr ∧ t.mem = bothMoved s.mem := by
  refine (first_call startable here).bind fun t called => ?_
  refine Reaches.bind (called.returns startable.payload first) fun u returned => ?_
  obtain ⟨pc, -, hart, tree, hartId, mem⟩ := returned
  refine Reaches.bind (second_call startable pc hart tree hartId mem) fun v called => ?_
  refine Reaches.bind (called.returns startable.sbi second) fun w returned => ?_
  obtain ⟨pc, target, hart, tree, -, mem⟩ := returned
  -- The last line jumps to where the second image was moved to.
  have even : (w.reg t6).toNat % 2 = 0 := by
    rw [target]
    rfl
  exact reaches_line pc rfl even (.here ⟨target, hart, tree, mem⟩)

end Xemu.Bios
