import Xemu.Boot.Bios
import Xemu.Lib.Triples
import Xemu.Proofs.InstructionSet

/-! What an assembler makes of the startup program does what its lines say. -/

namespace Bytes

variable {a w : Nat}

/-- A word is determined by all of its bytes. -/
theorem ofWord_injective {data other : BitVec w} {count : Nat} (whole : 8 * count = w)
    (same : ofWord data count = ofWord other count) : data = other := by
  subst whole
  have bytes : ∀ index < count, (data >>> (8 * index)).setWidth 8 =
      (other >>> (8 * index)).setWidth 8 := by
    intro index below
    exact List.map_inj_left.mp same index (List.mem_range.mpr below)
  have numbers := LittleEndian.bytes_eq_iff.mp bytes
  rwa [BitVec.setWidth_eq, BitVec.setWidth_eq] at numbers

end Bytes

namespace Xemu

open Triples

/-! ### Instructions -/

/-- A memory holds some bytes from an address on. -/
def Holds (mem : BitVec 64 → BitVec 8) (addr : BitVec 64) (bytes : List (BitVec 8)) : Prop :=
  Bytes.get mem addr bytes.length = bytes

/-- It holds one list and behind it another one. -/
theorem Holds.append {mem : BitVec 64 → BitVec 8} {addr : BitVec 64} {first second : List (BitVec 8)}
    (holds : Holds mem addr (first ++ second)) :
    Holds mem addr first ∧ Holds mem (addr + BitVec.ofNat 64 first.length) second := by
  rw [Holds, List.length_append, Bytes.get_add] at holds
  exact List.append_inj holds (Bytes.length_get ..)

namespace Instruction

variable {op : Op} {o : Operands} {bytes : List (BitVec 8)} {mem : BitVec 64 → BitVec 8}
  {addr : BitVec 64}

/-- An instruction has two bytes or four. -/
theorem Emits.length_cases {instruction : Instruction} (emits : instruction.Emits bytes) :
    bytes.length = 2 ∨ bytes.length = 4 := by
  cases emits with
  | full _ _ => exact .inr (Bytes.length_ofWord ..)
  | half _ => exact .inl (Bytes.length_ofWord ..)

/-- The low half of a word in memory is the halfword there. -/
theorem load_half (mem : BitVec 64 → BitVec 8) (addr : BitVec 64) :
    (LittleEndian.load 32 mem addr 4).setWidth 16 = LittleEndian.load 16 mem addr 2 := by
  rw [LittleEndian.load_join 2 2, BitVec.setWidth_eq]
  exact BitVec.setWidth_append_eq_right

/-- Where memory holds the bytes the instruction is found. -/
theorem Emits.encodes (emits : Emits ⟨op, o⟩ bytes) (holds : Holds mem addr bytes) :
    Isa.Encodes (LittleEndian.load 32 mem addr 4) op o (BitVec.ofNat 64 bytes.length) := by
  cases emits with
  | full standard fits =>
    rw [Holds, Bytes.length_ofWord, ← Bytes.ofWord_load (show 8 * 4 ≤ 32 by decide)] at holds
    rw [Bytes.length_ofWord]
    exact .full standard fits (Bytes.ofWord_injective rfl holds)
  | half expanded =>
    rw [Holds, Bytes.length_ofWord, ← Bytes.ofWord_load (show 8 * 2 ≤ 16 by decide)] at holds
    rw [Bytes.length_ofWord]
    have same := @Bytes.ofWord_injective 16 _ _ 2 rfl holds
    exact .half (by rwa [load_half, same])

/-- The standard encoding of an operation has both of its low bits set. -/
theorem encode_full {format : Format} (standard : op.format = some format)
    (fits : format.Fits o.imm) : (format.encode o).toNat % 4 = 3 := by
  by_contra short
  -- Otherwise it would be decoded as an instruction of two bytes.
  obtain ⟨d, decoded, -⟩ := Op.decodes standard o fits 0
  rw [decode, if_neg fun full => short (full_iff.mp full)] at decoded
  obtain ⟨half, -, same⟩ := bind_eq_ok.mp decoded
  cases same

/-- No instruction but an addition to register zero is taken for the breakpoint. -/
theorem Emits.not_addsToZero (emits : Emits ⟨op, o⟩ bytes) (holds : Holds mem addr bytes)
    (named : op ≠ .add ∨ o.rd ≠ 0) : ¬ Dec16.AddsToZero (LittleEndian.load 16 mem addr 2) := by
  rintro ⟨quadrant, four, set, zero, other⟩
  cases emits with
  -- A full word has both low bits set, and the addition has only one of them.
  | @full _ _ format standard fits =>
    rw [Holds, Bytes.length_ofWord, ← Bytes.ofWord_load (show 8 * 4 ≤ 32 by decide)] at holds
    have full := encode_full standard fits
    rw [← @Bytes.ofWord_injective 32 _ _ 4 rfl holds] at full
    have two := congrArg BitVec.toNat quadrant
    rw [← load_half, BitVec.extractLsb_toNat, BitVec.toNat_setWidth, Nat.shiftRight_zero] at two
    change _ % 65536 % 4 = 2 at two
    omega
  | @half _ _ inst expanded =>
    rw [Holds, Bytes.length_ofWord, ← Bytes.ofWord_load (show 8 * 2 ≤ 16 by decide)] at holds
    rw [@Bytes.ofWord_injective 16 _ _ 2 rfl holds] at quadrant four set zero other
    rw [Compressed.expand, quadrant] at expanded
    change Compressed.quadrant2 inst = _ at expanded
    rw [Compressed.quadrant2, four] at expanded
    change Compressed.moveOrJump inst = _ at expanded
    rw [Compressed.moveOrJump, if_pos set] at expanded
    change (if Dec16.fullReg2 inst ≠ 0 then _ else _) = _ at expanded
    rw [if_pos other] at expanded
    cases expanded
    exact named.elim (fun other => other rfl) fun some => some zero

/-! ### Steps -/

/-- The operations of the program that the emulator computes rightly whatever their operands are. -/
def plain : Op → Bool
  | .lui | .auipc | .jal | .blt | .ld | .sd | .addi | .andi | .slli | .add | .addiw | .csrrs => true
  | _ => false

/-- An instruction in memory is a step of the emulator, with the effect it has in the instruction set. -/
theorem Emits.step {layout : Isa.Layout} {s t : Isa.State} (emits : Emits ⟨op, o⟩ bytes)
    (holds : Holds s.mem s.pc bytes) (even : s.pc.toNat % 2 = 0)
    (code : ∀ index < 4, layout.code (s.pc + BitVec.ofNat 64 index))
    (kind : plain op ∨ op = .jalr ∧ (s.reg o.rs1 + o.imm).getLsbD 0 = false)
    (named : op ≠ .add ∨ o.rd ≠ 0)
    (executes : Isa.Executes layout s op o (BitVec.ofNat 64 bytes.length) t) :
    Isa.EmulatedStep layout s t := by
  refine ⟨op, o, _, ⟨even, code, emits.encodes holds⟩, executes, ?_,
    emits.not_addsToZero holds named⟩
  rcases kind with simple | ⟨rfl, sum⟩
  · cases op <;>
      first | exact absurd simple (by decide) | exact ⟨by simp, by simp, trivial, trivial⟩
  · exact ⟨by simp, fun _ => sum, trivial, trivial⟩

end Instruction

/-! ### Lines -/

namespace Bios

variable {layout : Isa.Layout} {s t : Isa.State} {bytes head tail : List (BitVec 8)}
  {place : Nat → BitVec 64} {index : Nat}

/-- The counter stands in front of some bytes that can be executed, and two more. -/
structure Spot (layout : Isa.Layout) (s : Isa.State) (bytes : List (BitVec 8)) : Prop where
  even : s.pc.toNat % 2 = 0
  -- A fetch always reads four bytes.
  code : ∀ index < bytes.length + 2, layout.code (s.pc + BitVec.ofNat 64 index)
  holds : Holds s.mem s.pc bytes
  zero : s.reg 0 = 0

/-- Behind an instruction the counter stands in front of what follows it. -/
theorem Spot.next {instruction : Instruction} (spot : Spot layout s (head ++ tail))
    (first : instruction.Emits head) (pc : t.pc = s.pc + BitVec.ofNat 64 head.length)
    (mem : t.mem = s.mem) (zero : t.reg 0 = 0) : Spot layout t tail where
  even := by
    have even := spot.even
    rw [pc, BitVec.toNat_add, BitVec.toNat_ofNat]
    rcases first.length_cases with two | four <;> omega
  code index below := by
    rw [pc, BitVec.add_assoc, ← BitVec.ofNat_add]
    refine spot.code _ ?_
    rw [List.length_append]
    omega
  holds := by
    rw [pc, mem]
    exact spot.holds.append.2
  zero := zero

/-- The instruction in front of which the counter stands is a step. -/
theorem Spot.step {op : Op} {o : Operands} (spot : Spot layout s (head ++ tail))
    (first : Instruction.Emits ⟨op, o⟩ head)
    (kind : Instruction.plain op ∨ op = .jalr ∧ (s.reg o.rs1 + o.imm).getLsbD 0 = false)
    (named : op ≠ .add ∨ o.rd ≠ 0)
    (executes : Isa.Executes layout s op o (BitVec.ofNat 64 head.length) t) :
    Isa.EmulatedStep layout s t := by
  refine first.step spot.holds.append.1 spot.even (fun index below => spot.code index ?_) kind named
    executes
  rw [List.length_append]
  rcases first.length_cases with two | four <;> omega

/-- An instruction that works on registers alone, and goes on behind itself. -/
theorem Spot.computes {op : Op} {o : Operands} (spot : Spot layout s (head ++ tail))
    (first : Instruction.Emits ⟨op, o⟩ head) (simple : Instruction.plain op)
    (named : op ≠ .add ∨ o.rd ≠ 0) (known : Isa.onRegisters op) {value next : BitVec 64}
    (behind : next = s.pc + BitVec.ofNat 64 head.length)
    (result : Isa.result op s.pc next (s.reg o.rs1) (s.reg o.rs2) o.imm = some value)
    (target : Isa.target op s.pc next (s.reg o.rs1) (s.reg o.rs2) o.imm = next) :
    Isa.EmulatedStep layout s ((s.assign o.rd value).goto next) := by
  subst behind
  have computed : s.compute op o (BitVec.ofNat 64 head.length) =
      (s.assign o.rd value).goto (s.pc + BitVec.ofNat 64 head.length) := by
    simp only [Isa.State.compute, result, target]
  exact computed ▸ spot.step first (.inl simple) named (.compute known)

/-- The steps to a constant leave it in the register. -/
theorem constant_runs {rd : BitVec 5} (some : rd ≠ 0) (steps : List ConstantStep)
    (spot : Spot layout s bytes) (emitted : Emitted (steps.map (·.instruction rd)) bytes) :
    Reaches (Isa.EmulatedStep layout) s fun t =>
      t = (s.assign rd (steps.foldl ConstantStep.apply (s.reg rd))).goto
        (s.pc + BitVec.ofNat 64 bytes.length) := by
  induction steps generalizing s bytes with
  | nil =>
    cases emitted
    refine .here ?_
    rw [List.foldl_nil, Isa.State.assign_self, List.length_nil, BitVec.add_zero]
    rfl
  | cons step rest ih =>
    obtain _ | @⟨_, _, head, tail, first, others⟩ := emitted
    have taken : Isa.EmulatedStep layout s
        ((s.assign rd (step.apply (s.reg rd))).goto (s.pc + BitVec.ofNat 64 head.length)) := by
      -- Each kind of step is one instruction that writes the register and goes on.
      cases step with
      | lui imm => exact spot.computes first rfl (.inl (by decide)) rfl rfl rfl rfl
      | li imm =>
        refine spot.computes first rfl (.inl (by decide)) rfl rfl (congrArg Option.some ?_) rfl
        rw [Isa.add_eq, spot.zero, zero_add]
        rfl
      | addi imm =>
        exact spot.computes first rfl (.inl (by decide)) rfl rfl
          (congrArg Option.some (Isa.add_eq ..)) rfl
      | addiw imm =>
        refine spot.computes first rfl (.inl (by decide)) rfl rfl (congrArg Option.some ?_) rfl
        rw [Isa.add_eq]
        rfl
      | slli amount => exact spot.computes first rfl (.inl (by decide)) rfl rfl rfl rfl
    -- The rest of the bytes lies behind it, and register zero is zero as before.
    have behind : Spot layout ((s.assign rd (step.apply (s.reg rd))).goto
        (s.pc + BitVec.ofNat 64 head.length)) tail :=
      spot.next first rfl rfl ((Isa.State.assign_other _ _ _ (Ne.symm some)).trans spot.zero)
    refine .head taken ((ih behind others).mono fun t ended => ?_)
    rw [ended, Isa.State.assign_again, Isa.State.goto_reg, Isa.State.assign_same _ _ _ some,
      List.foldl_cons, Isa.State.goto_pc, BitVec.add_assoc, ← BitVec.ofNat_add, List.length_append]
    rfl

/-- The bytes for a single instruction are those of the instruction. -/
theorem single {instruction : Instruction} (emitted : Emitted [instruction] bytes) :
    instruction.Emits bytes := by
  obtain _ | ⟨first, ⟨⟩⟩ := emitted
  rwa [List.append_nil]

/-- The lowest bit of an even number is clear. -/
theorem lowest_even {x : BitVec 64} (even : x.toNat % 2 = 0) : x.getLsbD 0 = false := by
  rw [BitVec.getLsbD, Nat.testBit_zero]
  simp [even]

/-- A jump through a register lands on the sum, if that is even. -/
theorem jump_target {pc next x y imm : BitVec 64} (even : (x + imm).toNat % 2 = 0) :
    Isa.target .jalr pc next x y imm = x + imm := by
  rw [Isa.target, if_pos rfl, clear_lowest (lowest_even even)]

/-- One step with the effect of a line is all of it. -/
theorem reaches_one {u : Isa.State} (taken : Isa.EmulatedStep layout s t) (same : t = u) :
    Reaches (Isa.EmulatedStep layout) s fun last => last = u :=
  .head taken (.here same)

/-- The line calls a label, and has a destination where it would do something else without one. -/
def regular : BiosLine → Bool
  | .li rd _ | .mv rd _ | .add rd _ _ => rd ≠ 0
  | .call label => label ≤ start.length
  | _ => true

/-- The instructions for a line have the line's effect. -/
theorem line_runs {line : BiosLine} {code : List Instruction} (written : line.Code place index code)
    (emitted : Emitted code bytes) (spot : Spot layout s bytes) (here : s.pc = place index)
    (behind : place (index + 1) = place index + BitVec.ofNat 64 bytes.length)
    (names : regular line) (even : ∀ label ≤ start.length, (place label).toNat % 2 = 0)
    (can : line.Can layout s) :
    Reaches (Isa.EmulatedStep layout) s fun t => t = line.effect place index s := by
  rw [← here] at behind
  have whole : Spot layout s (bytes ++ []) := by rwa [List.append_nil]
  cases written with
  | csrr rd =>
    refine reaches_one (whole.step (single emitted) (.inl rfl) (.inl (by decide))
      (.hartId rfl rfl rfl)) ?_
    rw [BiosLine.effect, behind]
  | li steps builds =>
    refine (constant_runs (of_decide_eq_true names) steps spot emitted).mono fun t ended => ?_
    rw [ended, builds, BiosLine.effect, behind]
  | ld rd offset rs1 =>
    refine reaches_one (whole.step (single emitted) (.inl rfl) (.inl (by decide))
      (.load rfl can)) ?_
    rw [BiosLine.effect, behind, extend, if_pos rfl]
    exact congrArg (fun value => (s.assign rd value).goto _) (BitVec.signExtend_eq _)
  | sd rs2 offset rs1 =>
    refine reaches_one (whole.step (single emitted) (.inl rfl) (.inl (by decide))
      (.store rfl can)) ?_
    rw [BiosLine.effect, behind]
  | mv rd rs =>
    refine reaches_one (whole.computes (single emitted) rfl (.inl (by decide)) rfl behind rfl
      rfl) ?_
    rw [Isa.add_eq]
    exact congrArg (fun value => (s.assign rd value).goto _) (add_zero _)
  | shortMv rd rs =>
    refine reaches_one (whole.computes (single emitted) rfl (.inr (of_decide_eq_true names)) rfl
      behind rfl rfl) ?_
    rw [Isa.add_eq, spot.zero]
    exact congrArg (fun value => (s.assign rd value).goto _) (zero_add _)
  | addi rd rs imm =>
    refine reaches_one (whole.computes (single emitted) rfl (.inl (by decide)) rfl behind rfl
      rfl) ?_
    rw [Isa.add_eq]
    rfl
  | andi rd rs imm =>
    exact reaches_one (whole.computes (single emitted) rfl (.inl (by decide)) rfl behind rfl
      rfl) rfl
  | add rd rs1 rs2 =>
    refine reaches_one (whole.computes (single emitted) rfl (.inr (of_decide_eq_true names)) rfl
      behind rfl rfl) ?_
    rw [Isa.add_eq]
    rfl
  | shortAdd rd rs1 rs2 =>
    refine reaches_one (whole.computes (single emitted) rfl (.inr (of_decide_eq_true names)) rfl
      behind rfl rfl) ?_
    rw [Isa.add_eq]
    exact congrArg (fun value => (s.assign rd value).goto _) (add_comm _ _)
  | call offset lands =>
    refine reaches_one (whole.step (single emitted) (.inl rfl) (.inl (by decide)) (.compute rfl)) ?_
    rw [BiosLine.effect, behind, ← lands, ← here]
    rfl
  | @blt label rs1 rs2 offset lands =>
    refine reaches_one (whole.step (single emitted) (.inl rfl) (.inl (by decide)) (.compute rfl)) ?_
    rw [BiosLine.effect, behind, ← lands, ← here]
    have target : Isa.target .blt s.pc (s.pc + BitVec.ofNat 64 bytes.length) (s.reg rs1) (s.reg rs2)
        offset = if (s.reg rs1).slt (s.reg rs2) then s.pc + offset
          else s.pc + BitVec.ofNat 64 bytes.length := by
      simp [Isa.target, Isa.taken, BitVec.slt]
    exact congrArg s.goto target
  | jr rs =>
    have sum : (s.reg rs + 0).toNat % 2 = 0 := by rwa [add_zero]
    refine reaches_one (whole.step (single emitted) (.inr ⟨rfl, lowest_even sum⟩) (.inl (by decide))
      (.compute rfl)) ?_
    exact congrArg s.goto ((jump_target sum).trans (add_zero _))
  | ret =>
    have sum : (s.reg 1 + 0).toNat % 2 = 0 := by rwa [add_zero]
    refine reaches_one (whole.step (single emitted) (.inr ⟨rfl, lowest_even sum⟩) (.inl (by decide))
      (.compute rfl)) ?_
    exact congrArg s.goto ((jump_target sum).trans (add_zero _))
  | @farCall label upper lower lands =>
    -- The first instruction leaves the upper part of the address where the second takes it from.
    obtain _ | @⟨_, _, head, tail, first, others⟩ := emitted
    have taken : Isa.EmulatedStep layout s ((s.assign 1 (s.pc + upper)).goto
        (s.pc + BitVec.ofNat 64 head.length)) :=
      spot.computes first rfl (.inl (by decide)) rfl rfl (congrArg some (Isa.add_eq ..)) rfl
    have next : Spot layout ((s.assign 1 (s.pc + upper)).goto
        (s.pc + BitVec.ofNat 64 head.length)) (tail ++ []) := by
      rw [List.append_nil]
      refine spot.next first rfl rfl ?_
      exact (Isa.State.assign_other s (s.pc + upper) 1 (by decide)).trans spot.zero
    have base : ((s.assign 1 (s.pc + upper)).goto (s.pc + BitVec.ofNat 64 head.length)).reg 1 =
        s.pc + upper := Isa.State.assign_same s (s.pc + upper) 1 (by decide)
    have sum : (s.pc + upper + lower).toNat % 2 = 0 := by
      rw [here, lands]
      exact even label (of_decide_eq_true names)
    refine .head taken (reaches_one (next.step (single others)
      (.inr ⟨rfl, lowest_even (base ▸ sum)⟩) (.inl (by decide)) (.compute rfl)) ?_)
    rw [BiosLine.effect, behind, ← lands, ← here, List.length_append, BitVec.ofNat_add,
      ← BitVec.add_assoc]
    generalize middle : (s.assign 1 (s.pc + upper)).goto (s.pc + BitVec.ofNat 64 head.length) = t
      at base
    have computed : t.compute .jalr { rd := 1, rs1 := 1, imm := lower }
        (BitVec.ofNat 64 tail.length) = (t.assign 1 (t.pc + BitVec.ofNat 64 tail.length)).goto
          (Isa.target .jalr t.pc (t.pc + BitVec.ofNat 64 tail.length) (t.reg 1) (t.reg 0) lower) :=
      rfl
    rw [computed, base, jump_target sum, ← middle, Isa.State.assign_again]
    rfl

/-! ### The program -/

/-- The image stands at the start of the ROM, in bytes that can be executed and not written. -/
structure Loaded (layout : Isa.Layout) (image : List (BitVec 8)) (s : Isa.State) : Prop where
  code : ∀ index < 0x100, layout.code (romBase + BitVec.ofNat 64 index)
  fixed : ∀ index < 0x100, ¬ layout.writable (romBase + BitVec.ofNat 64 index)
  holds : Holds s.mem romBase image
  zero : s.reg 0 = 0

variable {image : List (BitVec 8)} {line : BiosLine} {code : List Instruction}

/-- The bytes of some instructions are an even number. -/
theorem emitted_even (emitted : Emitted code bytes) : bytes.length % 2 = 0 := by
  induction emitted with
  | nil => rfl
  | cons first _ ih =>
    rw [List.length_append]
    rcases first.length_cases with two | four <;> omega

/-- Every line has bytes. -/
theorem code_some (written : line.Code place index code) (emitted : Emitted code bytes) :
    bytes ≠ [] := by
  rintro rfl
  have none : code = [] := by
    generalize empty : ([] : List (BitVec 8)) = bytes at emitted
    cases emitted with
    | nil => rfl
    | cons first _ =>
      have length := congrArg List.length empty
      rw [List.length_append] at length
      rcases first.length_cases with two | four <;> simp_all
  cases written with
  | li steps builds =>
    -- Without a step the register would keep whatever value it had.
    rw [List.map_eq_nil_iff] at none
    subst none
    exact absurd ((builds 0).trans (builds 1).symm) (by decide)
  | _ => cases none

/-- All the lines start at even addresses. -/
theorem Assembled.even (assembled : Assembled image place) {index : Nat}
    (within : index ≤ start.length) : (place index).toNat % 2 = 0 := by
  induction index with
  | zero =>
    rw [assembled.starts]
    rfl
  | succ index ih =>
    have inside : index < start.length := within
    obtain ⟨code, bytes, -, emitted, behind, -⟩ :=
      assembled.lines index _ (List.getElem?_eq_getElem inside)
    have even := emitted_even emitted
    have before := ih (Nat.le_of_lt inside)
    rw [behind, BitVec.toNat_add, BitVec.toNat_ofNat]
    omega

/-- At a line of a loaded program the counter stands in front of the bytes for it. -/
theorem Loaded.spot (loaded : Loaded layout image s) (assembled : Assembled image place)
    (short : image.length ≤ 0xF8) (listed : start[index]? = some line)
    (here : s.pc = place index) : ∃ code bytes, line.Code place index code ∧ Emitted code bytes ∧
      place (index + 1) = place index + BitVec.ofNat 64 bytes.length ∧ Spot layout s bytes := by
  obtain ⟨code, bytes, written, emitted, behind, rest, found⟩ := assembled.lines index line listed
  refine ⟨code, bytes, written, emitted, behind, ?_⟩
  generalize offset : place index - romBase = distance at found
  have place_eq : place index = romBase + distance := by rw [← offset, add_sub_cancel]
  have lengths := congrArg List.length found
  rw [List.length_append, List.length_drop] at lengths
  have some := List.length_pos_iff.mpr (code_some written emitted)
  refine ⟨here ▸ assembled.even ?_, fun byte below => ?_, ?_, loaded.zero⟩
  · exact Nat.le_of_lt (List.getElem?_eq_some_iff.mp listed).1
  · have moved := loaded.code (distance.toNat + byte) (by omega)
    rwa [BitVec.ofNat_add, BitVec.ofNat_toNat, BitVec.setWidth_eq, ← BitVec.add_assoc, ← place_eq,
      ← here] at moved
  · -- The bytes of the line lie in the image behind those of the lines before.
    have split : image = image.take distance.toNat ++ (bytes ++ rest) := by
      rw [found, List.take_append_drop]
    have holds := loaded.holds
    rw [split] at holds
    have second := holds.append.2.append.1
    rw [List.length_take, Nat.min_eq_left (by omega), BitVec.ofNat_toNat, BitVec.setWidth_eq,
      ← place_eq, ← here] at second
    exact second

/-- All lines of the program are regular. -/
theorem start_regular : start.all regular := by decide

/-- The instructions of a loaded program execute its lines. -/
theorem Loaded.implements (loaded : Loaded layout image s) (assembled : Assembled image place)
    (short : image.length ≤ 0xF8) (taken : Step place layout s t) :
    Reaches (Isa.EmulatedStep layout) s fun last => last = t := by
  obtain ⟨index, line, listed, here, can, rfl⟩ := taken
  obtain ⟨code, bytes, written, emitted, behind, spot⟩ :=
    loaded.spot assembled short listed here
  exact line_runs written emitted spot here behind
    (List.all_eq_true.mp start_regular line (List.mem_of_getElem? listed))
    (fun label within => assembled.even within) can

/-- An assignment leaves register zero as it is. -/
theorem assign_zero (s : Isa.State) (rd : BitVec 5) (value : BitVec 64) :
    (s.assign rd value).reg 0 = s.reg 0 := by
  by_cases some : rd = 0
  · subst some
    rfl
  · exact Isa.State.assign_other _ _ _ (Ne.symm some)

/-- The program does not write to itself. -/
theorem Loaded.step (loaded : Loaded layout image s) (short : image.length ≤ 0xF8)
    (taken : Step place layout s t) : Loaded layout image t := by
  obtain ⟨index, line, listed, here, can, rfl⟩ := taken
  refine ⟨loaded.code, loaded.fixed, ?_, ?_⟩
  · cases line with
    | sd rs2 offset rs1 =>
      have kept : ∀ index < image.length, (LittleEndian.store s.mem (s.reg rs1 + offset) 8
          (s.reg rs2)) (romBase + BitVec.ofNat 64 index) = s.mem (romBase + BitVec.ofNat 64 index) := by
        intro index below
        refine LittleEndian.store_outside (Nat.le_of_not_lt fun inside => ?_)
        -- Otherwise the store would need to write a byte of the program.
        have hit := can.2 _ inside
        rw [BitVec.ofNat_toNat, BitVec.setWidth_eq, add_sub_cancel] at hit
        exact loaded.fixed index (by omega) hit
      rw [Holds, Bytes.get]
      refine Eq.trans (List.map_congr_left fun index listed => ?_) loaded.holds
      exact kept index (List.mem_range.mp listed)
    | _ => exact loaded.holds
  · cases line with
    | sd _ _ _ | blt _ _ _ | jr _ | ret => exact loaded.zero
    | call _ => exact (assign_zero s 1 (place (index + 1))).trans loaded.zero
    | _ => exact (assign_zero ..).trans loaded.zero

/-- What the lines of a loaded program reach the emulator can be brought to. -/
theorem Loaded.reaches (loaded : Loaded layout image s) (assembled : Assembled image place)
    (short : image.length ≤ 0xF8) {post : Isa.State → Prop}
    (reached : Reaches (Step place layout) s post) :
    Reaches (Isa.EmulatedStep layout) s post :=
  reached.refine (Loaded layout image) (fun _ _ loaded taken => loaded.step short taken)
    (fun _ _ loaded taken => loaded.implements assembled short taken) loaded

end Bios

end Xemu
