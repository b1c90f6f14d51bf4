import Xemu.Machine.Chain
import Xemu.Machine.Program

/-! Reading an indirect table of descriptors, whatever chain the driver has put into memory. -/

namespace Xemu.Bus

/-! ### The offsets that are read -/

/-- The loop of `vring_desc_read_indirect` together with the offsets it reads descriptors from. -/
def readIndirectTraced (host : Host) (addr : BitVec 64) : Nat → Bus → BitVec 64 → List IoVec →
    BitVec 32 → List (BitVec 64) × Except Stop (List IoVec × BitVec 32 × Bus)
  | 0, bus, offset, _, _ =>
    ([offset], bus.asReadBlob host (addr + offset) 16 >>= fun _ =>
      .error (.undefined "index outside the local segments"))
  | room + 1, bus, offset, iov, inLen =>
    match bus.asReadBlob host (addr + offset) 16 with
    | .error stop => ([offset], .error stop)
    | .ok (bytes, bus) =>
      let desc := descOf bytes
      let iov := ioVecOf desc :: iov
      let inLen := if desc.flags &&& 0x2 ≠ 0 then inLen + desc.len else inLen
      if desc.flags &&& 0x1 = 0 then ([offset], .ok (iov.reverse, inLen, bus))
      else
        let rest := readIndirectTraced host addr room bus (desc.next.setWidth 64 * 16) iov inLen
        (offset :: rest.1, rest.2)

/-- The length of a table is refused. -/
abbrev BadTable (len : BitVec 32) : Prop := len = 0 ∨ len.toNat % 16 ≠ 0

/-- The offsets that `vring_desc_read_indirect` reads descriptors from. -/
def indirectReads (host : Host) (bus : Bus) (addr : BitVec 64) (len : BitVec 32) :
    List (BitVec 64) :=
  -- A bad length is refused before anything is read.
  if BadTable len then []
  else (readIndirectTraced host addr 1024 bus 0 [] 0).1

section Traced

variable (host : Host) (addr : BitVec 64) (room : Nat) (bus : Bus) (offset : BitVec 64)
  (iov : List IoVec) (inLen : BitVec 32)

/-- Keeping the offsets does not change what the loop results in. -/
theorem readIndirectTraced_result :
    (readIndirectTraced host addr room bus offset iov inLen).2 =
      readIndirectFrom host addr room bus offset iov inLen := by
  induction room generalizing bus offset iov inLen with
  | zero => rfl
  | succ room ih =>
    rw [readIndirectTraced, readIndirectFrom]
    cases bus.asReadBlob host (addr + offset) 16 with
    | error stop => rfl
    | ok read =>
      -- Either this descriptor is the last one, or the rest is the same by induction.
      dsimp only [ok_bind]
      split
      · rfl
      · exact ih _ _ _ _

/-- The loop finds no more segments than there is room for. -/
theorem readIndirectFrom_length :
    Ensures (readIndirectFrom host addr room bus offset iov inLen) fun result =>
      result.1.length ≤ iov.length + room := by
  -- The induction is on the room that is left, of which each turn takes one.
  induction room generalizing bus offset iov inLen with
  | zero => exact .andThen fun _ => .error
  | succ room ih =>
    rw [readIndirectFrom]
    refine .andThen fun read => .ite (fun _ => .ok ?_) fun _ => (ih _ _ _ _).mono ?_
    · simp
    · intro result few
      rw [List.length_cons] at few
      omega

end Traced

/-! ### Chains that stay in their table -/

/--
A chain of descriptors stays in a table until it ends or the read of one of them panics.

It ends before there is no room left for another segment; a read that panics may be the one after that.
-/
inductive EndsInTable (host : Host) (addr : BitVec 64) (entries : Nat) :
    Nat → Bus → BitVec 16 → Prop where
  /-- The read of the descriptor panics. -/
  | panics {room : Nat} {bus : Bus} {entry : BitVec 16} {text : String}
    (inside : entry.toNat < entries)
    (stopped : bus.asReadBlob host (addr + entry.setWidth 64 * 16) 16 = .error (.panic text)) :
    EndsInTable host addr entries room bus entry
  /-- The descriptor is the last one of the chain. -/
  | last {room : Nat} {bus after : Bus} {entry : BitVec 16} {bytes : List (BitVec 8)}
    (inside : entry.toNat < entries)
    (read : bus.asReadBlob host (addr + entry.setWidth 64 * 16) 16 = .ok (bytes, after))
    (final : (descOf bytes).flags &&& 0x1 = 0) :
    EndsInTable host addr entries (room + 1) bus entry
  /-- The descriptor names the entry of the next one. -/
  | next {room : Nat} {bus after : Bus} {entry : BitVec 16} {bytes : List (BitVec 8)}
    (inside : entry.toNat < entries)
    (read : bus.asReadBlob host (addr + entry.setWidth 64 * 16) 16 = .ok (bytes, after))
    (more : (descOf bytes).flags &&& 0x1 ≠ 0)
    (later : EndsInTable host addr entries room after (descOf bytes).next) :
    EndsInTable host addr entries (room + 1) bus entry

/-- The chain begins in the table. -/
theorem EndsInTable.inside {host : Host} {addr : BitVec 64} {entries room : Nat} {bus : Bus}
    {entry : BitVec 16} (ends : EndsInTable host addr entries room bus entry) :
    entry.toNat < entries := by
  cases ends with
  | panics inside _ => exact inside
  | last inside _ _ => exact inside
  | next inside _ _ _ => exact inside

/-- The loop reads inside a table, and stops with a panic if at all. -/
structure LoopBounded (entries : Nat)
    (loop : List (BitVec 64) × Except Stop (List IoVec × BitVec 32 × Bus)) : Prop where
  reads : ∀ offset ∈ loop.1, offset.toNat + 16 ≤ 16 * entries
  ends : ∀ stop, loop.2 = .error stop → ∃ text, stop = .panic text

section Loop

variable {host : Host} {addr : BitVec 64} {entries room : Nat} {bus : Bus} {entry : BitVec 16}

/-- The offset of an entry lies in a table when the entry does. -/
theorem offset_inside :
    (entry.setWidth 64 * 16).toNat + 16 ≤ 16 * entries ↔ entry.toNat < entries := by
  -- An entry has 16 bits, so its offset does not wrap around.
  have small := entry.isLt
  rw [setWidth_entry, BitVec.toNat_ofNat, Nat.mod_eq_of_lt (by omega)]
  omega

/-- One read more keeps the loop bounded exactly when its entry lies in the table. -/
theorem loopBounded_cons {reads : List (BitVec 64)}
    {result : Except Stop (List IoVec × BitVec 32 × Bus)} :
    LoopBounded entries (entry.setWidth 64 * 16 :: reads, result) ↔
      entry.toNat < entries ∧ LoopBounded entries (reads, result) := by
  -- The read is the first of the list, and the others are those of the rest.
  constructor
  · intro bounded
    refine ⟨offset_inside.mp (bounded.reads _ List.mem_cons_self), fun offset member => ?_,
      bounded.ends⟩
    exact bounded.reads offset (List.mem_cons_of_mem _ member)
  · rintro ⟨inside, bounded⟩
    refine ⟨fun offset member => ?_, bounded.ends⟩
    rcases List.mem_cons.mp member with rfl | member
    · exact offset_inside.mpr inside
    · exact bounded.reads offset member

/-- Without any reads it is bounded when it stops with a panic if at all. -/
theorem loopBounded_nil {result : Except Stop (List IoVec × BitVec 32 × Bus)} :
    LoopBounded entries ([], result) ↔
      ∀ stop, result = .error stop → ∃ text, stop = .panic text :=
  ⟨LoopBounded.ends, fun ends => ⟨fun _ member => absurd member List.not_mem_nil, ends⟩⟩

/-- The loop is bounded by a table exactly when the chain it follows ends in the table. -/
theorem loopBounded_iff (iov : List IoVec) (inLen : BitVec 32) :
    LoopBounded entries (readIndirectTraced host addr room bus (entry.setWidth 64 * 16) iov inLen) ↔
      EndsInTable host addr entries room bus entry := by
  induction room generalizing bus entry iov inLen with
  | zero =>
    rw [readIndirectTraced, loopBounded_cons, loopBounded_nil]
    -- There is no room left, so nothing but a panic of the read saves the local array.
    constructor
    · rintro ⟨inside, ends⟩
      cases read : bus.asReadBlob host (addr + entry.setWidth 64 * 16) 16 with
      | error stop =>
        obtain ⟨text, rfl⟩ := ends stop (by rw [read]; rfl)
        exact .panics inside read
      | ok result =>
        obtain ⟨text, impossible⟩ := ends _ (by rw [read]; rfl)
        cases impossible
    · intro ends
      cases ends with
      | panics inside stopped =>
        rw [stopped]
        exact ⟨inside, fun stop same => ⟨_, (Except.error.inj same).symm⟩⟩
  | succ room ih =>
    rw [readIndirectTraced]
    cases read : bus.asReadBlob host (addr + entry.setWidth 64 * 16) 16 with
    | error stop =>
      rw [loopBounded_cons, loopBounded_nil]
      constructor
      · rintro ⟨inside, ends⟩
        obtain ⟨text, rfl⟩ := ends stop rfl
        exact .panics inside read
      · intro ends
        cases ends with
        | panics inside stopped =>
          cases read.symm.trans stopped
          exact ⟨inside, fun stop same => ⟨_, (Except.error.inj same).symm⟩⟩
        | last _ done _ => cases read.symm.trans done
        | next _ done _ _ => cases read.symm.trans done
    | ok result =>
      obtain ⟨bytes, after⟩ := result
      dsimp only
      by_cases final : (descOf bytes).flags &&& 0x1 = 0
      · rw [if_pos final, loopBounded_cons, loopBounded_nil]
        refine ⟨fun bounded => .last bounded.1 read final, fun ends =>
          ⟨ends.inside, fun stop impossible => by cases impossible⟩⟩
      · -- The rest of the loop is bounded exactly when, by induction, its chain ends.
        rw [if_neg final, loopBounded_cons, ih]
        refine ⟨fun both => .next both.1 read final both.2, fun ends => ?_⟩
        cases ends with
        | panics _ stopped => cases read.symm.trans stopped
        | last _ done last =>
          cases read.symm.trans done
          exact absurd last final
        | next inside done _ later =>
          cases read.symm.trans done
          exact ⟨inside, later⟩

/-- In RAM a chain ends in its table when the descriptors there are chained in that way. -/
theorem endsInTable_ram (whole : bus.ram.size = ramSize) (aligned : addr.toNat % 8 = 0)
    (placed : InMemory addr (16 * entries)) :
    EndsInTable host addr entries room bus entry ↔
      ∃ chain, Chained bus.memory addr entries entry.toNat chain ∧ chain.length ≤ room := by
  -- A descriptor of the table is read as it is, and the read changes nothing.
  have reads : ∀ entry : BitVec 16, entry.toNat < entries →
      bus.asReadBlob host (addr + entry.setWidth 64 * 16) 16 =
        .ok (Bytes.get bus.memory (addr + BitVec.ofNat 64 (16 * entry.toNat)) 16, bus) := by
    intro entry inside
    rw [setWidth_entry]
    exact asReadBlob_desc whole aligned placed host inside
  constructor
  · intro ends
    induction ends with
    | panics inside stopped =>
      rw [reads _ inside] at stopped
      cases stopped
    | last inside read final =>
      rw [reads _ inside] at read
      cases Except.ok.inj read
      exact ⟨_, .last inside final, by simp⟩
    | next inside read more later ih =>
      rw [reads _ inside] at read
      cases Except.ok.inj read
      obtain ⟨chain, chained, few⟩ := ih whole reads
      exact ⟨_, .next inside more chained, by simpa using few⟩
  · rintro ⟨chain, chained, few⟩
    generalize number : entry.toNat = index at chained
    induction chained generalizing entry room with
    | last inside final =>
      subst number
      obtain ⟨room, rfl⟩ := Nat.exists_eq_add_of_lt few
      exact .last inside (reads _ inside) final
    | next inside more later ih =>
      subst number
      obtain ⟨room, rfl⟩ := Nat.exists_eq_add_of_lt few
      exact .next inside (reads _ inside) more (ih (by simp) rfl)

end Loop

/-! ### The result -/

/--
Reading an indirect table ends, or stops with a panic, within its bounds.

It reads descriptors of the table only, and stores no more segments than the local array has room
for; a segment past the array would be an undefined operation.
-/
structure IndirectBounded (host : Host) (bus : Bus) (head : BitVec 32) (addr : BitVec 64)
    (len : BitVec 32) : Prop where
  ends : ∀ stop, bus.vringDescReadIndirect host head addr len = .error stop →
    ∃ text, stop = .panic text
  reads : ∀ offset ∈ bus.indirectReads host addr len, offset.toNat + 16 ≤ len.toNat
  stores : ∀ req after, bus.vringDescReadIndirect host head addr len = .ok (req, after) →
    req.iov.length ≤ 1024

section Result

variable {host : Host} {bus : Bus} {head : BitVec 32} {addr : BitVec 64} {len : BitVec 32}

/-- A table of a bad length is refused before anything is read. -/
theorem indirectBounded_bad (bad : BadTable len) : IndirectBounded host bus head addr len := by
  -- The length is looked at before the first descriptor.
  have refused : bus.vringDescReadIndirect host head addr len =
      .error (.panic "bad size %u for indirect table\n") := by
    rw [vringDescReadIndirect, if_pos bad]
    rfl
  refine ⟨fun stop stopped => ?_, fun offset member => ?_, fun req after impossible => ?_⟩
  · rw [refused] at stopped
    cases stopped
    exact ⟨_, rfl⟩
  · rw [indirectReads, if_pos bad] at member
    cases member
  · rw [refused] at impossible
    cases impossible

/-- Reading a table of a good length is bounded exactly when the chain from its start ends in it. -/
theorem indirectBounded_iff_ends (good : ¬ BadTable len) :
    IndirectBounded host bus head addr len ↔
      EndsInTable host addr (len.toNat / 16) 1024 bus 0 := by
  -- The loop starts at the first entry, and the table has a whole number of them.
  have size : 16 * (len.toNat / 16) = len.toNat := by
    have whole : len.toNat % 16 = 0 := by
      by_contra odd
      exact good (.inr odd)
    omega
  have start : (0 : BitVec 16).setWidth 64 * 16 = (0 : BitVec 64) := by decide
  have loop : bus.vringDescReadIndirect host head addr len =
      (readIndirectTraced host addr 1024 bus 0 [] 0).2 >>= fun found =>
        .ok ({ index := head, inLen := found.2.1, iov := found.1 }, found.2.2) := by
    rw [vringDescReadIndirect, if_neg good, readIndirectTraced_result]
    rfl
  rw [← loopBounded_iff [] 0, start]
  constructor
  · rintro ⟨ends, reads, _⟩
    refine ⟨fun offset member => ?_, fun stop stopped => ends stop ?_⟩
    · rw [size]
      exact reads offset (by rwa [indirectReads, if_neg good])
    · rw [loop, stopped]
      rfl
  · rintro ⟨reads, ends⟩
    refine ⟨fun stop stopped => ?_, fun offset member => ?_, fun req after done => ?_⟩
    · -- Nothing but the loop can stop.
      cases result : (readIndirectTraced host addr 1024 bus 0 [] 0).2 with
      | error early =>
        rw [loop, result] at stopped
        cases stopped
        exact ends stop result
      | ok found =>
        rw [loop, result] at stopped
        cases stopped
    · rw [indirectReads, if_neg good] at member
      rw [← size]
      exact reads offset member
    · rw [loop] at done
      obtain ⟨found, result, packed⟩ := bind_eq_ok.mp done
      cases Except.ok.inj packed
      rw [readIndirectTraced_result] at result
      simpa using readIndirectFrom_length host addr 1024 bus 0 [] 0 found result

end Result

/--
Reading an indirect table is bounded exactly when the chain from its first entry ends in the table.

In RAM that is a matter of the bytes there: the descriptors are chained without leaving the table,
and there are at most as many as the local array has room for.
-/
theorem indirectBounded_iff (host : Host) (bus : Bus) (head : BitVec 32) (addr : BitVec 64)
    (len : BitVec 32) :
    (IndirectBounded host bus head addr len ↔
      BadTable len ∨ EndsInTable host addr (len.toNat / 16) 1024 bus 0) ∧
    (bus.ram.size = ramSize → addr.toNat % 8 = 0 → InMemory addr len.toNat → ¬ BadTable len →
      (IndirectBounded host bus head addr len ↔
        ∃ chain, Chained bus.memory addr (len.toNat / 16) 0 chain ∧ chain.length ≤ 1024)) := by
  constructor
  -- A length that is rejected ends before anything is read.
  · by_cases bad : BadTable len
    · exact ⟨fun _ => .inl bad, fun _ => indirectBounded_bad bad⟩
    · rw [indirectBounded_iff_ends bad]
      exact ⟨.inr, fun either => either.resolve_left bad⟩
  · intro whole aligned placed good
    rw [indirectBounded_iff_ends good]
    exact endsInTable_ram whole aligned ⟨placed.first, by have := placed.last; omega⟩

/-- The devices with a table in RAM whose first descriptor is chained to its second. -/
def pairTable : Bus :=
  (Machine.boot []).bus.setMemory (LittleEndian.store (fun _ => 0) 0x8000000C 4 (0x10001 : BitVec 32))

/-- A table of two descriptors in a chain, of which the second is the last. -/
theorem indirectBounded_pair : IndirectBounded {} pairTable 0 0x80000000 32 := by
  -- The first has the flag of a next one, and names it.
  refine ((indirectBounded_iff {} pairTable 0 0x80000000 32).2 rfl (by decide) (by decide)
    (by decide)).mpr ⟨_, .next (by decide) ?_ (.last ?_ ?_), by decide⟩
  all_goals decide +kernel

/-- The devices with a descriptor in RAM that is chained to itself. -/
def cyclicTable : Bus :=
  (Machine.boot []).bus.setMemory (LittleEndian.store (fun _ => 0) 0x8000000C 2 (1 : BitVec 16))

/-- A descriptor that is chained to itself begins no chain. -/
theorem not_chained_cycle {mem : BitVec 64 → BitVec 8} {table : BitVec 64} {entries entry : Nat}
    {chain : List VringDesc} (more : (descAt mem table entry).flags &&& 0x1 ≠ 0)
    (names : (descAt mem table entry).next.toNat = entry) :
    ¬ Chained mem table entries entry chain := by
  -- A chain ends after finitely many steps, and this one never comes nearer to an end.
  intro chained
  induction chained with
  | last inside final => exact more final
  | next inside again later ih =>
    rw [names] at ih
    exact ih more names

/-- A chain without an end overruns the local array. -/
theorem indirect_overrun :
    ¬ ∀ (host : Host) (bus : Bus) (head : BitVec 32) (addr : BitVec 64) (len : BitVec 32),
      IndirectBounded host bus head addr len := by
  intro always
  have bounded := always {} cyclicTable 0 0x80000000 16
  -- The table lies in RAM, where it would have to be a chain with an end.
  have good : ¬ BadTable 16 := by decide
  obtain ⟨chain, chained, _⟩ := (endsInTable_ram rfl (by decide) (by decide)).mp
    ((indirectBounded_iff_ends good).mp bounded)
  exact not_chained_cycle (by decide +kernel) (by decide +kernel) chained

end Xemu.Bus
