import Xemu.Machine.Banks
import Xemu.Machine.Chain
import Xemu.Machine.Program

/-! The request that an indirect table stands for: one segment for each entry its chain visits. -/

namespace Xemu.Bus

/-! ### Tables in memory -/

/-- The bytes of the three memories, and zero where there is none. -/
def contents (bus : Bus) (addr : BitVec 64) : BitVec 8 := (bus.byteAt addr).getD 0

/-- A stretch of addresses at which a memory was loaded or allocated. -/
def Backed (bus : Bus) (addr : BitVec 64) (count : Nat) : Prop :=
  ∀ index < count, (bus.byteAt (addr + BitVec.ofNat 64 index)).isSome

/-- An entry of a table, each of its fields the little-endian number at its place in the record. -/
def entryOf (mem : BitVec 64 → BitVec 8) (table : BitVec 64) (entry : Nat) : VringDesc :=
  let base := table + BitVec.ofNat 64 (16 * entry)
  { addr := LittleEndian.load 64 mem base 8
    len := LittleEndian.load 32 mem (base + 8) 4
    flags := LittleEndian.load 16 mem (base + 12) 2
    next := LittleEndian.load 16 mem (base + 14) 2 }

/-- The entries visited along a chain from an entry on, none of them outside the table. -/
inductive Visits (mem : BitVec 64 → BitVec 8) (table : BitVec 64) (entries : Nat) :
    Nat → List Nat → Prop where
  /-- The last entry does not have the chaining flag. -/
  | last {entry : Nat} (inside : entry < entries)
    (final : (entryOf mem table entry).flags &&& 0x1 = 0) : Visits mem table entries entry [entry]
  /-- Any other names the entry after it. -/
  | next {entry : Nat} {rest : List Nat} (inside : entry < entries)
    (more : (entryOf mem table entry).flags &&& 0x1 ≠ 0)
    (later : Visits mem table entries (entryOf mem table entry).next.toNat rest) :
    Visits mem table entries entry (entry :: rest)

section Table

variable {mem : BitVec 64 → BitVec 8} {table : BitVec 64} {entries entry : Nat}
  {visited : List Nat}

/-- The sixteen bytes of an entry decode to the numbers at the places of its fields. -/
theorem descAt_eq : descAt mem table entry = entryOf mem table entry := by
  -- Each field lies within the sixteen bytes, and is as wide as its bytes.
  have field (v : Nat) (offset : BitVec 64) (count : Nat) (inside : offset.toNat + count ≤ 16)
      (narrow : 8 * count ≤ v) (wide : v ≤ 64) :
      (bytesWord (Bytes.get mem (table + BitVec.ofNat 64 (16 * entry)) 16) offset count).setWidth v =
        LittleEndian.load v mem (table + BitVec.ofNat 64 (16 * entry) + offset) count := by
    rw [bytesWord, Bytes.load_get inside (by decide), LittleEndian.load_widen narrow,
      BitVec.setWidth_setWidth_of_le _ wide, BitVec.setWidth_eq]
  have addr := field 64 0 8 (by decide) (by decide) (by decide)
  have start : table + BitVec.ofNat 64 (16 * entry) + 0 = table + BitVec.ofNat 64 (16 * entry) :=
    BitVec.add_zero _
  rw [BitVec.setWidth_eq, start] at addr
  simp only [descAt, descOf, entryOf, addr,
    field 32 8 4 (by decide) (by decide) (by decide),
    field 16 12 2 (by decide) (by decide) (by decide),
    field 16 14 2 (by decide) (by decide) (by decide)]

/-- An entry that names another one is visited before those from there on. -/
theorem Visits.step {following : Nat} {rest : List Nat} (inside : entry < entries)
    (more : (entryOf mem table entry).flags &&& 0x1 ≠ 0)
    (names : (entryOf mem table entry).next.toNat = following)
    (later : Visits mem table entries following rest) :
    Visits mem table entries entry (entry :: rest) := by
  subst names
  exact .next inside more later

/-- The descriptors of the visited entries are chained. -/
theorem Visits.chained (visits : Visits mem table entries entry visited) :
    Chained mem table entries entry (visited.map (descAt mem table)) := by
  -- By induction along the chain, whose entries decode as the code decodes them.
  induction visits with
  | last inside final =>
    rw [← descAt_eq] at final
    exact .last inside final
  | next inside more later ih =>
    rw [← descAt_eq] at more ih
    exact .next inside more ih

/-- The number of bytes the device may write into the segment of an entry. -/
def writable (desc : VringDesc) : Nat := if desc.flags &&& 0x2 ≠ 0 then desc.len.toNat else 0

/-- Counting along a chain adds up the writable lengths, modulo the width of the counter. -/
theorem toNat_addIn (inLen : BitVec 32) (chain : List VringDesc) :
    (addIn inLen chain).toNat = (inLen.toNat + (chain.map writable).sum) % 2 ^ 32 := by
  induction chain generalizing inLen with
  | nil =>
    rw [List.map_nil, List.sum_nil, Nat.add_zero, Nat.mod_eq_of_lt inLen.isLt]
    rfl
  | cons desc rest ih =>
    have counted : addIn inLen (desc :: rest) =
        addIn (if desc.flags &&& 0x2 ≠ 0 then inLen + desc.len else inLen) rest := rfl
    rw [counted, ih, List.map_cons, List.sum_cons, writable]
    -- Reducing the counter at this entry or only at the end is the same.
    split
    · rw [BitVec.toNat_add, Nat.mod_add_mod, Nat.add_assoc]
    · rw [Nat.zero_add]

end Table

/-! ### Reading them -/

section Read

variable {host : Host} {bus : Bus} {addr : BitVec 64}

/-- A byte of memory comes from one of the memories. -/
theorem byteAt_bank (found : (bus.byteAt addr).isSome) :
    ∃ device offset buffer, AddressSpace.route AddressSpace.rootChildren addr = (device, offset) ∧
      bus.bank device = some buffer := by
  -- Where no memory is selected there is no byte.
  cases memory : bus.bank (AddressSpace.route AddressSpace.rootChildren addr).1 with
  | none => simp [byteAt, memory] at found
  | some buffer => exact ⟨_, _, buffer, rfl, memory⟩

/-- An aligned doubleword of memory is read as it is there. -/
theorem asReadNommu_backed (aligned : addr.toNat % 8 = 0) (backed : bus.Backed addr 8) :
    bus.asReadNommu host addr 8 .none = .ok (LittleEndian.load 64 bus.contents addr 8, bus) := by
  have first := backed 0 (by decide)
  rw [BitVec.add_zero] at first
  obtain ⟨device, offset, buffer, routed, memory⟩ := byteAt_bank first
  have bytes := byteAt_page routed memory
  -- The last byte of the doubleword lies in what was loaded, and so do the others.
  have fits : offset.toNat + 7 < buffer.size := by
    have last := backed 7 (by decide)
    rw [bytes 7 (by omega)] at last
    by_contra past
    rw [if_neg past] at last
    cases last
  rw [asReadNommu_bank routed memory rfl (by omega) (by omega)]
  refine congrArg (fun word => Except.ok (word, bus)) (LittleEndian.load_congr ?_)
  intro index below
  rw [contents, bytes index (by omega), if_pos (by omega), Option.getD_some]

/-- An aligned record of two doublewords of memory is read as it is there. -/
theorem asReadBlob_backed (aligned : addr.toNat % 8 = 0) (backed : bus.Backed addr 16) :
    bus.asReadBlob host addr 16 = .ok (Bytes.get bus.contents addr 16, bus) := by
  have front : bus.Backed addr 8 := fun index below => backed index (by omega)
  have back : bus.Backed (addr + BitVec.ofNat 64 8) 8 := fun index below => by
    rw [BitVec.add_assoc, ← BitVec.ofNat_add]
    exact backed (8 + index) (by omega)
  have later : (addr + BitVec.ofNat 64 8).toNat % 8 = 0 := by
    rw [BitVec.toNat_add, BitVec.toNat_ofNat]
    omega
  have word (addr : BitVec 64) : wordBytes (LittleEndian.load 64 bus.contents addr 8) 8 =
      Bytes.get bus.contents addr 8 := Bytes.ofWord_load (by decide)
  rw [asReadBlob, if_neg (not_not.mpr aligned)]
  -- Two turns of the first loop, and none of the second.
  simp only [Nat.reduceDiv, readChunks, asReadNommu_backed aligned front,
    asReadNommu_backed later back, ok_bind, pure_eq_ok, word, List.append_nil,
    Bytes.get_add bus.contents addr 8 8]

/-- An entry of an aligned table in memory is read as it is there. -/
theorem asReadBlob_entry {table : BitVec 64} {entries : Nat} (aligned : table.toNat % 8 = 0)
    (backed : bus.Backed table (16 * entries)) {entry : Nat} (inside : entry < entries) :
    bus.asReadBlob host (table + BitVec.ofNat 64 (16 * entry)) 16 =
      .ok (Bytes.get bus.contents (table + BitVec.ofNat 64 (16 * entry)) 16, bus) := by
  -- Entries are sixteen bytes apart, so they are aligned as the table is, and within it.
  refine asReadBlob_backed ?_ fun index below => ?_
  · rw [BitVec.toNat_add, BitVec.toNat_ofNat]
    omega
  · rw [BitVec.add_assoc, ← BitVec.ofNat_add]
    exact backed _ (by omega)

/-- A stretch in RAM is memory. -/
theorem backed_memory {count : Nat} (whole : bus.ram.size = ramSize)
    (placed : InMemory addr count) : bus.Backed addr count := by
  intro index below
  -- Every address of the stretch selects RAM, at an offset inside the array.
  have part : InMemory (addr + BitVec.ofNat 64 index) 1 := placed.part (by omega)
  have fits : (addr + BitVec.ofNat 64 index - ramStart).toNat < bus.ram.size := by
    have first := part.first
    have last := part.last
    rw [part.toNat_offset, whole]
    change _ < 0x80000000
    omega
  simp only [byteAt, AddressSpace.route_ram (part.inRam (by decide)), bank, Option.bind_eq_bind,
    Option.bind_some, if_pos fits, Option.isSome_some]

end Read

/--
A chain in an aligned table of any of the memories is read as one request with its segments in order.

There are as many segments as entries are visited, and the bytes to be written count modulo `2 ^ 32`.
-/
theorem indirect_request (host : Host) (bus : Bus) (head : BitVec 32) (table : BitVec 64)
    (len : BitVec 32) (entries : Nat) (visited : List Nat) (aligned : table.toNat % 8 = 0)
    (size : len.toNat = 16 * entries) (backed : bus.Backed table (16 * entries))
    (visits : Visits bus.contents table entries 0 visited) (room : visited.length ≤ 1024) :
    ∃ req, bus.vringDescReadIndirect host head table len = .ok (req, bus) ∧
      req.index = head ∧ req.iov.length = visited.length ∧
      (∀ (i : Nat) (inside : i < visited.length), ∃ segment, req.iov[i]? = some segment ∧
        segment.base = (entryOf bus.contents table visited[i]).addr ∧
        segment.len.toNat = (entryOf bus.contents table visited[i]).len.toNat ∧
        segment.flags =
          if (entryOf bus.contents table visited[i]).flags &&& 0x2 ≠ 0 then 0x2 else 0x1) ∧
      req.inLen.toNat =
        (visited.map fun entry => writable (entryOf bus.contents table entry)).sum % 2 ^ 32 := by
  have reads : ∀ entry < entries, bus.asReadBlob host (table + BitVec.ofNat 64 (16 * entry)) 16 =
      .ok (Bytes.get bus.contents (table + BitVec.ofNat 64 (16 * entry)) 16, bus) :=
    fun _ inside => asReadBlob_entry aligned backed inside
  have read := vringDescReadIndirect_chained reads visits.chained (by rwa [List.length_map]) size head
  refine ⟨_, read, rfl, ?_, fun i inside => ?_, ?_⟩
  · simp only [List.length_map]
  · -- The segment stands for the entry at its place in the chain.
    refine ⟨ioVecOf (entryOf bus.contents table visited[i]), ?_, rfl, ?_, rfl⟩
    · simp [inside, descAt_eq]
    · exact BitVec.toNat_setWidth_of_le (by decide)
  · rw [toNat_addIn, List.map_map]
    simp [Function.comp_def, descAt_eq]

/-- A table of three entries in RAM, of which the first names the last and that one the middle one. -/
def scatteredTable : Bus :=
  (Machine.boot []).bus.setMemory <|
    [(0x80000000, 0x81000000), (0x80000008, 0x0002000100000010),
      (0x80000010, 0x83000000), (0x80000018, 0x0000000200000002),
      (0x80000020, 0x82000000), (0x80000028, 0x00010003FFFFFFFF)].foldl
        (fun mem (word : BitVec 64 × BitVec 64) => LittleEndian.store mem word.1 8 word.2) fun _ => 0

/-- The request has its segments in the order of the chain, and its count of bytes wraps around. -/
theorem indirect_request_scattered :
    ∃ req, scatteredTable.vringDescReadIndirect {} 7 0x80000000 48 = .ok (req, scatteredTable) ∧
      req.index = 7 ∧ req.iov.length = 3 ∧
      (∃ segment, req.iov[1]? = some segment ∧ segment.base = 0x82000000 ∧
        segment.len.toNat = 0xFFFFFFFF ∧ segment.flags = 0x2) ∧ req.inLen.toNat = 1 := by
  -- The chain goes from the first entry to the last, and ends in the middle one.
  have visits : Visits scatteredTable.contents 0x80000000 3 0 [0, 2, 1] :=
    .step (by decide) (by decide +kernel) (by decide +kernel : _ = 2) <|
    .step (by decide) (by decide +kernel) (by decide +kernel : _ = 1) <|
    .last (by decide) (by decide +kernel)
  obtain ⟨req, read, index, length, segments, counted⟩ := indirect_request {} scatteredTable 7
    0x80000000 48 3 [0, 2, 1] (by decide) rfl (backed_memory rfl (by decide)) visits (by decide)
  obtain ⟨segment, at_, base, len, flags⟩ := segments 1 (by decide)
  refine ⟨req, read, index, length, ⟨segment, at_, base.trans ?_, len.trans ?_, flags.trans ?_⟩,
    counted.trans ?_⟩ <;> decide +kernel

end Xemu.Bus
