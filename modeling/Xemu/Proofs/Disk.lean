import Xemu.Lib.LastWritten
import Xemu.Machine.Request

/-! The disk file as a store of bytes: what requests read from it and write to it. -/

namespace Xemu

namespace Buffer

/-- Two files with the same bytes. -/
def Same (buffer other : Buffer) : Prop :=
  buffer.size = other.size ∧
    ∀ at_ : BitVec 64, at_.toNat < buffer.size → buffer.bytes at_ = other.bytes at_

/-- The bytes of a file from a position on. -/
def slice (buffer : Buffer) (pos len : Nat) : List (BitVec 8) :=
  (List.range len).map fun index => buffer.bytes (BitVec.ofNat 64 (pos + index))

@[simp] theorem length_slice (buffer : Buffer) (pos len : Nat) :
    (buffer.slice pos len).length = len := by
  simp [slice]

end Buffer

namespace Bus

/-! ### The file under a request -/

section File

variable {disk : Buffer} {pos : Nat} {data : List (BitVec 8)}

/-- A read that the file covers returns the bytes there. -/
theorem fileRead_eq {len : Nat} :
    fileRead disk pos len = if len = 0 ∨ pos + len ≤ disk.size then some (disk.slice pos len)
      else none := rfl

/-- A write within the file leaves its size. -/
theorem fileWrite_size (fits : pos + data.length ≤ disk.size) :
    (fileWrite disk pos data).size = disk.size := by
  unfold fileWrite
  split
  · rfl
  · exact Nat.max_eq_left fits

/-- A byte of the file after a write is one of the data where they reach, and else the old one. -/
theorem fileWrite_bytes {at_ : BitVec 64} (inside : at_.toNat < disk.size) :
    (fileWrite disk pos data).bytes at_ =
      if pos ≤ at_.toNat ∧ at_.toNat < pos + data.length then data.getD (at_.toNat - pos) 0
      else disk.bytes at_ := by
  unfold fileWrite
  split
  · -- Nothing was written, and no byte is among the data.
    rename_i empty
    rw [if_neg (by omega)]
  · simp [inside]

/-- A write keeps the file exactly when it is empty or repeats bytes that are there. -/
theorem fileWrite_same_iff (disk : Buffer) (pos : Nat) (data : List (BitVec 8))
    (small : pos + data.length ≤ 2 ^ 64) :
    (fileWrite disk pos data).Same disk ↔ data.length = 0 ∨
      pos + data.length ≤ disk.size ∧
        ∀ index < data.length, data.getD index 0 = disk.bytes (BitVec.ofNat 64 (pos + index)) := by
  constructor
  · rintro ⟨size, bytes⟩
    by_cases empty : data.length = 0
    · exact .inl empty
    · -- The size is the larger of the old one and the end of the write.
      have grown : max disk.size (pos + data.length) = disk.size := by
        simpa [fileWrite, empty] using size
      have fits : pos + data.length ≤ disk.size := by omega
      refine .inr ⟨fits, fun index below => ?_⟩
      have place : (BitVec.ofNat 64 (pos + index)).toNat = pos + index := by
        rw [BitVec.toNat_ofNat, Nat.mod_eq_of_lt (by omega)]
      have inside : (BitVec.ofNat 64 (pos + index)).toNat < disk.size := by omega
      have same := bytes (BitVec.ofNat 64 (pos + index)) (by rw [size]; exact inside)
      rw [fileWrite_bytes inside, if_pos (by omega), place, Nat.add_sub_cancel_left] at same
      exact same
  · rintro (empty | ⟨fits, repeated⟩)
    · rw [fileWrite, if_pos empty]
      exact ⟨rfl, fun _ _ => rfl⟩
    -- The bytes the write reaches are those it repeats, the others are not touched.
    · refine ⟨fileWrite_size fits, fun at_ inside => ?_⟩
      rw [fileWrite_size fits] at inside
      rw [fileWrite_bytes inside]
      split
      · rename_i reached
        have place : BitVec.ofNat 64 (pos + (at_.toNat - pos)) = at_ := by
          rw [show pos + (at_.toNat - pos) = at_.toNat by omega, BitVec.ofNat_toNat,
            BitVec.setWidth_eq]
        rw [repeated (at_.toNat - pos) (by omega), place]
      · rfl

end File

/-! ### The data segments of a read -/

/-- The bytes that some segments take in all. -/
def total (segments : List IoVec) : Nat := (segments.map fun segment => segment.len.toNat).sum

@[simp] theorem total_cons (segment : IoVec) (rest : List IoVec) :
    total (segment :: rest) = segment.len.toNat + total rest := by
  simp [total]

@[simp] theorem total_append (front back : List IoVec) :
    total (front ++ back) = total front + total back := by
  simp [total]

/-- Guest memory after successive bytes of a file were put into segments. -/
def scatter (disk : Buffer) : List IoVec → Nat → (BitVec 64 → BitVec 8) → BitVec 64 → BitVec 8
  | [], _, mem => mem
  | segment :: rest, pos, mem =>
    -- A later segment overwrites an earlier one where they meet.
    scatter disk rest (pos + segment.len.toNat)
      (Bytes.put mem segment.base (disk.slice pos segment.len.toNat))

/-- A byte in no segment keeps its value. -/
theorem scatter_outside {disk : Buffer} {segments : List IoVec} {pos : Nat}
    {mem : BitVec 64 → BitVec 8} {at_ : BitVec 64}
    (outside : ∀ segment ∈ segments, segment.len.toNat ≤ (at_ - segment.base).toNat) :
    scatter disk segments pos mem at_ = mem at_ := by
  induction segments generalizing pos mem with
  | nil => rfl
  | cons segment rest ih =>
    have here := outside segment (List.mem_cons_self ..)
    rw [scatter, ih fun other member => outside other (List.mem_cons_of_mem _ member)]
    exact Bytes.put_outside (by simpa using here)

/-- A byte of a segment that no later segment covers is the file's byte that far along. -/
theorem scatter_inside {disk : Buffer} {front back : List IoVec} {segment : IoVec} {pos index : Nat}
    {mem : BitVec 64 → BitVec 8} (inside : index < segment.len.toNat)
    (last : ∀ later ∈ back, later.len.toNat ≤
      (segment.base + BitVec.ofNat 64 index - later.base).toNat) :
    scatter disk (front ++ segment :: back) pos mem (segment.base + BitVec.ofNat 64 index) =
      disk.bytes (BitVec.ofNat 64 (pos + total front + index)) := by
  -- The segments before it move the position on; those after it are apart from the byte.
  induction front generalizing pos mem with
  | nil =>
    rw [List.nil_append, scatter, scatter_outside last, Bytes.put_inside (by simpa using inside)]
    · simp [Buffer.slice, total]
    · have := segment.len.isLt
      simp only [Buffer.length_slice]
      omega
  | cons first rest ih =>
    rw [List.cons_append, scatter, ih, total_cons, Nat.add_assoc pos, Nat.add_assoc]

/-- The data segments of a read get successive bytes of the file, if it has so many. -/
theorem readSegments_memory {write : Writer} (plain : write.Plain) {segments : List IoVec}
    (placed : ∀ segment ∈ segments, segment.base.toNat % 8 = 0 ∧
      InMemory segment.base segment.len.toNat)
    (pos : Nat) (bus : Bus) (whole : bus.ram.size = ramSize) :
    readSegments write segments pos bus =
        .ok (bus.setMemory (scatter bus.blk.disk segments pos bus.memory)) ∨
      bus.blk.disk.size < pos + total segments ∧
        ∃ stop, readSegments write segments pos bus = .error stop := by
  -- The device stops at the first segment that the rest of the file cannot fill.
  induction segments generalizing pos bus with
  | nil => simp [readSegments, scatter]
  | cons segment rest ih =>
    have later := fun other member => placed other (List.mem_cons_of_mem segment member)
    obtain ⟨aligned, here⟩ := placed segment (List.mem_cons_self ..)
    rw [readSegments, fileRead_eq, total_cons]
    by_cases covered : segment.len.toNat = 0 ∨ pos + segment.len.toNat ≤ bus.blk.disk.size
    · have stored := asWriteBlob_memory plain whole (bus.blk.disk.slice pos segment.len.toNat)
        aligned (by simpa using here)
      rcases ih later (pos + segment.len.toNat) (bus.setMemory (Bytes.put bus.memory segment.base
        (bus.blk.disk.slice pos segment.len.toNat))) ((size_setMemory _ _).trans whole) with
        read | ⟨short, stop, failed⟩
      · left
        simp only [if_pos covered, stored, ok_bind]
        rw [read]
        simp [scatter]
      · right
        refine ⟨by simpa [Nat.add_assoc] using short, stop, ?_⟩
        simp only [if_pos covered, stored, ok_bind]
        exact failed
    · right
      rw [if_neg covered]
      exact ⟨by omega, _, rfl⟩

end Bus

/-! ### Requests -/

/-- A read or write request and the machine on which the device serves it. -/
structure BlockRequest where
  /-- What the device takes from outside the emulator. -/
  host : Host
  /-- The queue work a store may do is enough for the device's own stores. -/
  fuel : 0 < host.fuel
  /-- The machine, whose disk file is not looked at. -/
  bus : Bus
  /-- The queue and the interrupt are set up. -/
  serves : bus.Serves
  /-- The request as it was popped. -/
  req : VqRequest
  /-- The segment of its header. -/
  header : IoVec
  /-- The segments of its data. -/
  data : List IoVec
  /-- The segment of its status. -/
  status : IoVec
  /-- The three kinds of segments come in this order. -/
  shape : req.iov = header :: (data ++ [status])
  /-- The header is one the device accepts. -/
  headerOut : header.len = 16 ∧ header.flags &&& 0x1 ≠ 0
  /-- The header is aligned and lies in RAM. -/
  headerPlaced : header.base.toNat % 8 = 0 ∧ InMemory header.base 16
  /-- The data segments are aligned and lie in RAM. -/
  dataPlaced : ∀ segment ∈ data, segment.base.toNat % 8 = 0 ∧
    InMemory segment.base segment.len.toNat
  /-- The status byte lies in RAM. -/
  statusPlaced : InMemory status.base 1
  /-- The header asks for a read or a write. -/
  kind : (Bus.bytesWord (Bytes.get bus.memory header.base 16) 0 4).setWidth 32 &&&
    ~~~(0x1 ||| 0x80000000 : BitVec 32) = 0

namespace BlockRequest

variable (r : BlockRequest)

/-- The type in the header. -/
def type : BitVec 32 :=
  (Bus.bytesWord (Bytes.get r.bus.memory r.header.base 16) 0 4).setWidth 32

/-- The header asks for a write. -/
def isWrite : Prop := r.type &&& 0x1 ≠ 0

instance : Decidable r.isWrite := inferInstanceAs (Decidable (_ ≠ _))

/-- The sector in the header. -/
def sector : BitVec 64 := Bus.bytesWord (Bytes.get r.bus.memory r.header.base 16) 8 8

/-- The position of the request in the file, computed without wrap-around. -/
def start : Nat := 512 * r.sector.toNat

/-- The position the device computes. -/
def seek : BitVec 64 := r.sector * 512

/-- The number of bytes the request asks for. -/
def length : Nat := Bus.total r.data

/-- The range of the request lies within the capacity. -/
def Within (capacity : Nat) : Prop := r.start + r.length ≤ capacity

/-- The devices with the disk file in a given state. -/
def loaded (disk : Buffer) : Bus := { r.bus with blk.disk := disk }

/-- The devices after the request is served with the disk file in a given state. -/
def serve (disk : Buffer) : Except Stop Bus :=
  Bus.doRequest r.host (Bus.nestedWriter r.host r.host.fuel) (r.loaded disk) r.req

/-- The disk file after the request is served. -/
def next (r : BlockRequest) (disk : Buffer) : Except Stop Buffer :=
  (r.serve disk).map fun bus => bus.blk.disk

/-- A place in memory that a request for a read may not change. -/
def Elsewhere (at_ : BitVec 64) : Prop :=
  at_ ≠ r.status.base ∧
    r.bus.blk.vdev.vq.vring.usedSize ≤ (at_ - r.bus.blk.vdev.vq.vring.used).toNat

/-- What serving a request does as a request to a disk of some capacity. -/
structure Obeyed (capacity : Nat) (disk : Buffer) : Prop where
  /-- A write within the capacity changes exactly its bytes, to those of its segment. -/
  write : r.isWrite → ∀ segment, r.data = [segment] → r.Within capacity →
    ∃ after, r.serve disk = .ok after ∧ after.blk.disk.size = disk.size ∧
      ∀ at_ : BitVec 64, at_.toNat < disk.size → after.blk.disk.bytes at_ =
        if r.start ≤ at_.toNat ∧ at_.toNat < r.start + r.length then
          r.bus.memory (segment.base + BitVec.ofNat 64 (at_.toNat - r.start))
        else disk.bytes at_
  /-- A read within the capacity fills its segments, and changes nothing else but the answer. -/
  read : ¬ r.isWrite → r.data ≠ [] → r.Within capacity →
    ∃ after, r.serve disk = .ok after ∧ after.blk.disk = disk ∧
      after.rom = r.bus.rom ∧ after.flash = r.bus.flash ∧
      (∀ at_, (∀ segment ∈ r.data, segment.len.toNat ≤ (at_ - segment.base).toNat) →
        r.Elsewhere at_ → after.memory at_ = r.bus.memory at_) ∧
      ∀ front segment back, r.data = front ++ segment :: back →
        ∀ index < segment.len.toNat,
          (∀ later ∈ back, later.len.toNat ≤
            (segment.base + BitVec.ofNat 64 index - later.base).toNat) →
          r.Elsewhere (segment.base + BitVec.ofNat 64 index) →
          after.memory (segment.base + BitVec.ofNat 64 index) =
            disk.bytes (BitVec.ofNat 64 (r.start + Bus.total front + index))
  /-- A request that is not within the capacity changes no byte of the disk. -/
  outside : ¬ r.Within capacity → ∀ after, r.serve disk = .ok after → after.blk.disk.Same disk

instance (capacity : Nat) : Decidable (r.Within capacity) := inferInstanceAs (Decidable (_ ≤ _))

/-- The byte a write within the capacity has for a place of the file. -/
def written (capacity : Nat) (at_ : BitVec 64) : Option (BitVec 8) :=
  match r.data with
  | [segment] =>
    if r.isWrite ∧ r.Within capacity ∧ r.start ≤ at_.toNat ∧ at_.toNat < r.start + r.length then
      some (r.bus.memory (segment.base + BitVec.ofNat 64 (at_.toNat - r.start)))
    else none
  | _ => none

/-- A write that is within the capacity, empty, refused, or repeats what the file has. -/
def Harmless (capacity : Nat) (disk : Buffer) : Prop :=
  r.isWrite → ∀ segment, r.data = [segment] → r.Within capacity ∨ r.length = 0 ∨ r.seek.msb ∨
    r.seek.toNat + r.length ≤ disk.size ∧ ∀ index < r.length,
      r.bus.memory (segment.base + BitVec.ofNat 64 index) =
        disk.bytes (BitVec.ofNat 64 (r.seek.toNat + index))

variable {r} {disk : Buffer} {capacity : Nat}

/-- The writer of the device reaches RAM. -/
theorem plain (r : BlockRequest) : (Bus.nestedWriter r.host r.host.fuel).Plain :=
  Bus.nestedWriter_plain r.host r.fuel

/-- What was set up does not depend on the disk file. -/
theorem loaded_serves (r : BlockRequest) (disk : Buffer) : (r.loaded disk).Serves :=
  ⟨r.serves.whole, r.serves.some, r.serves.used, r.serves.irq⟩

/-- The device reads the header and goes by its type. -/
theorem serve_eq (r : BlockRequest) (disk : Buffer) :
    r.serve disk = if r.isWrite then
        Bus.handleWrite r.host (Bus.nestedWriter r.host r.host.fuel) (r.loaded disk) r.req r.sector
      else Bus.handleRead (Bus.nestedWriter r.host r.host.fuel) (r.loaded disk) r.req r.sector := by
  have read := Bus.asReadBlob_memory (r.loaded_serves disk).whole r.host
    r.headerPlaced.1 r.headerPlaced.2
  -- Neither assertion about the header stops a request of this shape.
  have first : r.req.iov.head? = some r.header := by rw [r.shape, List.head?_cons]
  have accepted : ¬ (r.header.len ≠ 16 ∨ r.header.flags &&& 0x1 = 0) := by
    rintro (long | closed)
    · exact long r.headerOut.1
    · exact r.headerOut.2 closed
  have memory : (r.loaded disk).memory = r.bus.memory := rfl
  rw [serve, Bus.doRequest, first]
  simp only [if_neg accepted]
  rw [read]
  simp only [memory, ok_bind, r.kind]
  rfl

/-- Ending a request keeps the disk file and the loaded memories, and changes its own bytes only. -/
theorem complete_spec (r : BlockRequest) {bus : Bus} (serves : bus.Serves)
    (vring : bus.blk.vdev.vq.vring = r.bus.blk.vdev.vq.vring) :
    ∃ after, Bus.complete (Bus.nestedWriter r.host r.host.fuel) bus r.req = .ok after ∧
      after.blk.disk = bus.blk.disk ∧ after.rom = bus.rom ∧ after.flash = bus.flash ∧
      ∀ at_, r.Elsewhere at_ → after.memory at_ = bus.memory at_ := by
  have last : r.req.iov.getLast? = some r.status := by
    rw [r.shape, ← List.cons_append, List.getLast?_concat]
  obtain ⟨plic, done⟩ := Bus.complete_memory r.plain serves last r.statusPlaced
  refine ⟨_, done, rfl, rfl, rfl, fun at_ elsewhere => ?_⟩
  rw [Bus.memory_setMemory]
  exact Bus.completed_outside serves.some r.req elsewhere.1 (by rw [vring]; exact elsewhere.2)

/-- Serving a write stores the bytes of its segment at the position the device computes. -/
theorem serve_write (disk : Buffer) (write : r.isWrite) {segment : IoVec}
    (single : r.data = [segment]) :
    (r.seek.msb = true ∧ ∃ stop, r.serve disk = .error stop) ∨
      r.seek.msb = false ∧ ∃ after, r.serve disk = .ok after ∧ after.blk.disk =
        Bus.fileWrite disk r.seek.toNat (Bytes.get r.bus.memory segment.base segment.len.toNat) := by
  have shape := r.shape
  rw [single] at shape
  obtain ⟨aligned, placed⟩ := r.dataPlaced segment (by simp [single])
  have read := Bus.asReadBlob_memory (r.loaded_serves disk).whole r.host aligned placed
  have memory : (r.loaded disk).memory = r.bus.memory := rfl
  rw [serve_eq, if_pos write, Bus.handleWrite, shape]
  simp only [List.singleton_append, read, memory, ok_bind, Bus.seekSector]
  -- A position that is negative as an offset is refused by the host's seek.
  by_cases refused : (r.sector * 512).msb
  · left
    rw [if_pos refused]
    exact ⟨refused, _, rfl⟩
  · right
    rw [if_neg refused]
    have serves := r.loaded_serves
      (Bus.fileWrite disk r.seek.toNat (Bytes.get r.bus.memory segment.base segment.len.toNat))
    obtain ⟨after, done, file, -⟩ := r.complete_spec serves rfl
    exact ⟨Bool.eq_false_iff.mpr refused, after, done, file⟩

/-- A write with another number of data segments than one stops the emulator. -/
theorem serve_write_other (disk : Buffer) (write : r.isWrite)
    (other : ∀ segment, r.data ≠ [segment]) : ∃ stop, r.serve disk = .error stop := by
  rw [serve_eq, if_pos write, Bus.handleWrite, r.shape]
  cases data : r.data with
  | nil => exact ⟨_, rfl⟩
  | cons first rest =>
    cases rest with
    | nil => exact absurd data (other first)
    | cons second more =>
      -- Behind two data segments there is at least the status.
      cases more with
      | nil => exact ⟨_, rfl⟩
      | cons third more => exact ⟨_, rfl⟩

/-- Serving a read fills its segments from the position the device computes, or stops. -/
theorem serve_read (disk : Buffer) (read : ¬ r.isWrite) :
    (∃ stop, r.serve disk = .error stop ∧ (r.data = [] ∨ r.seek.msb = true ∨
      disk.size < r.seek.toNat + r.length)) ∨
    ∃ after, r.serve disk = .ok after ∧ after.blk.disk = disk ∧ after.rom = r.bus.rom ∧
      after.flash = r.bus.flash ∧ ∀ at_, r.Elsewhere at_ → after.memory at_ =
        Bus.scatter disk r.data r.seek.toNat r.bus.memory at_ := by
  have memory : (r.loaded disk).memory = r.bus.memory := rfl
  -- The loop runs from the second descriptor to the one before the last.
  have middle : r.req.iov.tail.dropLast = r.data := by
    rw [r.shape, List.tail_cons, List.dropLast_concat]
  have count : r.req.iov.length = r.data.length + 2 := by
    rw [r.shape]
    simp
  rw [serve_eq, if_neg read, Bus.handleRead, middle]
  by_cases none : r.data = []
  · left
    rw [if_pos (by rw [count, none]; decide)]
    exact ⟨_, rfl, .inl none⟩
  · have several : ¬ r.req.iov.length < 3 := by
      have := List.length_pos_iff.mpr none
      omega
    simp only [if_neg several, Bus.seekSector]
    by_cases refused : (r.sector * 512).msb
    · left
      rw [if_pos refused]
      exact ⟨_, rfl, .inr (.inl refused)⟩
    · rw [if_neg refused]
      rcases Bus.readSegments_memory r.plain r.dataPlaced r.seek.toNat (r.loaded disk)
        (r.loaded_serves disk).whole with filled | ⟨short, stop, failed⟩
      · right
        have serves := (r.loaded_serves disk).setMemory
          (Bus.scatter disk r.data r.seek.toNat r.bus.memory)
        obtain ⟨after, done, file, rom, flash, kept⟩ :=
          r.complete_spec serves (by rw [Bus.blk_setMemory]; rfl)
        rw [Bus.blk_setMemory] at file
        refine ⟨after, ?_, file, rom, flash, fun at_ elsewhere => ?_⟩
        · change (Bus.readSegments _ r.data r.seek.toNat (r.loaded disk) >>= _) = _
          rw [filled, ok_bind]
          exact done
        · rw [kept at_ elsewhere, Bus.memory_setMemory]
      · left
        refine ⟨stop, ?_, .inr (.inr short)⟩
        change (Bus.readSegments _ r.data r.seek.toNat (r.loaded disk) >>= _) = _
        rw [failed, error_bind]

/-- Within the capacity of a file, the device computes the position without wrap-around. -/
theorem seek_within (bound : capacity ≤ disk.size) (small : disk.size < 2 ^ 63)
    (within_ : r.Within capacity) : r.seek.msb = false ∧ r.seek.toNat = r.start := by
  have below : r.start < 2 ^ 63 := by
    rw [Within] at within_
    omega
  -- So the product of the sector number and the sector size does not reach the word.
  have exact_ : r.seek.toNat = r.start := by
    rw [start] at below
    change r.sector.toNat * 512 % 2 ^ 64 = 512 * r.sector.toNat
    omega
  refine ⟨?_, exact_⟩
  rw [BitVec.msb_eq_decide, decide_eq_false_iff_not, exact_]
  omega

/-- The bytes a write stores are those of its one segment. -/
theorem getD_get {mem : BitVec 64 → BitVec 8} {addr : BitVec 64} {count index : Nat}
    (below : index < count) :
    (Bytes.get mem addr count).getD index 0 = mem (addr + BitVec.ofNat 64 index) := by
  rw [List.getD_eq_getElem _ _ (by simpa using below)]
  simp [Bytes.get]

/-- A write keeps the file where it is refused, empty, or repeats what the file has. -/
theorem write_same_iff (write : r.isWrite) {segment : IoVec} (single : r.data = [segment]) :
    (∀ after, r.serve disk = .ok after → after.blk.disk.Same disk) ↔
      r.length = 0 ∨ r.seek.msb ∨ r.seek.toNat + r.length ≤ disk.size ∧ ∀ index < r.length,
        r.bus.memory (segment.base + BitVec.ofNat 64 index) =
          disk.bytes (BitVec.ofNat 64 (r.seek.toNat + index)) := by
  have long : r.length = segment.len.toNat := by simp [length, single, Bus.total]
  have placed := (r.dataPlaced segment (by simp [single])).2.last
  rcases serve_write disk write single with ⟨refused, stop, failed⟩ | ⟨taken, after, done, file⟩
  · simp [failed, refused]
  -- A position that is taken leaves room for the length, so that no address wraps.
  · have low : r.seek.toNat < 2 ^ 63 := by
      rw [BitVec.msb_eq_decide, decide_eq_false_iff_not] at taken
      omega
    have same := Bus.fileWrite_same_iff disk r.seek.toNat
      (Bytes.get r.bus.memory segment.base segment.len.toNat) (by rw [Bytes.length_get]; omega)
    rw [Bytes.length_get] at same
    have bytes : (∀ index < segment.len.toNat,
        (Bytes.get r.bus.memory segment.base segment.len.toNat).getD index 0 =
          disk.bytes (BitVec.ofNat 64 (r.seek.toNat + index))) ↔
        ∀ index < segment.len.toNat, r.bus.memory (segment.base + BitVec.ofNat 64 index) =
          disk.bytes (BitVec.ofNat 64 (r.seek.toNat + index)) :=
      forall₂_congr fun index below => by rw [getD_get below]
    simp only [done, Except.ok.injEq, forall_eq', file, same, long, bytes, taken,
      Bool.false_eq_true, false_or]

/-- A write within the capacity changes exactly its bytes of the file. -/
theorem serve_write_within (bound : capacity ≤ disk.size) (small : disk.size < 2 ^ 63)
    (write : r.isWrite) {segment : IoVec} (single : r.data = [segment])
    (within_ : r.Within capacity) :
    ∃ after, r.serve disk = .ok after ∧ after.blk.disk.size = disk.size ∧
      ∀ at_ : BitVec 64, at_.toNat < disk.size → after.blk.disk.bytes at_ =
        if r.start ≤ at_.toNat ∧ at_.toNat < r.start + r.length then
          r.bus.memory (segment.base + BitVec.ofNat 64 (at_.toNat - r.start))
        else disk.bytes at_ := by
  have long : r.length = segment.len.toNat := by simp [length, single, Bus.total]
  obtain ⟨taken, position⟩ := seek_within bound small within_
  -- Within the capacity the seek cannot be refused.
  rcases serve_write disk write single with ⟨refused, -⟩ | ⟨-, after, done, file⟩
  · rw [taken] at refused
    cases refused
  · have fits : r.seek.toNat +
        (Bytes.get r.bus.memory segment.base segment.len.toNat).length ≤ disk.size := by
      rw [Bytes.length_get, ← long, position]
      exact within_.trans bound
    refine ⟨after, done, by rw [file, Bus.fileWrite_size fits], fun at_ inside => ?_⟩
    rw [file, Bus.fileWrite_bytes inside, Bytes.length_get, ← long, position]
    split
    · rename_i reached
      exact getD_get (by omega)
    · rfl

/-- A read within the capacity fills its segments from the file, and changes little else. -/
theorem serve_read_within (bound : capacity ≤ disk.size) (small : disk.size < 2 ^ 63)
    (read : ¬ r.isWrite) (some : r.data ≠ []) (within_ : r.Within capacity) :
    ∃ after, r.serve disk = .ok after ∧ after.blk.disk = disk ∧
      after.rom = r.bus.rom ∧ after.flash = r.bus.flash ∧
      ∀ at_, r.Elsewhere at_ → after.memory at_ =
        Bus.scatter disk r.data r.start r.bus.memory at_ := by
  obtain ⟨taken, position⟩ := seek_within bound small within_
  -- None of the three reasons to stop applies within the capacity.
  rcases serve_read disk read with ⟨stop, -, empty | refused | short⟩ | done
  · exact absurd empty some
  · rw [taken] at refused
    cases refused
  · rw [position] at short
    exact absurd (within_.trans bound) (Nat.not_le.mpr short)
  · rwa [position] at done

/-- A request that is not within the capacity keeps the file when it is harmless. -/
theorem Harmless.keeps (harmless : r.Harmless capacity disk) (outside : ¬ r.Within capacity)
    {after : Bus} (done : r.serve disk = .ok after) : after.blk.disk.Same disk := by
  -- A read leaves the file alone, and so does a write that is refused or repeats what is there.
  by_cases write : r.isWrite
  · by_cases single : ∃ segment, r.data = [segment]
    · obtain ⟨segment, single⟩ := single
      have kept := (harmless write segment single).resolve_left outside
      exact (write_same_iff write single).mpr kept after done
    · obtain ⟨stop, failed⟩ := serve_write_other disk write (not_exists.mp single)
      rw [failed] at done
      cases done
  · rcases serve_read disk write with ⟨stop, failed, -⟩ | ⟨other, served, file, -⟩
    · rw [failed] at done
      cases done
    · rw [served] at done
      cases Except.ok.inj done
      rw [file]
      exact ⟨rfl, fun _ _ => rfl⟩

/-- A request is obeyed exactly when it is harmless. -/
theorem obeyed_iff (bound : capacity ≤ disk.size) (small : disk.size < 2 ^ 63) :
    r.Obeyed capacity disk ↔ r.Harmless capacity disk := by
  constructor
  · -- A write outside the capacity keeps the file only where it is one of the other three kinds.
    intro obeyed write segment single
    by_cases within_ : r.Within capacity
    · exact .inl within_
    · exact .inr ((write_same_iff write single).mp (obeyed.outside within_))
  -- The three parts of obeying: a write inside, a read inside, and whatever is outside.
  · intro harmless
    refine ⟨?_, ?_, ?_⟩
    · intro write segment single within_
      exact serve_write_within bound small write single within_
    · intro read some within_
      obtain ⟨after, done, file, rom, flash, kept⟩ :=
        serve_read_within bound small read some within_
      refine ⟨after, done, file, rom, flash, fun at_ outside elsewhere => ?_, ?_⟩
      · rw [kept at_ elsewhere, Bus.scatter_outside outside]
      · intro front segment back split index inside last elsewhere
        rw [kept _ elsewhere, split, Bus.scatter_inside inside last]
    · intro outside after done
      exact harmless.keeps outside done

/-- A harmless request leaves the bytes it writes within the capacity, and else the old ones. -/
theorem next_written (bound : capacity ≤ disk.size) (small : disk.size < 2 ^ 63)
    (harmless : r.Harmless capacity disk) {after : Buffer} (done : r.next disk = .ok after) :
    after.size = disk.size ∧ ∀ at_ : BitVec 64, at_.toNat < disk.size →
      after.bytes at_ = (r.written capacity at_).getD (disk.bytes at_) := by
  have obeyed := (obeyed_iff bound small).mpr harmless
  obtain ⟨bus, served, rfl⟩ := map_eq_ok.mp done
  -- Where no byte is written, it is enough that the file is kept.
  have kept : bus.blk.disk.Same disk → (∀ at_, r.written capacity at_ = none) →
      bus.blk.disk.size = disk.size ∧ ∀ at_ : BitVec 64, at_.toNat < disk.size →
        bus.blk.disk.bytes at_ = (r.written capacity at_).getD (disk.bytes at_) := by
    rintro ⟨size, bytes⟩ none
    exact ⟨size, fun at_ inside => by rw [none, bytes at_ (size ▸ inside)]; rfl⟩
  by_cases write : r.isWrite
  · by_cases single : ∃ segment, r.data = [segment]
    · obtain ⟨segment, single⟩ := single
      by_cases within_ : r.Within capacity
      · obtain ⟨other, same, size, bytes⟩ := obeyed.write write segment single within_
        cases Except.ok.inj (same.symm.trans served)
        refine ⟨size, fun at_ inside => ?_⟩
        rw [bytes at_ inside, written, single]
        simp only [write, within_, true_and]
        split <;> rfl
      · exact kept (obeyed.outside within_ bus served) fun at_ => by simp [written, single, within_]
    · obtain ⟨stop, failed⟩ := serve_write_other disk write (not_exists.mp single)
      rw [failed] at served
      cases served
  · have unwritten : ∀ at_, r.written capacity at_ = none := by
      intro at_
      unfold written
      split
      · simp [write]
      · rfl
    rcases serve_read disk write with ⟨stop, failed, -⟩ | ⟨other, same, file, -⟩
    · rw [failed] at served
      cases served
    · cases Except.ok.inj (same.symm.trans served)
      rw [file] at kept ⊢
      exact kept ⟨rfl, fun _ _ => rfl⟩ unwritten

end BlockRequest

/-! ### Histories -/

/-- The capacity in bytes that the configuration of a disk of some size has for the driver. -/
def advertised (size : Nat) : Nat :=
  512 * (LittleEndian.load 64 (VirtioBlk.initConfig size).bytes 0 8).toNat

/-- A field of the configuration behind the capacity leaves it. -/
theorem load_capacity {mem : BitVec 64 → BitVec 8} {offset data : BitVec 64} {count : Nat}
    (behind : ∀ index < 8, count ≤ (0 + BitVec.ofNat 64 index - offset).toNat) :
    LittleEndian.load 64 (LittleEndian.store mem offset count data) 0 8 =
      LittleEndian.load 64 mem 0 8 :=
  LittleEndian.load_congr fun index below => LittleEndian.store_outside (behind index below)

/-- The advertised capacity is the file's size rounded down to whole sectors. -/
theorem advertised_eq {size : Nat} (small : size < 2 ^ 64) : advertised size = size / 512 * 512 := by
  unfold advertised VirtioBlk.initConfig
  dsimp only
  repeat rw [load_capacity (by decide)]
  rw [LittleEndian.load_store_same (by decide)]
  simp only [BitVec.setWidth_eq, BitVec.toNat_ushiftRight, BitVec.toNat_ofNat,
    Nat.mod_eq_of_lt small, Nat.shiftRight_eq_div_pow]
  omega

/-- The advertised capacity is not larger than the file. -/
theorem advertised_le {size : Nat} (small : size < 2 ^ 63) : advertised size ≤ size := by
  rw [advertised_eq (by omega)]
  omega

/-- Along a history, to be obeyed at each step is to be harmless at each step. -/
theorem along_obeyed_iff {capacity : Nat} {disk : Buffer} (bound : capacity ≤ disk.size)
    (small : disk.size < 2 ^ 63) (history : List BlockRequest) :
    Runs.Along BlockRequest.next (fun r file => r.Obeyed capacity file) disk history ↔
      Runs.Along BlockRequest.next (fun r file => r.Harmless capacity file) disk history := by
  induction history generalizing disk with
  | nil => exact .rfl
  | cons r rest ih =>
    rw [Runs.Along, Runs.Along, BlockRequest.obeyed_iff bound small]
    refine and_congr_right fun harmless => forall₂_congr fun after done => ?_
    -- A harmless request keeps the size of the file, so the bounds hold at the next one too.
    have size := (BlockRequest.next_written bound small harmless done).1
    exact ih (size ▸ bound) (size ▸ small)

/-- Every request of a history is obeyed exactly if each is harmless, and reads see last writes. -/
theorem requests_obeyed_iff {disk : Buffer} (small : disk.size < 2 ^ 63)
    (history : List BlockRequest) :
    (Runs.Along BlockRequest.next (fun r file => r.Obeyed (advertised disk.size) file) disk history ↔
      Runs.Along BlockRequest.next (fun r file => r.Harmless (advertised disk.size) file) disk
        history) ∧
    ∀ last, Runs.Along BlockRequest.next (fun r file => r.Harmless (advertised disk.size) file) disk
        history → Runs.run BlockRequest.next disk history = .ok last →
      (last.size = disk.size ∧ ∀ at_ : BitVec 64, at_.toNat < disk.size → last.bytes at_ =
        (Runs.lastWritten (BlockRequest.written · (advertised disk.size)) history at_).getD
          (disk.bytes at_)) ∧
      ∀ r : BlockRequest, ¬ r.isWrite → r.data ≠ [] → r.Within (advertised disk.size) →
        ∃ after, r.serve last = .ok after ∧
          ∀ front segment back, r.data = front ++ segment :: back →
            ∀ index < segment.len.toNat,
              (∀ later ∈ back, later.len.toNat ≤
                (segment.base + BitVec.ofNat 64 index - later.base).toNat) →
              r.Elsewhere (segment.base + BitVec.ofNat 64 index) →
              let at_ := BitVec.ofNat 64 (r.start + Bus.total front + index)
              after.memory (segment.base + BitVec.ofNat 64 index) =
                (Runs.lastWritten (BlockRequest.written · (advertised disk.size)) history
                  at_).getD (disk.bytes at_) := by
  have bound : advertised disk.size ≤ disk.size := advertised_le small
  refine ⟨along_obeyed_iff bound small history, fun last along ran => ?_⟩
  have reached : last.size = disk.size ∧ ∀ at_ : BitVec 64, at_.toNat < disk.size →
      last.bytes at_ = (Runs.lastWritten (BlockRequest.written · (advertised disk.size)) history
        at_).getD (disk.bytes at_) := by
    refine Runs.run_lastWritten (fun file : Buffer => file.size = disk.size)
      (fun at_ => at_.toNat < disk.size) Buffer.bytes ?_ rfl along ran
    intro r file after size harmless done
    obtain ⟨kept, bytes⟩ := BlockRequest.next_written (size ▸ bound) (size ▸ small) harmless done
    exact ⟨kept.trans size, fun at_ inside => bytes at_ (size ▸ inside)⟩
  refine ⟨reached, fun r read some within_ => ?_⟩
  have harmless : r.Harmless (advertised disk.size) last := fun write => absurd write read
  have obeyed := (BlockRequest.obeyed_iff (reached.1 ▸ bound) (reached.1 ▸ small)).mpr harmless
  obtain ⟨after, done, -, -, -, -, filled⟩ := obeyed.read read some within_
  refine ⟨after, done, fun front segment back split index inside latest elsewhere => ?_⟩
  rw [filled front segment back split index inside latest elsewhere]
  -- The place is within the capacity, where the file has what was written last.
  have covered : r.start + Bus.total front + index < disk.size := by
    rw [BlockRequest.Within, BlockRequest.length, split, Bus.total_append, Bus.total_cons] at within_
    omega
  exact reached.2 _ (by rw [BitVec.toNat_ofNat, Nat.mod_eq_of_lt (by omega)]; exact covered)

/-- A write of some first bytes of the disk, all of them 0xAB, from a queue of eight slots. -/
def firstBytes (len : BitVec 64) (placed : InMemory 0x80010000 len.toNat) : BlockRequest where
  host := { fuel := 1 }
  fuel := by decide
  bus :=
    { rom := .zeroed 0
      flash := .zeroed 0
      ram :=
        { bytes := fun offset => if offset = 0 then 1 else if 0x10000 ≤ offset then 0xAB else 0
          size := ramSize }
      uart := .init 0xa
      blk :=
        { vdev :=
            { id := 2
              irqNum := 1
              vq.vring := ⟨8, 4096, 0x80001000, 0x80001080, 0x80002000⟩
              config := VirtioBlk.initConfig 512 }
          disk := .zeroed 512 } }
  serves := ⟨rfl, by decide, ⟨by decide, by decide⟩, by decide⟩
  req := { index := 0, inLen := 1, iov := [⟨0x80000000, 16, 1⟩, ⟨0x80010000, len, 1⟩,
    ⟨0x80000800, 1, 2⟩] }
  header := ⟨0x80000000, 16, 1⟩
  data := [⟨0x80010000, len, 1⟩]
  status := ⟨0x80000800, 1, 2⟩
  shape := rfl
  headerOut := by decide
  headerPlaced := ⟨by decide, by decide, by decide⟩
  dataPlaced := by
    intro segment member
    rw [List.mem_singleton.mp member]
    exact ⟨(by decide : (0x80010000 : BitVec 64).toNat % 8 = 0), placed⟩
  statusPlaced := ⟨by decide, by decide⟩
  kind := by decide

/-- A write of two sectors to a disk of one overwrites that one. -/
theorem straddling_write_not_obeyed :
    ¬ ∀ (disk : Buffer) (history : List BlockRequest), disk.size < 2 ^ 63 →
      Runs.Along BlockRequest.next (fun r file => r.Obeyed (advertised disk.size) file) disk
        history := by
  intro claimed
  have obeyed := (claimed (.zeroed 512) [firstBytes 1024 ⟨by decide, by decide⟩] (by decide)).1
  have capacity : advertised 512 = 512 := advertised_eq (by decide)
  have size : (Buffer.zeroed 512).size = 512 := rfl
  rw [size, capacity] at obeyed
  have harmless := (BlockRequest.obeyed_iff size.ge (by decide)).mp obeyed (by decide) _ rfl
  -- It is none of the four harmless kinds.
  rcases harmless with within_ | empty | refused | ⟨fits, -⟩
  · revert within_
    decide
  · revert empty
    decide
  · revert refused
    decide
  · revert fits
    decide

/-- A write of the one sector of a disk is obeyed. -/
theorem requests_obeyed_iff_sector :
    Runs.Along BlockRequest.next (fun r file => r.Obeyed (advertised 512) file) (.zeroed 512)
      [firstBytes 512 ⟨by decide, by decide⟩] := by
  have capacity : advertised 512 = 512 := advertised_eq (by decide)
  have size : (Buffer.zeroed 512).size = 512 := rfl
  refine (@requests_obeyed_iff (.zeroed 512) (by decide) _).1.mpr
    ⟨fun _ _ _ => .inl ?_, fun _ _ => trivial⟩
  rw [size, capacity]
  decide

end Xemu
