import Xemu.Boot.Images
import Xemu.Lib.Runs

/-! The ROM image after any number of files were added to it, with their lengths recorded below them. -/

namespace Xemu

/-! ### A call and the image it is to leave -/

/-- The image, with the places and lengths of the files that were added to it. -/
structure RomState where
  image : Buffer := romInit
  files : List (Nat × Nat) := []

/-- A call of `rom_add_file`. -/
structure RomCall extends FileCall where
  base : BitVec 64

namespace RomCall

/-- The length of the file that is added. -/
def length (call : RomCall) : Nat := (call.file.map fun file => file.content.length).getD 0

/-- The state after a call. -/
def next (call : RomCall) (s : RomState) : Except Stop RomState :=
  (romAddFile call.toFileCall call.base s.image).map fun image =>
    { image, files := (call.base.toNat, call.length) :: s.files }

end RomCall

/-- A byte of the image belongs to a file that was added to it. -/
def RomState.Owned (s : RomState) (i : Nat) : Prop :=
  ∃ place ∈ s.files, place.1 ≤ i ∧ i < place.1 + place.2

/-- What is so of every image: it fits a word, and the files lie in it. -/
structure RomState.Valid (s : RomState) : Prop where
  space : s.image.size ≤ romSpaceSize
  inside : ∀ i, s.Owned i → i < s.image.size

/-- The image after a file was added at its base. -/
structure RomAdded (s : RomState) (base : Nat) (file : HostFile) (after : Buffer) : Prop where
  placed : ∀ i < file.content.length, after.byte (base + i) = file.content.getD i 0
  recorded : base ≠ 0 → 8 ≤ base ∧
    ∀ i < 8, after.byte (base - 8 + i) = (file.size >>> (8 * i)).setWidth 8
  kept : ∀ i, s.Owned i → after.byte i = s.image.byte i

/-- A call panics or adds its file, and no index it uses lies outside the image it allocates. -/
structure RomRight (call : RomCall) (s : RomState) : Prop where
  panics : ∀ stop, call.next s = .error stop → ∃ text, stop = .panic text
  adds : ∀ after, call.next s = .ok after →
    ∃ file, call.file = some file ∧ RomAdded s call.base.toNat file after.image

/-- The size of the image with a file, as the macro computes it. -/
def romSize (base : BitVec 64) (file : HostFile) : Nat := (roundUp (base + file.size) 8).toNat

/-- A call passes the checks that it makes before it copies anything. -/
structure RomPasses (call : RomCall) (s : RomState) (file : HostFile) : Prop where
  opened : call.file = some file
  behind : s.image.size ≤ call.base.toNat
  small : romSize call.base file ≤ romSpaceSize
  allocates : call.allocates = true

/--
The bytes that are read fit the size computed, and there is room for the length below the file.

There is where the file is put at zero, or behind eight bytes none of which belongs to an earlier
file, unless that byte is the one of the length already.
-/
def RomFits (call : RomCall) (s : RomState) : Prop :=
  ∀ file, RomPasses call s file →
    call.base.toNat + (call.delivered file).length ≤ romSize call.base file ∧
      ((call.delivered file).length = file.content.length → call.base = 0 ∨
        8 ≤ call.base.toNat ∧ ∀ i, s.Owned i → call.base.toNat ≤ i + 8 →
          s.image.byte i = (file.size >>> (8 * (i + 8 - call.base.toNat))).setWidth 8)

/-! ### The checks -/

section Call

variable {call : RomCall} {s : RomState} {file : HostFile}

/-- A call that does not pass the checks panics. -/
theorem romAddFile_refused (refused : ∀ file, ¬ RomPasses call s file) :
    ∃ text, romAddFile call.toFileCall call.base s.image = .error (.panic text) := by
  unfold romAddFile
  split
  · exact ⟨_, rfl⟩
  · rename_i file opened
    -- The checks are made in this order, and each of them panics.
    by_cases early : call.base.toNat < s.image.size
    · exact ⟨_, if_pos early⟩
    · by_cases large : romSize call.base file > romSpaceSize
      · exact ⟨_, (if_neg early).trans (if_pos large)⟩
      · by_cases memory : call.allocates = true
        · exact absurd ⟨opened, Nat.le_of_not_lt early, Nat.le_of_not_lt large, memory⟩
            (refused file)
        · refine ⟨"rom_add_file: alloc memory failed!\n",
            (if_neg early).trans ((if_neg large).trans (if_pos ?_))⟩
          simpa using memory

/-- The copy of an image without bytes may as well be made. -/
theorem copyFrom_guard (rom : Buffer) (size : Nat) :
    (if rom.size > 0 then (Buffer.zeroed size).copyFrom rom else .ok (Buffer.zeroed size)) =
      (Buffer.zeroed size).copyFrom rom := by
  split
  · rfl
  · rename_i empty
    have none : rom.size = 0 := by omega
    simp [Buffer.copyFrom, Buffer.zeroed, none]

/-- A call that passes the checks goes on to copy the image and read the file. -/
theorem romAddFile_passes (passes : RomPasses call s file) :
    romAddFile call.toFileCall call.base s.image =
      ((Buffer.zeroed (romSize call.base file)).copyFrom s.image >>= fun ptr =>
        ptr.fill call.base (call.delivered file)) >>= fun ptr =>
          if (call.delivered file).length ≠ file.content.length then
            .error (.panic "rom_add_file: read file failed!\n")
          else if call.base ≠ 0 then ptr.write (call.base - 8) 8 file.size else .ok ptr := by
  obtain ⟨opened, behind, small, memory⟩ := passes
  unfold romAddFile
  rw [opened]
  refine (if_neg (Nat.not_lt.mpr behind)).trans ((if_neg (Nat.not_lt.mpr small)).trans
    ((if_neg (by simp [memory])).trans ?_))
  change ((if s.image.size > 0 then (Buffer.zeroed (romSize call.base file)).copyFrom s.image
    else .ok (Buffer.zeroed (romSize call.base file))) >>= _) = _
  -- What follows does the same, with the two steps after the allocation taken together.
  rw [copyFrom_guard, bind_assoc]
  refine bind_congr fun copy => bind_congr fun ptr => ?_
  dsimp only
  split <;> rfl

/-! ### What a call computes -/

/-- A call that reads past the size that was computed is undefined. -/
theorem romAddFile_outside (passes : RomPasses call s file)
    (outside : ¬ call.base.toNat + (call.delivered file).length ≤ romSize call.base file) :
    ∃ what, romAddFile call.toFileCall call.base s.image = .error (.undefined what) := by
  obtain ⟨what, stopped⟩ := Buffer.copy_fill_outside s.image outside
  rw [romAddFile_passes passes, stopped]
  exact ⟨what, rfl⟩

/-- The file is read behind the image, and what is left is to record its length. -/
theorem romAddFile_whole (passes : RomPasses call s file)
    (room : call.base.toNat + file.content.length ≤ romSize call.base file)
    (whole : (call.delivered file).length = file.content.length) :
    romAddFile call.toFileCall call.base s.image =
      if call.base ≠ 0 then (s.image.loaded (romSize call.base file) call.base file.content).write
        (call.base - 8) 8 file.size
      else .ok (s.image.loaded (romSize call.base file) call.base file.content) := by
  rw [romAddFile_passes passes, FileCall.delivered_whole whole, Buffer.copy_fill passes.behind room, ok_bind,
    if_neg (not_not.mpr rfl)]

/-- The bytes of an image that a file was read behind. -/
theorem byte_loaded_rom (valid : s.Valid) (passes : RomPasses call s file)
    (room : call.base.toNat + file.content.length ≤ romSize call.base file) :
    (∀ i < file.content.length,
      (s.image.loaded (romSize call.base file) call.base file.content).byte (call.base.toNat + i) =
        file.content.getD i 0) ∧
    ∀ i, s.Owned i →
      (s.image.loaded (romSize call.base file) call.base file.content).byte i =
        s.image.byte i := by
  -- The image ends before the base, so the file is read behind every earlier one.
  have small := passes.small
  have behind := passes.behind
  unfold romSpaceSize at small
  refine ⟨fun i inside => ?_, fun i owned => ?_⟩
  · rw [Buffer.byte_loaded behind (by omega) (by omega), if_neg (by omega), if_pos (by omega),
      Nat.add_sub_cancel_left]
  · have old := valid.inside i owned
    rw [Buffer.byte_loaded behind (by omega) (by omega), if_pos old]

/-- A file that is put at zero is added without a record of its length. -/
theorem romAdded_zero (valid : s.Valid) (passes : RomPasses call s file)
    (room : call.base.toNat + file.content.length ≤ romSize call.base file)
    (zero : call.base = 0) :
    RomAdded s call.base.toNat file
      (s.image.loaded (romSize call.base file) call.base file.content) := by
  obtain ⟨placed, kept⟩ := byte_loaded_rom valid passes room
  exact ⟨placed, fun other => absurd (congrArg BitVec.toNat zero) other, kept⟩

/-- The record of a length starts eight bytes before the file. -/
theorem toNat_record {base : BitVec 64} (above : 8 ≤ base.toNat) :
    (base - 8).toNat = base.toNat - 8 :=
  BitVec.toNat_sub_of_le (BitVec.le_def.mpr above)

/-- A record that hits no byte of an earlier file, or none that it changes, leaves the files. -/
theorem romAdded_recorded {after : Buffer} (valid : s.Valid) (passes : RomPasses call s file)
    (room : call.base.toNat + file.content.length ≤ romSize call.base file)
    (above : 8 ≤ call.base.toNat)
    (written : (s.image.loaded (romSize call.base file) call.base file.content).write
      (call.base - 8) 8 file.size = .ok after) :
    RomAdded s call.base.toNat file after ↔ ∀ i, s.Owned i → call.base.toNat ≤ i + 8 →
      s.image.byte i = (file.size >>> (8 * (i + 8 - call.base.toNat))).setWidth 8 := by
  obtain ⟨placed, kept⟩ := byte_loaded_rom valid passes room
  have small := passes.small
  have behind := passes.behind
  unfold romSpaceSize at small
  have record := toNat_record above
  have bytes := fun {i : Nat} => Buffer.byte_write (i := i) written (by
    change romSize call.base file ≤ _
    omega)
  rw [record] at bytes
  constructor
  · intro added i owned near
    -- A byte below the base is one of the record, and it is as it was.
    have old := valid.inside i owned
    rw [← added.kept i owned, bytes (by omega), if_pos (by omega)]
    congr 3
    omega
  · intro spared
    refine ⟨fun i inside => ?_, fun _ => ⟨above, fun i few => ?_⟩, fun i owned => ?_⟩
    · rw [bytes (by omega), if_neg (by omega)]
      exact placed i inside
    · rw [bytes (by omega), if_pos (by omega), Nat.add_sub_cancel_left]
    · have old := valid.inside i owned
      rw [bytes (by omega)]
      split_ifs with inside
      · rw [spared i owned (by omega)]
        congr 3
        omega
      · exact kept i owned

/-- A record of a file that is put in the first eight bytes lies before the image. -/
theorem romAddFile_before (passes : RomPasses call s file)
    (room : call.base.toNat + file.content.length ≤ romSize call.base file)
    (whole : (call.delivered file).length = file.content.length) (some : call.base ≠ 0)
    (below : call.base.toNat < 8) :
    ∃ what, romAddFile call.toFileCall call.base s.image = .error (.undefined what) := by
  have small := passes.small
  unfold romSpaceSize at small
  -- Below eight the address of the record wraps around.
  have outside : ¬ (call.base - 8).toNat + 8 ≤ romSize call.base file := by
    rw [BitVec.toNat_sub]
    change ¬ (2 ^ 64 - 8 + call.base.toNat) % 2 ^ 64 + 8 ≤ _
    omega
  rw [romAddFile_whole passes room whole, if_pos some, Buffer.write]
  exact ⟨_, if_neg outside⟩

/-- What a call that completes has read, and the size of the image that it leaves. -/
theorem romAddFile_completed {image : Buffer}
    (added : romAddFile call.toFileCall call.base s.image = .ok image) :
    ∃ file, RomPasses call s file ∧
      call.base.toNat + file.content.length ≤ romSize call.base file ∧
      (call.delivered file).length = file.content.length ∧
      image.size = romSize call.base file := by
  obtain ⟨file, passes⟩ : ∃ file, RomPasses call s file := by
    by_contra refused
    obtain ⟨text, panics⟩ := romAddFile_refused fun file passes => refused ⟨file, passes⟩
    rw [panics] at added
    cases added
  -- A call that did not stop has passed each check and read the whole file.
  have room : call.base.toNat + (call.delivered file).length ≤ romSize call.base file := by
    by_contra outside
    obtain ⟨what, undefined⟩ := romAddFile_outside passes outside
    rw [undefined] at added
    cases added
  have whole : (call.delivered file).length = file.content.length := by
    by_contra short
    rw [romAddFile_passes passes, Buffer.copy_fill passes.behind room, ok_bind, if_pos short]
      at added
    cases added
  rw [whole] at room
  refine ⟨file, passes, room, whole, ?_⟩
  rw [romAddFile_whole passes room whole] at added
  split at added
  · exact Buffer.write_size _ _ _ _ image added
  · cases Except.ok.inj added
    rfl

/-- A call that completes leaves a valid state. -/
theorem valid_next {after : RomState} (valid : s.Valid) (added : call.next s = .ok after) :
    after.Valid := by
  obtain ⟨image, completed, rfl⟩ := map_eq_ok.mp added
  obtain ⟨file, passes, room, _, size⟩ := romAddFile_completed completed
  refine ⟨size ▸ passes.small, ?_⟩
  rintro i ⟨place, member, first, last⟩
  change i < image.size
  rw [size]
  -- The byte belongs to the file just added or to one before it.
  rcases List.mem_cons.mp member with rfl | earlier
  · have length : call.length = file.content.length := by
      simp [RomCall.length, passes.opened]
    change i < call.base.toNat + call.length at last
    omega
  · have old := valid.inside i ⟨place, earlier, first, last⟩
    have behind := passes.behind
    omega

/-- A call is right when it can only end with a panic or with its file added. -/
theorem RomRight.of_ends (ends : Ends (romAddFile call.toFileCall call.base s.image)
    (fun image => ∃ file, call.file = some file ∧ RomAdded s call.base.toNat file image)
    fun stop => ∃ text, stop = .panic text) : RomRight call s := by
  refine ⟨fun stop stopped => ?_, fun after added => ?_⟩
  · -- The state around the image has no part in whether the call stops.
    rw [RomCall.next] at stopped
    cases result : romAddFile call.toFileCall call.base s.image with
    | error early =>
      rw [result] at stopped
      cases stopped
      exact ends.stopped stop result
    | ok image =>
      rw [result] at stopped
      cases stopped
  · obtain ⟨image, completed, rfl⟩ := map_eq_ok.mp added
    exact ends.ensures image completed

/-- A call is right where what it reads fits and its record has room. -/
theorem romRight_of_fits (valid : s.Valid) (fits : RomFits call s) : RomRight call s := by
  apply RomRight.of_ends
  by_cases checked : ∃ file, RomPasses call s file
  · obtain ⟨file, passes⟩ := checked
    obtain ⟨room, record⟩ := fits file passes
    by_cases whole : (call.delivered file).length = file.content.length
    · rw [whole] at room
      have result := romAddFile_whole passes room whole
      by_cases zero : call.base = 0
      · rw [result, if_neg (not_not.mpr zero)]
        exact .ok ⟨file, passes.opened, romAdded_zero valid passes room zero⟩
      · obtain ⟨above, spared⟩ := (record whole).resolve_left zero
        rw [if_pos zero] at result
        -- The record ends where the file starts.
        have inside : (call.base - 8).toNat + 8 ≤ romSize call.base file := by
          rw [toNat_record above]
          omega
        obtain ⟨after, written⟩ := Buffer.write_inside
          (s.image.loaded (romSize call.base file) call.base file.content) inside file.size
        rw [result.trans written]
        exact .ok ⟨file, passes.opened,
          (romAdded_recorded valid passes room above written).mpr spared⟩
    · -- The read ended early, and the call panics.
      rw [romAddFile_passes passes, Buffer.copy_fill passes.behind room, ok_bind, if_pos whole]
      exact .error ⟨_, rfl⟩
  · obtain ⟨text, panics⟩ := romAddFile_refused fun file passes => checked ⟨file, passes⟩
    rw [panics]
    exact .error ⟨text, rfl⟩

/-- What a right call reads fits, and its record has room. -/
theorem romFits_of_right (valid : s.Valid) (right : RomRight call s) : RomFits call s := by
  -- No step of the call is undefined.
  have defined : ∀ what,
      romAddFile call.toFileCall call.base s.image ≠ .error (.undefined what) := by
    intro what undefined
    obtain ⟨text, impossible⟩ := right.panics (.undefined what) (by rw [RomCall.next, undefined]; rfl)
    cases impossible
  intro file passes
  have room : call.base.toNat + (call.delivered file).length ≤ romSize call.base file := by
    by_contra outside
    obtain ⟨what, undefined⟩ := romAddFile_outside passes outside
    exact defined what undefined
  refine ⟨room, fun whole => ?_⟩
  rw [whole] at room
  by_cases zero : call.base = 0
  · exact .inl zero
  · have above : 8 ≤ call.base.toNat := by
      by_contra below
      obtain ⟨what, undefined⟩ := romAddFile_before passes room whole zero (by omega)
      exact defined what undefined
    have result := romAddFile_whole passes room whole
    rw [if_pos zero] at result
    have inside : (call.base - 8).toNat + 8 ≤ romSize call.base file := by
      rw [toNat_record above]
      omega
    obtain ⟨after, written⟩ := Buffer.write_inside
      (s.image.loaded (romSize call.base file) call.base file.content) inside file.size
    obtain ⟨other, opened, added⟩ := right.adds _ (by rw [RomCall.next, result, written]; rfl)
    cases Option.some.inj (opened.symm.trans passes.opened)
    exact .inr ⟨above, (romAdded_recorded valid passes room above written).mp added⟩

end Call

/--
In a run every call is right exactly when what it reads fits and its record has room.

The run starts without an image.
-/
theorem rom_right_iff (calls : List RomCall) :
    Runs.Along RomCall.next RomRight {} calls ↔ Runs.Along RomCall.next RomFits {} calls := by
  have start : RomState.Valid {} := ⟨by decide, by rintro i ⟨place, impossible, _⟩; cases impossible⟩
  -- Every call leaves the record of the files valid, and with it the call is right if it fits.
  exact Runs.along_iff_of_invariant RomState.Valid (fun _ _ _ valid added => valid_next valid added)
    (fun _ _ valid => ⟨romFits_of_right valid, romRight_of_fits valid⟩) start

/-- A file of eight bytes at zero. -/
def fullCall : RomCall where
  file := some ⟨[1, 2, 3, 4, 5, 6, 7, 8], show 8 < 2 ^ 64 by decide⟩
  delivers := 8
  base := 0

/-- An empty file right behind it. -/
def adjacentCall : RomCall where
  file := some .empty
  delivers := 0
  base := 8

/-- The length of the second file is recorded over the first one. -/
theorem record_overwrites : ¬ ∀ calls, Runs.Along RomCall.next RomRight {} calls := by
  intro always
  -- Both calls complete, and the second one changes a byte of the first file.
  obtain ⟨first, second, ran, followed, owned, changed⟩ : ∃ first second,
      fullCall.next {} = .ok first ∧ adjacentCall.next first = .ok second ∧ first.Owned 0 ∧
        second.image.byte 0 ≠ first.image.byte 0 :=
    ⟨_, _, rfl, rfl, ⟨(0, 8), List.mem_cons_self, by decide, by decide⟩, by decide⟩
  have right := ((always [fullCall, adjacentCall]).2 first ran).1
  obtain ⟨file, _, added⟩ := right.adds second followed
  exact changed (added.kept 0 owned)

end Xemu
