import Xemu.Proofs.FlashImage
import Xemu.Proofs.KernelNames
import Xemu.Proofs.LoadOrder
import Xemu.Proofs.ModuleElf

/-! The flash holds the kernel and then every module that is needed, after those that it depends on. -/

namespace Xemu

/-! ### Files one behind the other -/

/-- The size of an image to whose end some files were added. -/
def flashEnd (size : Nat) (files : List HostFile) : Nat :=
  files.foldl (fun size file => Rounding.up (size + file.content.length) 8) size

/-- An image is another one with some files behind it. -/
structure FlashHolds (flash : Buffer) (files : List HostFile) (after : Buffer) : Prop where
  image : FlashImage after
  size : after.size = flashEnd flash.size files
  kept : ∀ i < flash.size, after.byte i = flash.byte i
  placed : ∀ before file rest, files = before ++ file :: rest → ∀ i < file.content.length,
    after.byte (flashEnd flash.size before + i) = file.stored i

section Files

variable {flash middle after : Buffer} {file : HostFile} {files : List HostFile}

/-- No file is behind an image. -/
theorem FlashHolds.nil (image : FlashImage flash) : FlashHolds flash [] flash where
  image := image
  size := rfl
  kept := fun _ _ => rfl
  placed := fun before file rest split => by simp at split

/-- A file is behind an image, and others are behind that one. -/
theorem FlashHolds.cons (added : FlashAdded flash file middle) (holds : FlashHolds middle files after) :
    FlashHolds flash (file :: files) after where
  image := holds.image
  size := by rw [holds.size, added.size, flashEnd, flashEnd, List.foldl_cons]
  kept i inside := by
    -- The image only grows, so what was inside of it still is.
    have grown : flash.size ≤ middle.size := by
      have larger := @Rounding.le_up (flash.size + file.content.length) 8 (by omega)
      rw [added.size]
      omega
    rw [holds.kept i (Nat.lt_of_lt_of_le inside grown), added.kept i inside]
  placed before other rest split i inside := by
    cases before with
    | nil =>
      obtain ⟨rfl, rfl⟩ := List.cons.inj split
      have within : flash.size + i < middle.size := by
        have larger := @Rounding.le_up (flash.size + file.content.length) 8 (by omega)
        rw [added.size]
        omega
      exact (holds.kept _ within).trans (added.placed i inside)
    | cons first before =>
      obtain ⟨rfl, rfl⟩ := List.cons.inj split
      have later := holds.placed before other rest rfl i inside
      rwa [added.size] at later

end Files

/-! ### Calls -/

section Calls

variable {host : ModuleHost} {flash after : Buffer} {call : FileCall}

/-- A file is added wherever the call completes. -/
theorem flashAdded_of_ok (image : FlashImage flash) (added : flashAddFile call flash = .ok after) :
    ∃ file, call.file = some file ∧ FlashAdded flash file after := by
  have fits := @flashFits_of_defined call flash image fun what undefined => by
    rw [added] at undefined
    cases undefined
  exact (flashRight_of_fits image fits).adds after added

/-- The calls of the callback add the files with the names. -/
theorem called_holds {names : List String} (image : FlashImage flash)
    (added : called (sortFunc host) flash names = .ok after) :
    ∃ files, List.Forall₂ (fun name file => (host.call name).file = some file) names files ∧
      FlashHolds flash files after := by
  -- The induction is on the names, whose files come behind each other.
  induction names generalizing flash with
  | nil =>
    cases added
    exact ⟨[], .nil, .nil image⟩
  | cons name rest ih =>
    obtain ⟨middle, first, later⟩ := bind_eq_ok.mp added
    simp only [sortFunc] at first
    split at first
    · cases first
    · obtain ⟨file, opened, one⟩ := flashAdded_of_ok image first
      obtain ⟨files, all, holds⟩ := ih (flashImage_kept first) later
      exact ⟨file :: files, .cons opened all, .cons one holds⟩

/-- Adding a file takes no rounds that could run out. -/
theorem flashAddFile_settles (call : FileCall) (flash : Buffer) : Settles (flashAddFile call flash) := by
  have copy (buffer source : Buffer) : Settles (buffer.copyFrom source) :=
    .ite (.ok _) (.error (by decide))
  have fill (buffer : Buffer) (start : BitVec 64) (data : List (BitVec 8)) :
      Settles (buffer.fill start data) :=
    .ite (.ok _) (.error (by decide))
  have check (buffer : Buffer) (start : BitVec 64) : Settles (buffer.elf64HdrCheck start) :=
    .bind (.ite (.ok _) (.error (by decide))) fun magic => .ok _
  have set (buffer : Buffer) (start length : BitVec 64) :
      Settles (buffer.elf64HdrSetLength start length) :=
    .ite (.ok _) (.error (by decide))
  -- Each step is one test, and no stop of it is that of a loop.
  unfold flashAddFile
  split
  · exact .error (by decide)
  · refine .ite (.error (by decide)) (.ite (.error (by decide)) ?_)
    refine .bind (copy _ _) fun ptr => .bind (fill _ _ _) fun ptr => .ite (.error (by decide)) ?_
    exact .bind (check _ _) fun elf => .ite (set _ _ _) (.ok _)

/-- The calls of the callback take no rounds that could run out. -/
theorem called_settles (names : List String) (flash : Buffer) :
    Settles (called (sortFunc host) flash names) := by
  induction names generalizing flash with
  | nil => exact .ok _
  | cons name rest ih =>
    have one : Settles (sortFunc host name flash) := by
      rw [sortFunc]
      exact .ite (.error (by decide)) (flashAddFile_settles _ _)
    exact .bind one fun middle => ih middle

/-- What loading comes to, once the kernel is added. -/
theorem loadModules_ends (host : ModuleHost) (startpoint : Option String) (image : FlashImage flash) :
    ∃ rounds, ∀ bound ≥ rounds, ∀ fuel ≥ rounds,
      Ends (ModuleHeap.sortModules host (sortFunc host) bound fuel startpoint flash >>=
          ModuleHeap.clearModules bound)
        (fun heap => ∃ names files, InOrder host startpoint names ∧
          List.Forall₂ (fun name file => (host.call name).file = some file) names files ∧
          FlashHolds flash files heap.opaqueData)
        (· ≠ .fuel) ∧
      ∀ names after, sortedNames host fuel startpoint = .ok names →
        called (sortFunc host) flash names = .ok after →
        ∃ heap, (ModuleHeap.sortModules host (sortFunc host) bound fuel startpoint flash >>=
          ModuleHeap.clearModules bound) = .ok heap ∧ heap.opaqueData = after := by
  obtain ⟨rounds, follows⟩ := sortModules_follows host (sortFunc host) startpoint flash
  obtain ⟨depth, ends⟩ := sortedNames_ends host startpoint
  refine ⟨max rounds depth, fun bound enough fuel deep => ?_⟩
  have same := follows bound (Nat.le_trans (Nat.le_max_left ..) enough) fuel
  have sorts := ends fuel (Nat.le_trans (Nat.le_max_right ..) deep)
  constructor
  case right =>
    intro names after sort added
    obtain ⟨heap, done, made, -, -⟩ := same.completes sort added
    exact ⟨heap, done, Except.ok.inj (made.symm.trans added)⟩
  cases ran : ModuleHeap.sortModules host (sortFunc host) bound fuel startpoint flash >>=
    ModuleHeap.clearModules bound with
  | error stop =>
    rw [ran] at same
    -- Either the sort has stopped, or a file could not be added.
    rcases same with sort | ⟨made, stopped, -⟩
    · exact .error (sorts.stopped _ sort).1
    · exact .error ((called_settles made flash).stopped _ stopped).1
  | ok heap =>
    rw [ran] at same
    obtain ⟨names, sort, added, -, -⟩ := same
    obtain ⟨files, all, holds⟩ := called_holds image added
    exact .ok ⟨names, files, sorts.ensures _ sort, all, holds⟩

end Calls

/--
The flash is loaded, or loading stops for a reason other than a loop or a call without an end.

What was in the flash before is kept. The kernel comes behind it, and then the modules that are
needed, each once and after all those that it depends on. Each file begins where the one before it
ends, rounded up to a multiple of eight, and is whole, a module with its length in its header.
Loading does complete if the sort on lists does and all the files can be added.
-/
theorem flashLoadModules_holds (host : ModuleHost) (startpoint : Option String) {flash : Buffer}
    (image : FlashImage flash) : ∃ rounds, ∀ bound ≥ rounds, ∀ fuel ≥ rounds,
      Ends (flashLoadModules host bound fuel startpoint flash)
        (fun after => ∃ names kernel files, InOrder host startpoint names ∧
          (host.call "startup.bin").file = some kernel ∧
          List.Forall₂ (fun name file => (host.call name).file = some file) names files ∧
          FlashHolds flash (kernel :: files) after)
        (· ≠ .fuel) ∧
      ∀ names middle after, sortedNames host fuel startpoint = .ok names →
        flashAddFile (host.call "startup.bin") flash = .ok middle →
        called (sortFunc host) middle names = .ok after →
        flashLoadModules host bound fuel startpoint flash = .ok after := by
  -- The kernel comes first: when it can not be added, no module is read.
  cases first : flashAddFile (host.call "startup.bin") flash with
  | error stop =>
    refine ⟨0, fun bound _ fuel _ => ?_⟩
    rw [flashLoadModules, first]
    refine ⟨.error ((flashAddFile_settles _ _).stopped _ first).1, fun _ _ _ _ impossible => ?_⟩
    cases impossible
  | ok middle =>
    obtain ⟨kernel, opened, added⟩ := flashAdded_of_ok image first
    -- The modules go behind it, into a flash that is still well formed.
    obtain ⟨rounds, loads⟩ := loadModules_ends host startpoint (flashImage_kept first)
    refine ⟨rounds, fun bound enough fuel deep => ?_⟩
    obtain ⟨ends, completes⟩ := loads bound enough fuel deep
    rw [flashLoadModules, first, ok_bind, ← bind_assoc]
    constructor
    · refine ends.bind ?_
      rintro heap ⟨names, files, order, all, holds⟩
      exact .ok ⟨names, kernel, files, order, opened, all, .cons added holds⟩
    · rintro names _ after sort ⟨⟩ called_all
      obtain ⟨heap, done, same⟩ := completes names after sort called_all
      rw [done, ok_bind, ← same]
      rfl

/-- A host with a kernel and a module that needs a name of it. -/
def sampleBoot : ModuleHost where
  directory := some [".", "..", "System.map", "a.ko", "startup.bin"]
  call name :=
    if name = "System.map" then { file := some sampleMap, delivers := 4096 }
    else if name = "startup.bin" then { file := some sampleImage, delivers := 4096 }
    else { file := some sampleModule, delivers := 4096 }

theorem flashLoadModules_holds_sample : ∃ bound fuel after names kernel files,
    flashLoadModules sampleBoot bound fuel none flashInit = .ok after ∧
      InOrder sampleBoot none names ∧ (sampleBoot.call "startup.bin").file = some kernel ∧
      List.Forall₂ (fun name file => (sampleBoot.call name).file = some file) names files ∧
      FlashHolds flashInit (kernel :: files) after := by
  have image : FlashImage flashInit := ⟨by decide, by decide⟩
  obtain ⟨rounds, loads⟩ := flashLoadModules_holds sampleBoot none image
  obtain ⟨ends, completes⟩ := loads rounds (Nat.le_refl _) (rounds + 2) (Nat.le_add_right ..)
  have read : readModules sampleBoot none =
      .ok (["u"], [{ name := "a.ko", exported := ["e"], undefSyms := ["u"] }]) := by
    decide +kernel
  have sort : sortedNames sampleBoot (rounds + 2) none = .ok ["a.ko"] := by
    rw [sortedNames, read]
    rfl
  have adds : (flashAddFile (sampleBoot.call "startup.bin") flashInit >>= fun middle =>
      called (sortFunc sampleBoot) middle ["a.ko"]).isOk := by
    decide +kernel
  cases added : flashAddFile (sampleBoot.call "startup.bin") flashInit >>= fun middle =>
      called (sortFunc sampleBoot) middle ["a.ko"] with
  | error stop =>
    rw [added] at adds
    cases adds
  | ok after =>
    obtain ⟨middle, first, later⟩ := bind_eq_ok.mp added
    have loaded := completes ["a.ko"] middle after sort first later
    obtain ⟨names, kernel, files, order, opened, all, holds⟩ := ends.ensures after loaded
    exact ⟨_, _, after, names, kernel, files, loaded, order, opened, all, holds⟩

end Xemu
