import Xemu.Boot.Images
import Xemu.Boot.ModuleHeap
import Xemu.Lib.CStrings
import Xemu.Lib.Records

/-! The files that `module.c` reads: the directory, the map of the kernel and the modules themselves. -/

namespace Xemu

open Records

/-- The text that some bytes are, each byte being a character. -/
def text (bytes : List (BitVec 8)) : String := String.ofList (bytes.map fun byte => Char.ofNat byte.toNat)

/-- What a read behind the end of a buffer is. -/
def Stop.overread : Stop := .undefined "read behind the end of a buffer"

/-- The host's answers to the calls of `module.c` and of its callback. -/
structure ModuleHost where
  /-- The entries of the module directory in the order of `scandir`, if it can be read. -/
  directory : Option (List String)
  /-- What happens when a file of the module directory is used. -/
  call : String → FileCall

/-! ### Streams -/

/-- A `FILE` that is open for reading. -/
structure Stream where
  content : List (BitVec 8)
  pos : Nat

namespace Stream

/-- An `fseek` from the start of the file, which a negative offset lets fail. -/
def fseek (offset : Nat) (fp : Stream) : Stream :=
  if offset < 2 ^ 63 then { fp with pos := offset } else fp

/-- What an `fread` of so many bytes delivers. -/
def fread (count : Nat) (fp : Stream) : List (BitVec 8) × Stream :=
  let data := (fp.content.drop fp.pos).take count
  (data, { fp with pos := fp.pos + data.length })

end Stream

/-! ### Modules -/

/-- The part of an `Elf64_Ehdr` that is used. -/
structure Elf64Ehdr where
  shoff : Nat
  shnum : Nat
  shstrndx : Nat

/-- The part of an `Elf64_Shdr` that is used. -/
structure Elf64Shdr where
  name : Nat
  type : Nat
  offset : Nat
  size : Nat
  link : Nat

/-- The sizes of the three records. -/
def ehdrSize : Nat := 64
def shdrSize : Nat := 64
def symSize : Nat := 24

/-- An `Elf64_Ehdr` as it is in a file. -/
def Elf64Ehdr.ofBytes (bytes : List (BitVec 8)) : Elf64Ehdr where
  shoff := field bytes 40 8
  shnum := field bytes 60 2
  shstrndx := field bytes 62 2

/-- An `Elf64_Shdr` as it is in a file. -/
def Elf64Shdr.ofBytes (bytes : List (BitVec 8)) : Elf64Shdr where
  name := field bytes 0 4
  type := field bytes 4 4
  offset := field bytes 24 8
  size := field bytes 32 8
  link := field bytes 40 4

/-- The names of one section that matter, and what they are. -/
inductive SectionNames where
  /-- Names that the module needs. -/
  | undef (names : List String)
  /-- Names that the module exports. -/
  | exported (names : List String)
  deriving DecidableEq, Repr

/-- The names that `export_symbols` comes to in a buffer. -/
def exportedNames (buffer : List (BitVec 8)) : Except Stop (List String) :=
  match CStrings.split buffer with
  | none => .error .overread
  | some names => .ok (names.map text)

/-- `get_strtab`. -/
def getStrtab (shdr : Elf64Shdr) (fp : Stream) : Except Stop (List (BitVec 8) × Stream) :=
  let (str, fp) := (fp.fseek shdr.offset).fread shdr.size
  if str.length ≠ shdr.size then .error (.panic "Read str section error\n") else .ok (str, fp)

/-- The loop of `discover_undef_syms`, over the remaining entries of a symbol table. -/
def undefNames (strtab sym : List (BitVec 8)) : List Nat → Except Stop (List String)
  | [] => .ok []
  | i :: rest =>
    let name := field sym (symSize * i) 4
    let shndx := field sym (symSize * i + 6) 2
    if shndx = 0 then
      match CStrings.first (strtab.drop name) with
      | none => .error .overread
      | some string => do
        let names ← undefNames strtab sym rest
        return text string :: names
    else undefNames strtab sym rest

/-- `discover_undef_syms`, with the names instead of their list. -/
def discoverUndefSyms (shdr : Elf64Shdr) (strtab : List (BitVec 8)) (fp : Stream) :
    Except Stop (List String × Stream) := do
  let (sym, fp) := (fp.fseek shdr.offset).fread shdr.size
  if sym.length ≠ shdr.size then throw (.panic "Read sym section error\n")
  -- The first entry of a symbol table is not used.
  let names ← undefNames strtab sym (List.range' 1 (shdr.size / symSize - 1))
  return (names, fp)

/-- A `strcmp` of what is left of a buffer with a string and its end. -/
def strcmpEqual : List (BitVec 8) → List (BitVec 8) → Except Stop Bool
  | _, [] => .ok true
  | [], _ :: _ => .error .overread
  | byte :: rest, other :: others => if byte = other then strcmpEqual rest others else .ok false

/-- The name of the section in which a module keeps the names it exports, with its end. -/
def ksymtabStrings : List (BitVec 8) :=
  [0x5F, 0x6B, 0x73, 0x79, 0x6D, 0x74, 0x61, 0x62, 0x5F, 0x73, 0x74, 0x72, 0x69, 0x6E, 0x67, 0x73, 0]

/-- What the loop of `analysis_module` does for one section. -/
def analysisSection (sechdrs : List Elf64Shdr) (secstrings : List (BitVec 8)) (shdr : Elf64Shdr)
    (fp : Stream) : Except Stop (Option SectionNames × Stream) :=
  if shdr.type = 2 then
    match sechdrs[shdr.link]? with
    | none => .error .overread
    | some linked => do
      let (strtab, fp) ← getStrtab linked fp
      let (names, fp) ← discoverUndefSyms shdr strtab fp
      return (some (.undef names), fp)
  else do
    if ← strcmpEqual (secstrings.drop shdr.name) ksymtabStrings then
      let (str, fp) ← getStrtab shdr fp
      let names ← exportedNames str
      return (some (.exported names), fp)
    else return (none, fp)

/-- The loop of `analysis_module`, over the remaining sections. -/
def analysisSections (sechdrs : List Elf64Shdr) (secstrings : List (BitVec 8)) :
    List Elf64Shdr → Stream → Except Stop (List SectionNames)
  | [], _ => .ok []
  | shdr :: rest, fp => do
    let (names, fp) ← analysisSection sechdrs secstrings shdr fp
    let later ← analysisSections sechdrs secstrings rest fp
    return names.toList ++ later

/-- `analysis_module`, on an open file and with the names instead of their lists. -/
def analysisFile (fp : Stream) : Except Stop (List SectionNames) := do
  let (bytes, fp) := fp.fread ehdrSize
  if bytes.length ≠ ehdrSize then throw (.panic "Read elf header error\n")
  let hdr := Elf64Ehdr.ofBytes bytes
  let (bytes, fp) := (fp.fseek hdr.shoff).fread (hdr.shnum * shdrSize)
  if bytes.length ≠ hdr.shnum * shdrSize then throw (.panic "Read section header error\n")
  let sechdrs := (List.range hdr.shnum).map fun i => Elf64Shdr.ofBytes (bytes.drop (i * shdrSize))
  match sechdrs[hdr.shstrndx]? with
  | none => .error .overread
  | some shdr =>
    let (secstrings, fp) ← getStrtab shdr fp
    analysisSections sechdrs secstrings sechdrs fp

/-- The length of a name up to which the buffer for a file's path can take it behind `KMODULE_DIR`. -/
def nameLimit : Nat := 249

/-- The stream of a module's file, whose path is put together in a buffer. -/
def openModule (host : ModuleHost) (name : String) : Except Stop Stream :=
  if nameLimit < name.length then .error (.undefined "path longer than its buffer")
  else match (host.call name).file with
    | none => .error (.panic "bad file (%s)\n")
    | some file => .ok ⟨file.content, 0⟩

/-- `analysis_module`, with the names instead of their lists. -/
def analysisModule (host : ModuleHost) (name : String) : Except Stop (List SectionNames) := do
  analysisFile (← openModule host name)

/-! ### The kernel -/

/-- The lines that `fgets` delivers, of which the first one was begun already. -/
def fgetsFrom (limit : Nat) : List (BitVec 8) → List (BitVec 8) → List (List (BitVec 8))
  | begun, [] => if begun = [] then [] else [begun]
  | begun, byte :: rest =>
    let line := begun ++ [byte]
    if byte = 0x0A ∨ line.length = limit then line :: fgetsFrom limit [] rest
    else fgetsFrom limit line rest

/-- The lines that `fgets` delivers into a buffer of 256 bytes. -/
def fgetsLines (content : List (BitVec 8)) : List (List (BitVec 8)) := fgetsFrom 255 [] content

/-- The value of a hexadecimal digit. -/
def hexDigit (byte : BitVec 8) : Option Nat :=
  if 0x30 ≤ byte ∧ byte ≤ 0x39 then some (byte.toNat - 0x30)
  else if 0x41 ≤ byte ∧ byte ≤ 0x46 then some (byte.toNat - 0x41 + 10)
  else if 0x61 ≤ byte ∧ byte ≤ 0x66 then some (byte.toNat - 0x61 + 10)
  else none

/-- The number that the digits at the start of a string make, and what is behind them. -/
def hexDigits : Nat → List (BitVec 8) → Nat × List (BitVec 8)
  | value, [] => (value, [])
  | value, byte :: rest =>
    match hexDigit byte with
    | none => (value, byte :: rest)
    | some digit => hexDigits (16 * value + digit) rest

/-- A byte that `isspace` holds of. -/
def isSpace (byte : BitVec 8) : Bool := byte = 0x20 || (0x09 ≤ byte && byte ≤ 0x0D)

/-- Digits behind the characters that can announce them. -/
def skipHexPrefix (string : List (BitVec 8)) : List (BitVec 8) :=
  match string with
  | 0x30 :: x :: digit :: rest =>
    if (x = 0x78 ∨ x = 0x58) ∧ (hexDigit digit).isSome then digit :: rest else string
  | _ => string

/-- A number that `strtoul` cannot return is replaced by the largest one. -/
def clampUlong (value : Nat) : BitVec 64 := if value < 2 ^ 64 then BitVec.ofNat 64 value else -1

/-- `strtoul` for the base 16, with what is behind the number it reads. -/
def strtoul (string : List (BitVec 8)) : BitVec 64 × List (BitVec 8) :=
  let unsigned := string.dropWhile isSpace
  let (negative, body) := match unsigned with
    | 0x2D :: rest => (true, rest)
    | 0x2B :: rest => (false, rest)
    | _ => (false, unsigned)
  let body := skipHexPrefix body
  match body.head?.bind hexDigit with
  -- Without a digit nothing is read at all.
  | none => (0, string)
  | some _ =>
    let (value, rest) := hexDigits 0 body
    let word := clampUlong value
    (if negative && value < 2 ^ 64 then -word else word, rest)

/-- `strstr`, as a test. -/
def occursIn (needle string : List (BitVec 8)) : Bool := string.tails.any needle.isPrefixOf

/-- The bytes of a text of the source. -/
def bytesOf (string : String) : List (BitVec 8) := string.toList.map fun c => BitVec.ofNat 8 c.toNat

/-- The loop of `detect_syms_range`, over the remaining lines and with the addresses found. -/
def detectFrom : BitVec 64 → BitVec 64 → List (List (BitVec 8)) → BitVec 64 × BitVec 64
  | start, stop, [] => (start, stop)
  | start, stop, line :: rest =>
    let line := line.takeWhile (· ≠ 0)
    let (start, stop) :=
      if occursIn (bytesOf "_start_ksymtab_strings") line then ((strtoul line).1, stop)
      else if occursIn (bytesOf "_end_ksymtab_strings") line then (start, (strtoul line).1)
      else (start, stop)
    if start ≠ 0 ∧ stop ≠ 0 then (start, stop) else detectFrom start stop rest

/-- The constant `PAGE_OFFSET`. -/
def pageOffset : BitVec 64 := 0xffffffe000000000

/-- `detect_syms_range`: the place and the size of the names in the kernel's image. -/
def detectSymsRange (host : ModuleHost) : Except Stop (BitVec 32 × BitVec 32) :=
  match (host.call "System.map").file with
  | none => .error (.panic "No System.map\n")
  | some file =>
    let (start, stop) := detectFrom 0 0 (fgetsLines file.content)
    .ok ((start - pageOffset).setWidth 32, (stop - start).setWidth 32)

/-- `init_symtable`, with the names instead of their list. -/
def initSymtable (host : ModuleHost) : Except Stop (List String) := do
  let (ptr, num) ← detectSymsRange host
  match (host.call "startup.bin").file with
  | none => .error (.panic "No System.map\n")
  | some file =>
    let (data, _) := ((⟨file.content, 0⟩ : Stream).fseek ptr.toNat).fread num.toNat
    -- The buffer was cleared, so what the file does not have is zero.
    exportedNames (data ++ List.replicate (num.toNat - data.length) 0)

/-! ### The directory -/

/-- `strrchr`: the rest of a string from the last of some characters on. -/
def strrchr (c : Char) : List Char → Option (List Char)
  | [] => none
  | first :: rest =>
    match strrchr c rest with
    | some tail => some tail
    | none => if first = c then some (first :: rest) else none

/-- `check_module`. -/
def checkModule (startpoint : Option String) (name : String) : Except Stop Bool :=
  if startpoint.isSome ∧ selected startpoint name then .ok true
  else if selected (some "test_") name then .ok false
  else match strrchr '.' name.toList with
    -- A name without a dot makes `strcmp` read through the null pointer.
    | none => .error (.undefined "strcmp with a null pointer")
    | some tail => .ok (tail = ".ko".toList)

/-- What `discover_modules` has found. -/
structure Discovery (Modules : Type) where
  modules : Modules
  hasStartup : Bool := false
  hasSystemMap : Bool := false

/-- The loop of `discover_modules`, over the remaining entries and with what is done for a module. -/
def discoverEach {Modules : Type} (startpoint : Option String)
    (add : Modules → String → Except Stop Modules) :
    List String → Discovery Modules → Except Stop (Discovery Modules)
  | [], found => .ok found
  | name :: rest, found => do
    if ← checkModule startpoint name then
      let modules ← add found.modules name
      discoverEach startpoint add rest { found with modules := modules }
    else if name = "startup.bin" then
      discoverEach startpoint add rest { found with hasStartup := true }
    else if name = "System.map" then
      discoverEach startpoint add rest { found with hasSystemMap := true }
    else discoverEach startpoint add rest found

/-- `discover_modules`, which goes through the directory from its end. -/
def discoverModules {Modules : Type} (host : ModuleHost) (startpoint : Option String)
    (add : Modules → String → Except Stop Modules) (none_yet : Modules) : Except Stop Modules :=
  match host.directory with
  | none => .error (.panic "%s: error when scandir\n")
  | some names => do
    let found ← discoverEach startpoint add names.reverse ⟨none_yet, false, false⟩
    if !found.hasStartup then .error (.panic "%s: No startup.bin\n")
    else if !found.hasSystemMap then .error (.panic "%s: No System.map\n")
    else .ok found.modules

/-! ### The whole sort -/

namespace ModuleHeap

variable {Opaque : Type}

/-- What `analysis_module` does with the names of one section. -/
def addNames (mod : Nat) (heap : ModuleHeap Opaque) (names : SectionNames) :
    Except Stop (ModuleHeap Opaque) :=
  match names with
  | .undef names => addUndefSyms mod names heap
  | .exported names => exportSymbols (some mod) names heap

/-- The body of the loop of `sort_modules` that analyses every module. -/
def analysisBody (host : ModuleHost) (pos : HeadPlace) (heap : ModuleHeap Opaque) :
    Except Stop (ForInStep (ModuleHeap Opaque)) := do
  let mod ← moduleEntry pos
  let record ← heap.loadModule mod
  let sections ← analysisModule host record.name
  return .yield (← sections.foldlM (addNames mod) heap)

/-- `sort_modules`, with bounds on the rounds of its loops and on the depth of its calls. -/
def sortModules (host : ModuleHost) (cb : String → Opaque → Except Stop Opaque) (bound fuel : Nat)
    (startpoint : Option String) (data : Opaque) : Except Stop (ModuleHeap Opaque) := do
  let heap ← discoverModules host startpoint addModule (.initial data)
  let kernel ← initSymtable host
  let heap ← exportSymbols none kernel heap
  let ended ← listForEachEntry id (analysisBody host) .modules bound heap
  sortAnalysed cb bound fuel startpoint ended.run

end ModuleHeap

/-- The callback `sort_func`, which adds a module to the flash. -/
def sortFunc (host : ModuleHost) (name : String) (flash : Buffer) : Except Stop Buffer :=
  if nameLimit < name.length then .error (.undefined "path longer than its buffer")
  else flashAddFile (host.call name) flash

/-- `flash_load_modules`. -/
def flashLoadModules (host : ModuleHost) (bound fuel : Nat) (startpoint : Option String)
    (flash : Buffer) : Except Stop Buffer := do
  let flash ← flashAddFile (host.call "startup.bin") flash
  let heap ← ModuleHeap.sortModules host (sortFunc host) bound fuel startpoint flash
  let heap ← ModuleHeap.clearModules bound heap
  return heap.opaqueData

end Xemu
