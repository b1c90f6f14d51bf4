import Xemu.Lib.Elf
import Xemu.Proofs.ModuleLoad

/-! The names that a module's object file exports and needs are those that the sort works with. -/

namespace Xemu

open Records

/-! ### What a file tells -/

/-- The name of the section with the names that a module exports. -/
def ksymtabName : List (BitVec 8) := ksymtabStrings.dropLast

/-- The names of the symbols that are not defined, given the symbols with their names. -/
def undefinedNames (entries : List (Elf.Symbol × List (BitVec 8))) : List String :=
  (entries.filter fun entry => entry.1.shndx = Elf.undef).map fun entry => text entry.2

/-- What a section of a file tells about its module, given the names of the sections. -/
inductive Tells (file : Elf.File) (strings : List (BitVec 8)) :
    Elf.Section → Option SectionNames → Prop where
  /-- A table with symbols, the first of which is not used, has their names in another section. -/
  | symbols {part linked : Elf.Section} {symbols : List Elf.Symbol}
      {entries : List (Elf.Symbol × List (BitVec 8))}
      (type : part.header.type = Elf.symtab)
      (link : file.sections[part.header.link.toNat]? = some linked)
      (linked_type : linked.header.type ≠ Elf.nobits)
      (data : part.data = symbols.flatMap Elf.Symbol.toBytes)
      (listed : symbols.tail = entries.map Prod.fst)
      (names : ∀ entry ∈ entries, entry.1.shndx = Elf.undef →
        Elf.NameAt linked.data entry.1.name.toNat entry.2) :
      Tells file strings part (some (.undef (undefinedNames entries)))
  /-- The names that the module exports are packed in a section of its own. -/
  | exports {part : Elf.Section} {names : List (List (BitVec 8))}
      (type : part.header.type ≠ Elf.symtab) (stored : part.header.type ≠ Elf.nobits)
      (named : Elf.NameAt strings part.header.name.toNat ksymtabName)
      (data : part.data = CStrings.pack names) (clean : ∀ name ∈ names, 0 ∉ name) :
      Tells file strings part (some (.exported (names.map text)))
  /-- All other sections do not matter. -/
  | other {part : Elf.Section} {name : List (BitVec 8)} (type : part.header.type ≠ Elf.symtab)
      (named : Elf.NameAt strings part.header.name.toNat name) (different : name ≠ ksymtabName) :
      Tells file strings part none

/-! ### Records -/

/-- The part of a section's header that is used. -/
def shdrOf (header : Elf.SectionHeader) : Elf64Shdr where
  name := header.name.toNat
  type := header.type.toNat
  offset := header.offset.toNat
  size := header.size.toNat
  link := header.link.toNat

/-- The header of a file is read back. -/
theorem Elf64Ehdr.ofBytes_header (header : Elf.Header) : Elf64Ehdr.ofBytes header.toBytes =
    ⟨header.shoff.toNat, header.shnum.toNat, header.shstrndx.toNat⟩ := by
  simp only [Elf64Ehdr.ofBytes, Elf.Header.field_shoff, Elf.Header.field_shnum,
    Elf.Header.field_shstrndx]

/-- The headers of the sections are read back. -/
theorem sechdrs_table (sections : List Elf.Section) :
    ((List.range sections.length).map fun i => Elf64Shdr.ofBytes
      ((sections.flatMap fun part => part.header.toBytes).drop (i * shdrSize))) =
      sections.map fun part => shdrOf part.header := by
  apply List.ext_getElem
  · simp
  · intro i inside _
    have within : i < sections.length := by simpa using inside
    -- The headers are 64 bytes each, so a field of one lies in its own 64 bytes.
    have at_place (offset count : Nat) (fits : offset + count ≤ 64) :
        field ((sections.flatMap fun part => part.header.toBytes).drop (i * shdrSize)) offset count =
          field sections[i].header.toBytes offset count := by
      rw [field_drop, Nat.mul_comm i shdrSize]
      exact field_flatMap (fun part : Elf.Section => part.header.length_toBytes) within fits
    simp [Elf64Shdr.ofBytes, at_place, shdrOf, Elf.SectionHeader.field_name,
      Elf.SectionHeader.field_type, Elf.SectionHeader.field_offset, Elf.SectionHeader.field_size,
      Elf.SectionHeader.field_link]

/-! ### Reading -/

section Reading

variable {content : List (BitVec 8)} {file : Elf.File} {part : Elf.Section} {pos : Nat}

/-- What lies at a place is read from there. -/
theorem fread_placed (sized : content.length ≤ 2 ^ 63) {offset : Nat} {data : List (BitVec 8)}
    (placed : data <+: content.drop offset) (pos : Nat) :
    ∃ later, ((⟨content, pos⟩ : Stream).fseek offset).fread data.length = (data, ⟨content, later⟩) := by
  by_cases small : offset < 2 ^ 63
  · have same := List.prefix_iff_eq_take.mp placed
    refine ⟨offset + data.length, ?_⟩
    simp only [Stream.fseek, small, if_true, Stream.fread, ← same]
  · -- Nothing can lie so far behind, and a read of nothing delivers nothing from anywhere.
    have nothing : data = [] := by
      have room := placed.length_le
      rw [List.length_drop] at room
      exact List.eq_nil_of_length_eq_zero (by omega)
    subst nothing
    refine ⟨pos, ?_⟩
    simp only [Stream.fseek, small, if_false, Stream.fread, List.length_nil, List.take_zero,
      Nat.add_zero]

/-- A section is read from its place. -/
theorem getStrtab_placed (sized : content.length ≤ 2 ^ 63) (placed : part.Placed content)
    (stored : part.header.type ≠ Elf.nobits) (pos : Nat) :
    ∃ later, getStrtab (shdrOf part.header) ⟨content, pos⟩ = .ok (part.data, ⟨content, later⟩) := by
  obtain ⟨size, at_place⟩ := placed stored
  obtain ⟨later, read⟩ := fread_placed sized at_place pos
  exact ⟨later, by simp [getStrtab, shdrOf, size, read]⟩

/-- A name at a place of a table is read from there. -/
theorem first_nameAt {table name : List (BitVec 8)} {offset : Nat}
    (named : Elf.NameAt table offset name) : CStrings.first (table.drop offset) = some name := by
  obtain ⟨clean, rest, whole⟩ := named
  rw [← whole, List.append_assoc, List.singleton_append, CStrings.first_append clean]

/-- A name at the start of a buffer is compared with another one. -/
theorem strcmpEqual_name {buffer name other : List (BitVec 8)} (clean : 0 ∉ name)
    (also_clean : 0 ∉ other) (starts : name ++ [0] <+: buffer) :
    strcmpEqual buffer (other ++ [0]) = .ok (decide (name = other)) := by
  obtain ⟨rest, rfl⟩ := starts
  -- The bytes of both names are compared in turn, up to the zero behind the shorter one.
  induction name generalizing other with
  | nil =>
    cases other with
    | nil => simp [strcmpEqual]
    | cons byte other =>
      have different : 0#8 ≠ byte := by
        rintro rfl
        simp at also_clean
      simp [strcmpEqual, different]
  | cons byte name ih =>
    rw [List.mem_cons, not_or] at clean
    cases other with
    | nil =>
      have different : byte ≠ 0#8 := Ne.symm clean.1
      simp [strcmpEqual, different]
    | cons first other =>
      rw [List.mem_cons, not_or] at also_clean
      have later := ih clean.2 also_clean.2
      by_cases same : byte = first
      · subst same
        simpa [strcmpEqual] using later
      · simp [strcmpEqual, same]

/-- A section's name is compared with the one that is looked for. -/
theorem strcmpEqual_nameAt {strings name : List (BitVec 8)} {offset : Nat}
    (named : Elf.NameAt strings offset name) :
    strcmpEqual (strings.drop offset) ksymtabStrings = .ok (decide (name = ksymtabName)) := by
  have ended : ksymtabStrings = ksymtabName ++ [0] := by decide
  have clean : 0 ∉ ksymtabName := by decide
  rw [ended]
  exact strcmpEqual_name named.1 clean named.2

/-- The names of the undefined symbols are read from a table of symbols. -/
theorem undefNames_entries {strtab : List (BitVec 8)} {before : List Elf.Symbol}
    {entries : List (Elf.Symbol × List (BitVec 8))}
    (names : ∀ entry ∈ entries, entry.1.shndx = Elf.undef →
      Elf.NameAt strtab entry.1.name.toNat entry.2) :
    undefNames strtab ((before ++ entries.map Prod.fst).flatMap Elf.Symbol.toBytes)
      (List.range' before.length entries.length) = .ok (undefinedNames entries) := by
  -- The table stays, and the entries that are read move from what is ahead to what is behind.
  induction entries generalizing before with
  | nil => rfl
  | cons entry rest ih =>
    rw [List.forall_mem_cons] at names
    have next := @ih (before ++ [entry.1]) names.2
    rw [List.length_append, List.length_singleton, List.append_assoc, List.singleton_append,
      ← List.map_cons (f := Prod.fst)] at next
    have inside : before.length < (before ++ (entry :: rest).map Prod.fst).length := by simp
    have here : (before ++ (entry :: rest).map Prod.fst)[before.length] = entry.1 := by simp
    have name := field_flatMap Elf.Symbol.length_toBytes inside (show 0 + 4 ≤ 24 by omega)
    have shndx := field_flatMap Elf.Symbol.length_toBytes inside (show 6 + 2 ≤ 24 by omega)
    rw [here] at name shndx
    rw [Elf.Symbol.field_name, Nat.add_zero] at name
    rw [Elf.Symbol.field_shndx] at shndx
    rw [List.length_cons, List.range'_succ]
    simp only [undefNames, symSize, name, shndx, next]
    by_cases missing : entry.1.shndx = Elf.undef
    · simp [missing, Elf.undef, first_nameAt (names.1 missing), undefinedNames]
    · have number : entry.1.shndx.toNat ≠ 0 := fun zero =>
        missing (BitVec.eq_of_toNat_eq (zero.trans (by rfl)))
      simp [missing, number, undefinedNames]

/-- The names of the undefined symbols of a section are read. -/
theorem discoverUndefSyms_placed (sized : content.length ≤ 2 ^ 63) (placed : part.Placed content)
    (stored : part.header.type ≠ Elf.nobits) {strtab : List (BitVec 8)} {symbols : List Elf.Symbol}
    {entries : List (Elf.Symbol × List (BitVec 8))} (data : part.data = symbols.flatMap Elf.Symbol.toBytes)
    (listed : symbols.tail = entries.map Prod.fst)
    (names : ∀ entry ∈ entries, entry.1.shndx = Elf.undef →
      Elf.NameAt strtab entry.1.name.toNat entry.2) (pos : Nat) :
    ∃ later, discoverUndefSyms (shdrOf part.header) strtab ⟨content, pos⟩ =
      .ok (undefinedNames entries, ⟨content, later⟩) := by
  obtain ⟨size, at_place⟩ := placed stored
  obtain ⟨later, read⟩ := fread_placed sized at_place pos
  have length : part.data.length = symbols.length * symSize := by
    simp [data, symSize]
  have count : part.data.length / symSize - 1 = entries.length := by
    rw [length, Nat.mul_div_cancel _ (by decide), ← List.length_tail, listed, List.length_map]
  -- The first symbol of a table is never looked at, and an empty table has none.
  have found : undefNames strtab part.data (List.range' 1 entries.length) =
      .ok (undefinedNames entries) := by
    cases symbols with
    | nil =>
      have nothing : entries = [] := by simpa using listed
      subst nothing
      rfl
    | cons first rest =>
      rw [List.tail_cons] at listed
      rw [data, listed]
      exact @undefNames_entries _ [first] _ names
  exact ⟨later, by simp [discoverUndefSyms, shdrOf, size, read, count, found]⟩

variable {strings : List (BitVec 8)} {said : Option SectionNames}

/-- What a section tells is found out from its header. -/
theorem analysisSection_tells (sized : content.length ≤ 2 ^ 63)
    (placed : ∀ part ∈ file.sections, part.Placed content) (member : part ∈ file.sections)
    (tells : Tells file strings part said) (pos : Nat) :
    ∃ later, analysisSection (file.sections.map fun part => shdrOf part.header) strings
      (shdrOf part.header) ⟨content, pos⟩ = .ok (said, ⟨content, later⟩) := by
  have table : (shdrOf part.header).type = 2 ↔ part.header.type = Elf.symtab := by
    rw [← BitVec.toNat_inj]
    rfl
  -- A section is a symbol table, the list of exported names, or neither.
  cases tells with
  | @symbols linked _ _ type link linked_type data listed names =>
    have stored : part.header.type ≠ Elf.nobits := by
      rw [type]
      decide
    -- The names of the symbols are read from the section that the table links to.
    obtain ⟨middle, read⟩ :=
      getStrtab_placed sized (placed _ (List.mem_of_getElem? link)) linked_type pos
    obtain ⟨later, found⟩ :=
      discoverUndefSyms_placed sized (placed part member) stored data listed names middle
    have header : (file.sections.map fun part => shdrOf part.header)[(shdrOf part.header).link]? =
        some (shdrOf linked.header) := by
      rw [List.getElem?_map]
      exact congrArg _ link
    refine ⟨later, ?_⟩
    simp only [analysisSection, table.mpr type, if_true, header, read, ok_bind, found]
    rfl
  | exports type stored named data clean =>
    obtain ⟨later, read⟩ := getStrtab_placed sized (placed part member) stored pos
    have same : strcmpEqual (strings.drop (shdrOf part.header).name) ksymtabStrings = .ok true := by
      simpa [shdrOf] using strcmpEqual_nameAt named
    refine ⟨later, ?_⟩
    simp [analysisSection, mt table.mp type, same, read, exportedNames, data, CStrings.split_pack clean]
  | other type named different =>
    have same : strcmpEqual (strings.drop (shdrOf part.header).name) ksymtabStrings = .ok false := by
      simpa [shdrOf, different] using strcmpEqual_nameAt named
    refine ⟨pos, ?_⟩
    simp [analysisSection, mt table.mp type, same]

/-- What all sections of a file tell is found out. -/
theorem analysisSections_tell (sized : content.length ≤ 2 ^ 63)
    (placed : ∀ part ∈ file.sections, part.Placed content) {parts : List Elf.Section}
    {said : List (Option SectionNames)} (members : ∀ part ∈ parts, part ∈ file.sections)
    (tells : List.Forall₂ (Tells file strings) parts said) (pos : Nat) :
    analysisSections (file.sections.map fun part => shdrOf part.header) strings
      (parts.map fun part => shdrOf part.header) ⟨content, pos⟩ = .ok (said.filterMap id) := by
  -- The induction is on the sections, each of which leaves the file at another place.
  induction tells generalizing pos with
  | nil => rfl
  | @cons _ name _ _ one _ ih =>
    rw [List.forall_mem_cons] at members
    obtain ⟨later, first⟩ := analysisSection_tells sized placed members.1 one pos
    simp only [List.map_cons, analysisSections, first, ok_bind, ih members.2 later]
    cases name <;> rfl

end Reading

/-- What a file tells is found out of its bytes. -/
theorem analysisFile_stored {content : List (BitVec 8)} {file : Elf.File} {strings : Elf.Section}
    {said : List (Option SectionNames)} (sized : content.length ≤ 2 ^ 63) (stored : file.Stored content)
    (named : file.sections[file.header.shstrndx.toNat]? = some strings)
    (kept : strings.header.type ≠ Elf.nobits)
    (tells : List.Forall₂ (Tells file strings.data) file.sections said) :
    analysisFile ⟨content, 0⟩ = .ok (said.filterMap id) := by
  have start : file.header.toBytes <+: content.drop 0 := by simpa using stored.header
  -- The three reads go to the header, to the table of the sections, and to their names.
  obtain ⟨first, whole⟩ := fread_placed sized start 0
  obtain ⟨second, table⟩ := fread_placed sized stored.table first
  obtain ⟨third, names⟩ :=
    getStrtab_placed sized (stored.placed _ (List.mem_of_getElem? named)) kept second
  have length : (file.sections.flatMap fun part => part.header.toBytes).length =
      file.header.shnum.toNat * shdrSize := by
    simp [stored.count, shdrSize]
  have header : (file.sections.map fun part => shdrOf part.header)[file.header.shstrndx.toNat]? =
      some (shdrOf strings.header) := by
    rw [List.getElem?_map, named]
    rfl
  have begun : (⟨content, 0⟩ : Stream).fseek 0 = ⟨content, 0⟩ := rfl
  rw [begun, Elf.Header.length_toBytes] at whole
  rw [length] at table
  have sechdrs := sechdrs_table file.sections
  rw [← stored.count] at sechdrs
  simp only [analysisFile, ehdrSize, whole, Elf.Header.length_toBytes, ne_eq, not_true_eq_false,
    if_false, Elf64Ehdr.ofBytes_header, table, length, sechdrs, header, names, ok_bind]
  exact analysisSections_tell sized stored.placed (fun _ member => member) tells third

/--
What the files of a module tell is what the sort works with.

The file's header, the headers of its sections and the sections may lie anywhere in the file.
-/
theorem analysed_stored {host : ModuleHost} {name : String} {opened : HostFile} {file : Elf.File}
    {strings : Elf.Section} {said : List (Option SectionNames)} (short : name.length ≤ nameLimit)
    (found : (host.call name).file = some opened) (sized : opened.content.length ≤ 2 ^ 63)
    (stored : file.Stored opened.content)
    (named : file.sections[file.header.shstrndx.toNat]? = some strings)
    (kept : strings.header.type ≠ Elf.nobits)
    (tells : List.Forall₂ (Tells file strings.data) file.sections said) :
    analysed host name = .ok (moduleOf name (said.filterMap id)) := by
  have whole := analysisFile_stored sized stored named kept tells
  have fits : ¬ nameLimit < name.length := Nat.not_lt_of_le short
  simp only [analysed, analysisModule, openModule, fits, if_false, found, ok_bind, whole]
  rfl

/-- The strings of a module, which are the names of its sections and its symbols. -/
def sampleStrings : Elf.Section :=
  ⟨⟨0, 3, 0, 0, 306, 20, 0, 0, 1, 0⟩, 0 :: ksymtabStrings ++ [0x75, 0]⟩

/-- A module with a table of two symbols that exports one name and needs another. -/
def sampleFile : Elf.File where
  header := ⟨0x10102464C457F, 1, 243, 1, 0, 0, 64, 0, 64, 0, 0, 64, 3, 2⟩
  sections := [⟨⟨1, 1, 0, 0, 256, 2, 0, 0, 1, 0⟩, [0x65, 0]⟩,
    ⟨⟨0, 2, 0, 0, 258, 48, 2, 1, 8, 24⟩,
      [⟨0, 0, 0, 0, 0, 0⟩, ⟨18, 16, 0, 0, 0, 0⟩].flatMap Elf.Symbol.toBytes⟩,
    sampleStrings]

/-- The bytes of the module, all parts of it one behind the other. -/
def sampleContent : List (BitVec 8) :=
  sampleFile.header.toBytes ++ (sampleFile.sections.flatMap fun part => part.header.toBytes) ++
    sampleFile.sections.flatMap Elf.Section.data

/-- The file of the module. -/
def sampleModule : HostFile := ⟨sampleContent, by decide +kernel⟩

/-- A host that has the module under every name. -/
def sampleHost : ModuleHost where
  directory := none
  call := fun _ => { file := some sampleModule, delivers := 0 }

theorem analysed_stored_sample :
    analysed sampleHost "a.ko" = .ok { name := "a.ko", exported := ["e"], undefSyms := ["u"] } := by
  have stored : sampleFile.Stored sampleContent :=
    ⟨by decide +kernel, rfl, by decide +kernel, by simp only [Elf.Section.Placed]; decide +kernel⟩
  have tells : List.Forall₂ (Tells sampleFile sampleStrings.data) sampleFile.sections
      [some (.exported ["e"]), some <| .undef <| ["u"], none] := by
    refine .cons ?_ (.cons ?_ (.cons ?_ .nil))
    · exact @Tells.exports _ _ _ [[0x65]] (by decide) (by decide) ⟨by decide, by decide⟩ rfl (by decide)
    · refine @Tells.symbols _ _ _ _ _ [(⟨18, 16, 0, 0, 0, 0⟩, [0x75])] rfl rfl (by decide) rfl rfl ?_
      rw [List.forall_mem_singleton]
      exact fun _ => ⟨by decide, by decide⟩
    · exact @Tells.other _ _ _ [] (by decide) ⟨by decide, by decide⟩ (by decide)
  have short : "a.ko".length ≤ nameLimit := by decide
  have sized : sampleContent.length ≤ 2 ^ 63 := by decide +kernel
  have named : sampleFile.sections[sampleFile.header.shstrndx.toNat]? = some sampleStrings := rfl
  have kept : sampleStrings.header.type ≠ Elf.nobits := by decide
  exact analysed_stored short rfl sized stored named kept tells

end Xemu
