import Xemu.Lib.CStrings
import Xemu.Lib.Records

/-! Object files of the 64-bit ELF format with its lowest bytes first: their records, and where these lie. -/

namespace Elf

open Records

/-! ### Records -/

/-- The header of a file. -/
structure Header where
  ident : BitVec 128
  type : BitVec 16
  machine : BitVec 16
  version : BitVec 32
  entry : BitVec 64
  phoff : BitVec 64
  shoff : BitVec 64
  flags : BitVec 32
  ehsize : BitVec 16
  phentsize : BitVec 16
  phnum : BitVec 16
  shentsize : BitVec 16
  shnum : BitVec 16
  shstrndx : BitVec 16

/-- The header of a section. -/
structure SectionHeader where
  name : BitVec 32
  type : BitVec 32
  flags : BitVec 64
  addr : BitVec 64
  offset : BitVec 64
  size : BitVec 64
  link : BitVec 32
  info : BitVec 32
  addralign : BitVec 64
  entsize : BitVec 64

/-- A symbol. -/
structure Symbol where
  name : BitVec 32
  info : BitVec 8
  other : BitVec 8
  shndx : BitVec 16
  value : BitVec 64
  size : BitVec 64

/-- The fields of a header, with their sizes. -/
def Header.fields (header : Header) : List (Nat × Nat) :=
  [(16, header.ident.toNat), (2, header.type.toNat), (2, header.machine.toNat),
    (4, header.version.toNat), (8, header.entry.toNat), (8, header.phoff.toNat),
    (8, header.shoff.toNat), (4, header.flags.toNat), (2, header.ehsize.toNat),
    (2, header.phentsize.toNat), (2, header.phnum.toNat), (2, header.shentsize.toNat),
    (2, header.shnum.toNat), (2, header.shstrndx.toNat)]

/-- The fields of a section's header, with their sizes. -/
def SectionHeader.fields (header : SectionHeader) : List (Nat × Nat) :=
  [(4, header.name.toNat), (4, header.type.toNat), (8, header.flags.toNat), (8, header.addr.toNat),
    (8, header.offset.toNat), (8, header.size.toNat), (4, header.link.toNat),
    (4, header.info.toNat), (8, header.addralign.toNat), (8, header.entsize.toNat)]

/-- The fields of a symbol, with their sizes. -/
def Symbol.fields (symbol : Symbol) : List (Nat × Nat) :=
  [(4, symbol.name.toNat), (1, symbol.info.toNat), (1, symbol.other.toNat), (2, symbol.shndx.toNat),
    (8, symbol.value.toNat), (8, symbol.size.toNat)]

/-- The bytes of each record. -/
def Header.toBytes (header : Header) : List (BitVec 8) := record header.fields
def SectionHeader.toBytes (header : SectionHeader) : List (BitVec 8) := record header.fields
def Symbol.toBytes (symbol : Symbol) : List (BitVec 8) := record symbol.fields

/-- The header of a file is 64 bytes. -/
@[simp] theorem Header.length_toBytes (header : Header) : header.toBytes.length = 64 := by
  simp [Header.toBytes, Header.fields]

/-- So is the header of a section. -/
@[simp] theorem SectionHeader.length_toBytes (header : SectionHeader) : header.toBytes.length = 64 := by
  simp [SectionHeader.toBytes, SectionHeader.fields]

/-- A symbol is 24 bytes. -/
@[simp] theorem Symbol.length_toBytes (symbol : Symbol) : symbol.toBytes.length = 24 := by
  simp [Symbol.toBytes, Symbol.fields]

/-! ### Fields at their places -/

section Fields

variable (header : Header) (table : SectionHeader) (symbol : Symbol)

/-- The place of the section headers is read back. -/
theorem Header.field_shoff : field header.toBytes 40 8 = header.shoff.toNat := by
  have listed : header.fields[6]? = some (8, header.shoff.toNat) := rfl
  have small : header.shoff.toNat < 256 ^ 8 := header.shoff.isLt
  have place : ((header.fields.take 6).map Prod.fst).sum = 40 := by
    simp [Header.fields]
  exact field_record listed small place

/-- So is their number. -/
theorem Header.field_shnum : field header.toBytes 60 2 = header.shnum.toNat := by
  have listed : header.fields[12]? = some (2, header.shnum.toNat) := rfl
  have small : header.shnum.toNat < 256 ^ 2 := header.shnum.isLt
  have place : ((header.fields.take 12).map Prod.fst).sum = 60 := by
    simp [Header.fields]
  exact field_record listed small place

/-- So is the index of the section with their names. -/
theorem Header.field_shstrndx : field header.toBytes 62 2 = header.shstrndx.toNat := by
  have listed : header.fields[13]? = some (2, header.shstrndx.toNat) := rfl
  have small : header.shstrndx.toNat < 256 ^ 2 := header.shstrndx.isLt
  have place : ((header.fields.take 13).map Prod.fst).sum = 62 := by
    simp [Header.fields]
  exact field_record listed small place

/-- The name of a section is read back. -/
theorem SectionHeader.field_name : field table.toBytes 0 4 = table.name.toNat := by
  have listed : table.fields[0]? = some (4, table.name.toNat) := rfl
  have small : table.name.toNat < 256 ^ 4 := table.name.isLt
  have place : ((table.fields.take 0).map Prod.fst).sum = 0 := by
    simp [SectionHeader.fields]
  exact field_record listed small place

/-- So is its type. -/
theorem SectionHeader.field_type : field table.toBytes 4 4 = table.type.toNat := by
  have listed : table.fields[1]? = some (4, table.type.toNat) := rfl
  have small : table.type.toNat < 256 ^ 4 := table.type.isLt
  have place : ((table.fields.take 1).map Prod.fst).sum = 4 := by
    simp [SectionHeader.fields]
  exact field_record listed small place

/-- So is its place. -/
theorem SectionHeader.field_offset : field table.toBytes 24 8 = table.offset.toNat := by
  have listed : table.fields[4]? = some (8, table.offset.toNat) := rfl
  have small : table.offset.toNat < 256 ^ 8 := table.offset.isLt
  have place : ((table.fields.take 4).map Prod.fst).sum = 24 := by
    simp [SectionHeader.fields]
  exact field_record listed small place

/-- So is its size. -/
theorem SectionHeader.field_size : field table.toBytes 32 8 = table.size.toNat := by
  have listed : table.fields[5]? = some (8, table.size.toNat) := rfl
  have small : table.size.toNat < 256 ^ 8 := table.size.isLt
  have place : ((table.fields.take 5).map Prod.fst).sum = 32 := by
    simp [SectionHeader.fields]
  exact field_record listed small place

/-- So is the section it refers to. -/
theorem SectionHeader.field_link : field table.toBytes 40 4 = table.link.toNat := by
  have listed : table.fields[6]? = some (4, table.link.toNat) := rfl
  have small : table.link.toNat < 256 ^ 4 := table.link.isLt
  have place : ((table.fields.take 6).map Prod.fst).sum = 40 := by
    simp [SectionHeader.fields]
  exact field_record listed small place

/-- The name of a symbol is read back. -/
theorem Symbol.field_name : field symbol.toBytes 0 4 = symbol.name.toNat := by
  have listed : symbol.fields[0]? = some (4, symbol.name.toNat) := rfl
  have small : symbol.name.toNat < 256 ^ 4 := symbol.name.isLt
  have place : ((symbol.fields.take 0).map Prod.fst).sum = 0 := by
    simp [Symbol.fields]
  exact field_record listed small place

/-- So is the section it is defined in. -/
theorem Symbol.field_shndx : field symbol.toBytes 6 2 = symbol.shndx.toNat := by
  have listed : symbol.fields[3]? = some (2, symbol.shndx.toNat) := rfl
  have small : symbol.shndx.toNat < 256 ^ 2 := symbol.shndx.isLt
  have place : ((symbol.fields.take 3).map Prod.fst).sum = 6 := by
    simp [Symbol.fields]
  exact field_record listed small place

end Fields

/-! ### Files -/

/-- A section with what it consists of. -/
structure Section where
  header : SectionHeader
  data : List (BitVec 8)

/-- A file. -/
structure File where
  header : Header
  sections : List Section

/-- The type of a section that takes no room in the file. -/
def nobits : BitVec 32 := 8

/-- The type of a section with symbols. -/
def symtab : BitVec 32 := 2

/-- The section index of a symbol that is not defined. -/
def undef : BitVec 16 := 0

/-- A section is at its place, where it takes any room. -/
def Section.Placed (content : List (BitVec 8)) (part : Section) : Prop :=
  part.header.type ≠ nobits →
    part.header.size.toNat = part.data.length ∧ part.data <+: content.drop part.header.offset.toNat

/-- A file is stored in some bytes, its header first and all else at the places that it names. -/
structure File.Stored (content : List (BitVec 8)) (file : File) : Prop where
  header : file.header.toBytes <+: content
  count : file.header.shnum.toNat = file.sections.length
  table : file.sections.flatMap (fun part => part.header.toBytes) <+:
    content.drop file.header.shoff.toNat
  placed : ∀ part ∈ file.sections, part.Placed content

/-- A string with its end is at a place of a table. -/
def NameAt (table : List (BitVec 8)) (offset : Nat) (name : List (BitVec 8)) : Prop :=
  0 ∉ name ∧ name ++ [0] <+: table.drop offset

end Elf
