import Xemu.Lib.Separated
import Xemu.Boot.ModuleFiles

/-! The names that the kernel exports are found through the addresses in its map. -/

namespace Xemu

/-! ### The map -/

/-- The lower case digit of a value. -/
def hexChar (value : Nat) : BitVec 8 := BitVec.ofNat 8 (if value < 10 then 0x30 + value else 0x57 + value)

/-- So many digits of a number, highest first. -/
def hexText : Nat → Nat → List (BitVec 8)
  | 0, _ => []
  | count + 1, value => hexText count (value / 16) ++ [hexChar (value % 16)]

/-- A line of the map: the address of a symbol, its kind and its name. -/
structure MapEntry where
  address : BitVec 64
  kind : BitVec 8
  name : List (BitVec 8)
  deriving DecidableEq

/-- An entry as it is written. -/
def MapEntry.line (entry : MapEntry) : List (BitVec 8) :=
  hexText 16 entry.address.toNat ++ 0x20 :: entry.kind :: 0x20 :: entry.name ++ [0x0A]

/-- An entry whose line ends at its end, and which the buffer of `detect_syms_range` can take. -/
structure MapEntry.Fits (entry : MapEntry) : Prop where
  kind : entry.kind ≠ 0 ∧ entry.kind ≠ 0x0A
  name : 0 ∉ entry.name ∧ 0x0A ∉ entry.name
  short : entry.name.length ≤ 235

/-- The names by which the bounds of the kernel's names are found. -/
def startMark : List (BitVec 8) := bytesOf "_start_ksymtab_strings"
def endMark : List (BitVec 8) := bytesOf "_end_ksymtab_strings"

/-- The two entries are the only ones that have the marks, one each, and they have addresses. -/
structure Marks (entries : List MapEntry) (first last : MapEntry) : Prop where
  members : first ∈ entries ∧ last ∈ entries
  different : first ≠ last
  first_only : ∀ entry ∈ entries, startMark <:+: entry.name ↔ entry = first
  last_only : ∀ entry ∈ entries, endMark <:+: entry.name ↔ entry = last
  addresses : first.address ≠ 0 ∧ last.address ≠ 0

/-! ### Digits -/

/-- Every digit is read back. -/
theorem hexDigit_hexChar {value : Nat} (small : value < 16) : hexDigit (hexChar value) = some value := by
  -- Sixteen digits, each of which is in one of the two ranges that are tested.
  have all : ∀ digit : Fin 16, hexDigit (hexChar digit) = some digit.val := by decide
  exact all ⟨value, small⟩

@[simp] theorem length_hexText (count value : Nat) : (hexText count value).length = count := by
  induction count generalizing value with
  | zero => rfl
  | succ count ih => simp [hexText, ih]

/-- The digits of a number are read behind those that were read before. -/
theorem hexDigits_hexText {count value : Nat} (small : value < 16 ^ count) (begun : Nat)
    (rest : List (BitVec 8)) :
    hexDigits begun (hexText count value ++ rest) = hexDigits (begun * 16 ^ count + value) rest := by
  -- The induction takes the last digit off, which is read after the others.
  induction count generalizing value rest with
  | zero =>
    have zero : value = 0 := by simpa using small
    simp [hexText, zero]
  | succ count ih =>
    have shorter : value / 16 < 16 ^ count := by
      rw [Nat.pow_succ] at small
      omega
    have digit := hexDigit_hexChar (Nat.mod_lt value (by omega : 0 < 16))
    have sum : 16 * (begun * 16 ^ count + value / 16) + value % 16 = begun * 16 ^ (count + 1) + value := by
      rw [Nat.pow_succ, ← Nat.mul_assoc]
      omega
    rw [hexText, List.append_assoc, ih shorter, List.singleton_append, hexDigits]
    simp only [digit, sum]

/-- No digit is one of the marks between the words of a line. -/
theorem mem_hexText {byte : BitVec 8} {count value : Nat} (member : byte ∈ hexText count value) :
    ∃ digit : Fin 16, byte = hexChar digit := by
  induction count generalizing value with
  | zero => cases member
  | succ count ih =>
    rw [hexText, List.mem_append, List.mem_singleton] at member
    rcases member with earlier | rfl
    · exact ih earlier
    · exact ⟨⟨value % 16, Nat.mod_lt _ (by omega)⟩, rfl⟩

/-- A digit is no blank, no sign and no part of a mark in front of a number. -/
theorem hexChar_plain (digit : Fin 16) : isSpace (hexChar digit) = false ∧
    hexChar digit ≠ 0x2D ∧ hexChar digit ≠ 0x2B ∧ hexChar digit ≠ 0x78 ∧ hexChar digit ≠ 0x58 := by
  revert digit
  decide

/-- Nothing stands in front of the digits of a number. -/
theorem skipHexPrefix_digits {second : BitVec 8} (plain : second ≠ 0x78 ∧ second ≠ 0x58)
    (first : BitVec 8) (rest : List (BitVec 8)) :
    skipHexPrefix (first :: second :: rest) = first :: second :: rest := by
  unfold skipHexPrefix
  split
  · rename_i same
    cases same
    refine if_neg fun marked => ?_
    rcases marked.1 with rfl | rfl
    · exact plain.1 rfl
    · exact plain.2 rfl
  · rfl

/-- A number of digits is read up to what follows it. -/
theorem strtoul_digits {count value : Nat} (small : value < 16 ^ (count + 2)) (rest : List (BitVec 8)) :
    (strtoul (hexText (count + 2) value ++ 0x20 :: rest)).1 = clampUlong value := by
  obtain ⟨first, second, digits, whole⟩ :
      ∃ first second digits, hexText (count + 2) value = first :: second :: digits := by
    match split : hexText (count + 2) value with
    | [] | [_] =>
      have length := length_hexText (count + 2) value
      simp [split] at length
    | first :: second :: digits => exact ⟨first, second, digits, rfl⟩
  obtain ⟨one, rfl⟩ : ∃ digit : Fin 16, first = hexChar digit :=
    mem_hexText (whole ▸ List.mem_cons_self)
  obtain ⟨other, rfl⟩ : ∃ digit : Fin 16, second = hexChar digit :=
    mem_hexText (whole ▸ List.mem_cons_of_mem _ List.mem_cons_self)
  obtain ⟨blank, minus, plus, -, -⟩ := hexChar_plain one
  obtain ⟨-, -, -, plain⟩ := hexChar_plain other
  have read := hexDigits_hexText small 0 (0x20 :: rest)
  rw [whole, List.cons_append, List.cons_append] at read ⊢
  rw [strtoul, List.dropWhile_cons_of_neg (by simp [blank])]
  -- The first digit is no sign, so all that is left is read as digits.
  split
  rename_i unsigned
  split at unsigned
  · rename_i same
    exact absurd (List.cons.inj same).1 minus
  · rename_i same
    exact absurd (List.cons.inj same).1 plus
  · obtain ⟨rfl, rfl⟩ := Prod.mk.inj unsigned
    have ended : hexDigits value (0x20 :: rest) = (value, 0x20 :: rest) := by
      have stop : hexDigit 0x20 = none := by decide
      rw [hexDigits, stop]
    rw [Nat.zero_mul, Nat.zero_add, ended] at read
    simp only [skipHexPrefix_digits plain, List.head?_cons, Option.bind_some,
      hexDigit_hexChar one.isLt, read, Bool.false_and, Bool.false_eq_true, if_false]

/-- An address is read from the start of its line. -/
theorem strtoul_line (entry : MapEntry) : (strtoul entry.line).1 = entry.address := by
  have small : entry.address.toNat < 16 ^ (14 + 2) := entry.address.isLt
  have read := strtoul_digits small (entry.kind :: 0x20 :: entry.name ++ [0x0A])
  simpa [MapEntry.line, clampUlong, entry.address.isLt] using read

/-! ### Lines -/

/-- A line that was begun is delivered when it ends. -/
theorem fgetsFrom_append {limit : Nat} {begun body : List (BitVec 8)} (clean : 0x0A ∉ body)
    (short : begun.length + body.length < limit) (rest : List (BitVec 8)) :
    fgetsFrom limit begun (body ++ 0x0A :: rest) =
      (begun ++ body ++ [0x0A]) :: fgetsFrom limit [] rest := by
  -- The buffer is not full before the line ends, so only its end delivers it.
  induction body generalizing begun with
  | nil => simp [fgetsFrom]
  | cons byte body ih =>
    rw [List.mem_cons, not_or] at clean
    have later := @ih (begun ++ [byte]) clean.2 (by simp at short ⊢; omega)
    have unfinished : ¬ (byte = 0x0A ∨ (begun ++ [byte]).length = limit) := by
      rintro (rfl | full)
      · exact clean.1 rfl
      · simp at short full
        omega
    rw [List.cons_append, fgetsFrom]
    simp only [unfinished, if_false, later, List.append_assoc, List.singleton_append]

/-- The lines of a map are delivered one by one. -/
theorem fgetsLines_map {entries : List MapEntry} (fits : ∀ entry ∈ entries, entry.Fits) :
    fgetsLines (entries.flatMap MapEntry.line) = entries.map MapEntry.line := by
  have no_newline (digit : Fin 16) : hexChar digit ≠ 0x0A := by
    revert digit
    decide
  induction entries with
  | nil => rfl
  | cons entry rest ih =>
    rw [List.forall_mem_cons] at fits
    obtain ⟨kind, name, short⟩ := fits.1
    -- Only the last byte of a line ends it, and a line fits the buffer.
    have clean : 0x0A ∉ hexText 16 entry.address.toNat ++ 0x20 :: entry.kind :: 0x20 :: entry.name := by
      have digits : 0x0A ∉ hexText 16 entry.address.toNat := by
        intro member
        obtain ⟨digit, same⟩ := mem_hexText member
        exact no_newline digit same.symm
      have others : 0x0A ∉ 0x20 :: entry.kind :: 0x20 :: entry.name := by
        simpa using ⟨Ne.symm kind.2, name.2⟩
      exact fun member => (List.mem_append.mp member).elim digits others
    have length : (hexText 16 entry.address.toNat ++ 0x20 :: entry.kind :: 0x20 :: entry.name).length <
        255 := by
      simp
      omega
    have first := @fgetsFrom_append 255 [] _ clean (by simpa using length) (rest.flatMap MapEntry.line)
    rw [fgetsLines] at ih ⊢
    rw [ih fits.2] at first
    simpa [MapEntry.line] using first

/-! ### The addresses -/

/-- A search finds the words that occur. -/
theorem occursIn_iff {needle string : List (BitVec 8)} : occursIn needle string ↔ needle <:+: string := by
  simp [occursIn, List.any_eq_true, List.infix_iff_prefix_suffix, and_comm]

/-- A mark is in the name of an entry if it is in its line. -/
theorem occursIn_line {mark : List (BitVec 8)} (long : 1 < mark.length) (clean : 0x20 ∉ mark ∧ 0x0A ∉ mark)
    (marked : 0x5F ∈ mark) (entry : MapEntry) : occursIn mark entry.line ↔ mark <:+: entry.name := by
  -- A mark does not cross the separators of a line, so it lies in one of its parts.
  have not_digits : ¬ mark <:+: hexText 16 entry.address.toNat := by
    intro inside
    obtain ⟨digit, same⟩ := mem_hexText (inside.subset marked)
    have never : ∀ digit : Fin 16, 0x5F ≠ hexChar digit := by decide
    exact never digit same
  have not_kind : ¬ mark <:+: [entry.kind] := fun inside => by
    have short := inside.length_le
    rw [List.length_singleton] at short
    omega
  have not_end : ¬ mark <:+: [] := fun inside => by
    have short := inside.length_le
    rw [List.length_nil] at short
    omega
  have whole : entry.line =
      hexText 16 entry.address.toNat ++ 0x20 :: ([entry.kind] ++ 0x20 :: (entry.name ++ 0x0A :: [])) := by
    simp [MapEntry.line]
  rw [occursIn_iff, whole, Separated.infix_iff clean.1, Separated.infix_iff clean.1,
    Separated.infix_iff clean.2]
  simp only [not_digits, not_kind, not_end, false_or, or_false]

/-- A line has no end but its last byte. -/
theorem takeWhile_line {entry : MapEntry} (fits : entry.Fits) :
    entry.line.takeWhile (· ≠ 0) = entry.line := by
  -- No part of the line holds the byte that ends a string.
  have digits (digit : Fin 16) : hexChar digit ≠ 0 := by
    revert digit
    decide
  have no_digit : 0 ∉ hexText 16 entry.address.toNat := fun member => by
    obtain ⟨digit, same⟩ := mem_hexText member
    exact digits digit same.symm
  have clean : 0 ∉ entry.line := by
    simpa [MapEntry.line] using ⟨no_digit, Ne.symm fits.kind.1, fits.name.1⟩
  rw [List.takeWhile_eq_self_iff]
  intro byte member
  have different : byte ≠ 0 := by
    rintro rfl
    exact clean member
  simpa using different

/-- A line gives one of the addresses, or none, and the loop ends when both are known. -/
theorem detectFrom_line {line : List (BitVec 8)} (ended : line.takeWhile (· ≠ 0) = line)
    (start stop : BitVec 64) (rest : List (List (BitVec 8))) :
    detectFrom start stop (line :: rest) =
      let range := if occursIn (bytesOf "_start_ksymtab_strings") line then ((strtoul line).1, stop)
        else if occursIn (bytesOf "_end_ksymtab_strings") line then (start, (strtoul line).1)
        else (start, stop)
      if range.1 ≠ 0 ∧ range.2 ≠ 0 then range else detectFrom range.1 range.2 rest := by
  rw [detectFrom, ended]

section Marked

variable {entries : List MapEntry} {first last : MapEntry}

/-- The addresses of the marks are found in the lines that are left, as far as they are not known. -/
theorem detectFrom_marks (marks : Marks entries first last) {rest : List MapEntry}
    (fits : ∀ entry ∈ rest, entry.Fits) (members : ∀ entry ∈ rest, entry ∈ entries)
    {start stop : BitVec 64} (start_known : start = first.address ∨ start = 0 ∧ first ∈ rest)
    (stop_known : stop = last.address ∨ stop = 0 ∧ last ∈ rest) :
    detectFrom start stop (rest.map MapEntry.line) = (first.address, last.address) := by
  induction rest generalizing start stop with
  | nil =>
    simp only [List.not_mem_nil, and_false, or_false] at start_known stop_known
    simp [detectFrom, start_known, stop_known]
  | cons entry rest ih =>
    rw [List.forall_mem_cons] at fits members
    -- No other line of the map has the name of a mark in it.
    have at_start : occursIn (bytesOf "_start_ksymtab_strings") entry.line ↔ entry = first :=
      (occursIn_line (by decide) (by decide) (by decide) entry).trans
        (marks.first_only entry members.1)
    have at_end : occursIn (bytesOf "_end_ksymtab_strings") entry.line ↔ entry = last :=
      (occursIn_line (by decide) (by decide) (by decide) entry).trans
        (marks.last_only entry members.1)
    -- The search ends when both addresses are known, and else goes on with the rest.
    have goes {start stop : BitVec 64} (start_known : start = first.address ∨ start = 0 ∧ first ∈ rest)
        (stop_known : stop = last.address ∨ stop = 0 ∧ last ∈ rest) :
        (if start ≠ 0 ∧ stop ≠ 0 then (start, stop)
          else detectFrom start stop (rest.map MapEntry.line)) = (first.address, last.address) := by
      by_cases found : start ≠ 0 ∧ stop ≠ 0
      · rw [if_pos found, start_known.resolve_right fun unknown => found.1 unknown.1,
          stop_known.resolve_right fun unknown => found.2 unknown.1]
      · rw [if_neg found]
        exact ih fits.2 members.2 start_known stop_known
    rw [List.mem_cons] at start_known stop_known
    rw [List.map_cons, detectFrom_line (takeWhile_line fits.1), strtoul_line]
    -- A line is that of the first mark, that of the last, or that of another symbol.
    by_cases one : entry = first
    · have other : last ≠ entry := fun same => marks.different (one.symm.trans same.symm)
      rw [if_pos (at_start.mpr one), one]
      exact goes (.inl rfl) (by simpa [other] using stop_known)
    · have start_known : start = first.address ∨ start = 0 ∧ first ∈ rest := by
        simpa [Ne.symm one] using start_known
      rw [if_neg (mt at_start.mp one)]
      by_cases other : entry = last
      · rw [if_pos (at_end.mpr other), other]
        exact goes start_known (.inl rfl)
      · rw [if_neg (mt at_end.mp other)]
        exact goes start_known (by simpa [Ne.symm other] using stop_known)

end Marked

/--
The names that the kernel exports are those that its map leads to.

The map gives the addresses of the first of the packed names and of the end of the last one.
-/
theorem initSymtable_stored {host : ModuleHost} {map image : HostFile} {entries : List MapEntry}
    {first last : MapEntry} {names : List (List (BitVec 8))}
    (map_opened : (host.call "System.map").file = some map)
    (written : map.content = entries.flatMap MapEntry.line) (fits : ∀ entry ∈ entries, entry.Fits)
    (marks : Marks entries first last) (opened : (host.call "startup.bin").file = some image)
    (low : (first.address - pageOffset).toNat < 2 ^ 32)
    (bounds : (last.address - first.address).toNat = (CStrings.pack names).length)
    (small : (CStrings.pack names).length < 2 ^ 32)
    (placed : CStrings.pack names <+: image.content.drop (first.address - pageOffset).toNat)
    (clean : ∀ name ∈ names, 0 ∉ name) : initSymtable host = .ok (names.map text) := by
  -- The map gives both addresses, which are kept as words of 32 bits.
  have range : detectSymsRange host = .ok ((first.address - pageOffset).setWidth 32,
      (last.address - first.address).setWidth 32) := by
    have found := detectFrom_marks marks fits (fun _ member => member)
      (.inr ⟨rfl, marks.members.1⟩) (.inr ⟨rfl, marks.members.2⟩)
    simp only [detectSymsRange, map_opened, written, fgetsLines_map fits, found]
  have ptr : ((first.address - pageOffset).setWidth 32).toNat = (first.address - pageOffset).toNat := by
    rw [BitVec.toNat_setWidth, Nat.mod_eq_of_lt low]
  have num : ((last.address - first.address).setWidth 32).toNat = (CStrings.pack names).length := by
    rw [BitVec.toNat_setWidth, bounds, Nat.mod_eq_of_lt small]
  have reached : (first.address - pageOffset).toNat < 2 ^ 63 := by omega
  have read := List.prefix_iff_eq_take.mp placed
  simp only [initSymtable, range, ok_bind, opened, ptr, num, Stream.fseek, reached, if_true,
    Stream.fread, ← read, Nat.sub_self, List.replicate_zero, List.append_nil, exportedNames,
    CStrings.split_pack clean]

/-- The bounds of the names of a kernel, behind four other bytes of its image. -/
def sampleFirst : MapEntry := ⟨0xFFFFFFE000000004, 0x52, 0x5F :: startMark⟩
def sampleLast : MapEntry := ⟨0xFFFFFFE000000006, 0x52, 0x5F :: endMark⟩

/-- A kernel and its map. -/
def sampleMap : HostFile := ⟨[sampleLast, sampleFirst].flatMap MapEntry.line, by decide +kernel⟩
def sampleImage : HostFile := ⟨[0x6F, 0, 0, 0, 0x75, 0], by decide⟩

/-- A host with the kernel and its map. -/
def sampleKernel : ModuleHost where
  directory := none
  call name :=
    if name = "System.map" then { file := some sampleMap, delivers := 0 }
    else { file := some sampleImage, delivers := 0 }

theorem initSymtable_stored_sample : initSymtable sampleKernel = .ok ["u"] := by
  have fits : ∀ entry ∈ [sampleLast, sampleFirst], entry.Fits := by
    simp only [List.forall_mem_cons, List.not_mem_nil, false_imp_iff, implies_true, and_true]
    exact ⟨⟨by decide, by decide, by decide⟩, ⟨by decide, by decide, by decide⟩⟩
  have marks : Marks [sampleLast, sampleFirst] sampleFirst sampleLast :=
    ⟨by decide, by decide, by decide, by decide, by decide⟩
  have map_opened : (sampleKernel.call "System.map").file = some sampleMap := rfl
  have opened : (sampleKernel.call "startup.bin").file = some sampleImage := rfl
  have placed : CStrings.pack [[0x75#8]] <+:
      sampleImage.content.drop (sampleFirst.address - pageOffset).toNat := by decide
  exact initSymtable_stored map_opened rfl fits marks opened (by decide) (by decide) (by decide)
    placed (by decide)

end Xemu
