import Xemu.Lib.Ensures
import Xemu.Proofs.ModuleLoad
import Xemu.Proofs.Modules

/-! The modules are sorted to an end, and every module comes after those it depends on. -/

namespace Xemu

open Relation

/-! ### Reading comes to an end -/

/-- A computation that completes, or stops for a cause that is in no list, loop or depth of calls. -/
def Settles {α : Type} (comp : Except Stop α) : Prop := Ends comp (fun _ => True) Stop.Foreign

namespace Settles

variable {α β : Type} {comp : Except Stop α} {next : α → Except Stop β}

/-- A result is an end. -/
theorem ok (result : α) : Settles (.ok result) := Ends.ok trivial

/-- So is a stop for another cause. -/
theorem error {stop : Stop} (other : stop.Foreign) : Settles (.error stop : Except Stop α) :=
  Ends.error other

/-- A computation settles that goes on to another one, if both settle. -/
theorem bind (first : Settles comp) (second : ∀ result, Settles (next result)) :
    Settles (comp >>= next) :=
  Ends.bind first fun result _ => second result

/-- A branch settles if both of its cases do. -/
theorem ite {cond : Prop} [Decidable cond] {other : Except Stop α} (yes : Settles comp)
    (no : Settles other) : Settles (if cond then comp else other) :=
  Ends.ite (fun _ => yes) fun _ => no

end Settles

section Reading

variable {host : ModuleHost}

/-- A buffer is split into names, or its last name has no end. -/
theorem exportedNames_settles (buffer : List (BitVec 8)) : Settles (exportedNames buffer) := by
  rw [exportedNames]
  split
  · exact .error (by decide)
  · exact .ok _

/-- A string table is read whole, or the machine panics. -/
theorem getStrtab_settles (shdr : Elf64Shdr) (fp : Stream) : Settles (getStrtab shdr fp) :=
  .ite (.error (by decide)) (.ok _)

/-- Of each entry of a symbol table the name is looked up, and the rest is gone through. -/
theorem undefNames_settles (strtab sym : List (BitVec 8)) (entries : List Nat) :
    Settles (undefNames strtab sym entries) := by
  -- An entry that names nothing is passed over, and any other one has a name that ends.
  induction entries with
  | nil => exact .ok _
  | cons i rest ih =>
    simp only [undefNames]
    split
    · split
      · exact .error (by decide)
      · exact .bind ih fun names => .ok _
    · exact ih

/-- A symbol table is read whole, and its entries are gone through. -/
theorem discoverUndefSyms_settles (shdr : Elf64Shdr) (strtab : List (BitVec 8)) (fp : Stream) :
    Settles (discoverUndefSyms shdr strtab fp) := by
  simp only [discoverUndefSyms]
  refine .ite (.error (by decide)) ?_
  exact .bind (undefNames_settles _ _ _) fun names => .ok _

/-- A comparison goes byte by byte, and stops where the buffer ends first. -/
theorem strcmpEqual_settles (buffer string : List (BitVec 8)) : Settles (strcmpEqual buffer string) := by
  -- Both strings are gone through, and the second one has its end with it.
  induction string generalizing buffer with
  | nil =>
    cases buffer <;> exact .ok _
  | cons other others ih =>
    cases buffer with
    | nil => exact .error (by decide)
    | cons byte rest => exact .ite (ih rest) (.ok _)

/-- A section is a symbol table, a table of exported names, or neither. -/
theorem analysisSection_settles (sechdrs : List Elf64Shdr) (secstrings : List (BitVec 8))
    (shdr : Elf64Shdr) (fp : Stream) : Settles (analysisSection sechdrs secstrings shdr fp) := by
  rw [analysisSection]
  -- A symbol table is followed to its strings, and any other section is asked for its name.
  split
  · split
    · exact .error (by decide)
    · exact .bind (getStrtab_settles _ _) fun strtab =>
        .bind (discoverUndefSyms_settles _ _ _) fun names => .ok _
  · refine .bind (strcmpEqual_settles _ _) fun same => .ite ?_ (.ok _)
    exact .bind (getStrtab_settles _ _) fun str => .bind (exportedNames_settles _) fun names => .ok _

/-- The sections are analysed one behind the other. -/
theorem analysisSections_settles (sechdrs : List Elf64Shdr) (secstrings : List (BitVec 8))
    (parts : List Elf64Shdr) (fp : Stream) : Settles (analysisSections sechdrs secstrings parts fp) := by
  induction parts generalizing fp with
  | nil => exact .ok _
  | cons shdr rest ih =>
    exact .bind (analysisSection_settles _ _ _ _) fun found => .bind (ih _) fun later => .ok _

/-- A module whose file is opened is analysed section by section. -/
theorem analysed_settles (host : ModuleHost) (name : String) : Settles (analysed host name) := by
  -- The header is checked first, then the file's string table is read, and then its sections.
  have file (fp : Stream) : Settles (analysisFile fp) := by
    simp only [analysisFile]
    refine .ite (.error (by decide)) (.ite (.error (by decide)) ?_)
    split
    · exact .error (by decide)
    · exact .bind (getStrtab_settles _ _) fun strings => analysisSections_settles _ _ _ _
  have opened : Settles (openModule host name) := by
    rw [openModule]
    refine .ite (.error (by decide)) ?_
    split
    · exact .error (by decide)
    · exact .ok _
  have read : Settles (analysisModule host name) := .bind opened file
  rw [analysed]
  cases found : analysisModule host name with
  | error stop => exact .error (read.stopped _ found)
  | ok sections => exact .ok _

/-- The names of the kernel are read from where its map says. -/
theorem initSymtable_settles (host : ModuleHost) : Settles (initSymtable host) := by
  rw [initSymtable]
  -- A missing file is a panic, and what its range leaves out is zero.
  refine .bind ?_ fun range => ?_
  · rw [detectSymsRange]
    split
    · exact .error (by decide)
    · exact .ok _
  · obtain ⟨ptr, num⟩ := range
    simp only
    split
    · exact .error (by decide)
    · exact exportedNames_settles _

/-- A name without a dot is compared through a null pointer, which is none of a list. -/
theorem checkModule_settles (startpoint : Option String) (name : String) :
    Settles (checkModule startpoint name) := by
  rw [checkModule]
  refine .ite (.ok _) (.ite (.ok _) ?_)
  split
  · exact .error (by decide)
  · exact .ok _

/-- The directory is gone through once, name by name. -/
theorem discovered_settles (host : ModuleHost) (startpoint : Option String) :
    Settles (discovered host startpoint) := by
  -- The induction is on the names left in the directory, whatever was found before them.
  have each (entries : List String) (found : Discovery (List String)) :
      Settles (discoverEach startpoint (fun names name => .ok (names ++ [name])) entries found) := by
    induction entries generalizing found with
    | nil => exact .ok _
    | cons name rest ih =>
      exact .bind (checkModule_settles _ _) fun loads =>
        .ite (.bind (.ok _) fun modules => ih _) (.ite (ih _) (.ite (ih _) (ih _)))
  rw [discovered, discoverModules]
  split
  · exact .error (by decide)
  · exact .bind (each _ _) fun found => .ite (.error (by decide)) (.ite (.error (by decide)) (.ok _))

/-- All that is read before the sort is read to an end. -/
theorem readModules_settles (host : ModuleHost) (startpoint : Option String) :
    Settles (readModules host startpoint) := by
  -- Every module that was found is analysed, in the order in which it was found.
  have all (names : List String) : Settles (names.mapM (analysed host)) := by
    induction names with
    | nil => exact .ok _
    | cons name rest ih =>
      rw [List.mapM_cons]
      exact .bind (analysed_settles host name) fun module => .bind ih fun modules => .ok _
  exact .bind (discovered_settles host startpoint) fun names =>
    .bind (initSymtable_settles host) fun kernel => .bind (all names) fun modules => .ok _

end Reading

/-! ### Sorting comes to an end -/

section Sorting

variable {kernel : List String} {modules : List Module}

/-- What is matched is exported. -/
theorem exported_of_matchUndef {name : String} {sym : ModSymbol modules.length}
    (found : matchUndef (symbolTable kernel modules) name = some sym) : Exported kernel modules name := by
  have same : sym.name = name := by simpa using List.find?_some found
  have listed := List.mem_of_find?_eq_some found
  -- The table has the symbols of the kernel first, and those of each module behind them.
  rw [symbolTable, List.mem_append, List.mem_flatMap] at listed
  rcases listed with own | ⟨mod, -, exported⟩
  · obtain ⟨_, member, rfl⟩ := List.mem_map.mp own
    exact .inl (same ▸ member)
  · obtain ⟨_, member, rfl⟩ := List.mem_map.mp exported
    exact .inr ⟨mod, same ▸ member⟩

/-- A check that finds every name, or panics at the first one that nobody exports. -/
theorem checkDependency_known (mod : Fin modules.length) {undefs : List String}
    {sorting after : Sorting modules.length}
    (ran : checkDependency (symbolTable kernel modules) mod undefs sorting = .ok after) :
    ∀ name ∈ undefs, Exported kernel modules name := by
  -- A name that is not matched stops the loop, so one that went on has matched all of them.
  induction undefs generalizing sorting with
  | nil => simp
  | cons name rest ih =>
    rw [checkDependency_cons] at ran
    rw [List.forall_mem_cons]
    split at ran
    · cases ran
    · rename_i found
      exact ⟨exported_of_matchUndef found, ih ran⟩

/-- Checks that end have found every name. -/
theorem checkDependencies_known {mods : List (Fin modules.length)}
    {sorting after : Sorting modules.length}
    (ran : checkDependencies (symbolTable kernel modules) (fun mod => (modules.get mod).undefSyms) mods
      sorting = .ok after) :
    ∀ mod ∈ mods, ∀ name ∈ (modules.get mod).undefSyms, Exported kernel modules name := by
  -- The modules are checked one behind the other, each from where the one before ended.
  induction mods generalizing sorting with
  | nil => simp
  | cons mod rest ih =>
    obtain ⟨middle, first, later⟩ := bind_eq_ok.mp ran
    rw [List.forall_mem_cons]
    exact ⟨checkDependency_known mod first, ih later⟩

/-- The check of the symbols is a loop in a loop, each over a list of its own. -/
theorem checkDependencies_settles (mods : List (Fin modules.length)) (sorting : Sorting modules.length) :
    Settles (checkDependencies (symbolTable kernel modules) (fun mod => (modules.get mod).undefSyms)
      mods sorting) := by
  have one (mod : Fin modules.length) (undefs : List String) (sorting : Sorting modules.length) :
      Settles (checkDependency (symbolTable kernel modules) mod undefs sorting) := by
    -- A name that nobody exports is a panic, and any other one goes on.
    induction undefs generalizing sorting with
    | nil => exact .ok _
    | cons name rest ih =>
      rw [checkDependency_cons]
      split
      · exact .error (by decide)
      · exact ih _
  induction mods generalizing sorting with
  | nil => exact .ok _
  | cons mod rest ih => exact .bind (one _ _ _) fun middle => ih _

/--
An order in which modules can be loaded.

It has each module that a selected one needs, once and after those that it needs itself.
-/
structure LoadOrder (kernel : List String) (modules : List Module) (startpoint : Option String)
    (order : List (Fin modules.length)) : Prop where
  nodup : order.Nodup
  closed : ∀ other, other ∈ order ↔ ∃ mod, Selected modules startpoint mod ∧
    ReflTransGen (DependsOn kernel modules) mod other
  earlier : ∀ before mod after, order = before ++ mod :: after →
    ∀ target, DependsOn kernel modules mod target → target ∈ before

/-- With depth for all modules a sort comes to an end, and if it does not panic, to an order. -/
theorem sortModules_ends (kernel : List String) (modules : List Module) (startpoint : Option String)
    {fuel : Nat} (enough : modules.length < fuel) :
    Ends (sortModules fuel kernel modules startpoint)
      (fun sorted => LoadOrder kernel modules startpoint sorted.calls) Stop.Foreign := by
  cases ran : checkDependencies (symbolTable kernel modules) (fun mod => (modules.get mod).undefSyms)
    (List.finRange modules.length) .initial with
  | error stop =>
    have other := (checkDependencies_settles _ _).stopped _ ran
    simp only [sortModules, ran]
    exact .error other
  | ok checked =>
    -- What is checked is sorted, and the callbacks are called as modules are done.
    have known := fun mod => checkDependencies_known ran mod (List.mem_finRange mod)
    obtain ⟨same, ran', ordered, calls, settled⟩ := checkDependencies_ordered known
    cases ran.symm.trans ran'
    have outcome := traverseSelected_spec enough
      (fun mod => selected startpoint (modules.get mod).name) (List.finRange modules.length)
      ordered settled
    simp only [sortModules, ran, ok_bind]
    rcases outcome with ⟨sorted, new, done, ordered', calls', reached, all⟩ | ⟨panicked, -⟩
    · rw [done]
      -- The calls are a postorder of what the selected modules reach.
      refine .ok ⟨ordered'.postorder.nodup, fun other => ⟨fun member => ?_, ?_⟩, ?_⟩
      · rw [calls', calls, List.nil_append] at member
        obtain ⟨mod, -, picked, reaches⟩ := reached other member
        exact ⟨mod, picked, reaches⟩
      · rintro ⟨mod, picked, reaches⟩
        exact ordered'.postorder.mem_of_reaches (all mod (List.mem_finRange mod) picked) reaches
      · exact fun before mod after split target needs => ordered'.postorder.mem_before split needs
    · rw [panicked]
      exact .error (by decide)

/-- The names are an order of the modules that were read. -/
def InOrder (host : ModuleHost) (startpoint : Option String) (names : List String) : Prop :=
  ∃ kernel modules order, readModules host startpoint = .ok (kernel, modules) ∧
    LoadOrder kernel modules startpoint order ∧ names = order.map (nameOf modules)

/-- The sort on lists comes to an end, and if it does not panic, to an order. -/
theorem sortedNames_ends (host : ModuleHost) (startpoint : Option String) :
    ∃ rounds, ∀ fuel ≥ rounds,
      Ends (sortedNames host fuel startpoint) (InOrder host startpoint) Stop.Foreign := by
  -- What stops while the modules are read stops the sort, and any depth will do for it.
  cases read : readModules host startpoint with
  | error stop =>
    refine ⟨0, fun fuel _ => ?_⟩
    rw [sortedNames, read]
    exact .error ((readModules_settles host startpoint).stopped _ read)
  | ok all =>
    obtain ⟨kernel, modules⟩ := all
    refine ⟨modules.length + 1, fun fuel enough => ?_⟩
    have sorts := sortModules_ends kernel modules startpoint enough
    rw [sortedNames, read]
    simp only [ok_bind]
    cases ran : sortModules fuel kernel modules startpoint with
    | error stop => exact .error (sorts.stopped _ ran)
    | ok sorted =>
      exact .ok ⟨kernel, modules, sorted.calls, read, sorts.ensures _ ran, rfl⟩

/--
The whole sort on the heap is a sort on lists, which comes to an end.

The lists of `list.h` that it keeps in its structures are never followed through a pointer that is
null or to a structure that was freed, unless the callback does so. The callback is called with the
names that the sort on lists comes to, in their order, which has every module after those it depends
on. No symbol and no module stays allocated.
-/
theorem sortModules_refined {Opaque : Type} (host : ModuleHost)
    (cb : String → Opaque → Except Stop Opaque) (startpoint : Option String) (data : Opaque) :
    ∃ rounds, ∀ bound ≥ rounds, ∀ fuel ≥ rounds,
      Follows cb data id (Emptied cb data)
        (ModuleHeap.sortModules host cb bound fuel startpoint data >>= ModuleHeap.clearModules bound)
        (sortedNames host fuel startpoint) ∧
      Ends (sortedNames host fuel startpoint) (InOrder host startpoint) Stop.Foreign ∧
      ∀ stop, (ModuleHeap.sortModules host cb bound fuel startpoint data >>=
          ModuleHeap.clearModules bound) = .error stop →
        stop.Foreign ∨ ∃ made, called cb data made = .error stop := by
  obtain ⟨rounds, follows⟩ := sortModules_follows host cb startpoint data
  obtain ⟨depth, ends⟩ := sortedNames_ends host startpoint
  refine ⟨max rounds depth, fun bound enough fuel deep => ?_⟩
  have same := follows bound (Nat.le_trans (Nat.le_max_left ..) enough) fuel
  have sorts := ends fuel (Nat.le_trans (Nat.le_max_right ..) deep)
  refine ⟨same, sorts, fun stop ran => ?_⟩
  -- The sort on lists has no pointers, so it stops for none of their causes.
  rw [ran] at same
  rcases same with sort | ⟨made, stopped, -⟩
  · exact .inl (sorts.stopped _ sort)
  · exact .inr ⟨made, stopped⟩

end Sorting

end Xemu
