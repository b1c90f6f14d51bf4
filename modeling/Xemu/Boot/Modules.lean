import Mathlib.Logic.Function.Basic
import Xemu.Util

/-! The order in which the kernel modules are handed to the flash image. -/

namespace Xemu

/-- What `analysis_module` reads of one module file. -/
structure Module where
  /-- The file's name in the module directory. -/
  name : String
  /-- The names in its `_ksymtab_strings` sections. -/
  exported : List String
  /-- The undefined names of its symbol tables, in table order. -/
  undefSyms : List String
  deriving DecidableEq, Repr

/-- `mod_status`, the progress of the traversal at one module. -/
inductive ModStatus where
  /-- Not entered. -/
  | none
  /-- Entered and not left, or left early. -/
  | doing
  /-- Handed to the callback. -/
  | done
  deriving DecidableEq, Repr

/-- An exported name and the module that exports it, which the kernel's own names lack. -/
structure ModSymbol (n : Nat) where
  /-- The name. -/
  name : String
  /-- The exporting module. -/
  mod : Option (Fin n)
  deriving DecidableEq, Repr

/-- The part of the module list that sorting changes, a module standing for its place in it. -/
structure Sorting (n : Nat) where
  /-- `status` of each module. -/
  status : Fin n → ModStatus
  /-- `dependencies` of each module, in list order. -/
  dependencies : Fin n → List (Fin n)
  /-- The modules the callback was called for, in call order. -/
  calls : List (Fin n)

namespace Sorting

variable {n : Nat}

/-- A freshly discovered module list. -/
def initial : Sorting n where
  status := fun _ => .none
  dependencies := fun _ => []
  calls := []

/-- A store to `mod->status`. -/
def setStatus (sorting : Sorting n) (mod : Fin n) (status : ModStatus) : Sorting n :=
  { sorting with status := Function.update sorting.status mod status }

/-- `list_add_tail` on `mod->dependencies`. -/
def addDependency (sorting : Sorting n) (mod target : Fin n) : Sorting n :=
  { sorting with dependencies :=
      Function.update sorting.dependencies mod (sorting.dependencies mod ++ [target]) }

/-- `list_del` of an entry of `mod->dependencies`. -/
def deleteDependency (sorting : Sorting n) (mod target : Fin n) : Sorting n :=
  { sorting with dependencies :=
      Function.update sorting.dependencies mod ((sorting.dependencies mod).erase target) }

/-- One call of the callback. -/
def call (sorting : Sorting n) (mod : Fin n) : Sorting n :=
  { sorting with calls := sorting.calls ++ [mod] }

variable (sorting : Sorting n) (mod target other : Fin n)

/-- A module has the status that it was given. -/
@[simp] theorem status_setStatus (status : ModStatus) :
    (sorting.setStatus mod status).status other =
      if other = mod then status else sorting.status other :=
  Function.update_apply ..

/-- A status is no dependency. -/
@[simp] theorem dependencies_setStatus (status : ModStatus) :
    (sorting.setStatus mod status).dependencies = sorting.dependencies := rfl

/-- Nor is it a call of the callback. -/
@[simp] theorem calls_setStatus (status : ModStatus) :
    (sorting.setStatus mod status).calls = sorting.calls := rfl

/-- A dependency is no status. -/
@[simp] theorem status_deleteDependency :
    (sorting.deleteDependency mod target).status = sorting.status := rfl

/-- A dependency is taken off the list of its own module. -/
@[simp] theorem dependencies_deleteDependency :
    (sorting.deleteDependency mod target).dependencies other =
      if other = mod then (sorting.dependencies mod).erase target
      else sorting.dependencies other :=
  Function.update_apply ..

/-- Nor is it a call of the callback. -/
@[simp] theorem calls_deleteDependency :
    (sorting.deleteDependency mod target).calls = sorting.calls := rfl

/-- A call of the callback changes no status. -/
@[simp] theorem status_call : (sorting.call mod).status = sorting.status := rfl

/-- Nor does it change a dependency. -/
@[simp] theorem dependencies_call : (sorting.call mod).dependencies = sorting.dependencies := rfl

/-- It comes after the calls before it. -/
@[simp] theorem calls_call : (sorting.call mod).calls = sorting.calls ++ [mod] := rfl

end Sorting

/-- `symbols` once the kernel's names and then each module's were appended to it. -/
def symbolTable (kernel : List String) (modules : List Module) :
    List (ModSymbol modules.length) :=
  kernel.map (fun name => ⟨name, none⟩) ++
    (List.finRange modules.length).flatMap fun mod =>
      (modules.get mod).exported.map fun name => ⟨name, some mod⟩

section Traversal

variable {n : Nat}

/-- `match_undef`. -/
def matchUndef (symbols : List (ModSymbol n)) (name : String) : Option (ModSymbol n) :=
  symbols.find? fun sym => sym.name == name

/-- `find_dependency`. -/
def findDependency (sorting : Sorting n) (cur target : Fin n) : Bool :=
  (sorting.dependencies cur).any fun mod => mod == target

/-- `check_dependency`, given the undefined names still listed for the module. -/
def checkDependency (symbols : List (ModSymbol n)) (mod : Fin n) :
    List String → Sorting n → Except Stop (Sorting n)
  -- Every name was taken off the list, so the closing test of the list cannot fail.
  | [], sorting => .ok sorting
  | undef :: rest, sorting =>
    match matchUndef symbols undef with
    | none => .error (.panic "mod '%s' has undef symbols '%s'!\n")
    -- A name of the kernel orders nothing.
    | some ⟨_, none⟩ => checkDependency symbols mod rest sorting
    | some ⟨_, some target⟩ =>
      if findDependency sorting mod target then checkDependency symbols mod rest sorting
      else checkDependency symbols mod rest (sorting.addDependency mod target)

/-- The loop of `traverse_dependency` over the entries of one module, with whether it ended. -/
def traverseEntries (traverse : Fin n → Sorting n → Except Stop (Sorting n)) (mod : Fin n) :
    List (Fin n) → Sorting n → Except Stop (Sorting n × Bool)
  | [], sorting => .ok (sorting, true)
  | target :: rest, sorting => do
    let sorting ← traverse target sorting
    -- A chain that came back to an entered module leaves the remaining entries in place.
    if sorting.status target ≠ .done then .ok (sorting, false)
    else traverseEntries traverse mod rest (sorting.deleteDependency mod target)

/-- `traverse_dependency`, with a bound on the depth of its calls. -/
def traverseDependency : Nat → Fin n → Sorting n → Except Stop (Sorting n)
  | 0, _, _ => .error .fuel
  | fuel + 1, mod, sorting =>
    if sorting.status mod ≠ .none then .ok sorting
    else do
      let (sorting, ended) ← traverseEntries (traverseDependency fuel) mod
        (sorting.dependencies mod) (sorting.setStatus mod .doing)
      if ended then
        if sorting.dependencies mod ≠ [] then .error (.panic "'%s' broken dependencies!\n")
        else .ok ((sorting.setStatus mod .done).call mod)
      else .ok sorting

/-- Every module's `check_dependency`, in list order. -/
def checkDependencies (symbols : List (ModSymbol n)) (undefSyms : Fin n → List String) :
    List (Fin n) → Sorting n → Except Stop (Sorting n)
  | [], sorting => .ok sorting
  | mod :: rest, sorting => do
    let sorting ← checkDependency symbols mod (undefSyms mod) sorting
    checkDependencies symbols undefSyms rest sorting

/-- The last loop of `sort_modules`, over the modules a start point selects. -/
def traverseSelected (fuel : Nat) (selected : Fin n → Bool) :
    List (Fin n) → Sorting n → Except Stop (Sorting n)
  | [], sorting => .ok sorting
  | mod :: rest, sorting =>
    if selected mod then do
      let sorting ← traverseDependency fuel mod sorting
      if sorting.status mod ≠ .done then .error (.panic "%s: cyclic chain: '%s'.\n")
      else traverseSelected fuel selected rest sorting
    else traverseSelected fuel selected rest sorting

end Traversal

/-- Without a start point every module is selected, otherwise those whose name begins with it. -/
def selected (startpoint : Option String) (name : String) : Bool :=
  match startpoint with
  | none => true
  | some text => text.toList.isPrefixOf name.toList

/-- `sort_modules`, after the module files were discovered. -/
def sortModules (fuel : Nat) (kernel : List String) (modules : List Module)
    (startpoint : Option String) : Except Stop (Sorting modules.length) := do
  let mods := List.finRange modules.length
  let sorting ← checkDependencies (symbolTable kernel modules)
    (fun mod => (modules.get mod).undefSyms) mods .initial
  traverseSelected fuel (fun mod => selected startpoint (modules.get mod).name) mods sorting

end Xemu
