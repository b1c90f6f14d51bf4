import Xemu.Boot.List
import Xemu.Boot.Modules

/-! The modules as `module.c` stores them: structures of the heap, linked by the list heads they embed. -/

namespace Xemu

open Cyclic

/-- Where a list head is: in a variable, or in a structure that is numbered in order of allocation. -/
inductive HeadPlace where
  /-- The variable `modules`. -/
  | modules
  /-- The variable `symbols`. -/
  | symbols
  /-- The field `list` of a `module`. -/
  | module (mod : Nat)
  /-- The field `undef_syms` of a `module`. -/
  | undefSyms (mod : Nat)
  /-- The field `dependencies` of a `module`. -/
  | dependencies (mod : Nat)
  /-- The field `list` of a `depend`. -/
  | depend (dep : Nat)
  /-- The field `list` of a `symbol`. -/
  | symbol (sym : Nat)
  deriving DecidableEq, Repr

/-- A `module`, without its list heads. -/
structure ModuleRecord where
  name : String
  status : ModStatus
  deriving DecidableEq, Repr

/-- A `symbol`, without its list head. -/
structure SymbolRecord where
  name : String
  mod : Option Nat
  deriving DecidableEq, Repr

/-- The heap of `module.c`, and what the callback of the sort works on. -/
structure ModuleHeap (Opaque : Type) where
  /-- The pointers of all list heads. -/
  heads : Links HeadPlace
  /-- Each `module` that is allocated and not freed. -/
  modules : Nat → Option ModuleRecord
  /-- The field `mod` of each `depend` that is allocated and not freed. -/
  depends : Nat → Option Nat
  /-- Each `symbol` that is allocated and not freed. -/
  symbols : Nat → Option SymbolRecord
  /-- How many structures of each kind were allocated. -/
  moduleCount : Nat
  dependCount : Nat
  symbolCount : Nat
  /-- What the callback works on. -/
  opaqueData : Opaque

namespace ModuleHeap

variable {Opaque : Type}

/-- The heap when `sort_modules` begins, with the two variables initialised by `LIST_HEAD`. -/
def initial (data : Opaque) : ModuleHeap Opaque where
  heads := ((⟨fun _ => none, fun _ => none⟩ : Links HeadPlace).join .modules .modules).join
    .symbols .symbols
  modules := fun _ => none
  depends := fun _ => none
  symbols := fun _ => none
  moduleCount := 0
  dependCount := 0
  symbolCount := 0
  opaqueData := data

/-! ### Access to structures -/

/-- A list head can be used as long as the structure that embeds it. -/
def live (heap : ModuleHeap Opaque) : HeadPlace → Bool
  | .modules => true
  | .symbols => true
  | .module mod => (heap.modules mod).isSome
  | .undefSyms mod => (heap.modules mod).isSome
  | .dependencies mod => (heap.modules mod).isSome
  | .depend dep => (heap.depends dep).isSome
  | .symbol sym => (heap.symbols sym).isSome

instance : HeadMemory (ModuleHeap Opaque) HeadPlace where
  links heap := heap.heads
  setLinks heap heads := { heap with heads := heads }
  live := live
  links_setLinks _ _ := rfl
  setLinks_links _ := rfl
  setLinks_setLinks _ _ _ := rfl
  live_setLinks _ _ := rfl

/-- A load of a `module`. -/
def loadModule (heap : ModuleHeap Opaque) (mod : Nat) : Except Stop ModuleRecord :=
  match heap.modules mod with
  | none => .error .stray
  | some record => .ok record

/-- A load of the field `mod` of a `depend`. -/
def loadDepend (heap : ModuleHeap Opaque) (dep : Nat) : Except Stop Nat :=
  match heap.depends dep with
  | none => .error .stray
  | some target => .ok target

/-- A load of a `symbol`. -/
def loadSymbol (heap : ModuleHeap Opaque) (sym : Nat) : Except Stop SymbolRecord :=
  match heap.symbols sym with
  | none => .error .stray
  | some record => .ok record

/-- `list_entry` for the field `list` of a `module`. -/
def moduleEntry (pos : HeadPlace) : Except Stop Nat :=
  match pos with
  | .module mod => .ok mod
  | _ => .error .stray

/-- `list_entry` for the field `list` of a `depend`. -/
def dependEntry (pos : HeadPlace) : Except Stop Nat :=
  match pos with
  | .depend dep => .ok dep
  | _ => .error .stray

/-- `list_entry` for the field `list` of a `symbol`. -/
def symbolEntry (pos : HeadPlace) : Except Stop Nat :=
  match pos with
  | .symbol sym => .ok sym
  | _ => .error .stray

/-- A store to the field `status` of a `module`. -/
def storeStatus (heap : ModuleHeap Opaque) (mod : Nat) (status : ModStatus) :
    Except Stop (ModuleHeap Opaque) := do
  let record ← heap.loadModule mod
  return { heap with
    modules := Function.update heap.modules mod (some { record with status := status }) }

/-! ### Discovery -/

/-- The part of `discover_modules` that allocates one module and appends it to the list. -/
def addModule (heap : ModuleHeap Opaque) (name : String) : Except Stop (ModuleHeap Opaque) := do
  let mod := heap.moduleCount
  let heap := { heap with
    moduleCount := mod + 1
    modules := Function.update heap.modules mod (some ⟨name, .none⟩) }
  let heap ← initListHead (some (.undefSyms mod)) heap
  let heap ← initListHead (some (.dependencies mod)) heap
  listAddTail (some (.module mod)) (some .modules) heap

/-- The allocation of a symbol and its place at the end of a list. -/
def addSymbol (heap : ModuleHeap Opaque) (list : HeadPlace) (record : SymbolRecord) :
    Except Stop (ModuleHeap Opaque) := do
  let sym := heap.symbolCount
  let heap := { heap with
    symbolCount := sym + 1
    symbols := Function.update heap.symbols sym (some record) }
  listAddTail (some (.symbol sym)) (some list) heap

/-- The loop of `export_symbols`, over the names it comes to. -/
def exportSymbols (mod : Option Nat) : List String → ModuleHeap Opaque →
    Except Stop (ModuleHeap Opaque)
  | [], heap => .ok heap
  | name :: rest, heap => do
    let heap ← heap.addSymbol .symbols ⟨name, mod⟩
    exportSymbols mod rest heap

/-- The loop of `discover_undef_syms`, over the names of the undefined symbols it comes to. -/
def addUndefSyms (mod : Nat) : List String → ModuleHeap Opaque → Except Stop (ModuleHeap Opaque)
  | [], heap => .ok heap
  | name :: rest, heap => do
    let heap ← heap.addSymbol (.undefSyms mod) ⟨name, none⟩
    addUndefSyms mod rest heap

/-! ### Dependencies -/

/-- The body of the loop of `match_undef`. -/
def matchBody (heap : ModuleHeap Opaque) (name : String) (pos : HeadPlace) (_ : Option Nat) :
    Except Stop (ForInStep (Option Nat)) := do
  let sym ← symbolEntry pos
  let record ← heap.loadSymbol sym
  if record.name = name then return .done (some sym) else return .yield none

/-- `match_undef`, with a bound on its rounds. -/
def matchUndef (heap : ModuleHeap Opaque) (bound : Nat) (name : String) :
    Except Stop (Option Nat) :=
  (listForEachEntry (fun _ => heap) (heap.matchBody name) .symbols bound none).map ForInStep.run

/-- The body of the loop of `find_dependency`. -/
def findBody (heap : ModuleHeap Opaque) (target : Nat) (pos : HeadPlace) (_ : Bool) :
    Except Stop (ForInStep Bool) := do
  let dep ← dependEntry pos
  let mod ← heap.loadDepend dep
  if mod = target then return .done true else return .yield false

/-- `find_dependency`, with a bound on its rounds. -/
def findDependency (heap : ModuleHeap Opaque) (bound cur target : Nat) : Except Stop Bool :=
  (listForEachEntry (fun _ => heap) (heap.findBody target) (.dependencies cur) bound false).map
    ForInStep.run

/-- The allocation of a dependency and its place at the end of a module's list. -/
def addDepend (heap : ModuleHeap Opaque) (mod target : Nat) : Except Stop (ModuleHeap Opaque) :=
  let dep := heap.dependCount
  let heap := { heap with
    dependCount := dep + 1
    depends := Function.update heap.depends dep (some target) }
  listAddTail (some (.depend dep)) (some (.dependencies mod)) heap

/-- The part of `check_dependency` that lists the module a symbol was found in. -/
def resolveSymbol (bound mod : Nat) (found : SymbolRecord) (heap : ModuleHeap Opaque) :
    Except Stop (ModuleHeap Opaque) :=
  match found.mod with
  -- A name of the kernel orders nothing.
  | none => .ok heap
  | some target => do
    if ← heap.findDependency bound mod target then .ok heap else heap.addDepend mod target

/-- The body of the loop of `check_dependency`. -/
def checkBody (bound mod : Nat) (pos : HeadPlace) (heap : ModuleHeap Opaque) :
    Except Stop (ForInStep (ModuleHeap Opaque)) := do
  let undef ← symbolEntry pos
  let record ← heap.loadSymbol undef
  match ← heap.matchUndef bound record.name with
  | none => .error (.panic "mod '%s' has undef symbols '%s'!\n")
  | some sym =>
    let found ← heap.loadSymbol sym
    let heap ← resolveSymbol bound mod found heap
    let heap ← listDel (some pos) heap
    return .yield { heap with symbols := Function.update heap.symbols undef none }

/-- `check_dependency`. -/
def checkDependency (bound mod : Nat) (heap : ModuleHeap Opaque) :
    Except Stop (ModuleHeap Opaque) := do
  let ended ← listForEachSafe id (checkBody bound mod) (.undefSyms mod) bound heap
  let heap := ended.run
  if ← listEmpty (some (.undefSyms mod)) heap then .ok heap
  else .error (.panic "mod '%s' has undef symbols!\n")

/-- The body of the loop of `sort_modules` that checks the dependencies of every module. -/
def checkEachBody (bound : Nat) (pos : HeadPlace) (heap : ModuleHeap Opaque) :
    Except Stop (ForInStep (ModuleHeap Opaque)) := do
  let mod ← moduleEntry pos
  return .yield (← checkDependency bound mod heap)

/-! ### Traversal -/

/-- The body of the loop of `traverse_dependency`, around the nested call. -/
def traverseBody (traverse : Nat → ModuleHeap Opaque → Except Stop (ModuleHeap Opaque))
    (pos : HeadPlace) (heap : ModuleHeap Opaque) :
    Except Stop (ForInStep (ModuleHeap Opaque)) := do
  let dep ← dependEntry pos
  let heap ← traverse (← heap.loadDepend dep) heap
  let target ← heap.loadModule (← heap.loadDepend dep)
  -- A chain that came back to an entered module leaves the remaining entries in place.
  if target.status ≠ .done then return .done heap
  let heap ← listDel (some pos) heap
  return .yield { heap with depends := Function.update heap.depends dep none }

/-- `traverse_dependency`, with bounds on its rounds and on the depth of its calls. -/
def traverseDependency (cb : String → Opaque → Except Stop Opaque) (bound : Nat) :
    Nat → Nat → ModuleHeap Opaque → Except Stop (ModuleHeap Opaque)
  | 0, _, _ => .error .fuel
  | fuel + 1, mod, heap => do
    let record ← heap.loadModule mod
    if record.status ≠ .none then .ok heap
    else
      let heap ← heap.storeStatus mod .doing
      match ← listForEachSafe id (traverseBody (traverseDependency cb bound fuel))
        (.dependencies mod) bound heap with
      | .done heap => .ok heap
      | .yield heap =>
        if ← listEmpty (some (.dependencies mod)) heap then
          let heap ← heap.storeStatus mod .done
          let data ← cb (← heap.loadModule mod).name heap.opaqueData
          return { heap with opaqueData := data }
        else .error (.panic "'%s' broken dependencies!\n")

/-- The body of the loop of `sort_modules` that traverses the modules a start point selects. -/
def sortBody (cb : String → Opaque → Except Stop Opaque) (bound fuel : Nat)
    (startpoint : Option String) (pos : HeadPlace) (heap : ModuleHeap Opaque) :
    Except Stop (ForInStep (ModuleHeap Opaque)) := do
  let mod ← moduleEntry pos
  let record ← heap.loadModule mod
  if selected startpoint record.name then
    let heap ← traverseDependency cb bound fuel mod heap
    let record ← heap.loadModule mod
    if record.status ≠ .done then .error (.panic "%s: cyclic chain: '%s'.\n")
    else return .yield heap
  else return .yield heap

/-! ### Release -/

/-- The body of the last loop of `sort_modules`. -/
def freeSymbolBody (pos : HeadPlace) (heap : ModuleHeap Opaque) :
    Except Stop (ForInStep (ModuleHeap Opaque)) := do
  let sym ← symbolEntry pos
  let heap ← listDel (some pos) heap
  -- The name that is freed first is read from the structure.
  let _ ← heap.loadSymbol sym
  return .yield { heap with symbols := Function.update heap.symbols sym none }

/-- The body of the loop of `clear_modules`. -/
def freeModuleBody (pos : HeadPlace) (heap : ModuleHeap Opaque) :
    Except Stop (ForInStep (ModuleHeap Opaque)) := do
  let mod ← moduleEntry pos
  let heap ← listDel (some pos) heap
  let _ ← heap.loadModule mod
  return .yield { heap with modules := Function.update heap.modules mod none }

/-- `clear_modules`. -/
def clearModules (bound : Nat) (heap : ModuleHeap Opaque) : Except Stop (ModuleHeap Opaque) :=
  (listForEachSafe id freeModuleBody .modules bound heap).map ForInStep.run

/-- What `sort_modules` does after every module was discovered and analysed. -/
def sortAnalysed (cb : String → Opaque → Except Stop Opaque) (bound fuel : Nat)
    (startpoint : Option String) (heap : ModuleHeap Opaque) : Except Stop (ModuleHeap Opaque) := do
  let ended ← listForEachEntry id (checkEachBody bound) .modules bound heap
  let ended ← listForEachEntry id (sortBody cb bound fuel startpoint) .modules bound ended.run
  let ended ← listForEachSafe id freeSymbolBody .symbols bound ended.run
  return ended.run

end ModuleHeap

end Xemu
