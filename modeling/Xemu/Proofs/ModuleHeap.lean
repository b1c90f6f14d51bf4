import Mathlib.Data.Fintype.Card
import Xemu.Boot.ModuleHeap
import Xemu.Proofs.Lists

/-! The structures on the heap stand for modules with lists of names and dependencies. -/

namespace Xemu

open Cyclic HeadMemory

/-- What the heap stands for, modules being numbered in list order. -/
structure ModuleView where
  count : Nat
  name : Nat → String
  status : Nat → ModStatus
  symbols : List SymbolRecord
  undefSyms : Nat → List String
  dependencies : Nat → List Nat

/-- The structures that are linked to each list. -/
structure HeapLayout where
  symbols : List Nat
  undefSyms : Nat → List Nat
  dependencies : Nat → List Nat

/-- The lists that the list heads make up. -/
def HeapLayout.lists (layout : HeapLayout) (count : Nat) : Listing HeadPlace
  | .modules => some ((List.range count).map .module)
  | .symbols => some (layout.symbols.map .symbol)
  | .undefSyms mod => if mod < count then some ((layout.undefSyms mod).map .symbol) else none
  | .dependencies mod => if mod < count then some ((layout.dependencies mod).map .depend) else none
  | .module _ | .depend _ | .symbol _ => none

/-- The heap stands for the modules and names. -/
structure Stores {Opaque : Type} (heap : ModuleHeap Opaque) (view : ModuleView)
    (layout : HeapLayout) : Prop where
  /-- The pointers make up the lists. -/
  holds : (links heap).Holds (layout.lists view.count)
  /-- Modules are numbered from zero on. -/
  counted : heap.moduleCount = view.count
  modules : ∀ mod < view.count, heap.modules mod = some ⟨view.name mod, view.status mod⟩
  symbols : List.Forall₂ (fun sym record => heap.symbols sym = some record) layout.symbols
    view.symbols
  undefSyms : ∀ mod < view.count, List.Forall₂ (fun sym name => heap.symbols sym = some ⟨name, none⟩)
    (layout.undefSyms mod) (view.undefSyms mod)
  dependencies : ∀ mod < view.count, List.Forall₂ (fun dep target => heap.depends dep = some target)
    (layout.dependencies mod) (view.dependencies mod)
  /-- The next symbol and the next dependency are in no list. -/
  newSymbol : ∀ sym, heap.symbolCount ≤ sym →
    sym ∉ layout.symbols ∧ ∀ mod < view.count, sym ∉ layout.undefSyms mod
  newDepend : ∀ dep, heap.dependCount ≤ dep → ∀ mod < view.count, dep ∉ layout.dependencies mod
  /-- Every structure that is in use is in a list. -/
  ownedModule : ∀ mod, view.count ≤ mod → heap.modules mod = none
  ownedSymbol : ∀ sym, heap.symbols sym ≠ none →
    sym ∈ layout.symbols ∨ ∃ mod < view.count, sym ∈ layout.undefSyms mod

section Updates

variable (view : ModuleView) (layout : HeapLayout) (mod : Nat)

/-- A module with other undefined names. -/
def ModuleView.setUndefSyms (names : List String) : ModuleView :=
  { view with undefSyms := Function.update view.undefSyms mod names }

/-- A module with other dependencies. -/
def ModuleView.setDependencies (targets : List Nat) : ModuleView :=
  { view with dependencies := Function.update view.dependencies mod targets }

/-- A module with another status. -/
def ModuleView.setStatus (status : ModStatus) : ModuleView :=
  { view with status := Function.update view.status mod status }

/-- A module with other structures for its undefined names. -/
def HeapLayout.setUndefSyms (ids : List Nat) : HeapLayout :=
  { layout with undefSyms := Function.update layout.undefSyms mod ids }

/-- A module with other structures for its dependencies. -/
def HeapLayout.setDependencies (ids : List Nat) : HeapLayout :=
  { layout with dependencies := Function.update layout.dependencies mod ids }

end Updates

section Layouts

variable {layout : HeapLayout} {count mod : Nat}

/-- Other undefined names of a module are another list. -/
theorem lists_undefSyms (layout : HeapLayout) (inside : mod < count) (ids : List Nat) :
    (layout.setUndefSyms mod ids).lists count =
      Function.update (layout.lists count) (.undefSyms mod) (some (ids.map .symbol)) := by
  -- Only the place of these names is looked at closely, and every other one is as it was.
  funext place
  cases place with
  | undefSyms other =>
    by_cases same : other = mod
    · subst same
      simp [HeapLayout.lists, HeapLayout.setUndefSyms, inside]
    · have apart : HeadPlace.undefSyms other ≠ .undefSyms mod := by simpa using same
      simp [HeapLayout.lists, HeapLayout.setUndefSyms, Function.update_of_ne same, Function.update_of_ne apart]
  | _ => simp [HeapLayout.lists, HeapLayout.setUndefSyms, Function.update]

/-- Other dependencies of a module are another list. -/
theorem lists_dependencies (inside : mod < count) (ids : List Nat) :
    (layout.setDependencies mod ids).lists count =
      Function.update (layout.lists count) (.dependencies mod) (some (ids.map .depend)) := by
  funext place
  cases place with
  | dependencies other =>
    by_cases same : other = mod
    · subst same
      simp [HeapLayout.lists, HeapLayout.setDependencies, inside]
    · have apart : HeadPlace.dependencies other ≠ .dependencies mod := by simpa using same
      simp [HeapLayout.lists, HeapLayout.setDependencies, Function.update_of_ne same, Function.update_of_ne apart]
  | _ => simp [HeapLayout.lists, HeapLayout.setDependencies, Function.update]

/-- Other symbols are another list. -/
theorem lists_symbols (ids : List Nat) : HeapLayout.lists { layout with symbols := ids } count =
    Function.update (layout.lists count) .symbols (some (ids.map .symbol)) := by
  funext place
  cases place <;> simp [HeapLayout.lists, Function.update]

/-- A symbol that is in no list is a free node. -/
theorem free_symbol {sym : Nat} (outside : sym ∉ layout.symbols)
    (apart : ∀ mod < count, sym ∉ layout.undefSyms mod) : (layout.lists count).Free (.symbol sym) := by
  intro head entries listed
  cases head <;> simp only [HeapLayout.lists, Option.some.injEq, Option.ite_none_right_eq_some,
    reduceCtorEq] at listed
  -- Symbols are the nodes of two kinds of lists, and it is in none of either kind.
  case modules => simp [← listed]
  case symbols => simpa [← listed] using outside
  case undefSyms mod => simpa [← listed.2] using apart mod listed.1
  case dependencies mod => simp [← listed.2]

/-- A dependency that is in no list is a free node. -/
theorem free_depend {dep : Nat} (apart : ∀ mod < count, dep ∉ layout.dependencies mod) :
    (layout.lists count).Free (.depend dep) := by
  intro head entries listed
  cases head <;> simp only [HeapLayout.lists, Option.some.injEq, Option.ite_none_right_eq_some,
    reduceCtorEq] at listed
  case modules => simp [← listed]
  case symbols => simp [← listed]
  case undefSyms mod => simp [← listed.2]
  case dependencies mod => simpa [← listed.2] using apart mod listed.1

/-- A module that is not in the module list is in no list, and stands for none. -/
theorem free_module (layout : HeapLayout) {new : Nat} (above : count ≤ new) :
    (layout.lists count).Free (.module new) ∧ (layout.lists count).Free (.undefSyms new) ∧
      (layout.lists count).Free (.dependencies new) := by
  refine ⟨fun head entries listed => ?_, fun head entries listed => ?_,
    fun head entries listed => ?_⟩ <;>
  cases head <;> simp only [HeapLayout.lists, Option.some.injEq, Option.ite_none_right_eq_some,
    reduceCtorEq] at listed
  -- The lists are those of the modules below the count, and of no other ones.
  case refine_1.modules => simpa [← listed] using above
  case refine_1.symbols => simp [← listed]
  case refine_1.undefSyms mod => simp [← listed.2]
  case refine_1.dependencies mod => simp [← listed.2]
  case refine_2.modules => simp [← listed]
  case refine_2.symbols => simp [← listed]
  case refine_2.undefSyms mod => simp [← listed.2, Nat.ne_of_gt (Nat.lt_of_lt_of_le listed.1 above)]
  case refine_2.dependencies mod => simp [← listed.2]
  case refine_3.modules => simp [← listed]
  case refine_3.symbols => simp [← listed]
  case refine_3.undefSyms mod => simp [← listed.2]
  case refine_3.dependencies mod =>
    simp [← listed.2, Nat.ne_of_gt (Nat.lt_of_lt_of_le listed.1 above)]

/-- The lists once a module was appended to the module list, with two empty lists of its own. -/
theorem lists_addModule : ((layout.setUndefSyms count []).setDependencies count []).lists (count + 1) =
    Function.update (Function.update (Function.update (layout.lists count) (.undefSyms count) (some []))
      (.dependencies count) (some [])) .modules
        (some ((List.range count).map .module ++ [.module count])) := by
  -- The places of the older modules stay, and the new one has two empty lists.
  funext place
  cases place with
  | modules => simp [HeapLayout.lists, List.range_succ]
  | undefSyms other =>
    by_cases same : other = count
    · simp [HeapLayout.lists, HeapLayout.setUndefSyms, HeapLayout.setDependencies, same]
    · have apart : other < count + 1 ↔ other < count := by omega
      simp [HeapLayout.lists, HeapLayout.setUndefSyms, HeapLayout.setDependencies, same, apart]
  | dependencies other =>
    by_cases same : other = count
    · simp [HeapLayout.lists, HeapLayout.setUndefSyms, HeapLayout.setDependencies, same]
    · have apart : other < count + 1 ↔ other < count := by omega
      simp [HeapLayout.lists, HeapLayout.setUndefSyms, HeapLayout.setDependencies, same, apart]
  | _ => simp [HeapLayout.lists, HeapLayout.setUndefSyms, HeapLayout.setDependencies]

end Layouts

/-- What is known of some structures stays true of them when only other ones are changed. -/
theorem shown_congr {α β : Type} {records later : Nat → Option α} {shown : β → α}
    {ids : List Nat} {others : List β}
    (known : List.Forall₂ (fun own other => records own = some (shown other)) ids others)
    (same : ∀ own ∈ ids, later own = records own) :
    List.Forall₂ (fun own other => later own = some (shown other)) ids others := by
  -- The induction is on what is known, structure by structure.
  induction known with
  | nil => exact .nil
  | cons first _ ih =>
    rw [List.forall_mem_cons] at same
    exact .cons (same.1.trans first) (ih same.2)

/-- A structure of which something is known is in use. -/
theorem used_of_forall₂ {α β : Type} {records : Nat → Option α} {shown : β → α} {id : Nat}
    {ids : List Nat} {others : List β}
    (known : List.Forall₂ (fun own other => records own = some (shown other)) ids others)
    (member : id ∈ ids) : records id ≠ none := by
  induction known with
  | nil => simp at member
  | cons first _ ih =>
    rcases List.mem_cons.mp member with rfl | later
    · simp [first]
    · exact ih later

/-- An allocation frees no structure. -/
theorem isSome_update {α : Type} {records : Nat → Option α} {other : Nat}
    (used : (records other).isSome) (id : Nat) (record : α) :
    (Function.update records id (some record) other).isSome := by
  by_cases same : other = id
  · simp [same]
  · rwa [Function.update_of_ne same]

namespace Stores

variable {Opaque : Type} {heap : ModuleHeap Opaque} {view : ModuleView} {layout : HeapLayout}
  {mod sym dep target bound : Nat} {name : String} {names : List String} {ids rest : List Nat}

/-- The undefined names of a module in the list are a list. -/
theorem listed_undefSyms (inside : mod < view.count) : layout.lists view.count (.undefSyms mod) =
    some ((layout.undefSyms mod).map .symbol) :=
  if_pos inside

/-- So are its dependencies. -/
theorem listed_dependencies (inside : mod < view.count) :
    layout.lists view.count (.dependencies mod) = some ((layout.dependencies mod).map .depend) :=
  if_pos inside

/-- Every module in the list is in use. -/
theorem live_modules (stores : Stores heap view layout) :
    Live heap (.modules :: (List.range view.count).map .module) := by
  intro place member
  rcases List.mem_cons.mp member with rfl | member
  · rfl
  · obtain ⟨mod, inside, rfl⟩ := List.mem_map.mp member
    simp [live, ModuleHeap.live, stores.modules mod (List.mem_range.mp inside)]

/-- Every symbol in the list is in use. -/
theorem live_symbols (stores : Stores heap view layout) :
    Live heap (.symbols :: layout.symbols.map .symbol) := by
  intro place member
  rcases List.mem_cons.mp member with rfl | member
  · rfl
  · obtain ⟨sym, listed, rfl⟩ := List.mem_map.mp member
    exact Option.isSome_iff_ne_none.mpr (used_of_forall₂ stores.symbols listed)

/-- A module is in use, and so is each of its undefined names. -/
theorem live_undefSyms (stores : Stores heap view layout) (inside : mod < view.count) :
    Live heap (.undefSyms mod :: (layout.undefSyms mod).map .symbol) := by
  intro place member
  rcases List.mem_cons.mp member with rfl | member
  · simp [live, ModuleHeap.live, stores.modules mod inside]
  · obtain ⟨sym, listed, rfl⟩ := List.mem_map.mp member
    exact Option.isSome_iff_ne_none.mpr (used_of_forall₂ (stores.undefSyms mod inside) listed)

/-- A module is in use, and so is each of its dependencies. -/
theorem live_dependencies (stores : Stores heap view layout) (inside : mod < view.count) :
    Live heap (.dependencies mod :: (layout.dependencies mod).map .depend) := by
  intro place member
  rcases List.mem_cons.mp member with rfl | member
  · simp [live, ModuleHeap.live, stores.modules mod inside]
  · obtain ⟨dep, listed, rfl⟩ := List.mem_map.mp member
    exact Option.isSome_iff_ne_none.mpr (used_of_forall₂ (stores.dependencies mod inside) listed)

/-- An undefined name of a module is no symbol of the kernel or another module. -/
theorem undef_apart (stores : Stores heap view layout) (inside : mod < view.count)
    (member : sym ∈ layout.undefSyms mod) :
    sym ∉ layout.symbols ∧ ∀ other < view.count, other ≠ mod → sym ∉ layout.undefSyms other := by
  have own : HeadPlace.symbol sym ∈ HeadPlace.undefSyms mod :: (layout.undefSyms mod).map .symbol := by
    simpa using member
  constructor
  · intro shared
    refine stores.holds.apart (listed_undefSyms inside)
      (show layout.lists view.count .symbols = some _ from rfl) (by simp) own ?_
    simpa using shared
  · intro other within different shared
    refine stores.holds.apart (listed_undefSyms inside) (listed_undefSyms within) ?_ own ?_
    · simpa using different.symm
    · simpa using shared

/-- A dependency of a module is none of another one. -/
theorem depend_apart (stores : Stores heap view layout) (inside : mod < view.count)
    (member : dep ∈ layout.dependencies mod) :
    ∀ other < view.count, other ≠ mod → dep ∉ layout.dependencies other := by
  intro other within different shared
  have own : HeadPlace.depend dep ∈
      HeadPlace.dependencies mod :: (layout.dependencies mod).map .depend := by
    simpa using member
  refine stores.holds.apart (listed_dependencies inside) (listed_dependencies within) ?_ own ?_
  · simpa using different.symm
  · simpa using shared

/-! ### Searches -/

/-- The search for a name finds the first symbol with it. -/
theorem matchUndef (stores : Stores heap view layout) (enough : view.symbols.length < bound)
    (name : String) :
    match view.symbols.find? (fun record => record.name = name) with
    | none => heap.matchUndef bound name = .ok none
    | some record => ∃ sym, heap.symbols sym = some record ∧
        heap.matchUndef bound name = .ok (some sym) := by
  have short : (layout.symbols.map HeadPlace.symbol).length < bound := by
    simpa [stores.symbols.length_eq] using enough
  have listed : layout.lists view.count .symbols = some (layout.symbols.map .symbol) := rfl
  rw [ModuleHeap.matchUndef, listForEachEntry_read stores.holds listed stores.live_symbols short]
  have searched := stores.symbols
  clear listed short enough
  generalize layout.symbols = syms, view.symbols = records at searched ⊢
  -- The symbols in the list are looked at in turn.
  induction searched with
  | nil => rfl
  | @cons sym record syms records known _ ih =>
    by_cases same : record.name = name
    · simp [eachEntry, ModuleHeap.matchBody, ModuleHeap.symbolEntry, ModuleHeap.loadSymbol, known,
        same, Except.map]
    · simpa [eachEntry, ModuleHeap.matchBody, ModuleHeap.symbolEntry, ModuleHeap.loadSymbol, known,
        same, Except.map] using ih

/-- The search for a dependency tells whether the module has it. -/
theorem findDependency (stores : Stores heap view layout) (inside : mod < view.count)
    (enough : (view.dependencies mod).length < bound) (target : Nat) :
    heap.findDependency bound mod target = .ok (decide (target ∈ view.dependencies mod)) := by
  -- The loop looks at the entries in their order and ends at the first that fits.
  have short : ((layout.dependencies mod).map HeadPlace.depend).length < bound := by
    simpa [(stores.dependencies mod inside).length_eq] using enough
  rw [ModuleHeap.findDependency,
    listForEachEntry_read stores.holds (listed_dependencies inside) (stores.live_dependencies inside)
      short]
  have searched := stores.dependencies mod inside
  clear short enough
  generalize layout.dependencies mod = deps, view.dependencies mod = targets at searched ⊢
  induction searched with
  | nil => rfl
  | @cons dep other deps others known _ ih =>
    by_cases same : other = target
    · simp [eachEntry, ModuleHeap.findBody, ModuleHeap.dependEntry, ModuleHeap.loadDepend, known,
        same, Except.map]
    · have apart : target ≠ other := fun also => same also.symm
      simpa [eachEntry, ModuleHeap.findBody, ModuleHeap.dependEntry, ModuleHeap.loadDepend, known,
        same, apart, Except.map] using ih

/-! ### Changes -/

/-- The heap after a change of one module's dependencies. -/
theorem setDependencies (stores : Stores heap view layout) (inside : mod < view.count)
    {heads : Links HeadPlace} {depends : Nat → Option Nat} {count : Nat} {targets : List Nat}
    (holds : heads.Holds (Function.update (layout.lists view.count) (.dependencies mod)
      (some (ids.map .depend))))
    (own : List.Forall₂ (fun dep target => depends dep = some target) ids targets)
    (apart : ∀ other < view.count, other ≠ mod → ∀ dep ∈ layout.dependencies other,
      depends dep = heap.depends dep)
    (fresh : ∀ dep, count ≤ dep → heap.dependCount ≤ dep ∧ dep ∉ ids) :
    Stores { heap with heads := heads, depends := depends, dependCount := count }
      (view.setDependencies mod targets) (layout.setDependencies mod ids) where
  holds := by
    rwa [← lists_dependencies inside] at holds
  counted := stores.counted
  modules := stores.modules
  symbols := stores.symbols
  undefSyms := stores.undefSyms
  dependencies other within := by
    by_cases same : other = mod
    · subst same
      simpa [ModuleView.setDependencies, HeapLayout.setDependencies] using own
    · simpa [ModuleView.setDependencies, HeapLayout.setDependencies, Function.update_of_ne same]
        using shown_congr (stores.dependencies other within) (apart other within same)
  newSymbol := stores.newSymbol
  newDepend dep above other within := by
    obtain ⟨older, outside⟩ := fresh dep above
    by_cases same : other = mod
    · subst same
      simpa [HeapLayout.setDependencies] using outside
    · simpa [HeapLayout.setDependencies, Function.update_of_ne same]
        using stores.newDepend dep older other within
  ownedModule := stores.ownedModule
  ownedSymbol := stores.ownedSymbol

/-- A dependency is appended to a module's list. -/
theorem addDepend (stores : Stores heap view layout) (inside : mod < view.count) (target : Nat) :
    ∃ after, heap.addDepend mod target = .ok after ∧ after.opaqueData = heap.opaqueData ∧
      after.symbols = heap.symbols ∧
      Stores after (view.setDependencies mod (view.dependencies mod ++ [target]))
        (layout.setDependencies mod (layout.dependencies mod ++ [heap.dependCount])) := by
  -- The new cell is above all that were used, so no list holds it.
  have new : ∀ other < view.count, heap.dependCount ∉ layout.dependencies other :=
    stores.newDepend _ (Nat.le_refl _)
  let grown : ModuleHeap Opaque := { heap with
    dependCount := heap.dependCount + 1
    depends := Function.update heap.depends heap.dependCount (some target) }
  have alive : Live grown (.dependencies mod :: (layout.dependencies mod).map .depend) := by
    refine (stores.live_dependencies inside).mono fun place used => ?_
    cases place with
    | depend dep => exact isSome_update used _ _
    | _ => exact used
  have fresh : live grown (.depend heap.dependCount) := by
    simp [live, ModuleHeap.live, grown]
  obtain ⟨heads, added, holds⟩ := @listAddTail_makes _ _ _ grown _ _ _ _ _ stores.holds
    (listed_dependencies inside) alive (free_depend new) fresh
  -- The cells of the lists keep what they stood for.
  have kept {other : Nat} (within : other < view.count) : ∀ dep ∈ layout.dependencies other,
      Function.update heap.depends heap.dependCount (some target) dep = heap.depends dep := by
    intro dep member
    refine Function.update_of_ne ?_ _ _
    rintro rfl
    exact new other within member
  refine ⟨_, added, rfl, rfl, stores.setDependencies inside ?_ ?_ (fun other within _ => kept within) ?_⟩
  · rwa [List.map_append]
  · exact List.rel_append (shown_congr (stores.dependencies mod inside) (kept inside))
      (.cons (Function.update_self ..) .nil)
  · intro dep (above : heap.dependCount + 1 ≤ dep)
    have outside := stores.newDepend dep (by omega) mod inside
    refine ⟨by omega, ?_⟩
    simp only [List.mem_append, List.mem_singleton, not_or]
    exact ⟨outside, by omega⟩

/-- The first of a module's dependencies is taken off its list and freed. -/
theorem dropDepend (stores : Stores heap view layout) (inside : mod < view.count)
    {targets : List Nat} (first : layout.dependencies mod = dep :: ids)
    (shown : view.dependencies mod = target :: targets) :
    ∃ heads, listDel (some (.depend dep)) heap = .ok { heap with heads := heads } ∧
      Stores { heap with heads := heads, depends := Function.update heap.depends dep none }
        (view.setDependencies mod targets) (layout.setDependencies mod ids) := by
  have member : dep ∈ layout.dependencies mod := first ▸ List.mem_cons_self
  have listed : layout.lists view.count (.dependencies mod) =
      some (.depend dep :: ids.map .depend) := by
    rw [listed_dependencies inside, first, List.map_cons]
  have front : layout.lists view.count (.dependencies mod) =
    some ([] ++ HeadPlace.depend dep :: ids.map .depend) := listed
  have alive := stores.live_dependencies inside
  rw [first] at alive
  obtain ⟨heads, deleted, holds⟩ := listDel_makes stores.holds front alive
  -- No other entry is the structure that is freed.
  have once : dep ∉ ids := by
    have distinct := (List.nodup_cons.mp (stores.holds.nodup listed)).2
    simpa using (List.nodup_cons.mp distinct).1
  have known := stores.dependencies mod inside
  rw [first, shown] at known
  obtain ⟨-, rest⟩ := List.forall₂_cons.mp known
  refine ⟨heads, deleted, stores.setDependencies inside holds ?_ ?_ ?_⟩
  · refine shown_congr rest fun own later => Function.update_of_ne ?_ _ _
    rintro rfl
    exact once later
  · intro other within different own shared
    refine Function.update_of_ne ?_ _ _
    rintro rfl
    exact stores.depend_apart inside member other within different shared
  · intro own above
    have outside := stores.newDepend own above mod inside
    rw [first, List.mem_cons, not_or] at outside
    exact ⟨above, outside.2⟩

/-- The first of a module's undefined names is taken off its list and freed. -/
theorem dropUndef (stores : Stores heap view layout) (inside : mod < view.count)
    (first : layout.undefSyms mod = sym :: ids) (shown : view.undefSyms mod = name :: names) :
    ∃ heads, listDel (some (.symbol sym)) heap = .ok { heap with heads := heads } ∧
      Stores { heap with heads := heads, symbols := Function.update heap.symbols sym none }
        (view.setUndefSyms mod names) (layout.setUndefSyms mod ids) := by
  have member : sym ∈ layout.undefSyms mod := first ▸ List.mem_cons_self
  have listed : layout.lists view.count (.undefSyms mod) =
      some (.symbol sym :: ids.map .symbol) := by
    rw [listed_undefSyms inside, first, List.map_cons]
  have front : layout.lists view.count (.undefSyms mod) =
    some ([] ++ HeadPlace.symbol sym :: ids.map .symbol) := listed
  have alive := stores.live_undefSyms inside
  rw [first] at alive
  obtain ⟨heads, deleted, holds⟩ := listDel_makes stores.holds front alive
  -- No other entry is the structure that is freed.
  have once : sym ∉ ids := by
    have distinct := (List.nodup_cons.mp (stores.holds.nodup listed)).2
    simpa using (List.nodup_cons.mp distinct).1
  obtain ⟨exported, apart⟩ := stores.undef_apart inside member
  have known := stores.undefSyms mod inside
  rw [first, shown] at known
  obtain ⟨-, rest⟩ := List.forall₂_cons.mp known
  have kept {others : List Nat} (outside : sym ∉ others) : ∀ own ∈ others,
      Function.update heap.symbols sym none own = heap.symbols own := by
    intro own later
    refine Function.update_of_ne ?_ _ _
    rintro rfl
    exact outside later
  refine ⟨heads, deleted, ?_, stores.counted, stores.modules, ?_, ?_, stores.dependencies, ?_,
    stores.newDepend, stores.ownedModule, ?_⟩
  · exact (lists_undefSyms layout inside ids).symm ▸ holds
  · exact shown_congr stores.symbols (kept exported)
  · intro other within
    by_cases same : other = mod
    · subst same
      simpa [ModuleView.setUndefSyms, HeapLayout.setUndefSyms] using shown_congr rest (kept once)
    · simpa [ModuleView.setUndefSyms, HeapLayout.setUndefSyms, Function.update_of_ne same]
        using shown_congr (stores.undefSyms other within) (kept (apart other within same))
  · intro own above
    obtain ⟨outside, others⟩ := stores.newSymbol own above
    refine ⟨outside, fun other within => ?_⟩
    by_cases same : other = mod
    · subst same
      have behind := others other within
      rw [first, List.mem_cons, not_or] at behind
      simpa [HeapLayout.setUndefSyms] using behind.2
    · simpa [HeapLayout.setUndefSyms, Function.update_of_ne same] using others other within
  · intro own used
    have different : own ≠ sym := by
      rintro rfl
      simp at used
    simp only [Function.update_of_ne different] at used
    refine (stores.ownedSymbol own used).imp_right ?_
    rintro ⟨other, within, used⟩
    refine ⟨other, within, ?_⟩
    by_cases same : other = mod
    · subst same
      simpa [HeapLayout.setUndefSyms, first, different] using used
    · simpa [HeapLayout.setUndefSyms, same] using used

/-- The status of a module is stored. -/
theorem storeStatus (stores : Stores heap view layout) (inside : mod < view.count)
    (status : ModStatus) : ∃ after, heap.storeStatus mod status = .ok after ∧
      after.opaqueData = heap.opaqueData ∧ Stores after (view.setStatus mod status) layout := by
  have known := stores.modules mod inside
  -- The record keeps its name, and no list goes through it.
  have result : heap.storeStatus mod status = .ok { heap with
      modules := Function.update heap.modules mod (some ⟨view.name mod, status⟩) } := by
    simp [ModuleHeap.storeStatus, ModuleHeap.loadModule, known]
  refine ⟨_, result, rfl, stores.holds, stores.counted, fun other within => ?_, stores.symbols,
    stores.undefSyms, stores.dependencies, stores.newSymbol, stores.newDepend, fun other outside => ?_,
    stores.ownedSymbol⟩
  · by_cases same : other = mod
    · subst same
      simp [ModuleView.setStatus]
    · simpa [ModuleView.setStatus, Function.update_of_ne same] using stores.modules other within
  · have apart : other ≠ mod := Nat.ne_of_gt (Nat.lt_of_lt_of_le inside outside)
    exact (Function.update_of_ne apart ..).trans (stores.ownedModule other outside)

/-- What the callback works on is no part of what the heap stands for. -/
theorem withData (stores : Stores heap view layout) (data : Opaque) :
    Stores { heap with opaqueData := data } view layout :=
  ⟨stores.holds, stores.counted, stores.modules, stores.symbols, stores.undefSyms,
    stores.dependencies, stores.newSymbol, stores.newDepend, stores.ownedModule, stores.ownedSymbol⟩

end Stores

/-! ### Sorting -/

section Views

variable {n : Nat} (names : Fin n → String) (symbols : List (ModSymbol n))
  (undef : Nat → List String) (sorting : Sorting n)

/-- What the heap stands for while the modules are sorted. -/
def Sorting.view : ModuleView where
  count := n
  name mod := if inside : mod < n then names ⟨mod, inside⟩ else ""
  status mod := if inside : mod < n then sorting.status ⟨mod, inside⟩ else .none
  symbols := symbols.map fun sym => ⟨sym.name, sym.mod.map Fin.val⟩
  undefSyms := undef
  dependencies mod := if inside : mod < n then (sorting.dependencies ⟨mod, inside⟩).map Fin.val else []

/-- The name that the heap holds is the module's. -/
@[simp] theorem view_name (mod : Fin n) : (sorting.view names symbols undef).name mod = names mod :=
  dif_pos mod.isLt

/-- So is its status. -/
@[simp] theorem view_status (mod : Fin n) :
    (sorting.view names symbols undef).status mod = sorting.status mod :=
  dif_pos mod.isLt

/-- So are its dependencies, each by its place in the list. -/
@[simp] theorem view_dependencies (mod : Fin n) :
    (sorting.view names symbols undef).dependencies mod = (sorting.dependencies mod).map Fin.val :=
  dif_pos mod.isLt

/-- Another status of one module is the only difference. -/
theorem view_setStatus (mod : Fin n) (status : ModStatus) :
    (sorting.setStatus mod status).view names symbols undef =
      (sorting.view names symbols undef).setStatus mod status := by
  simp only [Sorting.view, ModuleView.setStatus, Sorting.dependencies_setStatus,
    Sorting.status_setStatus]
  congr 1
  funext other
  by_cases inside : other < n
  · simp [inside, Function.update_apply, Fin.ext_iff]
  · have different : other ≠ mod := by omega
    simp [inside, different]

/-- Other dependencies of one module are the only difference. -/
theorem view_update (mod : Fin n) (targets : List (Fin n)) :
    Sorting.view names symbols undef
        { sorting with dependencies := Function.update sorting.dependencies mod targets } =
      (sorting.view names symbols undef).setDependencies mod (targets.map Fin.val) := by
  simp only [Sorting.view, ModuleView.setDependencies]
  congr 1
  funext other
  by_cases inside : other < n
  · by_cases same : other = mod
    · subst same
      simp
    · have different : (⟨other, inside⟩ : Fin n) ≠ mod := fun also => same (congrArg Fin.val also)
      simp [inside, same, different]
  · have different : other ≠ mod := by omega
    simp [inside, different]

end Views

/-- The heap stands for a module list that is being sorted. -/
structure Sorts {Opaque : Type} {n : Nat} (heap : ModuleHeap Opaque) (names : Fin n → String)
    (symbols : List (ModSymbol n)) (undef : Nat → List String) (sorting : Sorting n)
    (layout : HeapLayout) : Prop where
  stores : Stores heap (sorting.view names symbols undef) layout
  /-- No dependency is listed twice. -/
  distinct : ∀ mod, (sorting.dependencies mod).Nodup

section Checks

variable {Opaque : Type} {n : Nat} {heap : ModuleHeap Opaque} {names : Fin n → String}
  {symbols : List (ModSymbol n)} {undef : Nat → List String} {sorting : Sorting n}
  {layout : HeapLayout} {mod : Fin n} {sym bound : Nat} {ids : List Nat} {name : String}
  {rest : List String}

/-- A dependency list is no longer than the module list. -/
theorem Sorts.short (sorts : Sorts heap names symbols undef sorting layout) (mod : Fin n) :
    (sorting.dependencies mod).length ≤ n := by
  simpa using List.Nodup.length_le_card (sorts.distinct mod)

/-- What a symbol that a module needs adds to its dependencies. -/
def Sorting.resolve (sorting : Sorting n) (mod : Fin n) (found : ModSymbol n) : Sorting n :=
  match found.mod with
  | none => sorting
  | some target =>
    if findDependency sorting mod target then sorting else sorting.addDependency mod target

/-- The check of one name goes on with that of the others once its symbol was found. -/
theorem checkDependency_cons (sorting : Sorting n) :
    checkDependency symbols mod (name :: rest) sorting =
      match matchUndef symbols name with
      | none => .error (.panic "mod '%s' has undef symbols '%s'!\n")
      | some found => checkDependency symbols mod rest (sorting.resolve mod found) := by
  -- A name of the kernel adds nothing, and one of a module adds it unless it is there.
  rw [checkDependency]
  rcases matchUndef symbols name with _ | ⟨_, _ | target⟩
  · rfl
  · rfl
  · simp only [Sorting.resolve]
    split <;> rfl

/-- A resolved dependency is in the heap's list as in the module's. -/
theorem Sorts.resolve (sorts : Sorts heap names symbols undef sorting layout) (mod : Fin n)
    (deep : n < bound) (found : ModSymbol n) :
    ∃ after middle, ModuleHeap.resolveSymbol bound mod ⟨found.name, found.mod.map Fin.val⟩ heap =
        .ok after ∧ after.opaqueData = heap.opaqueData ∧
      Sorts after names symbols undef (sorting.resolve mod found) middle ∧
      middle.undefSyms = layout.undefSyms := by
  have inside : mod.val < (sorting.view names symbols undef).count := mod.isLt
  -- A symbol of the kernel has no module, and adds no dependency.
  rcases found with ⟨name, _ | target⟩
  · exact ⟨heap, layout, rfl, rfl, sorts, rfl⟩
  · have short : ((sorting.view names symbols undef).dependencies mod).length < bound := by
      simpa using (sorts.short mod).trans_lt deep
    have searched := sorts.stores.findDependency inside short target
    have same : decide (target.val ∈ (sorting.view names symbols undef).dependencies mod) =
        findDependency sorting mod target := by
      rw [Bool.eq_iff_iff]
      simp [findDependency, Fin.val_inj]
    rw [same] at searched
    simp only [ModuleHeap.resolveSymbol, Option.map_some, searched, ok_bind, Sorting.resolve]
    by_cases listed : findDependency sorting mod target
    · exact ⟨heap, layout, if_pos listed, rfl, by simpa [listed] using sorts, rfl⟩
    · obtain ⟨after, added, same, -, stores⟩ := sorts.stores.addDepend inside target
      refine ⟨after, layout.setDependencies mod (layout.dependencies mod ++ [heap.dependCount]),
        by rw [if_neg listed, added], same, ?_, rfl⟩
      rw [if_neg listed]
      -- It is added only when it is not there, which keeps the list free of duplicates.
      have absent : target ∉ sorting.dependencies mod := by
        simpa [findDependency] using listed
      constructor
      · rw [Sorting.addDependency, view_update]
        simpa using stores
      · intro other
        by_cases also : other = mod
        · subst also
          simpa [Sorting.addDependency, List.nodup_append'] using ⟨sorts.distinct other, absent⟩
        · simpa [Sorting.addDependency, also] using sorts.distinct other

/-- One undefined name is looked up, resolved and freed. -/
theorem Sorts.checkBody (sorts : Sorts heap names symbols undef sorting layout)
    (enough : symbols.length < bound) (deep : n < bound) (first : layout.undefSyms mod = sym :: ids)
    (shown : undef mod = name :: rest) :
    match matchUndef symbols name with
    | none => ModuleHeap.checkBody bound mod (.symbol sym) heap =
        .error (.panic "mod '%s' has undef symbols '%s'!\n")
    | some found => ∃ after middle,
        ModuleHeap.checkBody bound mod (.symbol sym) heap = .ok (.yield after) ∧
        after.opaqueData = heap.opaqueData ∧
        Sorts after names symbols (Function.update undef mod rest) (sorting.resolve mod found) middle ∧
        middle.undefSyms mod = ids := by
  have inside : mod.val < (sorting.view names symbols undef).count := mod.isLt
  have known := sorts.stores.undefSyms mod inside
  simp only [Sorting.view, first, shown] at known
  obtain ⟨own, -⟩ := List.forall₂_cons.mp known
  have searched := sorts.stores.matchUndef (by simpa [Sorting.view] using enough) name
  -- The search on the heap finds the record of the symbol that the search on the list finds.
  have mapped : (sorting.view names symbols undef).symbols.find? (fun record => record.name = name) =
      (Xemu.matchUndef symbols name).map fun sym => ⟨sym.name, sym.mod.map Fin.val⟩ := by
    simp only [Sorting.view, List.find?_map, Xemu.matchUndef]
    rfl
  rw [mapped] at searched
  cases found : Xemu.matchUndef symbols name with
  | none =>
    rw [found] at searched
    simp only [Option.map_none] at searched
    simp [ModuleHeap.checkBody, ModuleHeap.symbolEntry, ModuleHeap.loadSymbol, own, searched]
  | some record =>
    rw [found] at searched
    obtain ⟨place, loaded, searched⟩ := searched
    obtain ⟨noted, middle, done, same, resolved, kept⟩ := sorts.resolve mod deep record
    -- Resolving touches no undefined name, so the entry is still the first to be dropped.
    obtain ⟨heads, deleted, stores⟩ := resolved.stores.dropUndef inside
      ((congrFun kept mod).trans first) shown
    have result : ModuleHeap.checkBody bound mod (.symbol sym) heap = .ok (.yield { noted with
        heads := heads
        symbols := Function.update noted.symbols sym none }) := by
      simp only [ModuleHeap.checkBody, ModuleHeap.symbolEntry, ModuleHeap.loadSymbol, own, searched,
        loaded, done, deleted, ok_bind, pure_eq_ok]
    refine ⟨_, middle.setUndefSyms mod ids, result, same, ⟨stores, resolved.distinct⟩, ?_⟩
    simp [HeapLayout.setUndefSyms]

/-- The undefined names of a module are checked in turn. -/
theorem Sorts.checkEntries {pending : List String}
    (sorts : Sorts heap names symbols undef sorting layout) (enough : symbols.length < bound)
    (deep : n < bound) (shown : undef mod = pending) :
    match checkDependency symbols mod pending sorting with
    | .error stop => eachEntry (ModuleHeap.checkBody bound mod)
        ((layout.undefSyms mod).map .symbol) heap = .error stop
    | .ok later => ∃ after middle, eachEntry (ModuleHeap.checkBody bound mod)
          ((layout.undefSyms mod).map .symbol) heap = .ok (.yield after) ∧
        after.opaqueData = heap.opaqueData ∧
        Sorts after names symbols (Function.update undef mod []) later middle ∧
        middle.undefSyms mod = [] := by
  -- The cells of the list are as many as the names that they hold.
  have lengths := (sorts.stores.undefSyms mod mod.isLt).length_eq
  simp only [Sorting.view, shown] at lengths
  induction pending generalizing heap undef sorting layout with
  | nil =>
    have none_left := List.length_eq_zero_iff.mp lengths
    refine ⟨heap, layout, by simp [none_left, eachEntry], rfl, ?_, none_left⟩
    rwa [← shown, Function.update_eq_self]
  | cons name rest ih =>
    obtain ⟨sym, ids, first⟩ := List.exists_cons_of_length_eq_add_one lengths
    have checked := sorts.checkBody enough deep first shown
    rw [checkDependency_cons, first, List.map_cons]
    cases found : Xemu.matchUndef symbols name with
    | none =>
      rw [found] at checked
      simp [eachEntry, checked]
    | some record =>
      rw [found] at checked
      obtain ⟨after, middle, done, same, kept, left⟩ := checked
      -- The entry is freed, and the induction goes on with the rest.
      have shorter := (kept.stores.undefSyms mod mod.isLt).length_eq
      simp only [Sorting.view, Function.update_self] at shorter
      have later := ih kept (Function.update_self ..) shorter
      simp only [eachEntry, done, ok_bind]
      rw [left, Function.update_idem, same] at later
      exact later

/-- The check of one module does on the heap what it does on the lists. -/
theorem Sorts.checkDependency (sorts : Sorts heap names symbols undef sorting layout)
    (enough : symbols.length < bound) (deep : n < bound) (short : (undef mod).length < bound) :
    match checkDependency symbols mod (undef mod) sorting with
    | .error stop => ModuleHeap.checkDependency bound mod heap = .error stop
    | .ok later => ∃ after middle, ModuleHeap.checkDependency bound mod heap = .ok after ∧
        after.opaqueData = heap.opaqueData ∧
        Sorts after names symbols (Function.update undef mod []) later middle := by
  have inside : mod.val < (sorting.view names symbols undef).count := mod.isLt
  have listed : layout.lists n (.undefSyms mod) = some ((layout.undefSyms mod).map .symbol) :=
    if_pos mod.isLt
  have loop : listForEachSafe id (ModuleHeap.checkBody bound mod) (.undefSyms mod) bound heap =
      eachEntry (ModuleHeap.checkBody bound mod) ((layout.undefSyms mod).map .symbol) heap := by
    -- Each round frees the first entry, so the saved successor is the head of what is left.
    refine listForEachSafe_eq (fun left heap => ∃ undef sorting layout,
      Sorts heap names symbols undef sorting layout ∧ left = (layout.undefSyms mod).map .symbol)
      ?_ ?_ ⟨undef, sorting, layout, sorts, rfl⟩ (sorts.stores.holds.next_head listed)
      (List.nodup_cons.mp (sorts.stores.holds.nodup listed)).1 ?_
    · rintro left heap ⟨undef, sorting, layout, sorts, rfl⟩
      exact .of_listed sorts.stores.holds (Stores.listed_undefSyms mod.isLt)
        (sorts.stores.live_undefSyms mod.isLt)
    · rintro pos rest heap after ⟨undef, sorting, layout, sorts, split⟩ ran
      obtain ⟨sym, ids, first, rfl, rfl⟩ := List.map_eq_cons_iff.mp split.symm
      obtain ⟨name, names, -, -, shown⟩ :=
        List.forall₂_cons_left_iff.mp (first ▸ sorts.stores.undefSyms mod mod.isLt)
      have checked := sorts.checkBody enough deep first shown
      cases found : Xemu.matchUndef symbols name with
      | none => simp [found, ran] at checked
      | some record =>
        rw [found] at checked
        obtain ⟨done, middle, same, -, kept, left⟩ := checked
        cases ran.symm.trans same
        exact ⟨_, _, middle, kept, by rw [left]⟩
    · simpa [(sorts.stores.undefSyms mod inside).length_eq, Sorting.view] using short
  have entries := sorts.checkEntries enough deep (rfl : undef mod = undef mod)
  simp only [ModuleHeap.checkDependency, loop]
  cases ran : Xemu.checkDependency symbols mod (undef mod) sorting with
  | error stop =>
    rw [ran] at entries
    simp [entries]
  | ok later =>
    rw [ran] at entries
    obtain ⟨after, middle, done, same, kept, none_left⟩ := entries
    have listed : middle.lists n (.undefSyms mod) = some [] := by
      rw [HeapLayout.lists, if_pos mod.isLt, none_left, List.map_nil]
    -- Nothing is left, so the emptiness check behind the loop passes.
    have empty := listEmpty_eq kept.stores.holds listed
      (kept.stores.live_undefSyms mod.isLt _ List.mem_cons_self)
    refine ⟨after, middle, ?_, same, kept⟩
    simp [done, ForInStep.run, empty]

end Checks

end Xemu
