import Mathlib.Algebra.Order.BigOperators.Group.List
import Xemu.Boot.ModuleFiles
import Xemu.Proofs.ModuleSort

/-! The module directory is read, sorted and loaded as the names in its files demand. -/

namespace Xemu

open Cyclic HeadMemory

namespace Stores

variable {Opaque : Type} {heap : ModuleHeap Opaque} {view : ModuleView} {layout : HeapLayout}
  {mod : Nat}

/-! ### Discovery and analysis -/

/-- Only what is said of the modules that there are matters. -/
theorem congr (stores : Stores heap view layout) {other : ModuleView} (count : other.count = view.count)
    (name : ∀ mod < view.count, other.name mod = view.name mod)
    (status : ∀ mod < view.count, other.status mod = view.status mod)
    (symbols : other.symbols = view.symbols)
    (undefSyms : ∀ mod < view.count, other.undefSyms mod = view.undefSyms mod)
    (dependencies : ∀ mod < view.count, other.dependencies mod = view.dependencies mod) :
    Stores heap other layout where
  holds := count ▸ stores.holds
  counted := stores.counted.trans count.symm
  modules mod inside := by
    rw [count] at inside
    rw [name mod inside, status mod inside, stores.modules mod inside]
  symbols := symbols ▸ stores.symbols
  undefSyms mod inside := by
    rw [count] at inside
    rw [undefSyms mod inside]
    exact stores.undefSyms mod inside
  dependencies mod inside := by
    rw [count] at inside
    rw [dependencies mod inside]
    exact stores.dependencies mod inside
  newSymbol := by
    rw [count]
    exact stores.newSymbol
  newDepend := by
    rw [count]
    exact stores.newDepend
  ownedModule := by
    rw [count]
    exact stores.ownedModule
  ownedSymbol := by
    rw [count]
    exact stores.ownedSymbol

/-- The symbol that is allocated next is none of the older ones. -/
theorem older_symbols (heap : ModuleHeap Opaque) (record : SymbolRecord) {ids : List Nat}
    (outside : heap.symbolCount ∉ ids) : ∀ sym ∈ ids,
      Function.update heap.symbols heap.symbolCount (some record) sym = heap.symbols sym := by
  intro sym member
  refine Function.update_of_ne ?_ _ _
  rintro rfl
  exact outside member

/-- A heap with one more symbol, which is in no list yet. -/
def withSymbol (heap : ModuleHeap Opaque) (record : SymbolRecord) : ModuleHeap Opaque :=
  { heap with
    symbolCount := heap.symbolCount + 1
    symbols := Function.update heap.symbols heap.symbolCount (some record) }

/-- The new symbol is in use, as the structures before it stay. -/
theorem live_withSymbol (heap : ModuleHeap Opaque) (record : SymbolRecord) :
    live (withSymbol heap record) (.symbol heap.symbolCount) ∧
      ∀ place, live heap place → live (withSymbol heap record) place := by
  refine ⟨by simp [live, ModuleHeap.live, withSymbol], fun place used => ?_⟩
  cases place with
  | symbol sym => exact isSome_update used _ _
  | _ => exact used

/-- A symbol is appended to the symbol list. -/
theorem addSymbol (stores : Stores heap view layout) (record : SymbolRecord) :
    ∃ after, heap.addSymbol .symbols record = .ok after ∧ after.opaqueData = heap.opaqueData ∧
      Stores after { view with symbols := view.symbols ++ [record] }
        { layout with symbols := layout.symbols ++ [heap.symbolCount] } := by
  -- The new cell is above all that were used, so no list holds it.
  obtain ⟨outside, apart⟩ := stores.newSymbol _ (Nat.le_refl heap.symbolCount)
  obtain ⟨fresh, kept⟩ := live_withSymbol heap record
  obtain ⟨heads, added, holds⟩ := @listAddTail_makes _ _ _ (withSymbol heap record) _ _ _ _ _
    stores.holds (show layout.lists view.count .symbols = some _ from rfl)
    (stores.live_symbols.mono kept) (free_symbol outside apart) fresh
  have result : heap.addSymbol .symbols record = .ok { heap with
      heads := heads
      symbols := Function.update heap.symbols heap.symbolCount (some record)
      symbolCount := heap.symbolCount + 1 } := added
  refine ⟨_, result, rfl, ?_, stores.counted, stores.modules, ?_, fun mod inside => ?_,
    stores.dependencies, fun sym above => ?_, stores.newDepend, stores.ownedModule, fun sym used => ?_⟩
  · rw [lists_symbols, List.map_append]
    exact holds
  · exact List.rel_append (shown_congr stores.symbols (older_symbols heap record outside))
      (.cons (Function.update_self ..) .nil)
  · exact shown_congr (stores.undefSyms mod inside) (older_symbols heap record (apart mod inside))
  · obtain ⟨others, more⟩ := stores.newSymbol sym (Nat.le_of_succ_le above)
    refine ⟨?_, more⟩
    simp only [List.mem_append, List.mem_singleton, not_or]
    exact ⟨others, Nat.ne_of_gt above⟩
  · by_cases new : sym = heap.symbolCount
    · exact .inl (by simp [new])
    · simp only [Function.update_of_ne new] at used
      exact (stores.ownedSymbol sym used).imp_left (List.mem_append_left _)

/-- An undefined name is appended to a module's list. -/
theorem addUndef (stores : Stores heap view layout) (inside : mod < view.count) (name : String) :
    ∃ after, heap.addSymbol (.undefSyms mod) ⟨name, none⟩ = .ok after ∧
      after.opaqueData = heap.opaqueData ∧
      Stores after (view.setUndefSyms mod (view.undefSyms mod ++ [name]))
        (layout.setUndefSyms mod (layout.undefSyms mod ++ [heap.symbolCount])) := by
  -- The new cell is above all that were used, so no list holds it.
  obtain ⟨outside, apart⟩ := stores.newSymbol _ (Nat.le_refl heap.symbolCount)
  obtain ⟨fresh, kept⟩ := live_withSymbol heap ⟨name, none⟩
  obtain ⟨heads, added, holds⟩ := @listAddTail_makes _ _ _ (withSymbol heap ⟨name, none⟩) _ _ _ _ _
    stores.holds (listed_undefSyms inside) ((stores.live_undefSyms inside).mono kept)
    (free_symbol outside apart) fresh
  have result : heap.addSymbol (.undefSyms mod) ⟨name, none⟩ = .ok { heap with
      heads := heads
      symbols := Function.update heap.symbols heap.symbolCount (some ⟨name, none⟩)
      symbolCount := heap.symbolCount + 1 } := added
  refine ⟨_, result, rfl, ?_, stores.counted, stores.modules, ?_, fun other within => ?_,
    stores.dependencies, fun sym above => ?_, stores.newDepend, stores.ownedModule, fun sym used => ?_⟩
  · have lists := lists_undefSyms layout inside (layout.undefSyms mod ++ [heap.symbolCount])
    rw [List.map_append] at lists
    exact lists.symm ▸ holds
  · exact shown_congr stores.symbols (older_symbols heap _ outside)
  · have older := shown_congr (stores.undefSyms other within)
      (older_symbols heap ⟨name, none⟩ (apart other within))
    by_cases same : other = mod
    · subst same
      simpa [ModuleView.setUndefSyms, HeapLayout.setUndefSyms]
        using List.rel_append older (.cons (Function.update_self ..) .nil)
    · simpa [ModuleView.setUndefSyms, HeapLayout.setUndefSyms, Function.update_of_ne same] using older
  · obtain ⟨others, more⟩ := stores.newSymbol sym (Nat.le_of_succ_le above)
    refine ⟨others, fun other within => ?_⟩
    by_cases same : other = mod
    · subst same
      simpa [HeapLayout.setUndefSyms] using ⟨more other within, Nat.ne_of_gt above⟩
    · simpa [HeapLayout.setUndefSyms, Function.update_of_ne same] using more other within
  · by_cases new : sym = heap.symbolCount
    · exact .inr ⟨mod, inside, by simp [new, HeapLayout.setUndefSyms]⟩
    · simp only [Function.update_of_ne new] at used
      refine (stores.ownedSymbol sym used).imp_right ?_
      rintro ⟨other, within, listed⟩
      refine ⟨other, within, ?_⟩
      by_cases same : other = mod
      · subst same
        simpa [HeapLayout.setUndefSyms] using .inl listed
      · simpa [HeapLayout.setUndefSyms, same] using listed

/-- A module is appended to the module list, with two empty lists of its own. -/
theorem addModule (stores : Stores heap view layout) (name : String) :
    ∃ after, heap.addModule name = .ok after ∧ after.opaqueData = heap.opaqueData ∧
      Stores after
        { view with
          count := view.count + 1
          name := Function.update view.name view.count name
          status := Function.update view.status view.count .none
          undefSyms := Function.update view.undefSyms view.count []
          dependencies := Function.update view.dependencies view.count [] }
        ((layout.setUndefSyms view.count []).setDependencies view.count []) := by
  -- Three lists change: the two of the new module begin, and that of all modules grows.
  obtain ⟨own, undef, deps⟩ := free_module layout (Nat.le_refl view.count)
  let grown : ModuleHeap Opaque := { heap with
    moduleCount := view.count + 1
    modules := Function.update heap.modules view.count (some ⟨name, .none⟩) }
  have fresh : (grown.modules view.count).isSome := by simp [grown]
  have alive : Live grown (.modules :: (List.range view.count).map .module) := by
    refine stores.live_modules.mono fun place used => ?_
    cases place with
    | module mod | undefSyms mod | dependencies mod => exact isSome_update used _ _
    | _ => exact used
  obtain ⟨first, done_first, holds_first⟩ := @initListHead_makes _ _ _ grown _ _ _ stores.holds
    (Links.free_forget undef _) fresh
  obtain ⟨second, done_second, holds_second⟩ :=
    @initListHead_makes _ _ _ (setLinks grown first) _ _ _ holds_first
      (Links.free_forget (Links.free_update deps (by simp)) _) fresh
  have listed : Function.update (Function.update (layout.lists view.count) (.undefSyms view.count)
      (some [])) (.dependencies view.count) (some []) .modules =
        some ((List.range view.count).map .module) := rfl
  obtain ⟨third, done_third, holds⟩ :=
    @listAddTail_makes _ _ _ (setLinks grown second) _ _ _ _ _ holds_second listed alive
      (Links.free_update (Links.free_update own (by simp)) (by simp)) fresh
  have result : heap.addModule name = .ok { heap with
      heads := third
      moduleCount := view.count + 1
      modules := Function.update heap.modules view.count (some ⟨name, .none⟩) } := by
    rw [setLinks_setLinks] at done_second done_third
    rw [ModuleHeap.addModule, stores.counted]
    simp only [grown] at done_first
    rw [done_first, ok_bind, done_second, ok_bind, done_third]
    rfl
  have older {mod : Nat} (inside : mod < view.count + 1) (other : mod ≠ view.count) :
      mod < view.count := by omega
  -- The older modules keep what they had; the new one has two empty lists.
  refine ⟨_, result, rfl, ?_, rfl, fun mod inside => ?_, stores.symbols, fun mod inside => ?_,
    fun mod inside => ?_, fun sym above => ?_, fun dep above mod inside => ?_, fun mod above => ?_,
    fun sym used => ?_⟩
  · exact lists_addModule.symm ▸ holds
  · by_cases same : mod = view.count
    · simp [same]
    · simpa [same] using stores.modules mod (older inside same)
  · by_cases same : mod = view.count
    · simp [same, HeapLayout.setUndefSyms, HeapLayout.setDependencies]
    · simpa [same, HeapLayout.setUndefSyms, HeapLayout.setDependencies]
        using stores.undefSyms mod (older inside same)
  · by_cases same : mod = view.count
    · simp [same, HeapLayout.setDependencies]
    · simpa [same, HeapLayout.setUndefSyms, HeapLayout.setDependencies]
        using stores.dependencies mod (older inside same)
  · obtain ⟨outside, apart⟩ := stores.newSymbol sym above
    refine ⟨outside, fun mod inside => ?_⟩
    by_cases same : mod = view.count
    · simp [same, HeapLayout.setUndefSyms, HeapLayout.setDependencies]
    · simpa [same, HeapLayout.setUndefSyms, HeapLayout.setDependencies]
        using apart mod (older inside same)
  · by_cases same : mod = view.count
    · simp [same, HeapLayout.setDependencies]
    · simpa [same, HeapLayout.setUndefSyms, HeapLayout.setDependencies]
        using stores.newDepend dep above mod (older inside same)
  · have apart : mod ≠ view.count := Nat.ne_of_gt above
    simpa [apart] using stores.ownedModule mod (Nat.le_of_succ_le above)
  · refine (stores.ownedSymbol sym used).imp_right ?_
    rintro ⟨mod, inside, listed⟩
    have apart : mod ≠ view.count := Nat.ne_of_lt inside
    exact ⟨mod, Nat.lt_succ_of_lt inside,
      by simpa [HeapLayout.setUndefSyms, HeapLayout.setDependencies, apart] using listed⟩

end Stores

section Found

variable {Opaque : Type} {heap : ModuleHeap Opaque} {layout : HeapLayout} {names : List String}
  {symbols : List SymbolRecord} {undef : Nat → List String} {mod : Nat}

/-- Modules that were found, with the names that were read from their files. -/
def foundView (names : List String) (symbols : List SymbolRecord) (undef : Nat → List String) :
    ModuleView where
  count := names.length
  name mod := names.getD mod ""
  status := fun _ => .none
  symbols := symbols
  undefSyms := undef
  dependencies := fun _ => []

/-- The heap stands for modules that were found, and the callback was not called. -/
def Found (heap : ModuleHeap Opaque) (data : Opaque) (names : List String)
    (symbols : List SymbolRecord) (undef : Nat → List String) : Prop :=
  heap.opaqueData = data ∧ ∃ layout, Stores heap (foundView names symbols undef) layout

variable {data : Opaque}

/-- No module is found when the sort begins. -/
theorem found_initial (data : Opaque) : Found (.initial data) data [] [] (fun _ => []) := by
  -- The two heads are initialized one after the other, and nothing else is a list yet.
  refine ⟨rfl, ⟨[], fun _ => [], fun _ => []⟩, ?_, rfl, fun mod inside => ?_, .nil, fun mod inside => ?_,
    fun mod inside => ?_, fun sym _ => ⟨by simp, fun mod inside => ?_⟩, fun dep _ mod inside => ?_,
    fun mod _ => rfl, fun sym used => absurd rfl used⟩
  · have first := (Links.holds_none ⟨fun _ => none, fun _ => none⟩).init
      (Links.free_none HeadPlace.modules)
    have second := first.init (Links.free_update (Links.free_none HeadPlace.symbols) (by simp))
    have same : Function.update (Function.update (fun _ : HeadPlace => none) .modules (some []))
        .symbols (some []) = HeapLayout.lists ⟨[], fun _ => [], fun _ => []⟩ 0 := by
      funext place
      cases place <;> simp [HeapLayout.lists, Function.update]
    exact same ▸ second
  all_goals exact absurd inside (Nat.not_lt_zero _)

/-- A module is found. -/
theorem Found.addModule (found : Found heap data names [] (fun _ => [])) (name : String) :
    ∃ after, heap.addModule name = .ok after ∧ Found after data (names ++ [name]) [] (fun _ => []) := by
  obtain ⟨same, layout, stores⟩ := found
  obtain ⟨after, added, kept, stores⟩ := stores.addModule name
  refine ⟨after, added, kept.trans same, _, stores.congr (by simp [foundView]) (fun mod inside => ?_)
    (fun mod _ => ?_) rfl (fun mod _ => ?_) fun mod _ => ?_⟩
  · by_cases last : mod = names.length
    · simp [foundView, last]
    · have before : mod < names.length := by
        simp only [foundView] at inside
        omega
      simp [foundView, last, List.getElem?_append_left before]
  all_goals simp [foundView, Function.update_apply]

/-- The names of a module or of the kernel are exported. -/
theorem Found.exportSymbols (found : Found heap data names symbols undef) (mod : Option Nat)
    (exported : List String) :
    ∃ after, ModuleHeap.exportSymbols mod exported heap = .ok after ∧
      Found after data names (symbols ++ exported.map fun name => ⟨name, mod⟩) undef := by
  induction exported generalizing heap symbols with
  | nil => exact ⟨heap, rfl, by simpa using found⟩
  | cons name rest ih =>
    obtain ⟨same, layout, stores⟩ := found
    obtain ⟨middle, added, kept, stores⟩ := stores.addSymbol ⟨name, mod⟩
    obtain ⟨after, done, found⟩ := ih ⟨kept.trans same, _, stores⟩
    exact ⟨after, by simp [ModuleHeap.exportSymbols, added, done], by simpa [foundView] using found⟩

/-- The undefined names of a module are listed. -/
theorem Found.addUndefSyms (found : Found heap data names symbols undef) (inside : mod < names.length)
    (needed : List String) :
    ∃ after, ModuleHeap.addUndefSyms mod needed heap = .ok after ∧
      Found after data names symbols (Function.update undef mod (undef mod ++ needed)) := by
  induction needed generalizing heap undef with
  | nil => exact ⟨heap, rfl, by simpa using found⟩
  | cons name rest ih =>
    obtain ⟨same, layout, stores⟩ := found
    obtain ⟨middle, added, kept, stores⟩ := stores.addUndef inside name
    obtain ⟨after, done, found⟩ := ih ⟨kept.trans same, _, stores⟩
    refine ⟨after, by simp [ModuleHeap.addUndefSyms, added, done], ?_⟩
    simpa [foundView] using found

/-- The names of a section that the module exports, if it is such a section. -/
def SectionNames.exports : SectionNames → List String
  | .undef _ => []
  | .exported names => names

/-- The names of a section that the module needs, if it is such a section. -/
def SectionNames.needs : SectionNames → List String
  | .undef names => names
  | .exported _ => []

/-- What was read of a module. -/
def moduleOf (name : String) (sections : List SectionNames) : Module where
  name := name
  exported := sections.flatMap SectionNames.exports
  undefSyms := sections.flatMap SectionNames.needs

/-- The names of all sections of a module are listed. -/
theorem Found.addSections (found : Found heap data names symbols undef) (inside : mod < names.length)
    (sections : List SectionNames) :
    ∃ after, sections.foldlM (ModuleHeap.addNames mod) heap = .ok after ∧
      Found after data names
        (symbols ++ (sections.flatMap SectionNames.exports).map fun name => ⟨name, some mod⟩)
        (Function.update undef mod (undef mod ++ sections.flatMap SectionNames.needs)) := by
  induction sections generalizing heap symbols undef with
  | nil => exact ⟨heap, rfl, by simpa using found⟩
  | cons first rest ih =>
    -- A section either needs names or exports them, and is nothing to the other list.
    cases first with
    | undef needed =>
      obtain ⟨middle, added, found⟩ := found.addUndefSyms inside needed
      obtain ⟨after, done, found⟩ := ih found
      refine ⟨after, by simp [ModuleHeap.addNames, added, done], ?_⟩
      simpa [SectionNames.exports, SectionNames.needs] using found
    | exported names =>
      obtain ⟨middle, added, found⟩ := found.exportSymbols (some mod) names
      obtain ⟨after, done, found⟩ := ih found
      refine ⟨after, by simp [ModuleHeap.addNames, added, done], ?_⟩
      simpa [SectionNames.exports, SectionNames.needs] using found

/-- What `analysis_module` reads of the module with a name. -/
def analysed (host : ModuleHost) (name : String) : Except Stop Module :=
  (analysisModule host name).map (moduleOf name)

/-- The symbols of the kernel, and then those of some modules in their order. -/
def exportedSymbols (kernel : List String) (modules : List Module) : List SymbolRecord :=
  kernel.map (fun name => ⟨name, none⟩) ++ modules.zipIdx.flatMap fun (module, mod) =>
    module.exported.map fun name => ⟨name, some mod⟩

/-- The undefined names of modules. -/
def neededNames (modules : List Module) (mod : Nat) : List String :=
  (modules[mod]?.map Module.undefSyms).getD []

/-- The symbols of another module follow. -/
theorem exportedSymbols_concat (kernel : List String) (modules : List Module) (module : Module) :
    exportedSymbols kernel (modules ++ [module]) = exportedSymbols kernel modules ++
      module.exported.map fun name => ⟨name, some modules.length⟩ := by
  simp [exportedSymbols, List.zipIdx_append]

/-- The undefined names of another module are those it has. -/
theorem neededNames_concat (modules : List Module) (module : Module) :
    neededNames (modules ++ [module]) = Function.update (neededNames modules) modules.length
      (neededNames modules modules.length ++ module.undefSyms) := by
  -- The new module is behind the older ones, whose names are as they were.
  funext mod
  by_cases last : mod = modules.length
  · simp [neededNames, last]
  · rw [Function.update_of_ne last]
    rcases Nat.lt_or_gt_of_ne last with before | behind
    · simp [neededNames, List.getElem?_append_left before]
    · have outside : (modules ++ [module]).length ≤ mod := by
        rw [List.length_append, List.length_singleton]
        omega
      simp [neededNames, List.getElem?_eq_none outside, List.getElem?_eq_none (Nat.le_of_lt behind)]

/-- A module is called by the name of its file. -/
theorem analysed_name {host : ModuleHost} {name : String} {module : Module}
    (read : analysed host name = .ok module) : module.name = name := by
  obtain ⟨sections, -, rfl⟩ := map_eq_ok.mp read
  rfl

/-- One module is analysed. -/
theorem Found.analyse (host : ModuleHost) (found : Found heap data names symbols undef)
    (inside : mod < names.length) :
    match analysed host (names.getD mod "") with
    | .error stop => ModuleHeap.analysisBody host (.module mod) heap = .error stop
    | .ok module => ∃ after, ModuleHeap.analysisBody host (.module mod) heap = .ok (.yield after) ∧
        Found after data names (symbols ++ module.exported.map fun name => ⟨name, some mod⟩)
          (Function.update undef mod (undef mod ++ module.undefSyms)) := by
  obtain ⟨-, layout, stores⟩ := id found
  -- The name that is read with is the one in the module's record.
  have record := stores.modules mod inside
  simp only [analysed, ModuleHeap.analysisBody, ModuleHeap.moduleEntry, ModuleHeap.loadModule, record,
    ok_bind, foundView]
  cases analysisModule host (names.getD mod "") with
  | error stop => rfl
  | ok sections =>
    obtain ⟨after, done, found⟩ := found.addSections inside sections
    exact ⟨after, by simp [done], found⟩

/-- The modules are analysed in turn. -/
theorem Found.analyseEach (host : ModuleHost) {kernel : List String} {rest : List String}
    {modules : List Module} (whole : names = modules.map Module.name ++ rest)
    (found : Found heap data names (exportedSymbols kernel modules) (neededNames modules)) :
    match rest.mapM (analysed host) with
    | .error stop => eachEntry (ModuleHeap.analysisBody host)
        ((List.range' modules.length rest.length).map .module) heap = .error stop
    | .ok more => ∃ after, eachEntry (ModuleHeap.analysisBody host)
          ((List.range' modules.length rest.length).map .module) heap = .ok (.yield after) ∧
        names = (modules ++ more).map Module.name ∧
        Found after data names (exportedSymbols kernel (modules ++ more))
          (neededNames (modules ++ more)) := by
  induction rest generalizing heap modules with
  | nil => exact ⟨heap, rfl, by simpa using whole, by simpa using found⟩
  | cons name rest ih =>
    have inside : modules.length < names.length := by simp [whole]
    -- The entry comes to the name that is next on the list.
    have here : names.getD modules.length "" = name := by simp [whole]
    have first := found.analyse host inside
    rw [here] at first
    rw [List.length_cons, List.range'_succ, List.map_cons, List.mapM_cons]
    cases read : analysed host name with
    | error stop =>
      rw [read] at first
      simp only at first
      simp [eachEntry, first]
    | ok module =>
      rw [read] at first
      obtain ⟨after, done, found⟩ := first
      -- What this module exports and needs is added behind that of the ones before.
      rw [← exportedSymbols_concat, ← neededNames_concat] at found
      have next : names = (modules ++ [module]).map Module.name ++ rest := by
        simp [whole, analysed_name read]
      have later := ih next found
      rw [List.length_append, List.length_singleton] at later
      simp only [ok_bind, eachEntry, done]
      cases read_rest : rest.mapM (analysed host) with
      | error stop =>
        rw [read_rest] at later
        exact later
      | ok more =>
        rw [read_rest] at later
        simpa using later

/-- The loop over the modules analyses each of them once. -/
theorem Found.analyseAll (host : ModuleHost) {kernel : List String} {bound : Nat}
    (found : Found heap data names (exportedSymbols kernel []) (neededNames []))
    (enough : names.length < bound) :
    match names.mapM (analysed host) with
    | .error stop => listForEachEntry id (ModuleHeap.analysisBody host) .modules bound heap =
        .error stop
    | .ok modules => ∃ after,
        listForEachEntry id (ModuleHeap.analysisBody host) .modules bound heap =
          .ok (.yield after) ∧
        names = modules.map Module.name ∧
        Found after data names (exportedSymbols kernel modules) (neededNames modules) := by
  have loop : listForEachEntry id (ModuleHeap.analysisBody host) .modules bound heap =
      eachEntry (ModuleHeap.analysisBody host) ((List.range names.length).map .module) heap := by
    -- The analysis adds symbols only, so the list of modules is steady.
    refine listForEachEntry_steady (fun heap => ∃ symbols undef, Found heap data names symbols undef)
      ?_ ?_ ⟨_, _, found⟩ (by simpa using enough)
    · rintro heap ⟨symbols, undef, -, layout, stores⟩
      exact ⟨_, stores.holds, rfl, stores.live_modules⟩
    · rintro pos listed heap after ⟨symbols, undef, found⟩ ran
      obtain ⟨mod, inside, rfl⟩ := List.mem_map.mp listed
      have one := found.analyse host (List.mem_range.mp inside)
      cases read : analysed host (names.getD mod "") with
      | error stop =>
        rw [read] at one
        simp [ran] at one
      | ok module =>
        rw [read] at one
        obtain ⟨done, same, found⟩ := one
        cases ran.symm.trans same
        exact ⟨_, _, found⟩
  have each := @Found.analyseEach _ _ _ _ host kernel names [] rfl found
  rw [loop, List.range_eq_range']
  simpa using each

/-- Work on what was found goes on in step on the heap and on a list of names. -/
theorem discoverEach_found {startpoint : Option String} {entries : List String}
    (found : Found heap data names [] (fun _ => [])) (startup map : Bool) :
    match discoverEach startpoint (fun names name => .ok (names ++ [name])) entries
      ⟨names, startup, map⟩ with
    | .error stop => discoverEach startpoint ModuleHeap.addModule entries ⟨heap, startup, map⟩ =
        .error stop
    | .ok last => ∃ after, discoverEach startpoint ModuleHeap.addModule entries
          ⟨heap, startup, map⟩ = .ok ⟨after, last.hasStartup, last.hasSystemMap⟩ ∧
        Found after data last.modules [] (fun _ => []) := by
  induction entries generalizing heap names startup map with
  | nil => exact ⟨heap, rfl, found⟩
  | cons name rest ih =>
    -- An entry is a module to load, one of the two files of the kernel, or is passed over.
    cases checked : checkModule startpoint name with
    | error stop => simp [discoverEach, checked]
    | ok loads =>
      cases loads with
      | true =>
        obtain ⟨middle, added, found⟩ := found.addModule name
        simpa [discoverEach, checked, added] using ih found startup map
      | false =>
        by_cases kernel : name = "startup.bin"
        · subst kernel
          simpa [discoverEach, checked] using ih found true map
        · by_cases table : name = "System.map"
          · subst table
            simpa [discoverEach, checked] using ih found startup true
          · simpa [discoverEach, checked, kernel, table] using ih found startup map

/-- The names of the modules that `discover_modules` finds, in list order. -/
def discovered (host : ModuleHost) (startpoint : Option String) : Except Stop (List String) :=
  discoverModules host startpoint (fun names name => .ok (names ++ [name])) []

/-- The module list is that of the names that were found. -/
theorem discoverModules_found (host : ModuleHost) (startpoint : Option String) (data : Opaque) :
    match discovered host startpoint with
    | .error stop => discoverModules host startpoint ModuleHeap.addModule (.initial data) = .error stop
    | .ok names => ∃ after,
        discoverModules host startpoint ModuleHeap.addModule (.initial data) = .ok after ∧
        Found after data names [] (fun _ => []) := by
  rw [discovered, discoverModules, discoverModules]
  cases host.directory with
  | none => rfl
  | some entries =>
    have each := @discoverEach_found _ _ _ _ startpoint entries.reverse (found_initial data) false false
    simp only
    -- Without both files of the kernel the search panics, whatever modules it found.
    cases went : discoverEach startpoint (fun names name => .ok (names ++ [name])) entries.reverse
      ⟨[], false, false⟩ with
    | error stop =>
      rw [went] at each
      simp only at each
      simp [each]
    | ok last =>
      rw [went] at each
      obtain ⟨after, done, found⟩ := each
      simp only [done, ok_bind]
      cases last.hasStartup with
      | false => rfl
      | true =>
        cases last.hasSystemMap with
        | false => rfl
        | true => exact ⟨after, rfl, found⟩

/-- What `sort_modules` reads before it sorts: the names of the kernel, and the modules. -/
def readModules (host : ModuleHost) (startpoint : Option String) :
    Except Stop (List String × List Module) := do
  let names ← discovered host startpoint
  let kernel ← initSymtable host
  let modules ← names.mapM (analysed host)
  return (kernel, modules)

/-- The name of a module of a list. -/
def nameOf (modules : List Module) (mod : Fin modules.length) : String := (modules.get mod).name

/-- `sort_modules` on lists, with the names that it calls the callback with. -/
def sortedNames (host : ModuleHost) (fuel : Nat) (startpoint : Option String) :
    Except Stop (List String) := do
  let (kernel, modules) ← readModules host startpoint
  (sortModules fuel kernel modules startpoint).map fun sorted => sorted.calls.map (nameOf modules)

/-- The symbols that the heap holds are those of the lists. -/
theorem exportedSymbols_eq (kernel : List String) (modules : List Module) :
    exportedSymbols kernel modules =
      (symbolTable kernel modules).map fun sym => ⟨sym.name, sym.mod.map Fin.val⟩ := by
  have places : modules.zipIdx =
      (List.finRange modules.length).map fun mod => (modules.get mod, mod.val) := by
    apply List.ext_getElem <;> simp
  simp only [exportedSymbols, symbolTable, places, List.map_append, List.map_map, List.map_flatMap,
    List.flatMap_map]
  rfl

/-- Modules that were analysed can be sorted. -/
theorem Found.sorts {kernel : List String} {modules : List Module}
    (found : Found heap data (modules.map Module.name) (exportedSymbols kernel modules)
      (neededNames modules)) :
    ∃ layout, Sorts heap (nameOf modules) (symbolTable kernel modules) (neededNames modules) .initial
      layout := by
  obtain ⟨-, layout, stores⟩ := found
  have count : modules.length = (modules.map Module.name).length := by simp
  refine ⟨layout, stores.congr count (fun mod inside => ?_) (fun mod inside => ?_)
    (exportedSymbols_eq kernel modules).symm (fun mod _ => rfl) (fun mod inside => ?_),
    fun mod => List.nodup_nil⟩
  all_goals
    simp only [foundView, List.length_map] at inside
    simp [Sorting.view, foundView, Sorting.initial, nameOf, inside]

/-- As many modules are read as there are names. -/
theorem mapM_length {α β : Type} {read : α → Except Stop β} {names : List α} {all : List β}
    (each : names.mapM read = .ok all) : all.length = names.length := by
  -- The induction is on the names, one of which is read at a time.
  induction names generalizing all with
  | nil =>
    cases each
    rfl
  | cons name rest ih =>
    rw [List.mapM_cons] at each
    obtain ⟨one, -, each⟩ := bind_eq_ok.mp each
    obtain ⟨more, went, each⟩ := bind_eq_ok.mp each
    cases each
    simp [ih went]

/-- A number of rounds that no loop of a sort of some modules comes to. -/
def enoughRounds (kernel : List String) (modules : List Module) : Nat :=
  modules.length + (symbolTable kernel modules).length +
    (modules.map fun module => module.undefSyms.length).sum + 1

/-- What a sort that comes to its end leaves behind. -/
def Emptied (cb : String → Opaque → Except Stop Opaque) (data : Opaque) (heap : ModuleHeap Opaque)
    (names : List String) : Prop :=
  called cb data names = .ok heap.opaqueData ∧ (∀ sym, heap.symbols sym = none) ∧
    ∀ mod, heap.modules mod = none

/-- The whole sort on the heap follows the sort on lists. -/
theorem sortModules_follows (host : ModuleHost) (cb : String → Opaque → Except Stop Opaque)
    (startpoint : Option String) (data : Opaque) : ∃ rounds, ∀ bound ≥ rounds, ∀ fuel,
      Follows cb data id (Emptied cb data)
        (ModuleHeap.sortModules host cb bound fuel startpoint data >>= ModuleHeap.clearModules bound)
        (sortedNames host fuel startpoint) := by
  simp only [sortedNames, readModules, ModuleHeap.sortModules, bind_assoc]
  have finds := discoverModules_found host startpoint data
  -- Each phase that stops on the lists stops the heap for the same cause.
  cases went : discovered host startpoint with
  | error stop =>
    rw [went] at finds
    simp only at finds
    refine ⟨0, fun bound _ fuel => ?_⟩
    rw [finds]
    exact .inl rfl
  | ok names =>
    rw [went] at finds
    obtain ⟨heap, done, found⟩ := finds
    simp only [done, ok_bind]
    cases initSymtable host with
    | error stop => exact ⟨0, fun bound _ fuel => .inl rfl⟩
    | ok kernel =>
      obtain ⟨heap, done, found⟩ := found.exportSymbols none kernel
      simp only [done, ok_bind]
      -- Before the analysis only the kernel exports, and nothing is needed.
      have found : Found heap data names (exportedSymbols kernel []) (neededNames []) := by
        simpa [exportedSymbols, show neededNames [] = fun _ => [] from rfl] using found
      cases each : names.mapM (analysed host) with
      | error stop =>
        refine ⟨names.length + 1, fun bound enough fuel => ?_⟩
        have all := found.analyseAll host enough
        rw [each] at all
        simp only at all
        rw [all]
        exact .inl rfl
      | ok modules =>
        refine ⟨enoughRounds kernel modules, fun bound enough fuel => ?_⟩
        rw [enoughRounds] at enough
        have lengths : modules.length = names.length := mapM_length each
        have all := found.analyseAll host (show names.length < bound by omega)
        rw [each] at all
        obtain ⟨after, all, rfl, found⟩ := all
        obtain ⟨layout, sorts⟩ := found.sorts
        simp only [all, ok_bind, pure_bind, ForInStep.run]
        -- The bound covers all undefined names together, so also those of one module.
        have short (mod : Fin modules.length) : (modules.get mod).undefSyms.length < bound := by
          have one : (modules.get mod).undefSyms.length ≤
              (modules.map fun module => module.undefSyms.length).sum :=
            List.single_le_sum (fun _ _ => Nat.zero_le _) _
              (List.mem_map.mpr ⟨_, List.get_mem .., rfl⟩)
          omega
        have shown (mod : Fin modules.length) :
            neededNames modules mod = (modules.get mod).undefSyms := by
          simp [neededNames]
        have sorted := @Sorts.sorted _ _ cb _ _ _ _ _ _ _ sorts (show _ < bound by omega)
          (show _ < bound by omega) short shown startpoint fuel
        rw [found.1] at sorted
        exact Follows.map _ sorted

end Found

end Xemu
