import Xemu.Proofs.ModuleHeap

/-! Sorting the modules on the heap is sorting them as lists, and leaves no structure in use behind. -/

namespace Xemu

open Cyclic HeadMemory

section Checked

variable {Opaque : Type} {n : Nat} {heap : ModuleHeap Opaque} {names : Fin n → String}
  {symbols : List (ModSymbol n)} {undef : Nat → List String} {sorting : Sorting n}
  {layout : HeapLayout} {bound : Nat}

/-- The module list is that of all modules while they are sorted. -/
theorem Sorts.listed_modules (sorts : Sorts heap names symbols undef sorting layout) :
    (links heap).Holds (layout.lists n) ∧
      layout.lists n .modules = some ((List.finRange n).map fun mod => .module mod.val) ∧
      Live heap (.modules :: (List.finRange n).map fun mod => .module mod.val) := by
  have same : (List.range n).map HeadPlace.module =
      (List.finRange n).map fun mod => .module mod.val := by
    rw [← List.map_coe_finRange_eq_range, List.map_map]
    rfl
  exact ⟨sorts.stores.holds, congrArg some same, same ▸ sorts.stores.live_modules⟩

/-- The modules are checked in turn. -/
theorem Sorts.checkEach {wanted : Fin n → List String} {mods : List (Fin n)}
    (sorts : Sorts heap names symbols undef sorting layout) (enough : symbols.length < bound)
    (deep : n < bound) (short : ∀ mod, (wanted mod).length < bound) (once : mods.Nodup)
    (shown : ∀ mod ∈ mods, undef mod = wanted mod) :
    match checkDependencies symbols wanted mods sorting with
    | .error stop => eachEntry (ModuleHeap.checkEachBody bound)
        (mods.map fun mod => .module mod.val) heap = .error stop
    | .ok later => ∃ after middle undef', eachEntry (ModuleHeap.checkEachBody bound)
          (mods.map fun mod => .module mod.val) heap = .ok (.yield after) ∧
        after.opaqueData = heap.opaqueData ∧ Sorts after names symbols undef' later middle ∧
        ∀ other : Fin n, undef' other = if other ∈ mods then [] else undef other := by
  induction mods generalizing heap undef sorting layout with
  | nil => exact ⟨heap, layout, undef, rfl, rfl, sorts, by simp⟩
  | cons mod rest ih =>
    rw [List.nodup_cons] at once
    rw [List.forall_mem_cons] at shown
    have checked := sorts.checkDependency enough deep (shown.1 ▸ short mod)
    rw [shown.1] at checked
    simp only [checkDependencies, List.map_cons, eachEntry, ModuleHeap.checkEachBody,
      ModuleHeap.moduleEntry, ok_bind]
    cases ran : Xemu.checkDependency symbols mod (wanted mod) sorting with
    | error stop =>
      rw [ran] at checked
      simp [checked]
    | ok last =>
      rw [ran] at checked
      obtain ⟨after, middle, done, same, kept⟩ := checked
      -- The names of the other modules are still there.
      have others : ∀ other ∈ rest, Function.update undef mod [] other = wanted other := by
        intro other member
        have different : other.val ≠ mod.val := fun also => once.1 (Fin.ext also ▸ member)
        exact (Function.update_of_ne different ..).trans (shown.2 other member)
      have later := ih kept once.2 others
      simp only [done, ok_bind, pure_eq_ok]
      cases rest_ran : checkDependencies symbols wanted rest last with
      | error stop =>
        rw [rest_ran] at later
        exact later
      | ok final =>
        rw [rest_ran] at later
        obtain ⟨final_heap, final_layout, undef', done, kept', sorts', left⟩ := later
        refine ⟨final_heap, final_layout, undef', done, kept'.trans same, sorts', fun other => ?_⟩
        rw [left other]
        by_cases here : other = mod
        · simp [here]
        · simp [here, Fin.val_inj]

/-- The first loop over all modules does on the heap what it does on the lists. -/
theorem Sorts.checkAll {wanted : Fin n → List String}
    (sorts : Sorts heap names symbols undef sorting layout) (enough : symbols.length < bound)
    (deep : n < bound) (short : ∀ mod, (wanted mod).length < bound)
    (shown : ∀ mod : Fin n, undef mod = wanted mod) :
    match checkDependencies symbols wanted (List.finRange n) sorting with
    | .error stop => listForEachEntry id (ModuleHeap.checkEachBody bound) .modules bound heap =
        .error stop
    | .ok later => ∃ after middle undef',
        listForEachEntry id (ModuleHeap.checkEachBody bound) .modules bound heap =
          .ok (.yield after) ∧
        after.opaqueData = heap.opaqueData ∧ Sorts after names symbols undef' later middle ∧
        ∀ mod : Fin n, undef' mod = [] := by
  have loop : listForEachEntry id (ModuleHeap.checkEachBody bound) .modules bound heap =
      eachEntry (ModuleHeap.checkEachBody bound)
        ((List.finRange n).map fun mod => .module mod.val) heap := by
    -- Checks never change which modules are listed, so the loop comes to each of them once.
    refine listForEachEntry_steady (fun heap => ∃ undef sorting layout,
      Sorts heap names symbols undef sorting layout ∧ ∀ mod : Fin n, (undef mod).length < bound)
      ?_ ?_ ⟨undef, sorting, layout, sorts, fun mod => shown mod ▸ short mod⟩ (by simpa using deep)
    · rintro heap ⟨undef, sorting, layout, sorts, -⟩
      exact ⟨_, sorts.listed_modules⟩
    · rintro pos listed heap after ⟨undef, sorting, layout, sorts, fewer⟩ ran
      obtain ⟨mod, -, rfl⟩ := List.mem_map.mp listed
      have checked := sorts.checkDependency enough deep (fewer mod)
      simp only [ModuleHeap.checkEachBody, ModuleHeap.moduleEntry, ok_bind] at ran
      cases result : Xemu.checkDependency symbols mod (undef mod) sorting with
      | error stop =>
        rw [result] at checked
        simp [checked] at ran
      | ok later =>
        rw [result] at checked
        obtain ⟨done, middle, ended, -, kept⟩ := checked
        rw [ended] at ran
        cases ran
        refine ⟨_, _, middle, kept, fun other => ?_⟩
        -- Its own list is empty from then on, and the other lists stay as short as they were.
        by_cases same : other = mod
        · simpa [same] using Nat.zero_lt_of_lt deep
        · simpa [Fin.val_inj, same] using fewer other
  have each := sorts.checkEach enough deep short (List.nodup_finRange n) fun mod _ => shown mod
  rw [loop]
  simpa using each

end Checked

section Entered

variable {n : Nat} {before middle after sorting : Sorting n} {mod target : Fin n}
  {targets : List (Fin n)}

/-- Modules that were entered before keep their status and, but for one of them, their dependencies. -/
structure Entered (but : Option (Fin n)) (before after : Sorting n) : Prop where
  calls : before.calls <+: after.calls
  status : ∀ other, before.status other ≠ .none → after.status other = before.status other
  dependencies : ∀ other, before.status other ≠ .none → but ≠ some other →
    after.dependencies other = before.dependencies other

/-- Nothing done keeps everything. -/
theorem Entered.refl (but : Option (Fin n)) (sorting : Sorting n) : Entered but sorting sorting :=
  ⟨List.prefix_refl _, fun _ _ => rfl, fun _ _ _ => rfl⟩

/-- What two parts keep is kept by both in turn. -/
theorem Entered.trans {but : Option (Fin n)} (first : Entered but before middle)
    (second : Entered but middle after) : Entered but before after where
  calls := first.calls.trans second.calls
  status other entered := by
    have same := first.status other entered
    exact (second.status other (same ▸ entered)).trans same
  dependencies other entered apart := by
    have same := first.status other entered
    exact (second.dependencies other (same ▸ entered) apart).trans
      (first.dependencies other entered apart)

/-- What is kept for all modules is kept for all but one. -/
theorem Entered.but (kept : Entered none before after) (but : Option (Fin n)) :
    Entered but before after :=
  ⟨kept.calls, kept.status, fun other entered _ => kept.dependencies other entered (by simp)⟩

/-- One entry of the lists is traversed and, if it is done then, taken off. -/
def traverseEntry (traverse : Fin n → Sorting n → Except Stop (Sorting n)) (mod target : Fin n)
    (sorting : Sorting n) : Except Stop (Sorting n × Bool) := do
  let sorting ← traverse target sorting
  if sorting.status target ≠ .done then .ok (sorting, false)
  else .ok (sorting.deleteDependency mod target, true)

/-- The loop on the lists goes on behind an entry that was taken off. -/
theorem traverseEntries_cons (traverse : Fin n → Sorting n → Except Stop (Sorting n)) :
    traverseEntries traverse mod (target :: targets) sorting = (do
      let (sorting, ended) ← traverseEntry traverse mod target sorting
      if ended then traverseEntries traverse mod targets sorting else .ok (sorting, false)) := by
  simp only [traverseEntries, traverseEntry]
  cases traverse target sorting with
  | error stop => rfl
  | ok middle =>
    simp only [ok_bind]
    split <;> rfl

/-- The round for one dependency of a module changes no other module that was entered. -/
theorem traverseEntry_entered {traverse : Fin n → Sorting n → Except Stop (Sorting n)}
    (nested : ∀ target before after, traverse target before = .ok after → Entered none before after)
    {ended : Bool} (ran : traverseEntry traverse mod target before = .ok (after, ended)) :
    Entered (some mod) before after := by
  obtain ⟨middle, went, ran⟩ := bind_eq_ok.mp ran
  have first := (nested target before middle went).but (some mod)
  split at ran
  · cases ran
    exact first
  -- The entry taken off is one of this module alone.
  · cases ran
    refine first.trans ⟨List.prefix_refl _, fun _ _ => rfl, fun other _ apart => ?_⟩
    have different : other ≠ mod := fun same => apart (same ▸ rfl)
    simp [different]

/-- The loop over the dependencies of one module changes no other module that was entered. -/
theorem traverseEntries_entered {traverse : Fin n → Sorting n → Except Stop (Sorting n)}
    (nested : ∀ target before after, traverse target before = .ok after → Entered none before after)
    {ended : Bool} (ran : traverseEntries traverse mod targets before = .ok (after, ended)) :
    Entered (some mod) before after := by
  -- The induction is on the entries left, and the loop ends early at one that is not done.
  induction targets generalizing before with
  | nil =>
    cases ran
    exact .refl ..
  | cons target rest ih =>
    rw [traverseEntries_cons] at ran
    obtain ⟨⟨middle, more⟩, went, ran⟩ := bind_eq_ok.mp ran
    have first := traverseEntry_entered nested went
    cases more with
    | true => exact first.trans (ih ran)
    | false =>
      cases ran
      exact first

/-- A traversal changes no module that was entered before. -/
theorem traverseDependency_entered (fuel : Nat) : ∀ (mod : Fin n) (before after : Sorting n),
    traverseDependency fuel mod before = .ok after → Entered none before after := by
  induction fuel with
  | zero =>
    intro mod before after ran
    cases ran
  | succ fuel ih =>
    intro mod before after ran
    rw [traverseDependency] at ran
    split at ran
    · cases ran
      exact .refl ..
    · rename_i fresh
      rw [not_not] at fresh
      obtain ⟨⟨middle, ended⟩, looped, ran⟩ := bind_eq_ok.mp ran
      have kept := traverseEntries_entered ih looped
      have apart {other : Fin n} (entered : before.status other ≠ .none) : other ≠ mod :=
        fun same => entered (same ▸ fresh)
      -- The module itself was not entered, so what the loop does to it does not count.
      have whole : Entered none before middle := by
        refine ⟨kept.calls, fun other entered => ?_, fun other entered _ => ?_⟩
        · have same := kept.status other (by simp [apart entered, entered])
          simpa [apart entered] using same
        · refine kept.dependencies other (by simp [apart entered, entered]) ?_
          simpa using (apart entered).symm
      cases ended with
      | false =>
        simp only [Bool.false_eq_true, if_false, Except.ok.injEq] at ran
        exact ran ▸ whole
      | true =>
        simp only [if_true] at ran
        split at ran
        · cases ran
        · cases ran
          refine ⟨whole.calls.trans (List.prefix_append ..), fun other entered => ?_,
            fun other entered => whole.dependencies other entered⟩
          simpa [apart entered] using whole.status other entered

end Entered

section Following

variable {Opaque Heap Lists : Type} {cb : String → Opaque → Except Stop Opaque} {data : Opaque}

/-- What the callback's calls with some names make of its data. -/
def called (cb : String → Opaque → Except Stop Opaque) (data : Opaque) (calls : List String) :
    Except Stop Opaque :=
  calls.foldlM (fun data name => cb name data) data

/--
Work on the heap follows work on the lists.

It ends as the work on the lists does, unless the callback stops at a call that is made there too.
-/
def Follows (cb : String → Opaque → Except Stop Opaque) (data : Opaque)
    (calls : Lists → List String) (rel : Heap → Lists → Prop) (result : Except Stop Heap)
    (sorted : Except Stop Lists) : Prop :=
  match result with
  | .ok heap => ∃ lists, sorted = .ok lists ∧ rel heap lists
  | .error stop => sorted = .error stop ∨ ∃ made, called cb data made = .error stop ∧
      ∀ lists, sorted = .ok lists → made <+: calls lists

variable {Heap' Lists' : Type} {calls : Lists → List String} {calls' : Lists' → List String}
  {rel : Heap → Lists → Prop} {rel' : Heap' → Lists' → Prop} {result : Except Stop Heap}
  {sorted : Except Stop Lists} {next : Heap → Except Stop Heap'} {later : Lists → Except Stop Lists'}

/-- Where both come to an end, the work goes on from what they come to. -/
theorem Follows.bind (first : Follows cb data calls rel result sorted)
    (rest : ∀ heap lists, sorted = .ok lists → rel heap lists →
      Follows cb data calls' rel' (next heap) (later lists))
    (longer : ∀ lists last, sorted = .ok lists → later lists = .ok last → calls lists <+: calls' last) :
    Follows cb data calls' rel' (result >>= next) (sorted >>= later) := by
  cases result with
  | ok heap =>
    obtain ⟨lists, rfl, related⟩ := first
    exact rest heap lists rfl related
  | error stop =>
    rcases first with rfl | ⟨made, stopped, within⟩
    · exact .inl rfl
    · -- The callback has stopped, whatever the lists come to.
      refine .inr ⟨made, stopped, fun last ended => ?_⟩
      obtain ⟨lists, ran, ended⟩ := bind_eq_ok.mp ended
      exact (within lists ran).trans (longer lists last ran ended)

/-- Work on the heap alone that comes to an end can follow. -/
theorem Follows.andThen {rel' : Heap' → Lists → Prop}
    (first : Follows cb data calls rel result sorted)
    (rest : ∀ heap lists, rel heap lists → ∃ after, next heap = .ok after ∧ rel' after lists) :
    Follows cb data calls rel' (result >>= next) sorted := by
  cases result with
  | error stop => exact first
  | ok heap =>
    obtain ⟨lists, ran, related⟩ := first
    obtain ⟨after, done, related⟩ := rest heap lists related
    rw [ok_bind, done]
    exact ⟨lists, ran, related⟩

/-- Where the work on the lists ends and no call of the callback stops, the work on the heap ends. -/
theorem Follows.completes {lists : Lists} {made : Opaque}
    (follows : Follows cb data calls rel result sorted) (ended : sorted = .ok lists)
    (called_all : called cb data (calls lists) = .ok made) : ∃ heap, result = .ok heap ∧ rel heap lists := by
  cases result with
  | ok heap =>
    obtain ⟨same, ran, related⟩ := follows
    cases ran.symm.trans ended
    exact ⟨heap, rfl, related⟩
  | error stop =>
    rcases follows with stopped | ⟨made, stopped, within⟩
    · cases stopped.symm.trans ended
    · -- The calls up to the one that stops are among those that all complete.
      obtain ⟨rest, whole⟩ := within lists ended
      rw [← whole, called, List.foldlM_append] at called_all
      rw [called] at stopped
      rw [stopped] at called_all
      cases called_all

/-- What is related in one way can be related in another one. -/
theorem Follows.mono {weak : Heap → Lists → Prop}
    (follows : Follows cb data calls rel result sorted)
    (weaker : ∀ heap lists, rel heap lists → weak heap lists) :
    Follows cb data calls weak result sorted := by
  cases result with
  | ok heap =>
    obtain ⟨lists, ran, related⟩ := follows
    exact ⟨lists, ran, weaker heap lists related⟩
  | error stop => exact follows

/-- What the work on the lists comes to can be looked at in another way. -/
theorem Follows.map {Other : Type} {others : Other → List String} {same : Heap → Other → Prop}
    (shown : Lists → Other)
    (follows : Follows cb data (fun lists => others (shown lists))
      (fun heap lists => same heap (shown lists)) result sorted) :
    Follows cb data others same result (sorted.map shown) := by
  cases result with
  | ok heap =>
    obtain ⟨lists, rfl, related⟩ := follows
    exact ⟨shown lists, rfl, related⟩
  | error stop =>
    rcases follows with rfl | ⟨made, stopped, within⟩
    · exact .inl rfl
    · refine .inr ⟨made, stopped, fun last ended => ?_⟩
      obtain ⟨lists, ran, rfl⟩ := map_eq_ok.mp ended
      exact within lists ran

end Following

section Traversal

variable {Opaque : Type} {n : Nat} {cb : String → Opaque → Except Stop Opaque} {names : Fin n → String}
  {symbols : List (ModSymbol n)} {undef : Nat → List String} {data : Opaque}
  {heap : ModuleHeap Opaque} {sorting : Sorting n} {layout : HeapLayout} {mod target : Fin n}
  {bound fuel dep : Nat} {ids : List Nat} {targets : List (Fin n)}

/-- The heap stands for a sort in which the callback was called as on the lists. -/
structure Traverses (cb : String → Opaque → Except Stop Opaque) (names : Fin n → String)
    (symbols : List (ModSymbol n)) (undef : Nat → List String) (data : Opaque)
    (heap : ModuleHeap Opaque) (sorting : Sorting n) (layout : HeapLayout) : Prop where
  sorts : Sorts heap names symbols undef sorting layout
  made : called cb data (sorting.calls.map names) = .ok heap.opaqueData

/-- Nested calls follow those on the lists and leave the dependency lists of entered modules alone. -/
def Nested (cb : String → Opaque → Except Stop Opaque) (names : Fin n → String)
    (symbols : List (ModSymbol n)) (undef : Nat → List String) (data : Opaque) (bound fuel : Nat) :
    Prop :=
  ∀ (mod : Fin n) (heap : ModuleHeap Opaque) (sorting : Sorting n) (layout : HeapLayout),
    Traverses cb names symbols undef data heap sorting layout →
    Follows cb data (fun sorted => sorted.calls.map names)
      (fun after sorted => ∃ later, Traverses cb names symbols undef data after sorted later ∧
        ∀ other : Fin n, sorting.status other ≠ .none →
          later.dependencies other = layout.dependencies other)
      (ModuleHeap.traverseDependency cb bound fuel mod heap) (traverseDependency fuel mod sorting)

/-- What one round of the loop over the dependencies of a module comes to. -/
def Round (cb : String → Opaque → Except Stop Opaque) (names : Fin n → String)
    (symbols : List (ModSymbol n)) (undef : Nat → List String) (data : Opaque) (mod : Fin n)
    (sorting : Sorting n) (layout : HeapLayout) (ids : List Nat) (targets : List (Fin n)) :
    ForInStep (ModuleHeap Opaque) → Sorting n × Bool → Prop
  | .done after, (sorted, ended) => ended = false ∧ ∃ later,
      Traverses cb names symbols undef data after sorted later ∧
      ∀ other : Fin n, sorting.status other ≠ .none → other ≠ mod →
        later.dependencies other = layout.dependencies other
  | .yield after, (sorted, ended) => ended = true ∧ sorted.dependencies mod = targets ∧
      sorted.status mod = .doing ∧ ∃ later,
      Traverses cb names symbols undef data after sorted later ∧ later.dependencies mod = ids ∧
      ∀ other : Fin n, sorting.status other ≠ .none → other ≠ mod →
        later.dependencies other = layout.dependencies other

/-- The structure for an entry of the dependency list has the module that the entry is for. -/
theorem Sorts.loadDepend (sorts : Sorts heap names symbols undef sorting layout)
    (first : layout.dependencies mod = dep :: ids) (shown : sorting.dependencies mod = target :: targets) :
    heap.loadDepend dep = .ok target.val := by
  have known := sorts.stores.dependencies mod mod.isLt
  rw [first, view_dependencies, shown, List.map_cons] at known
  simp [ModuleHeap.loadDepend, (List.forall₂_cons.mp known).1]

/-- The structure for a module has its name and status. -/
theorem Sorts.loadModule (sorts : Sorts heap names symbols undef sorting layout) (mod : Fin n) :
    heap.loadModule mod = .ok ⟨names mod, sorting.status mod⟩ := by
  have known := sorts.stores.modules mod mod.isLt
  rw [view_name, view_status] at known
  simp [ModuleHeap.loadModule, known]

/-- One round of the loop over the dependencies of a module follows that on the lists. -/
theorem Nested.round (nested : Nested cb names symbols undef data bound fuel)
    (traverses : Traverses cb names symbols undef data heap sorting layout)
    (entered : sorting.status mod = .doing) (first : layout.dependencies mod = dep :: ids)
    (shown : sorting.dependencies mod = target :: targets) :
    Follows cb data (fun pair => pair.1.calls.map names)
      (Round cb names symbols undef data mod sorting layout ids targets)
      (ModuleHeap.traverseBody (ModuleHeap.traverseDependency cb bound fuel) (.depend dep) heap)
      (traverseEntry (traverseDependency fuel) mod target sorting) := by
  have loaded := traverses.sorts.loadDepend first shown
  simp only [ModuleHeap.traverseBody, ModuleHeap.dependEntry, ok_bind, loaded, traverseEntry]
  refine (nested target heap sorting layout traverses).bind ?_ ?_
  · rintro after sorted ran ⟨later, reached, kept⟩
    have frame := traverseDependency_entered fuel target sorting sorted ran
    -- The module was entered, so its entries are those it had before the nested call.
    have busy : sorting.status mod ≠ .none := by simp [entered]
    have first' := (kept mod busy).trans first
    have shown' := (frame.dependencies mod busy (by simp)).trans shown
    have loaded' := reached.sorts.loadDepend first' shown'
    have record := reached.sorts.loadModule target
    simp only [loaded', record, ok_bind]
    by_cases finished : sorted.status target = .done
    · have entries : (sorted.view names symbols undef).dependencies mod =
          target.val :: targets.map Fin.val := by simp [shown']
      obtain ⟨heads, deleted, stores⟩ := reached.sorts.stores.dropDepend mod.isLt first' entries
      have left : (sorted.dependencies mod).erase target = targets := by simp [shown']
      simp only [finished, ne_eq, not_true_eq_false, if_false, deleted,
        ok_bind, pure_eq_ok]
      have status := (frame.status mod busy).trans entered
      refine ⟨_, rfl, rfl, by simp [left], by simpa using status, later.setDependencies mod ids,
        ⟨⟨?_, fun other => ?_⟩, reached.made⟩, by simp [HeapLayout.setDependencies],
        fun other before apart => ?_⟩
      · rwa [Sorting.deleteDependency, left, view_update]
      · by_cases same : other = mod
        · have whole := reached.sorts.distinct mod
          rw [shown'] at whole
          simpa [same, left] using (List.nodup_cons.mp whole).2
        · simpa [same] using reached.sorts.distinct other
      · have different : other.val ≠ mod.val := fun same => apart (Fin.ext same)
        simpa [HeapLayout.setDependencies, different] using kept other before
    · simp only [finished, ne_eq, not_false_eq_true, if_true, pure_eq_ok]
      exact ⟨_, rfl, rfl, later, reached, fun other before _ => kept other before⟩
  · intro middle last ran ended
    split at ended
    · cases ended
      exact List.prefix_refl _
    · cases ended
      exact List.prefix_refl _

/-- The rounds for the dependencies of a module follow the loop on the lists. -/
theorem Nested.entries (nested : Nested cb names symbols undef data bound fuel)
    (traverses : Traverses cb names symbols undef data heap sorting layout)
    (entered : sorting.status mod = .doing) (shown : sorting.dependencies mod = targets) :
    Follows cb data (fun pair => pair.1.calls.map names)
      (Round cb names symbols undef data mod sorting layout [] [])
      (eachEntry (ModuleHeap.traverseBody (ModuleHeap.traverseDependency cb bound fuel))
        ((layout.dependencies mod).map .depend) heap)
      (traverseEntries (traverseDependency fuel) mod targets sorting) := by
  -- The cells of the list are as many as the targets that they stand for.
  have lengths := (traverses.sorts.stores.dependencies mod mod.isLt).length_eq
  rw [view_dependencies, shown, List.length_map] at lengths
  induction targets generalizing heap sorting layout with
  | nil =>
    have none_left := List.length_eq_zero_iff.mp lengths
    rw [none_left]
    exact ⟨_, rfl, rfl, shown, entered, layout, traverses, none_left, fun _ _ _ => rfl⟩
  | cons target targets ih =>
    obtain ⟨dep, ids, first⟩ := List.exists_cons_of_length_eq_add_one lengths
    rw [traverseEntries_cons, first, List.map_cons]
    refine (nested.round traverses entered first shown).bind ?_ ?_
    · -- A round that stops ends the loop; one that goes on has taken its cell off the list.
      rintro (after | after) ⟨sorted, ended⟩ ran reached
      · obtain ⟨rfl, later, still, kept⟩ := reached
        exact ⟨_, rfl, rfl, later, still, kept⟩
      · obtain ⟨rfl, fewer, busy, later, still, left, kept⟩ := reached
        have shorter := (still.sorts.stores.dependencies mod mod.isLt).length_eq
        rw [view_dependencies, fewer, List.length_map] at shorter
        have rest := ih still busy fewer shorter
        rw [left] at rest
        -- What was entered before the round stays so, which the frame of the rest needs.
        have frame := traverseEntry_entered (traverseDependency_entered fuel) ran
        have before {other : Fin n} (entered : sorting.status other ≠ .none) :
            sorted.status other ≠ .none := (frame.status other entered).symm ▸ entered
        refine rest.mono fun ended pair reached => ?_
        cases ended with
        | done after =>
          obtain ⟨stopped, last, still, same⟩ := reached
          exact ⟨stopped, last, still, fun other entered apart =>
            (same other (before entered) apart).trans (kept other entered apart)⟩
        | yield after =>
          obtain ⟨went, emptied, busy, last, still, left, same⟩ := reached
          exact ⟨went, emptied, busy, last, still, left, fun other entered apart =>
            (same other (before entered) apart).trans (kept other entered apart)⟩
    · rintro ⟨sorted, more⟩ ⟨last, passed⟩ ran ended
      cases more with
      | true => exact (traverseEntries_entered (traverseDependency_entered fuel) ended).calls.map names
      | false =>
        cases ended
        exact List.prefix_refl _

/-- The loop over the dependencies of a module comes to each of its entries once. -/
theorem Nested.loop (nested : Nested cb names symbols undef data bound fuel) (deep : n < bound)
    (traverses : Traverses cb names symbols undef data heap sorting layout)
    (entered : sorting.status mod = .doing) :
    listForEachSafe id (ModuleHeap.traverseBody (ModuleHeap.traverseDependency cb bound fuel))
        (.dependencies mod) bound heap =
      eachEntry (ModuleHeap.traverseBody (ModuleHeap.traverseDependency cb bound fuel))
        ((layout.dependencies mod).map .depend) heap := by
  have listed : layout.lists n (.dependencies mod) = some ((layout.dependencies mod).map .depend) :=
    if_pos mod.isLt
  have holds := traverses.sorts.stores.holds
  -- Each round takes the first cell away, so the saved successor is the head of what is left.
  refine listForEachSafe_eq (fun left heap => ∃ sorting layout,
    Traverses cb names symbols undef data heap sorting layout ∧ sorting.status mod = .doing ∧
      left = (layout.dependencies mod).map .depend)
    ?_ ?_ ⟨sorting, layout, traverses, entered, rfl⟩ (holds.next_head listed)
    (List.nodup_cons.mp (holds.nodup listed)).1 ?_
  · rintro left heap ⟨sorting, layout, traverses, -, rfl⟩
    exact .of_listed traverses.sorts.stores.holds (Stores.listed_dependencies mod.isLt)
      (traverses.sorts.stores.live_dependencies mod.isLt)
  · rintro pos rest heap after ⟨sorting, layout, traverses, entered, split⟩ ran
    obtain ⟨dep, ids, first, rfl, rfl⟩ := List.map_eq_cons_iff.mp split.symm
    have lengths := (traverses.sorts.stores.dependencies mod mod.isLt).length_eq
    rw [view_dependencies, first, List.length_map] at lengths
    obtain ⟨target, targets, shown⟩ := List.exists_cons_of_length_eq_add_one lengths.symm
    have round := nested.round traverses entered first shown
    rw [ran] at round
    obtain ⟨⟨sorted, ended⟩, -, -, -, busy, later, still, left, -⟩ := round
    exact ⟨sorted, later, still, busy, by rw [left]⟩
  · have lengths := (traverses.sorts.stores.dependencies mod mod.isLt).length_eq
    rw [view_dependencies, List.length_map] at lengths
    rw [List.length_map, lengths]
    exact (traverses.sorts.short mod).trans_lt deep

/-- A callback goes on from what the earlier calls made of its data. -/
theorem called_append {calls : List (Fin n)} {made : Opaque}
    (before : called cb data (calls.map names) = .ok made) (mod : Fin n) :
    called cb data ((calls ++ [mod]).map names) = cb (names mod) made := by
  rw [called] at before ⊢
  rw [List.map_append, List.foldlM_append, before, ok_bind, List.map_singleton, List.foldlM_cons]
  cases cb (names mod) made <;> rfl

/-- Every traversal on the heap follows that on the lists. -/
theorem nested (deep : n < bound) (fuel : Nat) : Nested cb names symbols undef data bound fuel := by
  induction fuel with
  | zero => exact fun mod heap sorting layout traverses => .inl rfl
  | succ fuel ih =>
    intro mod heap sorting layout traverses
    have record := traverses.sorts.loadModule mod
    simp only [ModuleHeap.traverseDependency, record, ok_bind, traverseDependency]
    -- A module that was entered before returns at once, on the heap as on the lists.
    by_cases fresh : sorting.status mod = .none
    · obtain ⟨begun, stored, same, stores⟩ :=
        traverses.sorts.stores.storeStatus mod.isLt .doing
      have entering : Traverses cb names symbols undef data begun (sorting.setStatus mod .doing) layout := by
        refine ⟨⟨?_, traverses.sorts.distinct⟩, same ▸ traverses.made⟩
        rwa [view_setStatus]
      have entered : (sorting.setStatus mod .doing).status mod = .doing := by simp
      -- Modules that were entered before are not this one, so its lists are not theirs.
      have apart {other : Fin n} (before : sorting.status other ≠ .none) : other ≠ mod :=
        fun also => before (also ▸ fresh)
      simp only [fresh, ne_eq, not_true_eq_false, if_false, stored, ok_bind,
        ih.loop deep entering entered]
      refine (ih.entries entering entered rfl).bind ?_ ?_
      · rintro (after | after) ⟨sorted, ended⟩ ran reached
        · obtain ⟨rfl, later, still, kept⟩ := reached
          exact ⟨sorted, rfl, later, still, fun other before =>
            kept other (by simp [apart before, before]) (apart before)⟩
        · obtain ⟨rfl, emptied, busy, later, still, left, kept⟩ := reached
          have listed : later.lists n (.dependencies mod) = some ((later.dependencies mod).map .depend) :=
            if_pos mod.isLt
          rw [left] at listed
          -- All dependencies are done: the emptiness check passes and the callback is called.
          have empty := listEmpty_eq still.sorts.stores.holds listed
            (still.sorts.stores.live_dependencies mod.isLt _ List.mem_cons_self)
          obtain ⟨finished, stored, same, stores⟩ :=
            still.sorts.stores.storeStatus mod.isLt .done
          have ending : Sorts finished names symbols undef (sorted.setStatus mod .done) later := by
            refine ⟨?_, still.sorts.distinct⟩
            rwa [view_setStatus]
          have name := ending.loadModule mod
          simp only [empty, List.map_nil, List.isEmpty_nil, if_true, stored, name, ok_bind, emptied,
            same]
          have next := called_append still.made mod
          cases ran : cb (names mod) after.opaqueData with
          | error stop =>
            refine .inr ⟨_, next.trans ran, fun lists passed => ?_⟩
            cases passed
            exact List.prefix_refl _
          | ok made =>
            refine ⟨_, rfl, later, ⟨⟨ending.stores.withData made, ending.distinct⟩, next.trans ran⟩, ?_⟩
            exact fun other before => kept other (by simp [apart before, before]) (apart before)
      · rintro ⟨sorted, ended⟩ last ran passed
        cases ended with
        | false =>
          cases passed
          exact List.prefix_refl _
        | true =>
          simp only [if_true] at passed
          split at passed
          · cases passed
          · cases passed
            exact (List.prefix_append ..).map names
    · simp only [fresh, ne_eq, not_false_eq_true, if_true]
      exact ⟨sorting, rfl, layout, traverses, fun _ _ => rfl⟩

/-- What the last loop of the sort does for one module of the lists. -/
def traverseOne (fuel : Nat) (picked : Fin n → Bool) (mod : Fin n) (sorting : Sorting n) :
    Except Stop (Sorting n) :=
  if picked mod then do
    let sorting ← traverseDependency fuel mod sorting
    if sorting.status mod ≠ .done then .error (.panic "%s: cyclic chain: '%s'.\n")
    else .ok sorting
  else .ok sorting

/-- The last loop of the sort goes on with the other modules. -/
theorem traverseSelected_cons (picked : Fin n → Bool) (mods : List (Fin n)) :
    traverseSelected fuel picked (mod :: mods) sorting =
      traverseOne fuel picked mod sorting >>= traverseSelected fuel picked mods := by
  simp only [traverseSelected, traverseOne]
  split
  · cases traverseDependency fuel mod sorting with
    | error stop => rfl
    | ok middle =>
      simp only [ok_bind]
      split <;> rfl
  · rfl

/-- The callback's calls are only added to. -/
theorem traverseOne_calls {picked : Fin n → Bool} {after : Sorting n}
    (ran : traverseOne fuel picked mod sorting = .ok after) : sorting.calls <+: after.calls := by
  rw [traverseOne] at ran
  split at ran
  · obtain ⟨middle, went, ran⟩ := bind_eq_ok.mp ran
    split at ran
    · cases ran
    · cases ran
      exact (traverseDependency_entered fuel mod sorting _ went).calls
  · cases ran
    exact List.prefix_refl _

/-- So they are by the whole loop. -/
theorem traverseSelected_calls {picked : Fin n → Bool} {mods : List (Fin n)} {after : Sorting n}
    (ran : traverseSelected fuel picked mods sorting = .ok after) :
    sorting.calls <+: after.calls := by
  induction mods generalizing sorting with
  | nil =>
    cases ran
    exact List.prefix_refl _
  | cons mod rest ih =>
    rw [traverseSelected_cons] at ran
    obtain ⟨middle, went, ran⟩ := bind_eq_ok.mp ran
    exact (traverseOne_calls went).trans (ih ran)

/-- The heap stands for the lists again, and the loop goes on. -/
def Goes (cb : String → Opaque → Except Stop Opaque) (names : Fin n → String)
    (symbols : List (ModSymbol n)) (undef : Nat → List String) (data : Opaque)
    (ended : ForInStep (ModuleHeap Opaque)) (sorting : Sorting n) : Prop :=
  ∃ after layout, ended = .yield after ∧
    Traverses cb names symbols undef data after sorting layout

/-- The last loop of the sort does for one module on the heap what it does on the lists. -/
theorem Traverses.one (traverses : Traverses cb names symbols undef data heap sorting layout)
    (deep : n < bound) (fuel : Nat) (startpoint : Option String) (mod : Fin n) :
    Follows cb data (fun sorted => sorted.calls.map names) (Goes cb names symbols undef data)
      (ModuleHeap.sortBody cb bound fuel startpoint (.module mod) heap)
      (traverseOne fuel (fun mod => selected startpoint (names mod)) mod sorting) := by
  have record := traverses.sorts.loadModule mod
  simp only [ModuleHeap.sortBody, ModuleHeap.moduleEntry, record, ok_bind, traverseOne]
  by_cases picked : selected startpoint (names mod)
  · simp only [picked, if_true]
    refine (nested deep fuel mod heap sorting layout traverses).bind ?_ ?_
    · rintro after sorted ran ⟨later, still, -⟩
      simp only [still.sorts.loadModule mod, ok_bind]
      -- A selected module that is not done afterwards meets a cycle, and both panic.
      by_cases finished : sorted.status mod = .done
      · simp only [finished, ne_eq, not_true_eq_false, if_false]
        exact ⟨sorted, rfl, after, later, rfl, still⟩
      · simp only [finished, ne_eq, not_false_eq_true, if_true]
        exact .inl rfl
    · intro middle last ran passed
      split at passed
      · cases passed
      · cases passed
        exact List.prefix_refl _
  · simp only [picked, Bool.false_eq_true, if_false]
    exact ⟨sorting, rfl, heap, layout, rfl, traverses⟩

/-- The last loop over the modules does on the heap what it does on the lists. -/
theorem Traverses.each (traverses : Traverses cb names symbols undef data heap sorting layout)
    (deep : n < bound) (fuel : Nat) (startpoint : Option String) (mods : List (Fin n)) :
    Follows cb data (fun sorted => sorted.calls.map names) (Goes cb names symbols undef data)
      (eachEntry (ModuleHeap.sortBody cb bound fuel startpoint)
        (mods.map fun mod => .module mod.val) heap)
      (traverseSelected fuel (fun mod => selected startpoint (names mod)) mods sorting) := by
  induction mods generalizing heap sorting layout with
  | nil => exact ⟨sorting, rfl, heap, layout, rfl, traverses⟩
  | cons mod rest ih =>
    -- The calls of the first module come before those of the others on both sides.
    rw [traverseSelected_cons, List.map_cons]
    refine (traverses.one deep fuel startpoint mod).bind ?_
      fun _ _ _ passed => (traverseSelected_calls passed).map names
    rintro _ sorted ran ⟨after, later, rfl, still⟩
    exact ih still

/-- The loop over the modules comes to each of them once. -/
theorem Traverses.loop (traverses : Traverses cb names symbols undef data heap sorting layout)
    (deep : n < bound) (fuel : Nat) (startpoint : Option String) :
    listForEachEntry id (ModuleHeap.sortBody cb bound fuel startpoint) .modules bound heap =
      eachEntry (ModuleHeap.sortBody cb bound fuel startpoint)
        ((List.finRange n).map fun mod => .module mod.val) heap := by
  -- Traversals change statuses and dependencies, never the list of modules.
  refine listForEachEntry_steady (fun heap => ∃ sorting layout,
    Traverses cb names symbols undef data heap sorting layout)
    ?_ ?_ ⟨sorting, layout, traverses⟩ (by simpa using deep)
  · rintro heap ⟨sorting, layout, traverses⟩
    exact ⟨_, traverses.sorts.listed_modules⟩
  · rintro pos listed heap after ⟨sorting, layout, traverses⟩ ran
    obtain ⟨mod, -, rfl⟩ := List.mem_map.mp listed
    have one := traverses.one deep fuel startpoint mod
    rw [ran] at one
    obtain ⟨sorted, -, heap, later, same, still⟩ := one
    cases same
    exact ⟨sorted, later, still⟩

end Traversal

section Release

variable {Opaque α β : Type} {records : ModuleHeap Opaque → Nat → Option α} {place : Nat → HeadPlace}
  {body : HeadPlace → ModuleHeap Opaque → Except Stop (ForInStep (ModuleHeap Opaque))}
  {kept : ModuleHeap Opaque → β} {heap : ModuleHeap Opaque} {lists : Listing HeadPlace}
  {head : HeadPlace} {ids : List Nat} {bound : Nat}

/-- A loop that takes each structure off the list and frees it leaves none of them in use. -/
theorem freeEach (injective : Function.Injective place)
    (step : ∀ id heap heads, listDel (some (place id)) heap = .ok { heap with heads := heads } →
      records heap id ≠ none → ∃ after, body (place id) heap = .ok (.yield after) ∧
        links after = heads ∧ records after = Function.update (records heap) id none ∧
        kept after = kept heap)
    (variable_live : ∀ heap : ModuleHeap Opaque, live heap head)
    (record_live : ∀ (heap : ModuleHeap Opaque) id, records heap id ≠ none → live heap (place id))
    (holds : (links heap).Holds lists) (listed : lists head = some (ids.map place))
    (used : ∀ id, records heap id ≠ none ↔ id ∈ ids) (enough : ids.length < bound) :
    ∃ after, listForEachSafe id body head bound heap = .ok (.yield after) ∧
      (links after).Holds (Function.update lists head (some [])) ∧
      (∀ id, records after id = none) ∧ kept after = kept heap := by
  -- In every round the structures in use are those that are still listed.
  let inv (left : List HeadPlace) (current : ModuleHeap Opaque) : Prop :=
    ∃ ids, left = List.map place ids ∧
      (links current).Holds (Function.update lists head (some left)) ∧
      (∀ id, records current id ≠ none ↔ id ∈ ids) ∧ kept current = kept heap
  have alive (left : List HeadPlace) (current : ModuleHeap Opaque) (before : inv left current) :
      Live current (head :: left) := by
    obtain ⟨ids, rfl, -, used, -⟩ := before
    intro node member
    rcases List.mem_cons.mp member with rfl | member
    · exact variable_live current
    · obtain ⟨id, listed, rfl⟩ := List.mem_map.mp member
      exact record_live current id ((used id).mpr listed)
  have round (pos : HeadPlace) (rest : List HeadPlace) (current : ModuleHeap Opaque)
      (before : inv (pos :: rest) current) :
      ∃ after, body pos current = .ok (.yield after) ∧ inv rest after := by
    have in_use := alive _ _ before
    obtain ⟨left, split, holds, used, same⟩ := before
    obtain ⟨id, ids, rfl, rfl, rfl⟩ := List.map_eq_cons_iff.mp split.symm
    have listed : Function.update lists head (some (place id :: ids.map place)) head =
        some ([] ++ place id :: ids.map place) :=
      Function.update_self ..
    obtain ⟨heads, deleted, shorter⟩ := listDel_makes holds listed in_use
    rw [Function.update_idem] at shorter
    obtain ⟨after, ran, heads_eq, records_eq, kept_eq⟩ :=
      step id current heads deleted ((used id).mpr List.mem_cons_self)
    have distinct := (List.nodup_cons.mp (holds.nodup (Function.update_self ..))).2
    have once : id ∉ ids := by
      have outside := (List.nodup_cons.mp distinct).1
      rwa [List.mem_map_of_injective injective] at outside
    refine ⟨after, ran, ids, rfl, heads_eq ▸ shorter, fun other => ?_, kept_eq.trans same⟩
    rw [records_eq]
    by_cases own : other = id
    · simpa [own] using once
    · simpa [own] using used other
  have start : inv (ids.map place) heap :=
    ⟨ids, rfl, by rwa [← listed, Function.update_eq_self], used, rfl⟩
  obtain ⟨after, done, left, emptied, holds, used, same⟩ :=
    @listForEachSafe_drain _ _ _ _ id _ _ _ lists inv (fun _ _ before => before.choose_spec.2.1)
      alive round _ _ start _ (by simpa using enough)
  obtain rfl : left = [] := by simpa using emptied.symm
  refine ⟨after, done, holds, fun id => ?_, same⟩
  simpa using (used id).not

end Release

section Sorted

variable {Opaque : Type} {n : Nat} {cb : String → Opaque → Except Stop Opaque} {names : Fin n → String}
  {symbols : List (ModSymbol n)} {undef : Nat → List String} {heap : ModuleHeap Opaque}
  {sorting : Sorting n} {layout : HeapLayout} {bound fuel : Nat}

/-- Checks call no callback. -/
theorem checkDependencies_calls {wanted : Fin n → List String} {mods : List (Fin n)}
    {after : Sorting n} (ran : checkDependencies symbols wanted mods sorting = .ok after) :
    after.calls = sorting.calls := by
  -- A check only adds dependencies, so the induction over the names keeps the calls.
  have one {mod : Fin n} {pending : List String} {before after : Sorting n}
      (ran : checkDependency symbols mod pending before = .ok after) : after.calls = before.calls := by
    induction pending generalizing before with
    | nil =>
      cases ran
      rfl
    | cons name rest ih =>
      rw [checkDependency_cons] at ran
      split at ran
      · cases ran
      · refine (ih ran).trans ?_
        unfold Sorting.resolve
        split
        · rfl
        · split <;> rfl
  induction mods generalizing sorting with
  | nil =>
    cases ran
    rfl
  | cons mod rest ih =>
    obtain ⟨middle, went, ran⟩ := bind_eq_ok.mp ran
    exact (ih ran).trans (one went)

/-- The symbols that are left when no name is pending are those of the symbol list. -/
theorem Sorts.used_symbols (sorts : Sorts heap names symbols undef sorting layout)
    (settled : ∀ mod : Fin n, undef mod = []) (sym : Nat) :
    heap.symbols sym ≠ none ↔ sym ∈ layout.symbols := by
  constructor
  · intro used
    -- Any other symbol in use is an undefined name of a module, and none is left.
    refine (sorts.stores.ownedSymbol sym used).resolve_right ?_
    rintro ⟨mod, inside, listed⟩
    have lengths := (sorts.stores.undefSyms mod inside).length_eq
    have none_left : (sorting.view names symbols undef).undefSyms mod = [] := settled ⟨mod, inside⟩
    rw [none_left, List.length_nil, List.length_eq_zero_iff] at lengths
    simp [lengths] at listed
  · exact fun listed => used_of_forall₂ sorts.stores.symbols listed

/-- The modules in use are those of the module list. -/
theorem Sorts.used_modules (sorts : Sorts heap names symbols undef sorting layout) (mod : Nat) :
    heap.modules mod ≠ none ↔ mod ∈ List.range n := by
  rw [List.mem_range]
  constructor
  · intro used
    by_contra outside
    exact used (sorts.stores.ownedModule mod (Nat.le_of_not_lt outside))
  · intro inside
    simp [sorts.stores.modules mod inside]

/-- The symbols are freed after the sort. -/
theorem Sorts.freeSymbols (sorts : Sorts heap names symbols undef sorting layout)
    (settled : ∀ mod : Fin n, undef mod = []) (enough : symbols.length < bound) :
    ∃ after, listForEachSafe id ModuleHeap.freeSymbolBody .symbols bound heap =
        .ok (.yield after) ∧
      (links after).Holds (Function.update (layout.lists n) .symbols (some [])) ∧
      (∀ sym, after.symbols sym = none) ∧
      (after.modules, after.opaqueData) = (heap.modules, heap.opaqueData) := by
  have lengths := sorts.stores.symbols.length_eq
  refine freeEach (fun one other same => by simpa using same) ?_ (fun _ => rfl)
    (fun _ _ => Option.isSome_iff_ne_none.mpr) sorts.stores.holds rfl
    (sorts.used_symbols settled) (by simpa [lengths, Sorting.view] using enough)
  intro sym heap heads deleted used
  obtain ⟨record, known⟩ := Option.ne_none_iff_exists'.mp used
  refine ⟨{ heap with heads := heads, symbols := Function.update heap.symbols sym none }, ?_, rfl,
    rfl, rfl⟩
  simp [ModuleHeap.freeSymbolBody, ModuleHeap.symbolEntry, deleted, ModuleHeap.loadSymbol, known]

/-- The modules are freed after they were handed to the callback. -/
theorem clearModules_frees {lists : Listing HeadPlace} (holds : (links heap).Holds lists)
    (listed : lists .modules = some ((List.range n).map .module))
    (used : ∀ mod, heap.modules mod ≠ none ↔ mod ∈ List.range n) (deep : n < bound) :
    ∃ after, ModuleHeap.clearModules bound heap = .ok after ∧ (∀ mod, after.modules mod = none) ∧
      (after.symbols, after.opaqueData) = (heap.symbols, heap.opaqueData) := by
  -- A round takes one module off the list and frees it.
  have step (mod : Nat) (heap : ModuleHeap Opaque) (heads : Links HeadPlace)
      (deleted : listDel (some (.module mod)) heap = .ok { heap with heads := heads })
      (used : heap.modules mod ≠ none) :
      ∃ after, ModuleHeap.freeModuleBody (.module mod) heap = .ok (.yield after) ∧
        links after = heads ∧ after.modules = Function.update heap.modules mod none ∧
        (after.symbols, after.opaqueData) = (heap.symbols, heap.opaqueData) := by
    obtain ⟨record, known⟩ := Option.ne_none_iff_exists'.mp used
    refine ⟨{ heap with heads := heads, modules := Function.update heap.modules mod none }, ?_, rfl,
      rfl, rfl⟩
    simp [ModuleHeap.freeModuleBody, ModuleHeap.moduleEntry, deleted, ModuleHeap.loadModule, known]
  have injective : Function.Injective HeadPlace.module := fun one other same => by simpa using same
  obtain ⟨after, done, -, freed, kept⟩ :=
    freeEach injective step (fun _ => rfl) (fun _ _ => Option.isSome_iff_ne_none.mpr) holds listed used
      (by simpa using deep)
  exact ⟨after, by simp [ModuleHeap.clearModules, done, Except.map, ForInStep.run], freed, kept⟩

/-- What the sort and the release of the modules come to on the heap. -/
def Released (cb : String → Opaque → Except Stop Opaque) (names : Fin n → String) (data : Opaque)
    (after : ModuleHeap Opaque) (sorted : Sorting n) : Prop :=
  called cb data (sorted.calls.map names) = .ok after.opaqueData ∧
    (∀ sym, after.symbols sym = none) ∧ ∀ mod, after.modules mod = none

/-- Sorting on the heap follows sorting on the lists, and no symbol or module stays allocated. -/
theorem Sorts.sorted {wanted : Fin n → List String}
    (sorts : Sorts heap names symbols undef .initial layout) (enough : symbols.length < bound)
    (deep : n < bound) (short : ∀ mod, (wanted mod).length < bound)
    (shown : ∀ mod : Fin n, undef mod = wanted mod) (startpoint : Option String) (fuel : Nat) :
    Follows cb heap.opaqueData (fun sorted => sorted.calls.map names) (Released cb names heap.opaqueData)
      (ModuleHeap.sortAnalysed cb bound fuel startpoint heap >>= ModuleHeap.clearModules bound)
      (checkDependencies symbols wanted (List.finRange n) .initial >>=
        traverseSelected fuel (fun mod => selected startpoint (names mod)) (List.finRange n)) := by
  have checks : Follows cb heap.opaqueData (fun sorted => sorted.calls.map names)
      (fun ended sorted => ∃ after layout undef', ended = .yield after ∧
        Traverses cb names symbols undef' heap.opaqueData after sorted layout ∧
        ∀ mod : Fin n, undef' mod = [])
      (listForEachEntry id (ModuleHeap.checkEachBody bound) .modules bound heap)
      (checkDependencies symbols wanted (List.finRange n) .initial) := by
    have checked := sorts.checkAll enough deep short shown
    cases ran : checkDependencies symbols wanted (List.finRange n) .initial with
    | error stop =>
      rw [ran] at checked
      simp only at checked
      rw [checked]
      exact .inl rfl
    | ok later =>
      rw [ran] at checked
      obtain ⟨after, middle, undef', done, same, kept, settled⟩ := checked
      rw [done]
      refine ⟨later, rfl, after, middle, undef', rfl, ⟨kept, ?_⟩, settled⟩
      rw [checkDependencies_calls ran, same]
      rfl
  rw [ModuleHeap.sortAnalysed, bind_assoc]
  refine checks.bind ?_ fun _ _ _ passed => (traverseSelected_calls passed).map names
  rintro _ checked - ⟨after, layout, undef', rfl, traverses, settled⟩
  simp only [ForInStep.run, bind_assoc]
  rw [traverses.loop deep fuel startpoint]
  refine (traverses.each deep fuel startpoint (List.finRange n)).andThen ?_
  rintro _ sorted ⟨last, later, rfl, still⟩
  -- The symbols are freed, and then the modules.
  obtain ⟨freed, done, holds, none_left, kept⟩ := still.sorts.freeSymbols settled enough
  obtain ⟨modules_kept, data_kept⟩ := Prod.mk.inj kept
  have listed : Function.update (later.lists n) .symbols (some []) .modules =
      some ((List.range n).map .module) := rfl
  obtain ⟨cleared, ended, gone, same⟩ := clearModules_frees holds listed
    (fun mod => modules_kept ▸ still.sorts.used_modules mod) deep
  obtain ⟨symbols_kept, final⟩ := Prod.mk.inj same
  refine ⟨cleared, by simp [done, ended], ?_, fun sym => ?_, gone⟩
  · rw [final, data_kept]
    exact still.made
  · rw [symbols_kept]
    exact none_left sym

end Sorted

end Xemu
