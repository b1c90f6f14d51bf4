import Mathlib.Data.Fintype.Card
import Xemu.Boot.Modules
import Xemu.Lib.Postorder

/-! Kernel modules are handed out after the modules they depend on, or a cycle ends the sort. -/

namespace Xemu

open Relation

section Symbols

/-- Some symbol list has the name. -/
def Exported (kernel : List String) (modules : List Module) (name : String) : Prop :=
  name ∈ kernel ∨ ∃ mod, name ∈ (modules.get mod).exported

/-- The module exports the name, and neither the kernel nor an earlier module does. -/
def FirstExporter (kernel : List String) (modules : List Module) (name : String)
    (mod : Fin modules.length) : Prop :=
  name ∉ kernel ∧ name ∈ (modules.get mod).exported ∧
    ∀ earlier < mod, name ∉ (modules.get earlier).exported

/-- An undefined name of the module is first exported by the target. -/
def DependsOn (kernel : List String) (modules : List Module)
    (mod target : Fin modules.length) : Prop :=
  ∃ name ∈ (modules.get mod).undefSyms, FirstExporter kernel modules name target

variable {kernel : List String} {modules : List Module}

/-- A name has at most one first exporter. -/
theorem FirstExporter.unique {name : String} {mod other : Fin modules.length}
    (first : FirstExporter kernel modules name mod)
    (also : FirstExporter kernel modules name other) : mod = other := by
  rcases lt_trichotomy mod other with before | same | behind
  · exact absurd first.2.1 (also.2.2 mod before)
  · exact same
  · exact absurd also.2.1 (first.2.2 other behind)

/-- Symbols of one exporter answer for the names it exports, the later symbols for the others. -/
theorem matchUndef_append {n : Nat} {name : String} (names : List String) (mod : Option (Fin n))
    (later : List (ModSymbol n)) :
    matchUndef (names.map (fun own => ⟨own, mod⟩) ++ later) name =
      if name ∈ names then some ⟨name, mod⟩ else matchUndef later name := by
  induction names with
  | nil => simp
  | cons own rest ih =>
    -- Either the first of the symbols has the name, or the search goes on behind it.
    simp only [matchUndef, List.map_cons, List.cons_append, List.find?_cons] at ih ⊢
    by_cases same : own = name
    · simp [same]
    · have differs : (own == name) = false := beq_eq_false_iff_ne.mpr same
      simp only [differs, ih, List.mem_cons, Ne.symm same, false_or]

/-- Among the symbols of some modules, a name is matched by the first module that exports it. -/
theorem matchUndef_flatMap {name : String} {mods : List (Fin modules.length)}
    (known : ∃ mod ∈ mods, name ∈ (modules.get mod).exported) :
    ∃ before mod after, mods = before ++ mod :: after ∧ name ∈ (modules.get mod).exported ∧
      (∀ earlier ∈ before, name ∉ (modules.get earlier).exported) ∧
      matchUndef (mods.flatMap fun mod =>
        (modules.get mod).exported.map fun own => ⟨own, some mod⟩) name =
          some ⟨name, some mod⟩ := by
  -- The search goes through the modules in order, and the head answers if it exports the name.
  induction mods with
  | nil => simp at known
  | cons head rest ih =>
    simp only [List.flatMap_cons, matchUndef_append]
    by_cases here : name ∈ (modules.get head).exported
    · exact ⟨[], head, rest, rfl, here, by simp, if_pos here⟩
    · have later : ∃ mod ∈ rest, name ∈ (modules.get mod).exported := by
        obtain ⟨mod, member, has⟩ := known
        rcases List.mem_cons.mp member with rfl | member
        · exact absurd has here
        · exact ⟨mod, member, has⟩
      obtain ⟨before, mod, after, rfl, has, absent, found⟩ := ih later
      refine ⟨head :: before, mod, after, rfl, has, ?_, by rw [if_neg here]; exact found⟩
      intro earlier member
      rcases List.mem_cons.mp member with rfl | member
      · exact here
      · exact absent earlier member

/-- An exported name is matched by the kernel's own symbol or by its first exporter's. -/
theorem matchUndef_cases {name : String} (known : Exported kernel modules name) :
    (name ∈ kernel ∧ matchUndef (symbolTable kernel modules) name = some ⟨name, none⟩) ∨
    ∃ mod, FirstExporter kernel modules name mod ∧
      matchUndef (symbolTable kernel modules) name = some ⟨name, some mod⟩ := by
  simp only [symbolTable, matchUndef_append]
  by_cases own : name ∈ kernel
  · exact .inl ⟨own, if_pos own⟩
  · right
    have somewhere : ∃ mod ∈ List.finRange modules.length, name ∈ (modules.get mod).exported := by
      obtain ⟨mod, has⟩ := known.resolve_left own
      exact ⟨mod, List.mem_finRange mod, has⟩
    obtain ⟨before, mod, after, split, has, absent, found⟩ := matchUndef_flatMap somewhere
    refine ⟨mod, ⟨own, has, fun earlier less => absent earlier ?_⟩, by rw [if_neg own]; exact found⟩
    -- The list is increasing, so an earlier module is in the part before this one.
    have sorted := List.pairwise_lt_finRange modules.length
    have listed : earlier ∈ before ++ mod :: after := split ▸ List.mem_finRange earlier
    rw [split, List.pairwise_append] at sorted
    rcases List.mem_append.mp listed with member | member
    · exact member
    · rcases List.mem_cons.mp member with rfl | member
      · exact absurd less (lt_irrefl _)
      · exact absurd less (List.rel_of_pairwise_cons sorted.2.1 member).asymm

end Symbols

section Dependencies

variable {kernel : List String} {modules : List Module}

/-- One module's check adds the first exporters of its undefined names to its list. -/
theorem checkDependency_spec (mod : Fin modules.length) {undefs : List String}
    (known : ∀ name ∈ undefs, Exported kernel modules name) (sorting : Sorting modules.length) :
    ∃ after, checkDependency (symbolTable kernel modules) mod undefs sorting = .ok after ∧
      after.status = sorting.status ∧ after.calls = sorting.calls ∧
      ∀ cur target, target ∈ after.dependencies cur ↔ target ∈ sorting.dependencies cur ∨
        cur = mod ∧ ∃ name ∈ undefs, FirstExporter kernel modules name target := by
  -- Each name adds its first exporter at most once, whatever the list holds already.
  induction undefs generalizing sorting with
  | nil => exact ⟨sorting, rfl, rfl, rfl, by simp⟩
  | cons name rest ih =>
    have restKnown : ∀ name ∈ rest, Exported kernel modules name :=
      fun name member => known name (List.mem_cons_of_mem _ member)
    simp only [checkDependency, List.mem_cons, exists_eq_or_imp]
    rcases matchUndef_cases (known name (List.mem_cons_self ..)) with
      ⟨own, found⟩ | ⟨first, exports, found⟩
    · -- A name of the kernel has no first exporter and changes nothing.
      obtain ⟨after, done, status, calls, entries⟩ := ih restKnown sorting
      refine ⟨after, by simpa only [found] using done, status, calls, fun cur target => ?_⟩
      have none : ¬ FirstExporter kernel modules name target := fun exports => exports.1 own
      simp [entries cur target, none]
    · have only : ∀ target, FirstExporter kernel modules name target ↔ target = first :=
        fun target => ⟨fun also => also.unique exports, fun same => same ▸ exports⟩
      simp only [found, only]
      by_cases present : findDependency sorting mod first
      · -- The exporter is listed already, for an earlier name.
        obtain ⟨after, done, status, calls, entries⟩ := ih restKnown sorting
        refine ⟨after, by rw [if_pos present]; exact done, status, calls, ?_⟩
        have listed : first ∈ sorting.dependencies mod := by
          simpa [findDependency] using present
        intro cur target
        rw [entries cur target]
        grind
      · obtain ⟨after, done, status, calls, entries⟩ :=
          ih restKnown (sorting.addDependency mod first)
        refine ⟨after, by rw [if_neg present]; exact done, status, calls, ?_⟩
        intro cur target
        rw [entries cur target]
        by_cases same : cur = mod
        · subst same
          simp [Sorting.addDependency, or_assoc]
        · simp [Sorting.addDependency, same]

/-- The checks of some modules give each of them the modules it depends on. -/
theorem checkDependencies_spec (mods : List (Fin modules.length))
    (known : ∀ mod ∈ mods, ∀ name ∈ (modules.get mod).undefSyms, Exported kernel modules name)
    (sorting : Sorting modules.length) :
    ∃ after, checkDependencies (symbolTable kernel modules)
        (fun mod => (modules.get mod).undefSyms) mods sorting = .ok after ∧
      after.status = sorting.status ∧ after.calls = sorting.calls ∧
      ∀ cur target, target ∈ after.dependencies cur ↔ target ∈ sorting.dependencies cur ∨
        cur ∈ mods ∧ DependsOn kernel modules cur target := by
  -- Every module is checked once, and a later check leaves its list alone.
  induction mods generalizing sorting with
  | nil => exact ⟨sorting, rfl, rfl, rfl, by simp⟩
  | cons mod rest ih =>
    obtain ⟨middle, first, status, calls, entries⟩ :=
      checkDependency_spec mod (known mod (List.mem_cons_self ..)) sorting
    obtain ⟨after, later, status', calls', entries'⟩ :=
      ih (fun mod member => known mod (List.mem_cons_of_mem _ member)) middle
    refine ⟨after, ?_, status'.trans status, calls'.trans calls, fun cur target => ?_⟩
    · simp only [checkDependencies, first]
      exact later
    · rw [entries' cur target, entries cur target, List.mem_cons]
      by_cases same : cur = mod
      · subst same
        have needs : (∃ name ∈ (modules.get cur).undefSyms,
            FirstExporter kernel modules name target) ↔ DependsOn kernel modules cur target := .rfl
        rw [needs]
        tauto
      · simp [same]

end Dependencies

section Traversal

variable {n : Nat} {dep : Fin n → Fin n → Prop}

/-- Marks, calls and remaining entries agree with the dependencies between the modules. -/
structure Ordered (dep : Fin n → Fin n → Prop) (sorting : Sorting n) : Prop where
  /-- The modules marked done are those the callback was called for. -/
  done_iff : ∀ mod, sorting.status mod = .done ↔ mod ∈ sorting.calls
  /-- Each call came once, and after the calls for the module's dependencies. -/
  postorder : Postorder dep sorting.calls
  /-- A module not entered yet has all its entries. -/
  whole : ∀ mod, sorting.status mod = .none →
    ∀ target, target ∈ sorting.dependencies mod ↔ dep mod target

/-- What the traversal from one module changes at most. -/
structure Visited (dep : Fin n → Fin n → Prop) (mod : Fin n) (before after : Sorting n) : Prop where
  /-- No mark is taken back. -/
  entered : ∀ other, after.status other = .none → before.status other = .none
  /-- Modules entered before and not left keep mark and entries. -/
  pending : ∀ other, before.status other = .doing →
    after.status other = .doing ∧ after.dependencies other = before.dependencies other
  /-- The new calls are for modules the start depends on. -/
  called : ∃ new, after.calls = before.calls ++ new ∧ ∀ other ∈ new, ReflTransGen dep mod other

/-- The module leads back to itself, or to a module that was entered and not left. -/
def Blocked (dep : Fin n → Fin n → Prop) (mod : Fin n) (sorting : Sorting n) : Prop :=
  ∃ other, ReflTransGen dep mod other ∧
    (TransGen dep other other ∨ sorting.status other = .doing)

/-- The number of modules not entered yet. -/
def unentered (sorting : Sorting n) : Nat :=
  (Finset.univ.filter fun mod => sorting.status mod = .none).card

/-- A traversal that changes nothing. -/
theorem Visited.refl (mod : Fin n) (sorting : Sorting n) : Visited dep mod sorting sorting where
  entered := fun _ fresh => fresh
  pending := fun _ doing => ⟨doing, rfl⟩
  called := ⟨[], by simp, by simp⟩

/-- A traversal from a module and then one from a dependency of it. -/
theorem Visited.trans {mod target : Fin n} {before middle after : Sorting n}
    (first : Visited dep mod before middle) (reaches : ReflTransGen dep mod target)
    (second : Visited dep target middle after) : Visited dep mod before after where
  entered := fun other fresh => first.entered other (second.entered other fresh)
  pending := fun other doing => by
    obtain ⟨kept, entries⟩ := first.pending other doing
    obtain ⟨still, same⟩ := second.pending other kept
    exact ⟨still, same.trans entries⟩
  called := by
    obtain ⟨new, calls, from_mod⟩ := first.called
    obtain ⟨newer, calls', from_target⟩ := second.called
    refine ⟨new ++ newer, by rw [calls', calls, List.append_assoc], fun other member => ?_⟩
    rcases List.mem_append.mp member with old | new
    · exact from_mod other old
    · exact reaches.trans (from_target other new)

/-- A traversal leaves no more modules unentered than there were. -/
theorem Visited.unentered_le {mod : Fin n} {before after : Sorting n}
    (visited : Visited dep mod before after) : unentered after ≤ unentered before := by
  refine Finset.card_le_card fun other member => ?_
  simp only [Finset.mem_filter, Finset.mem_univ, true_and] at member ⊢
  exact visited.entered other member

/-- Entering a module leaves fewer modules unentered. -/
theorem unentered_setStatus {mod : Fin n} {sorting : Sorting n}
    (fresh : sorting.status mod = .none) :
    unentered (sorting.setStatus mod .doing) < unentered sorting := by
  -- The entered module leaves the set, and no other one joins it.
  refine Finset.card_lt_card (Finset.ssubset_iff_of_subset ?_ |>.mpr ⟨mod, ?_, ?_⟩)
  · intro other member
    simp only [Finset.mem_filter, Finset.mem_univ, true_and, Sorting.status_setStatus]
      at member ⊢
    by_cases same : other = mod
    · exact same ▸ fresh
    · rwa [if_neg same] at member
  · simp [fresh]
  · simp

/-- The state in the loop over a module's entries, some of which remain. -/
structure Entering (dep : Fin n → Fin n → Prop) (mod : Fin n) (rest : List (Fin n))
    (before sorting : Sorting n) : Prop where
  /-- The marks and calls agree with the dependencies. -/
  ordered : Ordered dep sorting
  /-- Only what the traversal from the module may change did change. -/
  visited : Visited dep mod before sorting
  /-- The module was not entered before. -/
  fresh : before.status mod = .none
  /-- The module is entered. -/
  doing : sorting.status mod = .doing
  /-- No other module was entered and not left on the way. -/
  alone : ∀ other, sorting.status other = .doing → other = mod ∨ before.status other = .doing
  /-- The entries that remain on the list. -/
  entries : sorting.dependencies mod = rest
  /-- They are dependencies. -/
  needed : ∀ target ∈ rest, dep mod target
  /-- The callback was called for all other dependencies. -/
  covered : ∀ target, dep mod target → target ∈ sorting.calls ∨ target ∈ rest

/-- What a traversal from a module comes to. -/
structure Traversed (dep : Fin n → Fin n → Prop) (mod : Fin n) (before after : Sorting n) :
    Prop where
  /-- The marks and calls still agree with the dependencies. -/
  ordered : Ordered dep after
  /-- Only what the traversal may change did change. -/
  visited : Visited dep mod before after
  /-- Where the module is done, nothing was left half-way. -/
  alone : after.status mod = .done → ∀ other, after.status other = .doing →
    before.status other = .doing
  /-- Where it is not, a chain came back. -/
  blocked : after.status mod ≠ .done → Blocked dep mod before

/-- A chain that came back below an entry came back below the module, or to the module itself. -/
theorem Entering.blocked {mod target : Fin n} {rest : List (Fin n)} {before sorting : Sorting n}
    (entering : Entering dep mod rest before sorting) (needs : dep mod target)
    (blocked : Blocked dep target sorting) : Blocked dep mod before := by
  obtain ⟨other, reaches, stuck⟩ := blocked
  have behind : TransGen dep mod other := TransGen.head' needs reaches
  rcases stuck with cycle | doing
  · exact ⟨other, behind.to_reflTransGen, .inl cycle⟩
  · rcases entering.alone other doing with rfl | earlier
    · exact ⟨other, .refl, .inl behind⟩
    · exact ⟨other, behind.to_reflTransGen, .inr earlier⟩

/-- After the callback for the first entry's module, the entry is taken off the list. -/
theorem Entering.next {mod target : Fin n} {rest : List (Fin n)}
    {before sorting after : Sorting n}
    (entering : Entering dep mod (target :: rest) before sorting)
    (traversed : Traversed dep target sorting after) (done : after.status target = .done) :
    Entering dep mod rest before (after.deleteDependency mod target) := by
  have needs : dep mod target := entering.needed target (List.mem_cons_self ..)
  -- The module is half-way, so the callback has not touched its list.
  obtain ⟨kept, entries⟩ := traversed.visited.pending mod entering.doing
  have visited := entering.visited.trans (.single needs) traversed.visited
  refine ⟨⟨traversed.ordered.done_iff, traversed.ordered.postorder, ?_⟩,
    ⟨visited.entered, ?_, visited.called⟩, entering.fresh, kept, ?_, ?_, ?_, ?_⟩
  · -- Only the list of the entered module changes, which is not among the untouched ones.
    intro other fresh
    have differs : other ≠ mod := by
      rintro rfl
      simp [kept] at fresh
    simpa [differs] using traversed.ordered.whole other fresh
  · intro other doing
    have differs : other ≠ mod := by
      rintro rfl
      simp [entering.fresh] at doing
    simpa [differs] using visited.pending other doing
  · intro other doing
    exact entering.alone other (traversed.alone done other doing)
  · simp [entries, entering.entries]
  · exact fun other member => entering.needed other (List.mem_cons_of_mem _ member)
  · intro other depends
    obtain ⟨new, calls, _⟩ := traversed.visited.called
    rcases entering.covered other depends with called | listed
    · left
      simp [calls, called]
    · rcases List.mem_cons.mp listed with rfl | member
      · exact .inl ((traversed.ordered.done_iff other).mp done)
      · exact .inr member

/-- Entering a module starts the loop over all its entries. -/
theorem Entering.start {mod : Fin n} {sorting : Sorting n} (ordered : Ordered dep sorting)
    (fresh : sorting.status mod = .none) :
    Entering dep mod (sorting.dependencies mod) sorting (sorting.setStatus mod .doing) := by
  have uncalled : mod ∉ sorting.calls := by
    intro called
    simp [(ordered.done_iff mod).mpr called] at fresh
  refine ⟨⟨?_, ordered.postorder, ?_⟩, ⟨?_, ?_, [], by simp, by simp⟩, fresh, by simp, ?_, rfl,
    fun target => (ordered.whole mod fresh target).mp,
    fun target needs => .inr ((ordered.whole mod fresh target).mpr needs)⟩
  -- The mark changes the status of one module, which has not been called.
  · intro other
    by_cases same : other = mod
    · simp [same, uncalled]
    · simpa [same] using ordered.done_iff other
  · intro other untouched
    have differs : other ≠ mod := by
      rintro rfl
      simp at untouched
    exact ordered.whole other (by simpa [differs] using untouched)
  · intro other untouched
    by_cases same : other = mod
    · exact same ▸ fresh
    · simpa [same] using untouched
  · intro other doing
    have differs : other ≠ mod := by
      rintro rfl
      simp [fresh] at doing
    exact ⟨by simpa [differs] using doing, rfl⟩
  · intro other doing
    by_cases same : other = mod
    · exact .inl same
    · exact .inr (by simpa [same] using doing)

/-- The callback at the end of the loop finds all dependencies called before. -/
theorem Entering.finish {mod : Fin n} {before sorting : Sorting n}
    (entering : Entering dep mod [] before sorting) :
    Traversed dep mod before ((sorting.setStatus mod .done).call mod) := by
  have uncalled : mod ∉ sorting.calls := by
    intro called
    have done := (entering.ordered.done_iff mod).mpr called
    simp [entering.doing] at done
  refine ⟨⟨?_, ?_, ?_⟩, ⟨?_, ?_, ?_⟩, ?_, fun stopped => absurd (by simp) stopped⟩
  · intro other
    by_cases same : other = mod
    · simp [same]
    · simpa [same] using entering.ordered.done_iff other
  -- With no entries left every dependency has been called before.
  · exact .snoc entering.ordered.postorder uncalled
      fun target needs => (entering.covered target needs).resolve_right (List.not_mem_nil)
  · intro other untouched
    have differs : other ≠ mod := by
      rintro rfl
      simp at untouched
    exact entering.ordered.whole other (by simpa [differs] using untouched)
  · intro other untouched
    have differs : other ≠ mod := by
      rintro rfl
      simp at untouched
    exact entering.visited.entered other (by simpa [differs] using untouched)
  · intro other doing
    have differs : other ≠ mod := by
      rintro rfl
      simp [entering.fresh] at doing
    simpa [differs] using entering.visited.pending other doing
  · obtain ⟨new, calls, reached⟩ := entering.visited.called
    refine ⟨new ++ [mod], by simp [calls], fun other member => ?_⟩
    rcases List.mem_append.mp member with old | last
    · exact reached other old
    · rw [List.mem_singleton.mp last]
  · intro _ other doing
    have differs : other ≠ mod := by
      rintro rfl
      simp at doing
    exact (entering.alone other (by simpa [differs] using doing)).resolve_left differs

/-- With depth enough for the modules not entered yet, a traversal comes to an end. -/
def Deep (dep : Fin n → Fin n → Prop) (fuel : Nat) : Prop :=
  ∀ mod sorting, Ordered dep sorting → unentered sorting < fuel →
    ∃ after, traverseDependency fuel mod sorting = .ok after ∧ Traversed dep mod sorting after

/-- The loop over a module's entries takes them all off, or stops where a chain came back. -/
theorem traverseEntries_spec {fuel : Nat} (deep : Deep dep fuel) {mod : Fin n}
    {before : Sorting n} {rest : List (Fin n)} {sorting : Sorting n}
    (entering : Entering dep mod rest before sorting) (enough : unentered sorting < fuel) :
    ∃ after ended, traverseEntries (traverseDependency fuel) mod rest sorting = .ok (after, ended) ∧
      (ended = true ∧ Entering dep mod [] before after ∨
        ended = false ∧ Traversed dep mod before after) := by
  -- The loop goes on behind an entry only after its module is done.
  induction rest generalizing sorting with
  | nil => exact ⟨sorting, true, rfl, .inl ⟨rfl, entering⟩⟩
  | cons target rest ih =>
    obtain ⟨middle, ran, traversed⟩ := deep target sorting entering.ordered enough
    have needs : dep mod target := entering.needed target (List.mem_cons_self ..)
    simp only [traverseEntries, ran]
    by_cases done : middle.status target = .done
    · have fewer : unentered (middle.deleteDependency mod target) < fuel :=
        traversed.visited.unentered_le.trans_lt enough
      obtain ⟨after, ended, later, outcome⟩ := ih (entering.next traversed done) fewer
      exact ⟨after, ended, by simpa [done] using later, outcome⟩
    · -- The entries left on the list belong to a module that stays half-way.
      have doing := (traversed.visited.pending mod entering.doing).1
      refine ⟨middle, false, by simp [done], .inr ⟨rfl, traversed.ordered,
        entering.visited.trans (.single needs) traversed.visited, ?_, ?_⟩⟩
      · intro finished
        simp [doing] at finished
      · exact fun _ => entering.blocked needs (traversed.blocked done)

/-- Every traversal comes to an end, at a depth of at most the modules not entered yet. -/
theorem deep (fuel : Nat) : Deep dep fuel := by
  -- Each level of depth enters one more module, of which there are only so many.
  induction fuel with
  | zero => exact fun mod sorting _ enough => absurd enough (Nat.not_lt_zero _)
  | succ fuel ih =>
    intro mod sorting ordered enough
    by_cases fresh : sorting.status mod = .none
    · have entering := Entering.start ordered fresh
      have fewer : unentered (sorting.setStatus mod .doing) < fuel :=
        (unentered_setStatus fresh).trans_le (Nat.lt_succ_iff.mp enough)
      obtain ⟨after, ended, ran, outcome⟩ := traverseEntries_spec ih entering fewer
      rcases outcome with ⟨rfl, emptied⟩ | ⟨rfl, traversed⟩
      · refine ⟨_, ?_, emptied.finish⟩
        simp [traverseDependency, fresh, ran, emptied.entries]
      · exact ⟨after, by simp [traverseDependency, fresh, ran], traversed⟩
    · -- A marked module is left as it is, and blocks the way unless it is done.
      refine ⟨sorting, by simp [traverseDependency, fresh], ordered, .refl mod sorting,
        fun _ _ doing => doing, fun stopped => ⟨mod, .refl, .inr ?_⟩⟩
      cases status : sorting.status mod with
      | none => exact absurd status fresh
      | doing => rfl
      | done => exact absurd status stopped

/-- The loop over the selected modules calls for all of them, or meets a cycle and panics. -/
theorem traverseSelected_spec {fuel : Nat} (enough : n < fuel) (selected : Fin n → Bool)
    (mods : List (Fin n)) {sorting : Sorting n} (ordered : Ordered dep sorting)
    (settled : ∀ other, sorting.status other ≠ .doing) :
    (∃ after new, traverseSelected fuel selected mods sorting = .ok after ∧ Ordered dep after ∧
      after.calls = sorting.calls ++ new ∧
      (∀ other ∈ new, ∃ mod ∈ mods, selected mod ∧ ReflTransGen dep mod other) ∧
      ∀ mod ∈ mods, selected mod → mod ∈ after.calls) ∨
    traverseSelected fuel selected mods sorting = .error (.panic "%s: cyclic chain: '%s'.\n") ∧
      ∃ mod ∈ mods, selected mod ∧ ReachesCycle dep mod := by
  induction mods generalizing sorting with
  | nil => exact .inl ⟨sorting, [], rfl, ordered, by simp, by simp, by simp⟩
  | cons mod rest ih =>
    by_cases chosen : selected mod
    · have bound : unentered sorting < fuel :=
        (Finset.card_le_univ _).trans_lt (by simpa using enough)
      obtain ⟨middle, ran, traversed⟩ := deep fuel mod sorting ordered bound
      simp only [traverseSelected, chosen, if_true, ran]
      by_cases done : middle.status mod = .done
      · -- The module and what it depends on are called for, and nothing is left half-way.
        have settled' : ∀ other, middle.status other ≠ .doing :=
          fun other doing => settled other (traversed.alone done other doing)
        obtain ⟨new, calls, reached⟩ := traversed.visited.called
        rcases ih traversed.ordered settled' with
          ⟨after, newer, later, ordered', calls', reached', all⟩ | ⟨panicked, culprit⟩
        · refine .inl ⟨after, new ++ newer, by simpa [done] using later, ordered',
            by rw [calls', calls, List.append_assoc], ?_, ?_⟩
          · intro other member
            rcases List.mem_append.mp member with old | new
            · exact ⟨mod, List.mem_cons_self .., chosen, reached other old⟩
            · obtain ⟨start, listed, picked, reaches⟩ := reached' other new
              exact ⟨start, List.mem_cons_of_mem _ listed, picked, reaches⟩
          · intro start listed picked
            rcases List.mem_cons.mp listed with rfl | member
            · rw [calls']
              exact List.mem_append_left _ ((traversed.ordered.done_iff start).mp done)
            · exact all start member picked
        · obtain ⟨start, listed, picked, cycle⟩ := culprit
          exact .inr ⟨by simpa [done] using panicked, start, List.mem_cons_of_mem _ listed,
            picked, cycle⟩
      · -- No module was half-way before, so a chain that came back is a cycle.
        obtain ⟨other, reaches, cycle | doing⟩ := traversed.blocked done
        · exact .inr ⟨by simp [done], mod, List.mem_cons_self .., chosen, other, reaches, cycle⟩
        · exact absurd doing (settled other)
    · simp only [traverseSelected, chosen]
      rcases ih ordered settled with
        ⟨after, new, later, ordered', calls, reached, all⟩ | ⟨panicked, start, listed, rest⟩
      · refine .inl ⟨after, new, later, ordered', calls, ?_, ?_⟩
        · intro other member
          obtain ⟨start, listed, rest⟩ := reached other member
          exact ⟨start, List.mem_cons_of_mem _ listed, rest⟩
        · intro start listed picked
          rcases List.mem_cons.mp listed with rfl | member
          · exact absurd picked chosen
          · exact all start member picked
      · exact .inr ⟨panicked, start, List.mem_cons_of_mem _ listed, rest⟩

end Traversal

section Sorted

variable {kernel : List String} {modules : List Module}

/-- A module the last loop of `sort_modules` does not skip. -/
def Selected (modules : List Module) (startpoint : Option String) (mod : Fin modules.length) :
    Prop :=
  selected startpoint (modules.get mod).name = true

/-- Dependency checks leave no mark and no call, and every module with its dependencies. -/
theorem checkDependencies_ordered
    (known : ∀ mod : Fin modules.length, ∀ name ∈ (modules.get mod).undefSyms,
      Exported kernel modules name) :
    ∃ checked, checkDependencies (symbolTable kernel modules)
        (fun mod => (modules.get mod).undefSyms) (List.finRange modules.length) .initial =
          .ok checked ∧
      Ordered (DependsOn kernel modules) checked ∧ checked.calls = [] ∧
      ∀ other, checked.status other ≠ .doing := by
  -- After the last module every one has been visited, and none is on the stack.
  obtain ⟨checked, ran, status, calls, entries⟩ :=
    checkDependencies_spec (List.finRange modules.length) (fun mod _ => known mod) .initial
  refine ⟨checked, ran, ⟨?_, ?_, ?_⟩, calls, ?_⟩
  · intro mod
    simp [status, calls, Sorting.initial]
  · rw [calls]
    exact .nil
  · intro mod _ target
    simp [entries mod target, Sorting.initial, List.mem_finRange]
  · intro other
    simp [status, Sorting.initial]

/-- Sorting calls for exactly what the selected modules need, in order, or panics at a cycle. -/
theorem sortModules_spec {startpoint : Option String}
    (known : ∀ mod : Fin modules.length, ∀ name ∈ (modules.get mod).undefSyms,
      Exported kernel modules name)
    {fuel : Nat} (enough : modules.length < fuel) :
    ((∀ mod, Selected modules startpoint mod → ¬ ReachesCycle (DependsOn kernel modules) mod) →
      ∃ sorted, sortModules fuel kernel modules startpoint = .ok sorted ∧ sorted.calls.Nodup ∧
        (∀ other, other ∈ sorted.calls ↔ ∃ mod, Selected modules startpoint mod ∧
          ReflTransGen (DependsOn kernel modules) mod other) ∧
        ∀ before mod after, sorted.calls = before ++ mod :: after →
          ∀ target, DependsOn kernel modules mod target → target ∈ before) ∧
    ((∃ mod, Selected modules startpoint mod ∧ ReachesCycle (DependsOn kernel modules) mod) →
      sortModules fuel kernel modules startpoint =
        .error (.panic "%s: cyclic chain: '%s'.\n")) := by
  obtain ⟨checked, ran, ordered, calls, settled⟩ := checkDependencies_ordered known
  have outcome := traverseSelected_spec enough
    (fun mod => selected startpoint (modules.get mod).name) (List.finRange modules.length)
    ordered settled
  simp only [sortModules, ran]
  rcases outcome with ⟨sorted, new, done, ordered', calls', reached, all⟩ | ⟨panicked, culprit⟩
  · -- Every called module is on no cycle, so no selected module reaches one.
    have only : sorted.calls = new := by rw [calls', calls, List.nil_append]
    have called : ∀ mod, Selected modules startpoint mod → mod ∈ sorted.calls :=
      fun mod picked => all mod (List.mem_finRange mod) picked
    refine ⟨fun _ => ⟨sorted, done, ordered'.postorder.nodup, fun other => ⟨?_, ?_⟩, ?_⟩, ?_⟩
    · intro member
      obtain ⟨mod, _, picked, reaches⟩ := reached other (only ▸ member)
      exact ⟨mod, picked, reaches⟩
    · rintro ⟨mod, picked, reaches⟩
      exact ordered'.postorder.mem_of_reaches (called mod picked) reaches
    · exact fun before mod after split target needs => ordered'.postorder.mem_before split needs
    · rintro ⟨mod, picked, cycle⟩
      exact absurd cycle (ordered'.postorder.not_reachesCycle (called mod picked))
  · obtain ⟨mod, _, picked, cycle⟩ := culprit
    exact ⟨fun free => absurd cycle (free mod picked), fun _ => panicked⟩

/-- A file system that reads through a block driver, which a console driver never needs. -/
def bootModules : List Module :=
  [⟨"ext2.ko", ["ext2_mount"], ["blk_read", "printk"]⟩,
    ⟨"console.ko", ["console_write"], ["printk"]⟩,
    ⟨"virtio_blk.ko", ["blk_read"], ["printk"]⟩]

/-- The file system comes after the driver it reads through, so no cycle was in its way. -/
theorem sortModules_spec_boot :
    ∃ sorted, sortModules 4 ["printk"] bootModules (some "ext2") = .ok sorted ∧
      sorted.calls.map (fun mod => (bootModules.get mod).name) = ["virtio_blk.ko", "ext2.ko"] ∧
      ∀ mod, Selected bootModules (some "ext2") mod →
        ¬ ReachesCycle (DependsOn ["printk"] bootModules) mod := by
  -- Every symbol is exported, so the only panic that is left is that of a cycle.
  have known : ∀ mod : Fin bootModules.length, ∀ name ∈ (bootModules.get mod).undefSyms,
      Exported ["printk"] bootModules name := by
    simp only [Exported]
    decide
  refine ⟨_, rfl, rfl, fun mod picked cycle => ?_⟩
  have panicked := (sortModules_spec known (by decide : bootModules.length < 4)).2
    ⟨mod, picked, cycle⟩
  cases panicked

end Sorted

end Xemu
