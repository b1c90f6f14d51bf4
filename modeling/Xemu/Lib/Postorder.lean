import Mathlib.Logic.Relation
import Mathlib.Data.List.Nodup

/-! Lists that name every vertex of a graph after the vertices it depends on. -/

open Relation

/-- Each entry is new and comes after everything it depends on. -/
inductive Postorder {α : Type*} (dep : α → α → Prop) : List α → Prop where
  /-- The empty list. -/
  | nil : Postorder dep []
  /-- One more entry, all of whose dependencies are already listed. -/
  | snoc {listed : List α} {x : α} (earlier : Postorder dep listed) (fresh : x ∉ listed)
      (before : ∀ y, dep x y → y ∈ listed) : Postorder dep (listed ++ [x])

/-- A vertex leads to a cycle of the graph, which it need not be on. -/
def ReachesCycle {α : Type*} (dep : α → α → Prop) (x : α) : Prop :=
  ∃ y, ReflTransGen dep x y ∧ TransGen dep y y

namespace Postorder

variable {α : Type*} {dep : α → α → Prop} {listed : List α}

/-- No vertex is listed twice. -/
theorem nodup (ordered : Postorder dep listed) : listed.Nodup := by
  induction ordered with
  | nil => exact List.nodup_nil
  | snoc earlier fresh before ih =>
    -- The last entry is new, so it differs from all entries before it.
    refine List.nodup_append.mpr ⟨ih, List.nodup_singleton _, ?_⟩
    intro y member z last same
    rw [List.mem_singleton.mp last] at same
    exact fresh (same ▸ member)

/-- The dependencies of a listed vertex are in the part of the list before it. -/
theorem mem_before (ordered : Postorder dep listed) {before after : List α} {x y : α}
    (split : listed = before ++ x :: after) (needs : dep x y) : y ∈ before := by
  induction ordered generalizing after with
  | nil => simp at split
  | @snoc earlier last ordered fresh complete ih =>
    -- The vertex is either the last entry of the list or an entry of the earlier part.
    rcases List.eq_nil_or_concat after with rfl | ⟨middle, final, rfl⟩
    · obtain ⟨same, only⟩ := List.append_inj' split rfl
      cases List.head_eq_of_cons_eq only
      exact same ▸ complete y needs
    · have regrouped : earlier ++ [last] = (before ++ x :: middle) ++ [final] := by
        simpa using split
      exact ih (List.append_inj' regrouped rfl).1

/-- Whatever a listed vertex depends on is listed. -/
theorem mem_of_dep (ordered : Postorder dep listed) {x y : α} (member : x ∈ listed)
    (needs : dep x y) : y ∈ listed := by
  obtain ⟨before, after, rfl⟩ := List.append_of_mem member
  exact List.mem_append_left _ (ordered.mem_before rfl needs)

/-- Whatever a listed vertex depends on, however remotely, is listed. -/
theorem mem_of_reaches (ordered : Postorder dep listed) {x y : α} (member : x ∈ listed)
    (reaches : ReflTransGen dep x y) : y ∈ listed := by
  induction reaches with
  | refl => exact member
  | tail _ needs ih => exact ordered.mem_of_dep ih needs

/-- A listed vertex is on no cycle. -/
theorem not_cyclic (ordered : Postorder dep listed) {x : α} (member : x ∈ listed) :
    ¬ TransGen dep x x := by
  induction ordered with
  | nil => simp at member
  | @snoc earlier last ordered fresh complete ih =>
    intro cycle
    rcases List.mem_append.mp member with old | new
    · exact ih old cycle
    · -- The last entry would be reachable from one of its own dependencies, all listed before it.
      cases List.mem_singleton.mp new
      obtain ⟨y, needs, back⟩ := TransGen.head'_iff.mp cycle
      exact fresh (ordered.mem_of_reaches (complete y needs) back)

/-- No cycle can be reached from a listed vertex. -/
theorem not_reachesCycle (ordered : Postorder dep listed) {x : α} (member : x ∈ listed) :
    ¬ ReachesCycle dep x := by
  rintro ⟨y, reaches, cycle⟩
  exact ordered.not_cyclic (ordered.mem_of_reaches member reaches) cycle

end Postorder
