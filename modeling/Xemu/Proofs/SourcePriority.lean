import Xemu.Device.Source
import Xemu.Lib.Selection

/-! Whether the interrupt controller selects the source of the greatest priority. -/

namespace Xemu.Plic

/-! ### The source a poll is to select -/

/-- The eligible sources of a mode. -/
def eligible (plic : Plic) (supervisor : Bool) : Set (Fin 128) :=
  {id | plic.Eligible supervisor id}

/-- The sources that the words offer to a mode. -/
def offered (plic : Plic) (supervisor : Bool) : Set (Fin 128) :=
  {id | plic.Offered supervisor id}

/-- The eligible source of the greatest priority, and the lowest such source. -/
def BestSource (plic : Plic) (supervisor : Bool) (id : Fin 128) : Prop :=
  Selection.Best (fun id => (plic.priority id).toNat) (plic.eligible supervisor) id

/--
A poll for a mode selects by priority.

It answers zero if and only if there is no eligible source, and otherwise the best one, which it
leaves in the claim register.
-/
def PollsBest (plic : Plic) (supervisor : Bool) : Prop :=
  ∃ ret after, plic.interrupt supervisor = .ok (ret, after) ∧
    (ret = 0 ↔ ∀ id, ¬ plic.Eligible supervisor id) ∧
    (ret ≠ 0 → ∃ id, plic.BestSource supervisor id ∧ ret = BitVec.ofNat 32 id ∧
      after.xcc supervisor = ret)

/--
No source of a lower number keeps a source from being selected.

One of its own word does so already when it is pending and enabled, whatever its priority is, and
one of another word when it is above the threshold and first in its word.
-/
structure Unshadowed (plic : Plic) (supervisor : Bool) (id : Fin 128) : Prop where
  sameWord : ∀ other < id, word other = word id →
    ¬ (bitOf plic.pending other ∧ bitOf (plic.xie supervisor) other)
  otherWord : ∀ other < id, word other ≠ word id → ¬ plic.Offered supervisor other

variable {plic : Plic} {supervisor : Bool}

/-- An eligible source is the least offered one exactly when no lower one shadows it. -/
theorem isLeast_offered {id : Fin 128} (eligible : plic.Eligible supervisor id) :
    IsLeast (plic.offered supervisor) id ↔ plic.Unshadowed supervisor id := by
  constructor
  · rintro ⟨offered, least⟩
    exact ⟨offered.first, fun other lower _ also => absurd (least also) (not_le.mpr lower)⟩
  · rintro ⟨sameWord, otherWord⟩
    refine ⟨⟨eligible, sameWord⟩, fun other offered => ?_⟩
    -- A lower source that is offered would be in its word or in another one.
    by_contra lower
    have lower : other < id := not_le.mp lower
    by_cases same : word other = word id
    · exact sameWord other lower same ⟨offered.pending, offered.enabled⟩
    · exact otherWord other lower same offered

/-- A number of a source is zero for the unused source only. -/
theorem ofNat_eq_zero {id : Fin 128} : BitVec.ofNat 32 id = 0 ↔ id = 0 := by
  -- The numbers are small, so the word has the number itself.
  have small := id.isLt
  rw [← BitVec.toNat_inj, BitVec.toNat_ofNat, Nat.mod_eq_of_lt (by omega)]
  exact ⟨fun zero => Fin.ext zero, fun zero => congrArg Fin.val zero⟩

/-- Where only numbers of sources are pending, none that is eligible is zero. -/
theorem Numbered.eligible_ne_zero (numbered : plic.Numbered) {id : Fin 128}
    (eligible : plic.Eligible supervisor id) : id ≠ 0 := by
  rintro rfl
  have pending := eligible.pending
  rw [numbered.zero] at pending
  cases pending

/-- The answer of a poll that chose a source, or none, and the claim register it leaves. -/
def answer (plic : Plic) (supervisor : Bool) : Option (Fin 128) → BitVec 32 × Plic
  | none => (0, plic)
  | some id => (BitVec.ofNat 32 id, plic.setClaim supervisor (BitVec.ofNat 32 id))

/-- A poll takes the least of the sources that are offered. -/
theorem interrupt_least (numbered : plic.Numbered) (supervisor : Bool) :
    ∃ choice, Selection.Least (plic.offered supervisor) choice ∧
      plic.interrupt supervisor = .ok (plic.answer supervisor choice) := by
  -- A poll completes, with a source it selected or without one.
  obtain ⟨result, polled⟩ := interrupt_completes numbered supervisor
  rcases interrupt_selected supervisor result polled with ⟨id, selected, rfl⟩ | ⟨none, rfl⟩
  · exact ⟨some id, ⟨selected.toOffered, fun other => selected.lowest other⟩, polled⟩
  · exact ⟨Option.none, Set.eq_empty_of_forall_notMem none, polled⟩

/-- A poll that takes eligible sources selects by priority when its choice is the right one. -/
theorem pollsBest_iff_right (numbered : plic.Numbered) {choice : Option (Fin 128)}
    (polled : plic.interrupt supervisor = .ok (plic.answer supervisor choice))
    (member : ∀ id ∈ choice, plic.Eligible supervisor id) :
    plic.PollsBest supervisor ↔
      Selection.Right (fun id => (plic.priority id).toNat) (plic.eligible supervisor) choice := by
  constructor
  · rintro ⟨ret, after, answered, zero, nonzero⟩
    rw [polled] at answered
    cases choice with
    | none =>
      cases Except.ok.inj answered
      exact Set.eq_empty_of_forall_notMem (zero.mp rfl)
    | some id =>
      cases Except.ok.inj answered
      -- A number that is answered is not zero, for zero is never pending.
      have some : BitVec.ofNat 32 id ≠ 0 := fun empty =>
        numbered.eligible_ne_zero (member id rfl) (ofNat_eq_zero.mp empty)
      obtain ⟨best, isBest, same, _⟩ := nonzero some
      -- Both numbers are below the number of sources.
      have number : id = best := by
        have inside := id.isLt
        have below := best.isLt
        have equal := congrArg BitVec.toNat same
        rw [BitVec.toNat_ofNat, BitVec.toNat_ofNat] at equal
        exact Fin.ext (by omega)
      exact number ▸ isBest
  · intro right
    refine ⟨_, _, polled, ?_, ?_⟩
    · cases choice with
      | none =>
        exact ⟨fun _ id also => Set.eq_empty_iff_forall_notMem.mp right id also, fun _ => rfl⟩
      | some id =>
        refine ⟨fun empty => ?_, fun nothing => absurd right.mem (nothing id)⟩
        exact absurd (ofNat_eq_zero.mp empty) (numbered.eligible_ne_zero right.mem)
    · intro some
      cases choice with
      | none => exact absurd rfl some
      | some id => exact ⟨id, right, rfl, by simp⟩

/--
A poll selects by priority exactly when no lower source shadows the best one.

So it does not where a source of low priority shares a word with the best one, or stands in an
earlier word above the threshold.
-/
theorem pollsBest_iff (numbered : plic.Numbered) (supervisor : Bool) :
    plic.PollsBest supervisor ↔
      ∀ id, plic.BestSource supervisor id → plic.Unshadowed supervisor id := by
  -- What is chosen is the least of those offered, which are some of those eligible.
  obtain ⟨choice, least, polled⟩ := interrupt_least numbered supervisor
  have subset : plic.offered supervisor ⊆ plic.eligible supervisor :=
    fun id offered => offered.toEligible
  have member : ∀ id ∈ choice, plic.Eligible supervisor id := by
    rintro id rfl
    exact subset least.1
  rw [pollsBest_iff_right numbered polled member, least.right_iff subset]
  exact forall_congr' fun id => imp_congr_right fun best => isLeast_offered best.mem

/-- Two sources of one word are pending, of which the lower one is not above the threshold. -/
def sharedWord (enabled : BitVec 32) : Plic where
  priority id := if id.val = 2 then 7 else 0
  sie _ := enabled
  pending i := if i.val = 0 then 6 else 0

/-- The source of the greatest priority is selected where it alone is enabled. -/
theorem pollsBest_alone : (sharedWord 4).PollsBest true := by
  refine (pollsBest_iff ⟨rfl, rfl⟩ true).mpr fun id best => ?_
  -- Of the two that are pending one is enabled.
  have alone : ∀ other : Fin 128, bitOf (sharedWord 4).pending other = true →
      bitOf ((sharedWord 4).xie true) other = true → other.val = 2 := by
    decide +kernel
  have here := alone id best.mem.pending best.mem.enabled
  -- So no lower source is pending and enabled in any word.
  have lower : ∀ other < id, ¬ (bitOf (sharedWord 4).pending other ∧
      bitOf ((sharedWord 4).xie true) other) := by
    rintro other before ⟨pending, enabled⟩
    have also := alone other pending enabled
    have less : other.val < id.val := before
    omega
  exact ⟨fun other before _ => lower other before,
    fun other before _ offered => lower other before ⟨offered.pending, offered.enabled⟩⟩

/-- The source of the greatest priority is not delivered where the lower one is enabled too. -/
theorem poll_shadowed :
    ¬ ∀ (plic : Plic) (supervisor : Bool), plic.Numbered → plic.PollsBest supervisor := by
  intro always
  obtain ⟨ret, after, polled, zero, _⟩ := always (sharedWord 6) true ⟨rfl, rfl⟩
  have answered : (sharedWord 6).interrupt true = .ok (0, sharedWord 6) := by rfl
  rw [answered] at polled
  cases Except.ok.inj polled
  -- The poll answers zero, and the second source is eligible.
  exact zero.mp rfl ⟨2, by decide⟩ ⟨by decide +kernel, by decide +kernel, by decide +kernel⟩

end Xemu.Plic
