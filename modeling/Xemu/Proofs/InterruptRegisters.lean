import Xemu.Device.Source
import Xemu.Lib.Runs

/-! Which registers of the interrupt controller an access touches, and that its indices are in range. -/

namespace Xemu

/-- A stop that is no undefined operation of the program. -/
def Stop.Defined (stop : Stop) : Prop := ∀ what, stop ≠ .undefined what

@[simp] theorem Stop.defined_panic (text : String) : (Stop.panic text).Defined :=
  fun _ same => Stop.noConfusion same

namespace Plic

/-! ### What reaches the controller -/

/-- An access of the guest to the window, a signal of a device, or a poll of the hart. -/
inductive Traffic where
  | load (addr : BitVec 64)
  | store (addr data : BitVec 64)
  | signal (id : BitVec 32)
  | poll (supervisor : Bool)

/-- The controller after an access, a signal or a poll. -/
def serve (traffic : Traffic) (plic : Plic) : Except Stop Plic :=
  match traffic with
  | .load addr => do
    let (_, plic) ← plic.read addr
    return plic
  | .store addr data => plic.write addr data
  | .signal id => plic.signal id
  | .poll supervisor => do
    let (_, plic) ← plic.interrupt supervisor
    return plic

/-- The devices signal sources only. -/
def Traffic.Sourced : Traffic → Prop
  | .signal id => 1 ≤ id.toNat ∧ id.toNat < 128
  | _ => True

/-- A store to one of the words that the range of the priorities admits past their array. -/
def Traffic.PastEnd : Traffic → Prop
  | .store addr _ => addr.toNat % 4 = 0 ∧ 0x200 ≤ addr.toNat ∧ addr.toNat ≤ 0x210
  | _ => False

instance : DecidablePred Traffic.Sourced
  | .signal id => inferInstanceAs (Decidable (1 ≤ id.toNat ∧ id.toNat < 128))
  | .load _ | .store _ _ | .poll _ => inferInstanceAs (Decidable True)

instance : DecidablePred Traffic.PastEnd
  | .store addr _ =>
    inferInstanceAs (Decidable (addr.toNat % 4 = 0 ∧ 0x200 ≤ addr.toNat ∧ addr.toNat ≤ 0x210))
  | .load _ | .signal _ | .poll _ => inferInstanceAs (Decidable False)

/--
The controller keeps to its arrays, and in the priority area to the priority that is written.

An index outside an array is an operation that the language leaves undefined.
-/
structure Confined (traffic : Traffic) (plic : Plic) : Prop where
  -- No index is outside its array, for then the step would be undefined.
  indices : ∀ what, serve traffic plic ≠ .error (.undefined what)
  priorities : ∀ addr data after, traffic = .store addr data → addr.toNat ≤ 0x210 →
    serve traffic plic = .ok after → ∃ id : Fin 128, id.val = addr.toNat / 4 ∧
      after = { plic with priority := Function.update plic.priority id (after.priority id) }

/-! ### The numbers that are used as indices -/

/-- Only numbers of sources are pending, and only such numbers are in the claim registers. -/
structure Bounded (plic : Plic) : Prop where
  numbered : plic.Numbered
  claims : ∀ supervisor, (plic.xcc supervisor).toNat < 128

/-- Nothing is pending or claimed at first. -/
theorem bounded_start : Bounded {} :=
  ⟨⟨rfl, rfl⟩, fun supervisor => by cases supervisor <;> decide⟩

section Bounds

variable {plic : Plic}

/-- Whether the numbers are in their bounds is seen from the pending words and claim registers. -/
theorem Bounded.congr {after : Plic} (bounded : plic.Bounded) (pending : after.pending = plic.pending)
    (claims : ∀ mode, after.xcc mode = plic.xcc mode ∨ after.xcc mode = 0) : after.Bounded := by
  -- A claim register is as it was or cleared, and zero is in the bounds.
  refine ⟨bounded.numbered.congr pending, fun mode => ?_⟩
  rcases claims mode with same | zero
  · rw [same]
    exact bounded.claims mode
  · rw [zero]
    decide

/-- An assignment to a pending word keeps to the words for the number of a source. -/
theorem updatePending_ends (plic : Plic) (refused : String) {id : BitVec 32}
    (source : id.toNat < 128) (change : BitVec 32 → BitVec 32) :
    Ends (plic.updatePending refused id change) (fun after => ∀ mode, after.xcc mode = plic.xcc mode)
      Stop.Defined := by
  unfold updatePending
  refine .ite (fun _ => .error (by simp)) fun _ => ?_
  split
  · exact .ok fun mode => rfl
  · -- A source has its bit in one of the first four words.
    omega

/-- A signal of a source keeps the numbers in their bounds. -/
theorem Bounded.signal (bounded : plic.Bounded) {id : BitVec 32} (source : id.toNat < 128) :
    Ends (plic.signal id) Bounded Stop.Defined := by
  -- The bit that is set is that of a source, and the claim registers are left alone.
  have ends : Ends (plic.signal id) (fun after => ∀ mode, after.xcc mode = plic.xcc mode)
      Stop.Defined := updatePending_ends plic _ source _
  refine ⟨fun after sent => ⟨bounded.numbered.signal source after sent, fun mode => ?_⟩,
    ends.stopped⟩
  rw [ends.ensures after sent]
  exact bounded.claims mode

/-- So does clearing the pending bit of the source in a claim register. -/
theorem Bounded.clearPendingBit (bounded : plic.Bounded) (supervisor : Bool) :
    Ends (plic.clearPendingBit (plic.xcc supervisor)) Bounded Stop.Defined := by
  -- The number in the claim register is used as an index, and it is one of a source.
  have ends : Ends (plic.clearPendingBit (plic.xcc supervisor))
      (fun after => ∀ mode, after.xcc mode = plic.xcc mode) Stop.Defined :=
    updatePending_ends plic _ (bounded.claims supervisor) _
  refine ⟨fun after cleared => ⟨bounded.numbered.clearPendingBit after cleared, fun mode => ?_⟩,
    ends.stopped⟩
  rw [ends.ensures after cleared]
  exact bounded.claims mode

/-- A load keeps the numbers in their bounds. -/
theorem Bounded.read (bounded : plic.Bounded) (addr : BitVec 64) :
    Ends (plic.read addr) (fun result => Bounded result.2) Stop.Defined := by
  -- Only a read of a claim register changes anything.
  unfold Plic.read
  refine .ite (fun _ => .error (by simp)) fun _ => ?_
  split
  · exact .ok bounded
  · -- A claim clears the pending bit of the number it returns.
    refine .ite (fun _ => .ite (fun _ => .error (by simp)) fun _ => ?_) fun _ =>
      .ite (fun _ => .ite (fun _ => .ok bounded) fun _ => ?_) fun _ => .error (by simp)
    · exact .bind (bounded.clearPendingBit false) fun plic cleared => .ok cleared
    · exact .bind (bounded.clearPendingBit true) fun plic cleared => .ok cleared

/-- A store that is not past the end of the priorities keeps the numbers in their bounds. -/
theorem Bounded.write (bounded : plic.Bounded) {addr data : BitVec 64}
    (inside : ¬ (Traffic.store addr data).PastEnd) :
    Ends (plic.write addr data) Bounded Stop.Defined := by
  -- The registers but the claim registers are no indices.
  have other : ∀ {priority mpt spt mie sie}, Bounded { plic with priority, mpt, spt, mie, sie } :=
    bounded.congr rfl fun _ => .inl rfl
  unfold Plic.write
  refine .ite (fun _ => .error (by simp)) fun aligned => .ite (fun area => ?_) fun _ => ?_
  · split
    · exact .ok other
    · rename_i past
      exact absurd ⟨not_not.mp aligned, by omega, area⟩ inside
  · split
    · exact .ok other
    · split
      · exact .ok other
      · refine .ite (fun _ => .ok other) fun _ => .ite (fun _ => .ok other) fun _ => ?_
        -- A completion leaves zero in its claim register and the other one as it is.
        refine .ite (fun _ => .ite (fun _ => .error (by simp)) fun _ => .ok ?_) fun _ =>
          .ite (fun _ => .ite (fun _ => .error (by simp)) fun _ => .ok ?_) fun _ =>
            .error (by simp)
        · refine bounded.congr rfl fun mode => ?_
          cases mode
          · exact .inr rfl
          · exact .inl rfl
        · refine bounded.congr rfl fun mode => ?_
          cases mode
          · exact .inl rfl
          · exact .inr rfl

/-- A poll keeps the numbers in their bounds. -/
theorem Bounded.interrupt (bounded : plic.Bounded) (supervisor : Bool) :
    Ends (plic.interrupt supervisor) (fun result => Bounded result.2) Stop.Defined := by
  obtain ⟨result, polled⟩ := interrupt_completes bounded.numbered supervisor
  rw [polled]
  rcases interrupt_selected supervisor result polled with ⟨id, selected, rfl⟩ | ⟨_, rfl⟩
  · refine .ok ⟨bounded.numbered.congr (by simp), fun mode => ?_⟩
    -- What is put into the claim register is the number of a source.
    simp only [setClaim_xcc]
    split
    · have small := id.isLt
      rw [BitVec.toNat_ofNat]
      omega
    · exact bounded.claims mode
  · exact .ok bounded

/-- Whatever reaches the controller keeps the numbers in their bounds, but a store past the end. -/
theorem Bounded.serve (bounded : plic.Bounded) {traffic : Traffic} (sourced : traffic.Sourced)
    (inside : ¬ traffic.PastEnd) : Ends (serve traffic plic) Bounded Stop.Defined := by
  cases traffic with
  | load addr => exact .bind (bounded.read addr) fun result after => .ok after
  | store addr data => exact bounded.write inside
  | signal id => exact bounded.signal sourced.2
  | poll supervisor => exact .bind (bounded.interrupt supervisor) fun result after => .ok after

end Bounds

/-! ### The priority area -/

section Area

variable {plic after : Plic} {addr data : BitVec 64}

/-- A store to the priority area that completes changes one priority. -/
theorem write_priority (area : addr.toNat ≤ 0x210) (written : plic.write addr data = .ok after) :
    ∃ id : Fin 128, id.val = addr.toNat / 4 ∧
      after = { plic with priority := Function.update plic.priority id (after.priority id) } := by
  -- An aligned store there assigns its priority, or it does not complete.
  unfold Plic.write at written
  split at written
  · cases written
  · split at written
    · cases Except.ok.inj written
      exact ⟨⟨addr.toNat / 4, ‹_›⟩, rfl, by simp⟩
    · cases written

/-- A store past the end of the priorities has an index outside their array. -/
theorem write_pastEnd (past : (Traffic.store addr data).PastEnd) :
    plic.write addr data = .error (.undefined "index outside the priorities") := by
  obtain ⟨aligned, above, area⟩ := past
  have outside : ¬ addr.toNat / 4 < 128 := by omega
  rw [Plic.write, if_neg (not_not.mpr aligned), if_pos area, dif_neg outside]

end Area

/--
In a run the controller keeps to its arrays and fields exactly when no store is past the end.

The run starts with the controller cleared, and the devices signal sources only.
-/
theorem confined_iff {traffic : List Traffic}
    (sourced : Runs.Along serve (fun event _ => event.Sourced) {} traffic) :
    Runs.Along serve Confined {} traffic ↔
      Runs.Along serve (fun event _ => ¬ event.PastEnd) {} traffic := by
  constructor
  · intro confined
    refine confined.mono fun event plic keeps past => ?_
    cases event with
    | store addr data => exact keeps.indices _ (write_pastEnd past)
    | load _ | signal _ | poll _ => exact past
  · intro inside
    -- The invariant is that the numbers used as indices are in their bounds.
    refine (sourced.and inside).of_invariant Bounded ?_ ?_ bounded_start
    · intro event plic after bounded asked served
      exact (bounded.serve asked.1 asked.2).ensures after served
    · intro event plic bounded asked
      refine ⟨fun what stopped => ?_, ?_⟩
      · exact (bounded.serve asked.1 asked.2).stopped _ stopped what rfl
      · rintro addr data after rfl area served
        exact write_priority area served

/-- A run that signals, polls, claims, completes and writes a priority and an enable word. -/
def serviceRun : List Traffic :=
  [.store 4 7, .store 0x2080 2, .signal 1, .poll true, .load 0x201004, .store 0x201004 1]

/-- Such a run keeps to the arrays and fields. -/
theorem confined_service : Runs.Along serve Confined {} serviceRun :=
  (confined_iff (Runs.along_of_forall (by decide) _)).mpr
    (Runs.along_of_forall (show ∀ event ∈ serviceRun, ¬ event.PastEnd by decide) _)

/-- A store past the end of the priorities is not confined. -/
theorem store_past_end :
    ¬ ∀ traffic, Runs.Along serve (fun event _ => event.Sourced) {} traffic →
      Runs.Along serve Confined {} traffic := by
  intro always
  have confined := always [.store 0x200 5] ⟨trivial, fun _ _ => trivial⟩
  exact confined.1.indices _ (write_pastEnd ⟨by decide, by decide, by decide⟩)

end Plic

end Xemu
