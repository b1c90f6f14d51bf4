import Xemu.Device.Source
import Xemu.Lib.Runs

/-! Claims and completions of the interrupt controller, between signals and polls. -/

namespace Xemu.Plic

/-! ### The controller and its guest -/

/-- What happens to the controller next. -/
inductive Action where
  /-- A device signals a source. -/
  | signal (id : BitVec 32)
  /-- The hart looks for an interrupt for a mode. -/
  | poll (supervisor : Bool)
  /-- The guest reads the claim register of a mode. -/
  | claim (supervisor : Bool)
  /-- The guest completes a source it was given for a mode. -/
  | complete (supervisor : Bool) (id : BitVec 32)
  /-- The guest writes another register. -/
  | configure (addr data : BitVec 64)

/-- What the guest was given and what was signalled. -/
inductive Entry where
  | claimed (id : BitVec 32)
  | signalled (id : BitVec 32)
  deriving DecidableEq, Repr

/-- The controller, the sources claimed and not yet completed in each mode, and the history. -/
structure Service where
  plic : Plic := {}
  outstanding : Bool → List (BitVec 32) := fun _ => []
  /-- The latest entry comes first. -/
  history : List Entry := []

namespace Service

/-- One action, with the guest never completing anything but what it was given. -/
def act (action : Action) (s : Service) : Except Stop Service :=
  match action with
  | .signal id => do
    let plic ← s.plic.signal id
    return { s with plic, history := .signalled id :: s.history }
  | .poll supervisor => do
    let (_, plic) ← s.plic.interrupt supervisor
    return { s with plic }
  | .claim supervisor => do
    let (data, plic) ← s.plic.read (claimAddr supervisor)
    let id := data.setWidth 32
    -- Nothing was pending, and the guest has nothing to complete.
    if id = 0 then return { s with plic }
    let outstanding := Function.update s.outstanding supervisor (id :: s.outstanding supervisor)
    return { plic, outstanding, history := .claimed id :: s.history }
  | .complete supervisor id =>
    if id ∈ s.outstanding supervisor then do
      let plic ← s.plic.write (claimAddr supervisor) (id.setWidth 64)
      let rest := (s.outstanding supervisor).erase id
      return { s with plic, outstanding := Function.update s.outstanding supervisor rest }
    else .ok s
  | .configure addr data =>
    if addr = claimAddr false ∨ addr = claimAddr true then .ok s
    else do return { s with plic := ← s.plic.write addr data }

/-- Between two claims of one source it was signalled. -/
def NoRepeats (history : List Entry) : Prop :=
  ∀ id later between earlier,
    history = later ++ .claimed id :: (between ++ .claimed id :: earlier) →
      .signalled id ∈ between

/-- What the guest relies on: completions succeed, and no source comes twice for one signal. -/
structure Sound (s : Service) : Prop where
  /-- Completing what is outstanding does not stop the emulator. -/
  completes : ∀ supervisor, ∀ id ∈ s.outstanding supervisor,
    ∃ after, s.act (.complete supervisor id) = .ok after
  fresh : NoRepeats s.history

/--
The condition on an action under which the single claim register of a mode is enough.

While the guest holds a source of a mode, no poll for that mode selects another one and the guest claims no second one; and a claim finds the register empty or the source in it pending.
-/
def Orderly (action : Action) (s : Service) : Prop :=
  match action with
  | .poll supervisor => ∀ id, s.plic.Selected supervisor id →
    ∀ held ∈ s.outstanding supervisor, BitVec.ofNat 32 id = held
  | .claim supervisor => s.outstanding supervisor = [] ∧ (s.plic.xcc supervisor = 0 ∨
    ∃ id : Fin 128, s.plic.xcc supervisor = BitVec.ofNat 32 id ∧ bitOf s.plic.pending id)
  | _ => True

/-! ### The invariant -/

/-- A source was claimed and has not been signalled since. -/
def Taken (id : BitVec 32) (history : List Entry) : Prop :=
  ∃ between earlier, history = between ++ .claimed id :: earlier ∧ .signalled id ∉ between

/-- A source is taken when it was claimed last, or was taken before and not signalled last. -/
theorem taken_cons {id : BitVec 32} {entry : Entry} {history : List Entry} :
    Taken id (entry :: history) ↔
      entry = .claimed id ∨ (entry ≠ .signalled id ∧ Taken id history) := by
  constructor
  -- Whether anything came after the claim decides which of the two it is.
  · rintro ⟨between, earlier, shape, unsignalled⟩
    cases between with
    | nil => exact .inl (List.cons.inj shape).1
    | cons last between =>
      obtain ⟨rfl, rest⟩ := List.cons.inj shape
      rw [List.mem_cons, not_or] at unsignalled
      exact .inr ⟨fun same => unsignalled.1 same.symm, between, earlier, rest, unsignalled.2⟩
  · rintro (rfl | ⟨other, between, earlier, rfl, unsignalled⟩)
    · exact ⟨[], history, rfl, List.not_mem_nil⟩
    · refine ⟨entry :: between, earlier, rfl, ?_⟩
      rw [List.mem_cons, not_or]
      exact ⟨fun same => other same.symm, unsignalled⟩

/-- The claim registers hold what is outstanding, and what is taken is not pending. -/
structure Inv (s : Service) : Prop where
  held : ∀ supervisor, s.outstanding supervisor = [] ∨
    s.outstanding supervisor = [s.plic.xcc supervisor]
  taken : ∀ id : Fin 128, Taken (BitVec.ofNat 32 id) s.history → bitOf s.plic.pending id = false
  fresh : NoRepeats s.history

/-- No claim was repeated when the last entry is no repeated claim and none was before it. -/
theorem fresh_cons {entry : Entry} {history : List Entry}
    (before : NoRepeats history) (last : ∀ id, entry = .claimed id → ¬ Taken id history) :
    NoRepeats (entry :: history) := by
  intro id later between earlier shape
  cases later with
  | nil =>
    -- The repeated claim would be the last entry.
    obtain ⟨claimed, rest⟩ := List.cons.inj shape
    by_contra unsignalled
    exact last id claimed ⟨between, earlier, rest, unsignalled⟩
  | cons first later => exact before id later between earlier (List.cons.inj shape).2

/-- The invariant gives what the guest relies on. -/
theorem Inv.sound {s : Service} (inv : s.Inv) : s.Sound := by
  refine ⟨fun supervisor id member => ?_, inv.fresh⟩
  -- What is outstanding is what the claim register holds, so the completion passes its check.
  have register : s.plic.xcc supervisor = id := by
    rcases inv.held supervisor with none | one
    · rw [none] at member
      cases member
    · rw [one, List.mem_singleton] at member
      exact member.symm
  have same : ¬ s.plic.xcc supervisor ≠ (id.setWidth 64).setWidth 32 := by
    rw [register, not_not]
    simp
  refine ⟨{ s with
    plic := s.plic.setClaim supervisor 0
    outstanding := Function.update s.outstanding supervisor
      ((s.outstanding supervisor).erase id) }, ?_⟩
  rw [act, if_pos member, write_claim, if_neg same]
  rfl

/-- Nothing is outstanding, taken or claimed at first. -/
theorem inv_start : Inv {} :=
  ⟨fun _ => .inl rfl, fun _ _ => by simp [bitOf], fun id later between earlier shape => by
    cases later <;> cases shape⟩

/-! ### The actions preserve the invariant -/

section Actions

variable {s after : Service}

/-- A signal makes its own source pending, which is not taken any more. -/
theorem inv_signal {id : BitVec 32} (inv : s.Inv) (acted : s.act (.signal id) = .ok after) :
    after.Inv := by
  obtain ⟨plic, sent, result⟩ := bind_eq_ok.mp acted
  cases Except.ok.inj result
  obtain ⟨_, registers, _⟩ := updatePending_word sent
  have same : ∀ supervisor, plic.xcc supervisor = s.plic.xcc supervisor := by
    intro supervisor
    rw [registers]
    rfl
  refine ⟨fun supervisor => ?_, fun source taken => ?_, ?_⟩
  · change s.outstanding supervisor = [] ∨ s.outstanding supervisor = [plic.xcc supervisor]
    rw [same]
    exact inv.held supervisor
  · -- A source that is taken was not the one signalled.
    rcases taken_cons.mp taken with impossible | ⟨other, before⟩
    · cases impossible
    · have different : BitVec.ofNat 32 source.val ≠ id := fun equal => other (by rw [equal])
      change bitOf plic.pending source = false
      rw [signal_bitOf sent, inv.taken source before]
      simpa using different
  · exact fresh_cons inv.fresh fun other impossible => by cases impossible

/-- A poll selects a source where none is outstanding, or the outstanding one again. -/
theorem inv_poll {supervisor : Bool} (inv : s.Inv) (orderly : Orderly (.poll supervisor) s)
    (acted : s.act (.poll supervisor) = .ok after) : after.Inv := by
  obtain ⟨polled, interrupted, result⟩ := bind_eq_ok.mp acted
  cases Except.ok.inj result
  rcases interrupt_selected supervisor polled interrupted with ⟨id, selected, rfl⟩ | ⟨_, rfl⟩
  · refine ⟨fun mode => ?_, fun source taken => ?_, inv.fresh⟩
    · change s.outstanding mode = [] ∨ s.outstanding mode =
        [(s.plic.setClaim supervisor (BitVec.ofNat 32 id)).xcc mode]
      rw [setClaim_xcc]
      by_cases same : mode = supervisor
      · subst same
        -- What is outstanding in this mode is the very source the poll selects.
        rcases inv.held mode with none | one
        · exact .inl none
        · have held := orderly id selected (s.plic.xcc mode) (by rw [one]; exact List.mem_cons_self)
          rw [if_pos rfl, held]
          exact .inr one
      · rw [if_neg same]
        exact inv.held mode
    · change bitOf (s.plic.setClaim supervisor (BitVec.ofNat 32 id)).pending source = false
      rw [setClaim_pending]
      exact inv.taken source taken
  · exact ⟨inv.held, inv.taken, inv.fresh⟩

/-- A claim takes the source in the register, which was pending. -/
theorem inv_claim {supervisor : Bool} (inv : s.Inv) (orderly : Orderly (.claim supervisor) s)
    (acted : s.act (.claim supervisor) = .ok after) : after.Inv := by
  obtain ⟨⟨data, plic⟩, read, result⟩ := bind_eq_ok.mp acted
  by_cases zero : s.plic.xcc supervisor = 0
  · cases read_unclaimed s.plic supervisor zero _ read
    cases Except.ok.inj result
    exact ⟨inv.held, inv.taken, inv.fresh⟩
  · obtain ⟨none, empty | ⟨id, register, pending⟩⟩ := orderly
    · exact absurd empty zero
    · rw [read_claim s.plic supervisor zero] at read
      obtain ⟨cleared, clearing, returned⟩ := bind_eq_ok.mp read
      obtain ⟨rfl, rfl⟩ := Prod.mk.inj (Except.ok.inj returned)
      obtain ⟨_, registers, _⟩ := updatePending_word clearing
      have same : ∀ mode, cleared.xcc mode = s.plic.xcc mode := by
        intro mode
        rw [registers]
        rfl
      have value : ((cleared.xcc supervisor).setWidth 64).setWidth 32 = s.plic.xcc supervisor := by
        rw [same]
        simp
      dsimp only at result
      rw [value, if_neg zero] at result
      cases Except.ok.inj result
      refine ⟨fun mode => ?_, fun source taken => ?_, fresh_cons inv.fresh fun other claimed => ?_⟩
      · change Function.update s.outstanding supervisor _ mode = [] ∨
          Function.update s.outstanding supervisor _ mode = [cleared.xcc mode]
        rw [same]
        by_cases this : mode = supervisor
        · subst this
          rw [Function.update_self, none]
          exact .inr rfl
        · rw [Function.update_of_ne this]
          exact inv.held mode
      · change bitOf cleared.pending source = false
        rw [clearPendingBit_bitOf clearing]
        rcases taken_cons.mp taken with last | ⟨_, before⟩
        · -- The source just claimed is the one whose bit was cleared.
          rw [(Entry.claimed.inj last).symm]
          simp
        · rw [inv.taken source before, Bool.false_and]
      · -- It was pending, so it had been signalled since it was last claimed.
        rintro taken
        rw [← Entry.claimed.inj claimed, register] at taken
        rw [inv.taken id taken] at pending
        cases pending

/-- A completion of the outstanding source empties the register, and any other one does nothing. -/
theorem inv_complete {supervisor : Bool} {id : BitVec 32} (inv : s.Inv)
    (acted : s.act (.complete supervisor id) = .ok after) : after.Inv := by
  rw [act] at acted
  split at acted
  · rename_i member
    obtain ⟨plic, written, result⟩ := bind_eq_ok.mp acted
    cases Except.ok.inj result
    rw [write_claim] at written
    split at written
    · cases written
    · cases Except.ok.inj written
      refine ⟨fun mode => ?_, fun source taken => ?_, inv.fresh⟩
      · change Function.update s.outstanding supervisor _ mode = [] ∨
          Function.update s.outstanding supervisor _ mode =
            [(s.plic.setClaim supervisor 0).xcc mode]
        by_cases this : mode = supervisor
        · subst this
          rw [Function.update_self]
          rcases inv.held mode with none | one
          · rw [none] at member
            cases member
          · -- The one source that was outstanding is completed.
            rw [one, List.mem_singleton] at member
            rw [one, member]
            exact .inl (by simp)
        · rw [Function.update_of_ne this, setClaim_xcc, if_neg this]
          exact inv.held mode
      · change bitOf (s.plic.setClaim supervisor 0).pending source = false
        rw [setClaim_pending]
        exact inv.taken source taken
  · cases Except.ok.inj acted
    exact inv

/-- A write outside the claim registers leaves what the invariant is about. -/
theorem inv_configure {addr data : BitVec 64} (inv : s.Inv)
    (acted : s.act (.configure addr data) = .ok after) : after.Inv := by
  rw [act] at acted
  split at acted
  · cases Except.ok.inj acted
    exact inv
  · rename_i elsewhere
    obtain ⟨plic, written, result⟩ := bind_eq_ok.mp acted
    cases Except.ok.inj result
    -- Outside the claim registers a write touches neither them nor the pending words.
    obtain ⟨pending, registers⟩ := write_kept addr data plic written
    rw [not_or] at elsewhere
    refine ⟨fun mode => ?_, fun source taken => ?_, inv.fresh⟩
    · have same : plic.xcc mode = s.plic.xcc mode := by
        apply registers
        cases mode
        · exact elsewhere.1
        · exact elsewhere.2
      change s.outstanding mode = [] ∨ s.outstanding mode = [plic.xcc mode]
      rw [same]
      exact inv.held mode
    · change bitOf plic.pending source = false
      rw [pending]
      exact inv.taken source taken

end Actions

/-- An orderly action preserves the invariant. -/
theorem inv_act {action : Action} {s after : Service} (inv : s.Inv) (orderly : Orderly action s)
    (acted : s.act action = .ok after) : after.Inv := by
  cases action with
  | signal id => exact inv_signal inv acted
  | poll supervisor => exact inv_poll inv orderly acted
  | claim supervisor => exact inv_claim inv orderly acted
  | complete supervisor id => exact inv_complete inv acted
  | configure addr data => exact inv_configure inv acted

/--
After every run of orderly actions the guest has what it relies on.

The run begins with the controller as the emulator starts it, and may set its other registers.
-/
theorem claims_sound {actions : List Action} {s : Service}
    (along : Runs.Along act Orderly {} actions) (ran : Runs.run act {} actions = .ok s) :
    s.Sound := by
  refine Inv.sound (Runs.run_induction_along Inv ?_ inv_start along ran)
  exact fun action state after inv orderly acted => inv_act inv orderly acted

/-- One source from its signal to its completion, after its priority and enable bit are set. -/
def servedOnce : List Action :=
  [.configure 0x4 1, .configure 0x2080 2, .signal 1, .poll true, .claim true, .complete true 1]

/-- Each of its actions is orderly. -/
theorem servedOnce_orderly : Runs.Along act Orderly {} servedOnce := by
  refine ⟨trivial, fun s ran => ?_⟩
  cases Except.ok.inj ran
  refine ⟨trivial, fun s ran => ?_⟩
  cases Except.ok.inj ran
  refine ⟨trivial, fun s ran => ?_⟩
  cases Except.ok.inj ran
  -- Nothing is outstanding at the poll, and the source is pending at the claim.
  refine ⟨fun id _ held member => absurd member List.not_mem_nil, fun s ran => ?_⟩
  cases Except.ok.inj ran
  refine ⟨⟨rfl, .inr ⟨1, rfl, rfl⟩⟩, fun s ran => ?_⟩
  cases Except.ok.inj ran
  exact ⟨trivial, fun _ _ => trivial⟩

/-- The guest has what it relies on after it. -/
theorem claims_sound_once : ∃ s, Runs.run act {} servedOnce = .ok s ∧ s.Sound := by
  obtain ⟨s, ran, -⟩ := @ok_of_test _ (Runs.run act {} servedOnce) (fun _ => true) (by decide +kernel)
  exact ⟨s, ran, claims_sound servedOnce_orderly ran⟩

/-- The block device signals while the guest holds the serial port's source. -/
def interleaved : List Action :=
  [.configure 0x4 1, .configure 0x28 1, .configure 0x2080 0x402, .signal 10, .poll true,
    .claim true, .signal 1, .poll true]

/-- The completion that follows stops the emulator. -/
theorem completion_panics :
    ¬ ∀ (actions : List Action) (s : Service), Runs.run act {} actions = .ok s → s.Sound := by
  intro always
  -- At the end of the run the second completion is outstanding and stops.
  have tested : (Runs.run act {} interleaved).map (fun s =>
      decide (10#32 ∈ s.outstanding true) && (s.act (.complete true 10)).toOption.isNone) =
        .ok true := by decide +kernel
  obtain ⟨s, ran, found⟩ := map_eq_ok.mp tested
  obtain ⟨member, stopped⟩ := (Bool.and_eq_true _ _).mp found
  obtain ⟨after, completed⟩ :=
    (always interleaved s ran).completes true 10 (of_decide_eq_true member)
  rw [completed] at stopped
  cases stopped

end Service

end Xemu.Plic
