import Xemu.Machine.Program
import Xemu.Machine.Sources

/-! Which pending interrupts the main loop takes, and which it should take. -/

namespace Xemu

/-! ### What taking an interrupt does -/

namespace Hart

variable (hart : Hart) (pc : BitVec 64) (type : IntrType)

/-- Taking an interrupt goes on in the mode it is delegated to. -/
theorem enterInterrupt_priv : (hart.enterInterrupt pc type).2.priv = intrNextPriv hart type := by
  rw [enterInterrupt, trapEnter_priv]
  rcases intrNextPriv_cases hart type with mode | mode <;> rw [mode] <;> rfl

/-- Taking an interrupt leaves its number in the cause register of that mode. -/
theorem enterInterrupt_cause :
    (hart.enterInterrupt pc type).2.csr (trapCause (intrNextPriv hart type)) =
      intrCause type (intrNextPriv hart type) :=
  trapEnter_cause ..

/-- Taking an interrupt clears the global enable bit of that mode. -/
theorem enterInterrupt_globalOn :
    ¬ (hart.enterInterrupt pc type).2.GlobalOn (intrNextPriv hart type) := by
  -- The enable bit is the last one that the entry writes.
  have cleared : ∀ (status : BitVec 64) (pos : Nat), bit (setBit status pos 0#64) pos = 0#64 := by
    intro status pos
    rw [bit_eq]
    simp [setBit]
  rw [GlobalOn, enterInterrupt, trapEnter, trapStatus, trapEnablePos, not_not]
  split
  · simp [sstatus, sepc, cleared]
  · simp [mstatus, mepc, cleared]

variable {hart type}

/-- Taking an interrupt that the mode or the global bit admits changes the hart. -/
theorem enterInterrupt_ne
    (admitted : hart.priv ≠ intrNextPriv hart type ∨ hart.GlobalOn (intrNextPriv hart type)) :
    (hart.enterInterrupt pc type).2 ≠ hart := by
  intro same
  have priv := enterInterrupt_priv hart pc type
  have globalOn := enterInterrupt_globalOn hart pc type
  rw [same] at priv globalOn
  rcases admitted with other | on
  · exact other priv
  · exact globalOn on

/-- The number of an interrupt says which class it is, in either mode. -/
theorem intrCause_injective {one other : IntrType} {mode : BitVec 2}
    (trap : mode = sMode ∨ mode = mMode) (same : intrCause one mode = intrCause other mode) :
    one = other := by
  rcases trap with rfl | rfl <;> cases one <;> cases other <;>
    first | rfl | exact absurd same (by decide)

/-- Two classes whose interrupts leave the same hart are the same. -/
theorem enterInterrupt_injective {one other : IntrType}
    (same : hart.enterInterrupt pc one = hart.enterInterrupt pc other) : one = other := by
  have mode : intrNextPriv hart one = intrNextPriv hart other := by
    rw [← enterInterrupt_priv hart pc one, ← enterInterrupt_priv hart pc other, same]
  have cause := enterInterrupt_cause hart pc one
  rw [same, mode, enterInterrupt_cause] at cause
  exact (intrCause_injective (intrNextPriv_cases hart other) cause).symm

end Hart

namespace Machine

/-! ### What should happen -/

/-- The mode an external interrupt goes to is the supervisor's. -/
def externalToSupervisor (m : Machine) : Bool := intrNextPriv m.hart .external = sMode

/-- A line is pending: an eligible source of the platform's controller, or one of the two others. -/
def LinePending (m : Machine) : IntrType → Prop
  | .none => False
  | .software => m.bus.clint.softwareIntr
  | .timer => m.bus.clint.timerIntr
  | .external => ∃ id, m.bus.plic.Eligible m.externalToSupervisor id

/-- A pending line whose interrupt the current mode has to take. -/
structure Deliverable (m : Machine) (type : IntrType) : Prop where
  pending : m.LinePending type
  enabled : m.hart.IrqEnabled type
  admitted : m.hart.priv < intrNextPriv m.hart type ∨
    (m.hart.priv = intrNextPriv m.hart type ∧ m.hart.GlobalOn (intrNextPriv m.hart type))

/-- A trap is taken, and for a deliverable line, when there is one, and none otherwise. -/
structure Serves (m : Machine) (pc vector : BitVec 64) (after : Machine) : Prop where
  taken : (∃ type, m.Deliverable type) →
    ∃ type, m.Deliverable type ∧ m.hart.enterInterrupt pc type = (vector, after.hart)
  idle : (∀ type, ¬ m.Deliverable type) → vector = 0 ∧ after.hart = m.hart

/-! ### What happens -/

/--
The line that is looked at: an offered source, or else the timer, or else the software line.

Of a word of the controller only the first pending and enabled source is offered.
-/
def Chosen (m : Machine) : IntrType → Prop
  | .none => False
  | .external => ∃ id, m.bus.plic.Offered m.externalToSupervisor id
  | .timer => (∀ id, ¬ m.bus.plic.Offered m.externalToSupervisor id) ∧ m.bus.clint.timerIntr
  | .software => (∀ id, ¬ m.bus.plic.Offered m.externalToSupervisor id) ∧
    m.bus.clint.timerIntr = false ∧ m.bus.clint.softwareIntr

/--
The state is one in which looking at a single line and at its two enable bits is enough.

The second part concerns the reserved mode alone, which lies above the supervisor and delegates to it.
-/
structure Prompt (m : Machine) : Prop where
  /-- If a line is deliverable, the one looked at has both of its enable bits set. -/
  served : (∃ type, m.Deliverable type) → ∃ type, m.Chosen type ∧ m.hart.IrqEnabled type ∧
    m.hart.GlobalOn (intrNextPriv m.hart type)
  /-- A line looked at with both bits set does not go to a mode below the current one. -/
  mode : ∀ type, m.Chosen type → m.hart.IrqEnabled type →
    m.hart.GlobalOn (intrNextPriv m.hart type) → m.hart.priv ≤ intrNextPriv m.hart type

/-- The line looked at is pending. -/
theorem Chosen.pending {m : Machine} {type : IntrType} (chosen : m.Chosen type) :
    m.LinePending type := by
  cases type with
  | none => exact chosen
  | software => exact chosen.2.2
  | timer => exact chosen.2
  | external =>
    obtain ⟨id, offered⟩ := chosen
    exact ⟨id, offered.toEligible⟩

/-- Only one line is looked at. -/
theorem Chosen.unique {m : Machine} {one other : IntrType} (first : m.Chosen one)
    (second : m.Chosen other) : one = other := by
  cases one <;> cases other <;> simp_all [Chosen]

/-- The pending class after a poll: the platform's controller comes before the other one. -/
theorem pendingType_polled {m : Machine} {eid : BitVec 32} {plic : Plic}
    (polled : m.bus.plic.interrupt m.externalToSupervisor = .ok (eid, plic)) :
    m.pendingType = .ok (if eid ≠ 0 then .external else m.bus.clint.interrupt,
      { m with bus.plic := plic }) := by
  rw [pendingType]
  change (m.bus.plic.interrupt m.externalToSupervisor >>= _) = _
  rw [polled]
  rfl

/-- The class that `handle_interrupt` goes on with is the one of the line looked at, if any. -/
theorem pendingType_chosen {m : Machine} (numbered : m.bus.plic.Numbered) :
    ∃ type polled, m.pendingType = .ok (type, polled) ∧ polled.hart = m.hart ∧
      (type = .none ∧ (∀ other, ¬ m.Chosen other) ∨ type ≠ .none ∧ m.Chosen type) := by
  obtain ⟨result, polled⟩ := Plic.interrupt_completes numbered m.externalToSupervisor
  rcases Plic.interrupt_selected m.externalToSupervisor result polled with
    ⟨id, selected, rfl⟩ | ⟨nothing, rfl⟩
  · have nonzero : BitVec.ofNat 32 id.val ≠ 0 := by
      intro zero
      have source : id = 0 := by
        have value := congrArg BitVec.toNat zero
        have small := id.isLt
        rw [BitVec.toNat_ofNat] at value
        apply Fin.ext
        change id.val = 0
        change id.val % 2 ^ 32 = 0 at value
        omega
      -- Number zero is never pending, so no poll answers with it.
      have pending := selected.pending
      rw [source, numbered.zero] at pending
      cases pending
    have found := pendingType_polled polled
    rw [if_pos nonzero] at found
    exact ⟨.external, _, found, rfl, .inr ⟨by decide, id, selected.toOffered⟩⟩
  · refine ⟨m.bus.clint.interrupt, _, pendingType_polled polled, rfl, ?_⟩
    -- The other controller prefers its timer line.
    cases timer : m.bus.clint.timerIntr with
    | true =>
      have line : m.bus.clint.interrupt = .timer := by simp [Clint.interrupt, timer]
      exact .inr ⟨by simp [line], by rw [line]; exact ⟨nothing, timer⟩⟩
    | false =>
      cases software : m.bus.clint.softwareIntr with
      | true =>
        have line : m.bus.clint.interrupt = .software := by
          simp [Clint.interrupt, timer, software]
        exact .inr ⟨by simp [line], by rw [line]; exact ⟨nothing, timer, software⟩⟩
      | false =>
        have line : m.bus.clint.interrupt = .none := by simp [Clint.interrupt, timer, software]
        refine .inl ⟨line, fun other chosen => ?_⟩
        cases other with
        | none => exact chosen
        | external => exact nothing chosen.choose chosen.choose_spec
        | timer => exact absurd chosen.2 (by simp [timer])
        | software => exact absurd chosen.2.2 (by simp [software])

/-- The interrupt check takes the line it looks at if both of its enable bits are set. -/
theorem handleInterrupt_chosen {m : Machine} (numbered : m.bus.plic.Numbered) (pc : BitVec 64) :
    ∃ vector after, m.handleInterrupt pc = .ok (vector, after) ∧
      ((∃ type, m.Chosen type ∧ m.hart.IrqEnabled type ∧
          m.hart.GlobalOn (intrNextPriv m.hart type) ∧
          m.hart.enterInterrupt pc type = (vector, after.hart)) ∨
        ((∀ type, m.Chosen type → m.hart.IrqEnabled type →
            ¬ m.hart.GlobalOn (intrNextPriv m.hart type)) ∧ vector = 0 ∧ after.hart = m.hart)) := by
  obtain ⟨type, polled, found, kept, ⟨rfl, nothing⟩ | ⟨pending, chosen⟩⟩ :=
    pendingType_chosen numbered
  · refine ⟨0, polled, ?_, .inr ⟨fun type chosen => absurd chosen (nothing type), rfl, kept⟩⟩
    rw [handleInterrupt, found]
    rfl
  · have result : m.handleInterrupt pc = .ok ((m.hart.takeInterrupt pc type).1,
        { polled with hart := (m.hart.takeInterrupt pc type).2 }) := by
      rw [handleInterrupt, found, ok_bind]
      dsimp only
      rw [if_neg pending, kept]
      rfl
    refine ⟨_, _, result, ?_⟩
    -- Of the lines only the chosen one is looked at.
    rw [Hart.takeInterrupt_eq]
    by_cases both : m.hart.GlobalOn (intrNextPriv m.hart type) ∧ m.hart.IrqEnabled type
    · rw [if_pos both]
      exact .inl ⟨type, chosen, both.2, both.1, rfl⟩
    · rw [if_neg both]
      refine .inr ⟨fun other looked enabled on => ?_, rfl, rfl⟩
      cases looked.unique chosen
      exact both ⟨on, enabled⟩

/-! ### The result -/

/-- A prompt state serves its interrupts. -/
theorem Prompt.serves {m : Machine} (numbered : m.bus.plic.Numbered) (prompt : m.Prompt)
    {pc vector : BitVec 64} {after : Machine}
    (handled : m.handleInterrupt pc = .ok (vector, after)) : m.Serves pc vector after := by
  obtain ⟨found, last, result, outcome⟩ := handleInterrupt_chosen numbered pc
  rw [handled] at result
  cases Except.ok.inj result
  rcases outcome with ⟨type, chosen, enabled, on, entered⟩ | ⟨masked, rfl, kept⟩
  · -- The trap was taken, and its target is at least the current mode with its bit set.
    have deliverable : m.Deliverable type := by
      refine ⟨chosen.pending, enabled, ?_⟩
      have mode := prompt.mode type chosen enabled on
      by_cases same : m.hart.priv = intrNextPriv m.hart type
      · exact .inr ⟨same, on⟩
      · exact .inl (BitVec.lt_of_le_ne mode same)
    exact ⟨fun _ => ⟨type, deliverable, entered⟩, fun none => absurd deliverable (none type)⟩
  · refine ⟨fun some => ?_, fun _ => ⟨rfl, kept⟩⟩
    obtain ⟨type, chosen, enabled, on⟩ := prompt.served some
    exact absurd on (masked type chosen enabled)

/-- A state that serves its interrupts is prompt. -/
theorem Serves.prompt {m : Machine} (numbered : m.bus.plic.Numbered) {pc vector : BitVec 64}
    {after : Machine} (handled : m.handleInterrupt pc = .ok (vector, after))
    (serves : m.Serves pc vector after) : m.Prompt := by
  obtain ⟨found, last, result, outcome⟩ := handleInterrupt_chosen numbered pc
  rw [handled] at result
  cases Except.ok.inj result
  constructor
  · intro some
    obtain ⟨type, deliverable, entered⟩ := serves.taken some
    rcases outcome with ⟨other, chosen, enabled, on, _⟩ | ⟨masked, rfl, kept⟩
    · exact ⟨other, chosen, enabled, on⟩
    · -- A trap for a deliverable line would have changed the hart.
      have changed : (m.hart.enterInterrupt pc type).2 ≠ m.hart := by
        apply Hart.enterInterrupt_ne
        rcases deliverable.admitted with lower | ⟨_, on⟩
        · exact .inl (BitVec.ne_of_lt lower)
        · exact .inr on
      rw [entered] at changed
      exact absurd kept changed
  · intro type chosen enabled on
    rcases outcome with ⟨other, looked, _, _, entered⟩ | ⟨masked, _, _⟩
    · cases looked.unique chosen
      by_cases some : ∃ type, m.Deliverable type
      · -- The line the trap is for is the one looked at, and so that one is deliverable.
        obtain ⟨served, deliverable, also⟩ := serves.taken some
        cases Hart.enterInterrupt_injective pc (also.trans entered.symm)
        rcases deliverable.admitted with lower | ⟨same, _⟩
        · exact BitVec.le_of_lt lower
        · exact BitVec.le_of_eq same
      · have kept := (serves.idle fun type deliverable => some ⟨type, deliverable⟩).2
        have changed := Hart.enterInterrupt_ne pc (.inr on)
        rw [entered] at changed
        exact absurd kept changed
    · exact absurd on (masked type chosen enabled)

end Machine

/--
In every reachable state the interrupt check returns, and it serves the pending lines exactly when looking at one of them is enough.
-/
theorem interrupts_served_iff {m : Machine} (reached : m.Reached) (pc : BitVec 64) :
    ∃ vector after, m.handleInterrupt pc = .ok (vector, after) ∧
      (m.Serves pc vector after ↔ m.Prompt) := by
  have numbered := reached.numbered
  obtain ⟨vector, after, handled, _⟩ := Machine.handleInterrupt_chosen numbered pc
  exact ⟨vector, after, handled, fun serves => serves.prompt numbered handled,
    fun prompt => prompt.serves numbered handled⟩

/-- Raises and enables the software interrupt of the machine, and turns its interrupts on. -/
def pendingProgram : List (BitVec 32) :=
  [0x020002b7, 0x00100313, 0x0062a023, 0x30445073, -- lui t0, 0x2000; li t1, 1; sw t1, (t0); csrwi mie, 8
    0x00000397, 0x30539073, 0x30046073, 0x00000013] -- auipc t2, 0; csrw mtvec, t2; csrsi mstatus, 8; nop

/-- The interrupt that the program has raised is taken, and so served. -/
theorem interrupts_served_iff_pending :
    ∃ (m after : Machine) (vector : BitVec 64), m.Reached ∧ m.Deliverable .software ∧
      m.handleInterrupt m.hart.pc = .ok (vector, after) ∧ vector ≠ 0 ∧
      (m.Serves m.hart.pc vector after ↔ m.Prompt) := by
  -- The check is made before the instruction behind the one that turns the interrupts on.
  obtain ⟨m, _, _, reached, _, tested⟩ := reached_step_of_test pendingProgram 7
    (fun m _ => m.bus.clint.softwareIntr && m.hart.IrqEnabled .software &&
      m.hart.priv = mMode && intrNextPriv m.hart .software = mMode && m.hart.GlobalOn mMode &&
      (m.handleInterrupt m.hart.pc).toOption.any fun result => result.1 ≠ 0)
    (by decide +kernel)
  simp only [Bool.and_eq_true, decide_eq_true_eq] at tested
  obtain ⟨⟨⟨⟨⟨software, enabled⟩, machine⟩, target⟩, on⟩, jumps⟩ := tested
  have deliverable : m.Deliverable .software :=
    ⟨software, enabled, .inr ⟨by rw [machine, target], by rw [target]; exact on⟩⟩
  obtain ⟨vector, after, handled, served⟩ := interrupts_served_iff reached m.hart.pc
  rw [handled] at jumps
  exact ⟨m, after, vector, reached, deliverable, handled, of_decide_eq_true jumps, served⟩

/-- Raises and enables the software interrupt and drops to user mode with machine interrupts off. -/
def maskedProgram : List (BitVec 32) :=
  [0x020002b7, 0x00100313, 0x0062a023, 0x30445073, -- lui t0, 0x2000; li t1, 1; sw t1, (t0); csrwi mie, 8
    0x00000397, 0x01038393, 0x34139073, 0x30200073, -- auipc t2, 0; addi t2, t2, 16; csrw mepc, t2; mret
    0x00000013] -- nop

/-- A user program runs on with the machine's software interrupt pending and enabled. -/
theorem interrupt_missed_in_user_mode :
    ¬ ∀ (m after : Machine) (pc vector : BitVec 64), m.Reached →
      m.handleInterrupt pc = .ok (vector, after) → m.Serves pc vector after := by
  intro always
  obtain ⟨m, after, ran, reached, stepped, tested⟩ :=
    reached_step_of_test maskedProgram 8
      (fun m _ => m.hart.priv = uMode && m.bus.clint.softwareIntr &&
        intrNextPriv m.hart .software = mMode && m.hart.IrqEnabled .software &&
        (m.handleInterrupt 0x1020).toOption.any (fun result => result.2.hart.priv = uMode))
      (by decide +kernel)
  simp only [Bool.and_eq_true, decide_eq_true_eq] at tested
  obtain ⟨⟨⟨⟨user, software⟩, target⟩, enabled⟩, stayed⟩ := tested
  have deliverable : m.Deliverable .software :=
    ⟨software, enabled, .inl (by rw [user, target]; decide)⟩
  obtain ⟨⟨vector, polled⟩, handled, stayed⟩ := ok_of_test stayed
  obtain ⟨type, _, entered⟩ := (always m polled 0x1020 vector reached handled).taken ⟨_, deliverable⟩
  -- The entry would have left user mode, and the turn stayed in it.
  have moved := Hart.enterInterrupt_priv m.hart 0x1020 type
  have mode : polled.hart.priv = uMode := of_decide_eq_true stayed
  rw [entered, mode] at moved
  rcases intrNextPriv_cases m.hart type with supervisor | machine
  · rw [supervisor] at moved
    exact absurd moved (by decide)
  · rw [machine] at moved
    exact absurd moved (by decide)

end Xemu
