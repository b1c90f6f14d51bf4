import Xemu.Proofs.ControlRegisters
import Xemu.Proofs.Interrupt

/-! The two pending words: what sets their bits, and that no interrupt is delivered because of them. -/

namespace Xemu

/-! ### What the guest would expect -/

/-- The supervisor's and the machine's pending words. -/
def pendingCsrs : List (BitVec 12) := [mip, sip]

/-- The machine's pending word shows the lines as they are. -/
structure Machine.PendingShown (m : Machine) : Prop where
  timer : m.hart.csr mip &&& intrBitFlag .timer mMode ≠ 0 ↔ m.bus.clint.timerIntr
  software : m.hart.csr mip &&& intrBitFlag .software mMode ≠ 0 ↔ m.bus.clint.softwareIntr
  machine : m.hart.csr mip &&& intrBitFlag .external mMode ≠ 0 ↔
    ∃ id, m.bus.plic.Eligible false id
  supervisor : m.hart.csr mip &&& intrBitFlag .external sMode ≠ 0 ↔
    ∃ id, m.bus.plic.Eligible true id

/--
A supervisor's bit in the machine's pending word is delivered once it is delegated and enabled.

Where several are pending, another one may come first.
-/
def Machine.PendingDelivered (m : Machine) : Prop :=
  ∀ type ≠ .none, m.hart.csr mip &&& intrBitFlag type sMode ≠ 0 →
    m.hart.csr mideleg &&& intrBitFlag type sMode ≠ 0 →
    m.hart.csr sie &&& intrBitFlag type sMode ≠ 0 →
    m.hart.priv = uMode ∨ m.hart.priv = sMode → m.hart.GlobalOn sMode →
    ∀ pc vector after, m.handleInterrupt pc = .ok (vector, after) →
      ∃ served, m.hart.enterInterrupt pc served = (vector, after.hart) ∧ after.hart.priv = sMode

/-! ### What a turn does -/

namespace Machine

/-- The interrupt check takes an interrupt of that class. -/
structure Takes (m : Machine) (type : IntrType) : Prop where
  chosen : m.Chosen type
  enabled : m.hart.IrqEnabled type
  globalOn : m.hart.GlobalOn (intrNextPriv m.hart type)

/-- The interrupt check takes an interrupt for which it sets that bit of that word. -/
def Sets (m : Machine) (addr : BitVec 12) (i : Nat) : Prop :=
  ∃ type, m.Takes type ∧ trapIp (intrNextPriv m.hart type) = addr ∧
    (intrBitFlag type (intrNextPriv m.hart type)).getLsbD i

/-- The content of a pending word once the interrupt check has set the bit of what it takes. -/
def Latches (m : Machine) (addr : BitVec 12) (word : BitVec 64) : Prop :=
  ∀ i, word.getLsbD i ↔ (m.hart.csr addr).getLsbD i ∨ m.Sets addr i

/-- What an event makes of a pending word: it adds the bit of an interrupt, or an instruction names the word. -/
def PendingStep (addr : BitVec 12) (event : Event) (m after : Machine) : Prop :=
  match event with
  | .hart host => ∃ word, m.Latches addr word ∧
    (¬ m.Names host addr ∧ after.hart.csr addr = word ∨
      ∃ ready nextPc d type, m.Ready host ready nextPc d ∧ d.op.csrOp = some type ∧
        d.csrAddr = addr ∧ after.hart.csr addr = type.apply word (d.csrData ready.hart))
  -- The threads of the devices leave the word alone, whatever they do to the lines.
  | _ => after.hart.csr addr = m.hart.csr addr

end Machine

section Word

variable {addr : BitVec 12}

/-- Neither trap entry nor trap return touches a pending word, and it reads as it is stored. -/
theorem pending_plain (pending : addr ∈ pendingCsrs) (mode : BitVec 2) :
    addr ∉ trapCsrs mode ∧ addr ≠ trapVector mode ∧ addr ≠ sstatus ∧ addr ≠ mstatus ∧
      storedCsr addr := by
  simp only [pendingCsrs, List.mem_cons, List.not_mem_nil, or_false] at pending
  unfold trapCsrs trapVector
  rcases pending with rfl | rfl
  all_goals split <;> decide

/-- The interrupt check adds the bit of the interrupt it takes. -/
theorem handleInterrupt_latches (pending : addr ∈ pendingCsrs) {m polled : Machine}
    (numbered : m.bus.plic.Numbered) {pc vector : BitVec 64}
    (handled : m.handleInterrupt pc = .ok (vector, polled)) :
    m.Latches addr (polled.hart.csr addr) := by
  obtain ⟨_, _, result, outcome⟩ := Machine.handleInterrupt_chosen numbered pc
  rw [handled] at result
  cases Except.ok.inj result
  intro i
  rcases outcome with ⟨type, chosen, enabled, on, entered⟩ | ⟨masked, _, kept⟩
  · have kept := trapEnter_csr (m.hart.setPending type (intrNextPriv m.hart type)) pc
      (intrNextPriv m.hart type) (intrCause type (intrNextPriv m.hart type)) 0
      (pending_plain pending _).1
    rw [Hart.enterInterrupt] at entered
    rw [entered] at kept
    rw [kept, Hart.setPending, Hart.setCsr_csr]
    -- One line is looked at, so no other class can have set the bit.
    have sets : m.Sets addr i ↔ trapIp (intrNextPriv m.hart type) = addr ∧
        (intrBitFlag type (intrNextPriv m.hart type)).getLsbD i := by
      constructor
      · rintro ⟨other, takes, word, flag⟩
        cases takes.chosen.unique chosen
        exact ⟨word, flag⟩
      · exact fun here => ⟨type, ⟨chosen, enabled, on⟩, here⟩
    rw [sets]
    by_cases here : trapIp (intrNextPriv m.hart type) = addr
    · rw [here, Function.update_self, BitVec.getLsbD_or, Bool.or_eq_true]
      simp
    · rw [Function.update_of_ne (Ne.symm here)]
      simp [here]
  · rw [kept]
    have none : ¬ m.Sets addr i := by
      rintro ⟨type, takes, _⟩
      exact masked type takes.chosen takes.enabled takes.globalOn
    simp [none]

/-- After the interrupt check a turn leaves a pending word alone that its instruction does not name. -/
theorem step_csr_unnamed (pending : addr ∈ pendingCsrs) {host : Host} {m after polled : Machine}
    {vector : BitVec 64} (unnamed : ¬ m.Names host addr)
    (handled : m.handleInterrupt m.hart.pc = .ok (vector, polled))
    (stepped : m.step host = .ok after) : after.hart.csr addr = polled.hart.csr addr := by
  have plain := pending_plain pending
  cases step_turn stepped with
  | interrupted vector trapped checked nonzero moved =>
    rw [checked] at handled
    cases Except.ok.inj handled
    subst moved
    rfl
  | faulted other checked vector inst trapped fetched nonzero moved =>
    rw [checked] at handled
    cases Except.ok.inj handled
    subst moved
    exact (fetch_leaves fetched fun _ => (plain _).1 : trapped.hart.csr addr = _)
  | performed ready nextPc d started locals ran retPc executed written moved =>
    subst moved
    have named : d.op.csrOp.isSome → d.csrAddr ≠ addr := fun op same =>
      unnamed ⟨ready, nextPc, d, started, op, same⟩
    obtain ⟨other, inst, checked, fetched, decoded⟩ := started
    rw [checked] at handled
    cases Except.ok.inj handled
    rw [← (fetch_leaves fetched fun _ => (plain _).1 : ready.hart.csr addr = _)]
    refine (congrFun (writeBack_kept written).2.2.2.1 addr).trans ?_
    -- Of the ways to leave the switch only one assigns a register that is not part of a trap.
    cases executeOp_outcome ran with
    | next kept goesOn | relative op kept goesOn | jalr op kept goesOn => rw [kept]
    | csr type op ret updated goesOn =>
      rcases csrUpdate_cases updated with ⟨_, impossible, _⟩ | ⟨old, _, _, stored⟩
      · cases impossible
      · rw [stored, Hart.setCsr_csr, Function.update_of_ne (named (by rw [op]; rfl)).symm]
    | except flag cause tval raised =>
      exact trapEnter_leaves (exceptNextPriv_cases _ _) raised (plain _).1
    | sret op returned =>
      have kept := trapExitSret_csr ready.hart (plain uMode).2.2.1
      rwa [returned] at kept
    | mret op returned =>
      have kept := trapExitMret_csr ready.hart (plain uMode).2.2.2.1
      rwa [returned] at kept

/-- An instruction that names a pending word is applied to what the interrupt check left there. -/
theorem step_csr_named (pending : addr ∈ pendingCsrs) {host : Host}
    {m after polled ready : Machine} {vector nextPc : BitVec 64} {d : Decoded} {type : CsrOp}
    (started : m.Ready host ready nextPc d) (op : d.op.csrOp = some type)
    (named : d.csrAddr = addr) (handled : m.handleInterrupt m.hart.pc = .ok (vector, polled))
    (stepped : m.step host = .ok after) :
    after.hart.csr addr = type.apply (polled.hart.csr addr) (d.csrData ready.hart) := by
  have plain := pending_plain pending
  have assigned := step_csr_assigns (plain uMode).2.2.2.2 started op named stepped
  -- Between the check and the instruction lies the fetch, which found its word.
  obtain ⟨other, inst, checked, fetched, decoded⟩ := started
  rw [checked] at handled
  cases Except.ok.inj handled
  rw [← (fetch_leaves fetched fun _ => (plain _).1 : ready.hart.csr addr = _)]
  exact assigned

/-- Every event of a run follows the law of the pending words. -/
theorem next_pending (pending : addr ∈ pendingCsrs) {event : Event} {m after : Machine}
    (numbered : m.bus.plic.Numbered) (stepped : Machine.next event m = .ok after) :
    m.PendingStep addr event after := by
  -- Only a turn of the hart touches the word, and the rest of it only through the named register.
  cases event with
  | hart host =>
    obtain ⟨vector, polled, handled, _⟩ := Machine.handleInterrupt_chosen numbered m.hart.pc
    refine ⟨_, handleInterrupt_latches pending numbered handled, ?_⟩
    by_cases named : m.Names host addr
    · obtain ⟨ready, nextPc, d, started, op, number⟩ := named
      obtain ⟨type, op⟩ := Option.isSome_iff_exists.mp op
      exact .inr ⟨ready, nextPc, d, type, started, op, number,
        step_csr_named pending started op number handled stepped⟩
    · exact .inl ⟨named, step_csr_unnamed pending named handled stepped⟩
  | timer _ | input _ | blkTake | blkServe _ =>
    exact congrFun (congrArg Hart.csr (next_device_hart (fun _ => by simp) stepped)) addr

/-- The bit that an event which is a turn of the loop sets. -/
def SetsAt (addr : BitVec 12) (i : Nat) (event : Event) (m : Machine) : Prop :=
  match event with
  | .hart _ => m.Sets addr i
  | _ => False

/-- An event that does not name the word adds the bit of the interrupt it takes, and clears none. -/
theorem next_pending_unnamed (pending : addr ∈ pendingCsrs) {event : Event} {m after : Machine}
    (numbered : m.bus.plic.Numbered) (unnamed : NotNamedAt addr event m)
    (stepped : Machine.next event m = .ok after) (i : Nat) :
    (after.hart.csr addr).getLsbD i ↔ (m.hart.csr addr).getLsbD i ∨ SetsAt addr i event m := by
  have law := next_pending pending numbered stepped
  -- The law leaves the latched interrupt as the only change.
  cases event with
  | hart host =>
    obtain ⟨word, latches, ⟨_, rfl⟩ | ⟨ready, nextPc, d, type, started, op, named, _⟩⟩ := law
    · exact latches i
    · exact absurd ⟨ready, nextPc, d, started, by rw [op]; rfl, named⟩ unnamed
  | timer _ | input _ | blkTake | blkServe _ =>
    have kept : after.hart.csr addr = m.hart.csr addr := law
    rw [kept]
    exact ⟨.inl, fun before => before.elim id False.elim⟩

/-! ### The words decide nothing -/

/-- Assignments to two different registers can be made in either order. -/
theorem Hart.setCsr_comm {other : BitVec 12} (distinct : other ≠ addr) (hart : Hart)
    (data word : BitVec 64) :
    (hart.setCsr addr word).setCsr other data = (hart.setCsr other data).setCsr addr word := by
  rw [setCsr, setCsr, setCsr, setCsr, Function.update_comm distinct]

/-- Trap entry commutes with an assignment to a pending word. -/
theorem trapEnter_setCsr (pending : addr ∈ pendingCsrs) (hart : Hart)
    (pc : BitVec 64) (mode : BitVec 2) (cause tval word : BitVec 64) :
    trapEnter (hart.setCsr addr word) pc mode cause tval =
      ((trapEnter hart pc mode cause tval).1,
        (trapEnter hart pc mode cause tval).2.setCsr addr word) := by
  obtain ⟨assigned, vector, _⟩ := pending_plain pending mode
  have read : ∀ {other : BitVec 12}, addr ≠ other → ∀ hart : Hart,
      (hart.setCsr addr word).csr other = hart.csr other :=
    fun distinct hart => Function.update_of_ne distinct.symm _ _
  have switch : (hart.setCsr addr word).switchTo = fun mode =>
      (hart.switchTo mode).setCsr addr word := rfl
  unfold trapCsrs at assigned
  unfold trapVector at vector
  unfold trapEnter
  -- The assignment moves past those of the trap, whose registers are all others, in either mode.
  split
  · rename_i supervisor
    simp only [supervisor, if_true, List.mem_cons, List.not_mem_nil, or_false, not_or,
      ← ne_eq] at assigned vector
    obtain ⟨cause, tval, status, epc⟩ := assigned
    simp only [switch, read status, read vector, Hart.setCsr_priv, Hart.setCsr_comm cause.symm,
      Hart.setCsr_comm tval.symm, Hart.setCsr_comm status.symm, Hart.setCsr_comm epc.symm]
    rfl
  · rename_i machine
    simp only [machine, if_false, List.mem_cons, List.not_mem_nil, or_false, not_or,
      ← ne_eq] at assigned vector
    obtain ⟨cause, tval, status, epc⟩ := assigned
    simp only [switch, read status, read vector, Hart.setCsr_priv, Hart.setCsr_comm cause.symm,
      Hart.setCsr_comm tval.symm, Hart.setCsr_comm status.symm, Hart.setCsr_comm epc.symm]

/-- The mode an interrupt goes to does not depend on the pending words. -/
theorem intrNextPriv_setCsr (pending : addr ∈ pendingCsrs) (hart : Hart) (type : IntrType)
    (word : BitVec 64) : intrNextPriv (hart.setCsr addr word) type = intrNextPriv hart type := by
  have word_eq : addr = mip ∨ addr = sip := by simpa [pendingCsrs] using pending
  have delegation : mideleg ≠ addr := by rcases word_eq with rfl | rfl <;> decide
  rw [intrNextPriv, Hart.setCsr_csr, Function.update_of_ne delegation, Hart.setCsr_priv]
  rfl

/-- Taking an interrupt does not look at the pending words, and sets one of them at most. -/
theorem takeInterrupt_setCsr (pending : addr ∈ pendingCsrs) (hart : Hart) (pc : BitVec 64)
    (type : IntrType) (word : BitVec 64) :
    ∃ last, (hart.setCsr addr word).takeInterrupt pc type =
      ((hart.takeInterrupt pc type).1, (hart.takeInterrupt pc type).2.setCsr addr last) := by
  have read : ∀ {other : BitVec 12}, addr ≠ other →
      (hart.setCsr addr word).csr other = hart.csr other :=
    fun distinct => Function.update_of_ne distinct.symm _ _
  have word_eq : addr = mip ∨ addr = sip := by simpa [pendingCsrs] using pending
  -- The registers that are looked at are neither of the two words.
  have target := intrNextPriv_setCsr pending hart type word
  have bits : (hart.setCsr addr word).GlobalOn (intrNextPriv hart type) ∧
      (hart.setCsr addr word).IrqEnabled type ↔
        hart.GlobalOn (intrNextPriv hart type) ∧ hart.IrqEnabled type := by
    have status : addr ≠ trapStatus (intrNextPriv hart type) := by
      unfold trapStatus
      rcases word_eq with rfl | rfl <;> split <;> decide
    have enable : addr ≠ trapIe (intrNextPriv hart type) := by
      unfold trapIe
      rcases word_eq with rfl | rfl <;> split <;> decide
    simp only [Hart.GlobalOn, Hart.IrqEnabled, target, read status, read enable]
  rw [Hart.takeInterrupt_eq, Hart.takeInterrupt_eq, target, if_congr bits rfl rfl]
  split
  · rw [Hart.enterInterrupt, Hart.enterInterrupt, target, Hart.setPending, Hart.setPending]
    by_cases here : trapIp (intrNextPriv hart type) = addr
    · -- The bit is set in this word, which is not read again before the handler.
      have again : ∀ (hart : Hart) (one other : BitVec 64),
          (hart.setCsr addr one).setCsr addr other = hart.setCsr addr other := by
        intro hart one other
        rw [Hart.setCsr, Hart.setCsr, Function.update_idem]
        rfl
      rw [here, again, trapEnter_setCsr pending, trapEnter_setCsr pending]
      exact ⟨_, Prod.ext rfl (again _ _ _).symm⟩
    · -- The bit is set in the other word.
      rw [read (Ne.symm here), Hart.setCsr_comm here, trapEnter_setCsr pending]
      exact ⟨word, rfl⟩
  · exact ⟨word, rfl⟩

/-- The interrupt check does the same whatever a pending word holds, up to that word. -/
theorem handleInterrupt_setCsr (pending : addr ∈ pendingCsrs) {m after : Machine}
    {pc vector : BitVec 64} (handled : m.handleInterrupt pc = .ok (vector, after))
    (word : BitVec 64) :
    ∃ last, { m with hart := m.hart.setCsr addr word }.handleInterrupt pc =
      .ok (vector, { after with hart := after.hart.setCsr addr last }) := by
  obtain ⟨⟨type, polled⟩, found, rest⟩ := bind_eq_ok.mp handled
  -- The controllers are polled for the same mode, so they answer the same.
  have again : { m with hart := m.hart.setCsr addr word }.pendingType =
      .ok (type, { polled with hart := polled.hart.setCsr addr word }) := by
    obtain ⟨⟨eid, plic⟩, asked, result⟩ := bind_eq_ok.mp found
    cases Except.ok.inj result
    rw [Machine.pendingType, intrNextPriv_setCsr pending]
    dsimp only
    rw [asked]
    rfl
  rw [Machine.handleInterrupt, again, ok_bind]
  dsimp only at rest ⊢
  by_cases nothing : type = .none
  · rw [if_pos nothing] at rest ⊢
    cases Except.ok.inj rest
    exact ⟨word, rfl⟩
  · rw [if_neg nothing] at rest ⊢
    cases Except.ok.inj rest
    obtain ⟨last, taken⟩ := takeInterrupt_setCsr pending polled.hart pc type word
    rw [taken]
    exact ⟨last, rfl⟩

end Word

/-! ### The result -/

/-- A pending word is a word of its own: what reads it, what changes it, and what depends on it. -/
structure Machine.PendingOwn (m : Machine) (addr : BitVec 12) : Prop where
  /-- The guest reads the word as it is stored. -/
  reads : ∀ host, csrRead host m.hart addr = .ok (some (m.hart.csr addr))
  /-- An event changes the word for an interrupt that it takes or an instruction that names it. -/
  event : ∀ event after, m.next event = .ok after → m.PendingStep addr event after
  /-- While no instruction names the word, its bits are those set before or by an interrupt taken. -/
  run : ∀ events final, Runs.Along Machine.next (NotNamedAt addr) m events →
    Runs.run Machine.next m events = .ok final → ∀ i,
      (final.hart.csr addr).getLsbD i ↔ (m.hart.csr addr).getLsbD i ∨
        ∃ earlier host later middle, events = earlier ++ .hart host :: later ∧
          Runs.run Machine.next m earlier = .ok middle ∧ middle.Sets addr i
  /-- An interrupt that is taken is one of a line that is raised. -/
  line : ∀ type, m.Takes type → m.LinePending type
  /-- The lines and the enable bits decide which interrupt is taken, whatever the word holds. -/
  check : ∀ pc, ∃ vector after, m.handleInterrupt pc = .ok (vector, after) ∧
    ((∃ type, m.Takes type ∧ m.hart.enterInterrupt pc type = (vector, after.hart)) ∨
      ((∀ type, ¬ m.Takes type) ∧ vector = 0 ∧ after.hart = m.hart)) ∧
    ∀ word, ∃ last, { m with hart := m.hart.setCsr addr word }.handleInterrupt pc =
      .ok (vector, { after with hart := after.hart.setCsr addr last })

/--
In every reachable state the pending words are words of their own.

They show neither the lines nor each other, and no interrupt is taken because of them.
-/
theorem pending_words_own {m : Machine} (reached : m.Reached) {addr : BitVec 12}
    (pending : addr ∈ pendingCsrs) : m.PendingOwn addr where
  reads host := csrRead_stored (pending_plain pending uMode).2.2.2.2 host m.hart
  event _ _ stepped := next_pending pending reached.numbered stepped
  run events final unnamed ran i := by
    -- Reachability is the invariant, and the law of one event is what every step follows.
    have latch := fun (event : Event) (m after : Machine) (reached : m.Reached)
      (unnamed : NotNamedAt addr event m) (stepped : m.next event = .ok after) =>
        next_pending_unnamed pending reached.numbered unnamed stepped i
    rw [Runs.run_latched (fun _ _ _ => Runs.Reachable.step) latch reached unnamed ran]
    refine or_congr_right ⟨?_, ?_⟩
    · -- Only a turn of the loop sets a bit.
      rintro ⟨earlier, event, later, middle, split, before, set⟩
      cases event with
      | hart host => exact ⟨earlier, host, later, middle, split, before, set⟩
      | timer _ | input _ | blkTake | blkServe _ => exact set.elim
    · rintro ⟨earlier, host, later, middle, split, before, set⟩
      exact ⟨earlier, .hart host, later, middle, split, before, set⟩
  line _ takes := takes.chosen.pending
  check pc := by
    obtain ⟨vector, after, handled, outcome⟩ :=
      Machine.handleInterrupt_chosen reached.numbered pc
    refine ⟨vector, after, handled, ?_, handleInterrupt_setCsr pending handled⟩
    refine outcome.imp ?_ ?_
    · rintro ⟨type, chosen, enabled, on, entered⟩
      exact ⟨type, ⟨chosen, enabled, on⟩, entered⟩
    · rintro ⟨masked, result⟩
      exact ⟨fun type takes => masked type takes.chosen takes.enabled takes.globalOn, result⟩

/-- Raises the software line. -/
def softwareLineProgram : List (BitVec 32) :=
  [0x020002b7, 0x00100313, 0x0062a023] -- lui t0, 0x2000; li t1, 1; sw t1, (t0)

/-- The machine's pending word, with the software line raised. -/
theorem pending_words_own_raised :
    ∃ m : Machine, m.Reached ∧ m.LinePending .software ∧ m.PendingOwn mip := by
  obtain ⟨m, after, _, reached, stepped, raised⟩ := reached_step_of_test softwareLineProgram 2
    (fun _ after => after.bus.clint.softwareIntr) (by decide +kernel)
  have turned : Machine.next (.hart {}) m = .ok after := stepped
  have later : after.Reached := Runs.Reachable.step reached turned
  exact ⟨after, later, raised, pending_words_own later (by decide)⟩

/-- Pends, delegates and enables the supervisor's software interrupt, and drops to user mode. -/
def softwarePendingProgram : List (BitVec 32) :=
  [0x34415073, 0x30315073, 0x10415073, 0x10015073, -- csrwi mip, 2; csrwi mideleg, 2; csrwi sie, 2; csrwi sstatus, 2
    0x00000397, 0x01038393, 0x34139073, 0x30200073, -- auipc t2, 0; addi t2, t2, 16; csrw mepc, t2; mret
    0x00000013] -- nop

/-- A raised line does not show in the word, and a bit that the guest sets there is not delivered. -/
theorem pending_words_blind :
    (¬ ∀ m : Machine, m.Reached → m.PendingShown) ∧
      ¬ ∀ m : Machine, m.Reached → m.PendingDelivered := by
  -- The first program raises the software line, and the second pends the bit by hand.
  constructor
  · intro always
    obtain ⟨m, after, ran, reached, stepped, tested⟩ :=
      reached_step_of_test softwareLineProgram 2 (fun _ after => after.bus.clint.softwareIntr &&
        after.hart.csr mip &&& intrBitFlag .software mMode = 0) (by decide +kernel)
    simp only [Bool.and_eq_true, decide_eq_true_eq] at tested
    have turned : Machine.next (.hart {}) m = .ok after := stepped
    exact (always after (Runs.Reachable.step reached turned)).software.mpr tested.1 tested.2
  · intro always
    obtain ⟨m, after, ran, reached, stepped, tested⟩ :=
      reached_step_of_test softwarePendingProgram 8
        (fun m _ => m.hart.csr mip &&& intrBitFlag .software sMode ≠ 0 &&
          m.hart.csr mideleg &&& intrBitFlag .software sMode ≠ 0 &&
          m.hart.csr sie &&& intrBitFlag .software sMode ≠ 0 &&
          m.hart.priv = uMode && m.hart.GlobalOn sMode &&
          (m.handleInterrupt 0x1020).toOption.any (fun result => result.2.hart.priv = uMode))
        (by decide +kernel)
    simp only [Bool.and_eq_true, decide_eq_true_eq] at tested
    obtain ⟨⟨⟨⟨⟨pending, delegated⟩, enabled⟩, user⟩, on⟩, stayed⟩ := tested
    obtain ⟨⟨vector, polled⟩, handled, stayed⟩ := ok_of_test stayed
    obtain ⟨served, _, supervisor⟩ := always m reached .software (by decide) pending delegated
      enabled (.inl user) on 0x1020 vector polled handled
    have mode : polled.hart.priv = uMode := of_decide_eq_true stayed
    rw [supervisor] at mode
    exact absurd mode (by decide)

end Xemu
