import Xemu.Machine.Sizes
import Xemu.Machine.SlotRuns

/-! Runs of guest accesses to the virtio slots, and which of them stay within what the slots have. -/

namespace Xemu

namespace SlotState

open SlotAccess AddressSpace

/-- What a step asks of the state before it. -/
def Meets : SlotEvent → SlotState → Prop
  | .access _ access, state => state.hart = .idle → access.Admitted
  -- A request is taken out of a queue that has a size.
  | .pop thread _ _, state => state.notifying thread = .found → state.bus.blk.vdev.vq.vring.num ≠ 0
  | .serve host _, state => ∀ req, state.bus.blk.worker = .holding req →
    ¬ LeavesRecord host { state.bus with blk.worker := .busy } req
  -- The size may have become zero since the request was taken.
  | .first _ _, state => ∀ req, state.ending = .first req →
    state.bus.blk.vdev.vq.vring.num ≠ 0 ∧
      ∀ addr, state.bus.nextElement = .ok addr → Aimed addr (req.index.setWidth 64)
  | .second _ _, state => ∀ req addr, state.worker = .idle → state.ending = .second req addr →
    Aimed addr (req.inLen.setWidth 64)
  | .other _, _ | .look .., _ | .hand _, _ | .take, _ | .index .., _ => True

/-- A step that is served, or stopped by something else than the three looks beyond the slots. -/
structure Safe (event : SlotEvent) (state : SlotState) : Prop where
  backend : next event state ≠ .error .noBackend
  modulus : next event state ≠ .error .zeroModulus
  record : next event state ≠ .error .outsideRecord

/-! ### Steps -/

variable {state : SlotState} {host : Host} {fuel : Nat} {thread : SlotThread}

/-- A step with ordinary stops alone is safe. -/
theorem safe_of_orderly {event : SlotEvent} (orderly : Orderly (next event state)) :
    Safe event state :=
  ⟨fun stopped => (orderly.stopped _ stopped).backend rfl,
    fun stopped => (orderly.stopped _ stopped).modulus rfl,
    fun stopped => (orderly.stopped _ stopped).record rfl⟩

/-- A step that happens is safe. -/
theorem safe_of_ok {event : SlotEvent} {after : SlotState} (happens : next event state = .ok after) :
    Safe event state := by
  refine safe_of_orderly ?_
  rw [happens]
  exact .ok trivial

/-- A step that has one of the three stops in exactly one case is safe in every other. -/
theorem safe_iff_of_stopsWhen {event : SlotEvent} {stop : Stop} {cond : Prop}
    (three : stop = .noBackend ∨ stop = .zeroModulus ∨ stop = .outsideRecord)
    (stops : StopsWhen (next event state) stop cond) : Safe event state ↔ ¬ cond := by
  constructor
  · intro safe holds
    -- Safety rules out each of the three.
    have stopped := stops.iff.mpr holds
    rcases three with rfl | rfl | rfl
    · exact safe.backend stopped
    · exact safe.modulus stopped
    · exact safe.record stopped
  · intro no
    refine safe_of_orderly ⟨fun _ _ => trivial, fun early stopped => ?_⟩
    rcases stops.other early stopped with rfl | ordinary
    · exact absurd (stops.iff.mp stopped) no
    · exact ordinary

/-- A load is safe exactly when it is admitted. -/
theorem load_safe_iff (recorded : state.bus.Recorded) {slot : Fin 8} {offset : BitVec 12}
    {size : Nat} {params : Params} (idle : state.hart = .idle) :
    Safe (.access host (load slot offset size params)) state ↔
      (load slot offset size params).Admitted := by
  -- A word may miss the backend, and a byte may be behind the record, but no load does both.
  have step : next (.access host (load slot offset size params)) state =
      state.bus.asReadNommu host (slotAddr slot offset) size params >>= fun read =>
        .ok { state with bus := read.2 } := by
    rw [next, access, idle]
    simp only [notifies, Bool.false_eq_true, if_false, SlotAccess.run, bind_assoc, pure_bind]
    rfl
  by_cases word : size = 4
  · subst word
    have stops : StopsWhen (next (.access host (load slot offset 4 params)) state) .noBackend
        (offset.toNat ∈ backendReads ∧ slot ≠ 0) := by
      rw [step]
      exact .bind Bus.asReadNommu_slotWord Stop.noBackend_special fun read => .ok trivial
    rw [safe_iff_of_stopsWhen (.inl rfl) stops]
    simp [Admitted]
  · have stops : StopsWhen (next (.access host (load slot offset size params)) state) .outsideRecord
        (size = 1 ∧ slot = 0 ∧ 0x200 ≤ offset.toNat) := by
      rw [step]
      exact .bind (Bus.asReadNommu_slotNarrow recorded word) Stop.outsideRecord_special fun read =>
        .ok trivial
    rw [safe_iff_of_stopsWhen (.inr (.inr rfl)) stops]
    simp [Admitted, word]

/-- A store is safe exactly when it is admitted, and a notification always is. -/
theorem store_safe_iff {slot : Fin 8} {offset : BitVec 12} {size : Nat} {data : BitVec 64}
    {params : Params} (idle : state.hart = .idle) :
    Safe (.access host (store slot offset size data params)) state ↔
      (store slot offset size data params).Admitted := by
  -- A notification only begins the loop, and any other store is one of the bus.
  by_cases notify : slot = 0 ∧ offset = 0x050 ∧ size = 4
  · obtain ⟨rfl, rfl, rfl⟩ := notify
    have step : next (.access host (store 0 0x050 4 data params)) state =
        .ok { state with hart := .looking } := by
      rw [next, access, idle]
      rfl
    exact iff_of_true (safe_of_ok step) fun _ other => absurd rfl other
  · have plain : (slot == 0 && offset == 0x050 && size == 4) = false := by
      rw [Bool.eq_false_iff]
      simpa [and_assoc] using notify
    have step : next (.access host (store slot offset size data params)) state =
        state.bus.asWriteNommu host (slotAddr slot offset) size data params >>= fun written =>
          .ok { state with bus := written.2 } := by
      rw [next, access, idle]
      simp only [notifies, plain, Bool.false_eq_true, if_false, SlotAccess.run, bind_assoc,
        pure_bind]
      rfl
    have stops : StopsWhen (next (.access host (store slot offset size data params)) state)
        .noBackend (¬ (store slot offset size data params).Admitted) := by
      rw [step]
      exact .bind (Bus.asWriteNommuWith_slotStops notify) Stop.noBackend_special fun written =>
        .ok trivial
    rw [safe_iff_of_stopsWhen (.inl rfl) stops, not_not]

/-- Within the loop the hart makes no access. -/
theorem access_safe_iff (recorded : state.bus.Recorded) {access : SlotAccess} :
    Safe (.access host access) state ↔ Meets (.access host access) state := by
  -- While the hart is in the loop the step changes nothing.
  by_cases idle : state.hart = .idle
  · cases access with
    | load slot offset size params =>
      rw [load_safe_iff recorded idle]
      exact ⟨fun admitted _ => admitted, fun meets => meets idle⟩
    | store slot offset size data params =>
      rw [store_safe_iff idle]
      exact ⟨fun admitted _ => admitted, fun meets => meets idle⟩
  · have step : next (.access host access) state = .ok state := by
      rw [next, SlotState.access]
      split
      · rename_i same
        exact absurd same idle
      · rfl
    exact iff_of_true (safe_of_ok step) fun same => absurd same idle

/-- A request is popped safely where the queue has a size. -/
theorem pop_safe_iff : Safe (.pop thread host fuel) state ↔ Meets (.pop thread host fuel) state := by
  -- The step is taken only behind a look that has found a request.
  by_cases found : state.notifying thread = .found
  · have stops : StopsWhen (next (.pop thread host fuel) state) .zeroModulus
        (state.bus.blk.vdev.vq.vring.num = 0) := by
      rw [next, pop, found]
      exact .bind Bus.vqueueTake_stops Stop.zeroModulus_special fun popped => .ok trivial
    rw [safe_iff_of_stopsWhen (.inr (.inl rfl)) stops]
    exact ⟨fun some _ => some, fun meets => meets found⟩
  · have step : next (.pop thread host fuel) state = .ok state := by
      rw [next, pop]
      split
      · rename_i same
        exact absurd same found
      · rfl
    exact iff_of_true (safe_of_ok step) fun same => absurd same found

/-- The data of a request is moved safely unless it leaves the record. -/
theorem serve_safe_iff (recorded : state.bus.Recorded) :
    Safe (.serve host fuel) state ↔ Meets (.serve host fuel) state := by
  cases worker : state.bus.blk.worker with
  | holding req =>
    have stops : StopsWhen (next (.serve host fuel) state) .outsideRecord
        (LeavesRecord host { state.bus with blk.worker := .busy } req) := by
      have begun : Bus.Recorded { state.bus with blk.worker := .busy } := recorded
      rw [next, serve, worker]
      refine .bind (Bus.requestData_stops begun req) Stop.outsideRecord_special fun bus => ?_
      -- The status is a byte, which no slot takes.
      have work : Bus.NarrowWork host (fun _ => True) Stop.Ordinary (write host fuel) :=
        Bus.narrowWork fun _ ordinary => ordinary
      exact .bind (work.writeStatus trivial req) fun bus _ => .ok trivial
    rw [safe_iff_of_stopsWhen (.inr (.inr rfl)) stops]
    constructor
    · intro stays other same
      cases worker.symm.trans same
      exact stays
    · exact fun meets => meets req worker
  | idle | busy =>
    have step : next (.serve host fuel) state = .ok state := by rw [next, serve, worker]
    exact iff_of_true (safe_of_ok step) fun req same => by cases worker.symm.trans same

/-- A half of an element is stored safely where it is aimed well. -/
theorem half_stops {addr data : BitVec 64} {ending : Ending} :
    StopsWhen (state.half host fuel addr data ending) .noBackend (¬ Aimed addr data) := by
  unfold half
  split
  · -- The register of the notification belongs to the first slot.
    rename_i notify
    refine .never (.ok trivial) Stop.noBackend_special fun missing => missing ?_
    intro slot offset same
    obtain ⟨rfl, -⟩ := slotAddr_inj (notify.symm.trans same)
    exact fun _ other => absurd rfl other
  · rename_i plain
    exact .bind (Bus.nestedWriter_word plain) Stop.noBackend_special fun bus => .ok trivial

/-- The first half is stored safely where the queue still has a size. -/
theorem first_safe_iff : Safe (.first host fuel) state ↔ Meets (.first host fuel) state := by
  -- The place of the element is computed first, and then its first half is stored there.
  cases ending : state.ending with
  | first req =>
    by_cases zero : state.bus.blk.vdev.vq.vring.num = 0
    · have stopped : next (.first host fuel) state = .error .zeroModulus := by
        rw [next, first, ending]
        dsimp only
        rw [Bus.nextElement, if_pos zero]
        rfl
      exact iff_of_false (fun safe => safe.modulus stopped) fun meets => (meets req ending).1 zero
    · obtain ⟨addr, found⟩ : ∃ addr, state.bus.nextElement = .ok addr := ⟨_, if_neg zero⟩
      have stops : StopsWhen (next (.first host fuel) state) .noBackend
          (¬ Aimed addr (req.index.setWidth 64)) := by
        rw [next, first, ending]
        dsimp only
        rw [found, ok_bind]
        exact half_stops
      rw [safe_iff_of_stopsWhen (.inl rfl) stops, not_not]
      constructor
      · intro aimed other same
        cases ending.symm.trans same
        refine ⟨zero, fun place also => ?_⟩
        cases found.symm.trans also
        exact aimed
      · exact fun meets => (meets req ending).2 addr found
  | outside | second | index =>
    have step : next (.first host fuel) state = .ok state := by rw [next, first, ending]
    exact iff_of_true (safe_of_ok step) fun req same => by cases ending.symm.trans same

/-- The second half is stored safely where it is aimed well. -/
theorem second_safe_iff : Safe (.second host fuel) state ↔ Meets (.second host fuel) state := by
  -- The second half has its place from the first, whatever the size is now.
  by_cases here : ∃ req addr, state.worker = .idle ∧ state.ending = .second req addr
  · obtain ⟨req, addr, idle, ending⟩ := here
    have stops : StopsWhen (next (.second host fuel) state) .noBackend
        (¬ Aimed addr (req.inLen.setWidth 64)) := by
      rw [next, second, idle, ending]
      exact half_stops
    rw [safe_iff_of_stopsWhen (.inl rfl) stops, not_not]
    constructor
    · intro aimed other place _ same
      cases ending.symm.trans same
      exact aimed
    · exact fun meets => meets req addr idle ending
  · have step : next (.second host fuel) state = .ok state := by
      rw [next, second]
      split
      · rename_i req addr idle ending
        exact absurd ⟨req, addr, idle, ending⟩ here
      · rfl
    exact iff_of_true (safe_of_ok step) fun req addr idle ending =>
      absurd ⟨req, addr, idle, ending⟩ here

/-- The index behind the element has two bytes, which no slot takes. -/
theorem index_orderly : Orderly (next (.index host fuel) state) := by
  have work : Bus.NarrowWork host (fun _ => True) Stop.Ordinary (write host fuel) :=
    Bus.narrowWork fun _ ordinary => ordinary
  rw [next, index]
  split
  · exact .bind (work.publish trivial) fun bus _ => .ok trivial
  · exact .ok trivial

/-- So has the index of the available ring. -/
theorem look_orderly : Orderly (next (.look thread host) state) := by
  have work : Bus.NarrowWork host (fun _ => True) Stop.Ordinary (write host 0) :=
    Bus.narrowWork fun _ ordinary => ordinary
  rw [next, look]
  split
  · exact .bind (work.virtioQueueEmpty trivial) fun read _ => .ok trivial
  · exact .ok trivial

/-- A step is safe exactly when it meets what is asked of it. -/
theorem safe_iff_meets (event : SlotEvent) (recorded : state.bus.Recorded) :
    Safe event state ↔ Meets event state := by
  -- Five kinds of steps are asked for something, and the others have ordinary stops alone.
  cases event with
  | access host access => exact access_safe_iff recorded
  | pop thread host fuel => exact pop_safe_iff
  | serve host fuel => exact serve_safe_iff recorded
  | first host fuel => exact first_safe_iff
  | second host fuel => exact second_safe_iff
  | index host fuel => exact iff_of_true (safe_of_orderly index_orderly) trivial
  | look thread host => exact iff_of_true (safe_of_orderly look_orderly) trivial
  | other after => exact iff_of_true (safe_of_ok rfl) trivial
  | hand thread => exact iff_of_true (safe_of_ok rfl) trivial
  | take => exact iff_of_true (safe_of_ok rfl) trivial

/-! ### Runs -/

/-- A half of an element leaves the configuration record as it is. -/
theorem half_recorded (recorded : state.bus.Recorded) {addr data : BitVec 64} {ending : Ending} :
    Ensures (state.half host fuel addr data ending) fun after => after.bus.Recorded := by
  refine .ite (fun _ => .ok recorded) fun _ => ?_
  exact .bind (Bus.recorded_invariant.nestedWriter _ _ _ _ _ recorded) fun bus kept => .ok kept

/-- Where a thread is in the loop does not matter to the devices. -/
@[simp] theorem bus_setNotifying (state : SlotState) (notifying : Notifying)
    (thread : SlotThread) : (state.setNotifying notifying thread).bus = state.bus := by
  cases thread <;> rfl

/-- No step gives the device another configuration record. -/
theorem next_recorded (event : SlotEvent) (recorded : state.bus.Recorded) :
    Ensures (next event state) fun after => after.bus.Recorded := by
  have work (host : Host) (fuel : Nat) :
      Bus.QueueWork host Bus.Recorded (fun _ => True) (write host fuel) :=
    Bus.recorded_invariant.queueWork (Bus.recorded_invariant.nestedWriter _)
  cases event with
  | access host access =>
    rw [next, SlotState.access]
    split
    · refine .ite (fun _ => .ok recorded) fun _ => ?_
      -- The access itself is a read or a write through the bus.
      cases access with
      | load slot offset size params =>
        exact .bind (.bind (Bus.recorded_invariant.asReadNommu recorded _ _ _) fun read kept =>
          .ok kept) fun bus kept => .ok kept
      | store slot offset size data params =>
        exact .bind (.bind (Bus.recorded_invariant.asWriteNommu recorded _ _ _ _)
          fun written kept => .ok kept) fun bus kept => .ok kept
    · exact .ok recorded
  | other after => exact .ok recorded
  | look thread host =>
    rw [next, look]
    split
    · exact .bind ((work host 0).virtioQueueEmpty recorded).ensures fun read kept =>
        .ok (by simpa using kept)
    · exact .ok recorded
  | pop thread host fuel =>
    rw [next, pop]
    split
    · exact .bind ((work host fuel).vqueueTake recorded fun _ => trivial).ensures
        fun popped kept => .ok (by simpa using kept)
    · exact .ok recorded
  | hand thread =>
    rw [next, hand]
    split
    · refine .ok ?_
      rw [bus_setNotifying]
      exact recorded
    · exact .ok recorded
  | take =>
    refine .ok (Bus.workerTake_keeps (fun blk same => ?_) recorded)
    rw [Bus.Recorded, same]
    exact recorded
  | serve host fuel =>
    rw [next, serve]
    split
    · refine .bind ((work host fuel).requestData trivial ?_ _).ensures fun bus kept => ?_
      · exact recorded
      · exact .bind ((work host fuel).writeStatus kept _).ensures fun bus kept => .ok kept
    · exact .ok recorded
  | first host fuel =>
    rw [next, first]
    split
    · exact .andThen fun addr => half_recorded recorded
    · exact .ok recorded
  | second host fuel =>
    rw [next, second]
    split
    · exact half_recorded recorded
    · exact .ok recorded
  | index host fuel =>
    rw [next, index]
    split
    · exact .bind ((work host fuel).publish recorded).ensures fun bus kept => .ok kept
    · exact .ok recorded

end SlotState

/--
Which runs of accesses to the virtio slots and of queue work never look where nothing is.

They are those whose every step meets what is asked of it, from any state that the machine reaches.
-/
theorem slot_access_safe {m : Machine} (reached : m.Reached) (events : List SlotEvent) :
    Runs.Along SlotState.next SlotState.Safe (.of m.bus) events ↔
      Runs.Along SlotState.next SlotState.Meets (.of m.bus) events :=
  Runs.along_iff_of_invariant (fun state => state.bus.Recorded)
    (fun event _ after recorded stepped => SlotState.next_recorded event recorded after stepped)
    (fun event _ recorded => SlotState.safe_iff_meets event recorded) reached.sized.config

/-- A machine whose three files are empty. -/
def bareMachine : Machine := .reset (.zeroed 0) (.zeroed 0) (.zeroed 0)

/-- No run has to happen for the machine to be in the state it starts in. -/
theorem bareMachine_reached : bareMachine.Reached :=
  ⟨bareMachine, [], ⟨_, _, _, rfl⟩, rfl⟩

/-- A flush request in RAM: its rings at the start, its chain and its header behind them. -/
def postedFlush : Buffer :=
  { size := ramSize
    bytes := fun addr =>
      match addr.toNat with
      -- The first descriptor has an indirect table of two entries, and is in the available ring.
      | 0x001 => 0x01 | 0x003 => 0x80 | 0x008 => 0x20 | 0x00C => 0x04 | 0x082 => 0x01
      -- The entries of the table are the header and the status.
      | 0x101 => 0x02 | 0x103 => 0x80 | 0x108 => 0x10 | 0x10C => 0x01 | 0x10E => 0x01
      | 0x111 => 0x03 | 0x113 => 0x80 | 0x118 => 0x01 | 0x11C => 0x02
      -- The header asks for a flush.
      | 0x200 => 0x04
      | _ => 0 }

/-- The guest sets up a queue of eight at the start of RAM, posts the request, and notifies. -/
def notifiedFlush : List SlotEvent :=
  [.access {} (.store Bus.blkSlot 0x028 4 0x1000 .none),
    .access {} (.store Bus.blkSlot 0x038 4 8 .none),
    .access {} (.store Bus.blkSlot 0x03C 4 0x1000 .none),
    .access {} (.store Bus.blkSlot 0x040 4 0x80000 .none),
    .other { bareMachine.bus with ram := postedFlush },
    .access {} (.store Bus.blkSlot 0x050 4 0 .none),
    .look .hart {}, .pop .hart {} 0, .hand .hart, .look .hart {}, .take]

/-- A run in which the worker serves the request. -/
theorem slot_access_safe_flush :
    let events := notifiedFlush ++ [.serve {} 0, .first {} 0, .second {} 0, .index {} 0]
    Runs.Along SlotState.next SlotState.Safe (.of bareMachine.bus) events ↔
      Runs.Along SlotState.next SlotState.Meets (.of bareMachine.bus) events :=
  slot_access_safe bareMachine_reached _

/-- A computation is seen to end with a stop. -/
def stopsAt {α : Type} (comp : Except Stop α) (stop : Stop) : Bool :=
  match comp with
  | .error early => early == stop
  | .ok _ => false

/-- What is seen to end with a stop does so. -/
theorem eq_of_stopsAt {α : Type} {comp : Except Stop α} {stop : Stop}
    (seen : stopsAt comp stop = true) : comp = .error stop := by
  cases comp with
  | error early => exact congrArg Except.error (eq_of_beq seen)
  | ok result => cases seen

/--
Four runs that look where nothing is.

They end at a register without a backend, read and written, at a byte behind the configuration record, and at a queue whose size the guest makes zero while the worker holds a request.
-/
theorem slot_access_unsafe :
    bareMachine.Reached ∧
      Runs.run SlotState.next (.of bareMachine.bus) [.access {} (.load 1 0x010 4 .none)] =
        .error .noBackend ∧
      Runs.run SlotState.next (.of bareMachine.bus) [.access {} (.store 7 0x070 4 0 .none)] =
        .error .noBackend ∧
      Runs.run SlotState.next (.of bareMachine.bus) [.access {} (.load Bus.blkSlot 0x200 1 .none)] =
        .error .outsideRecord ∧
      Runs.run SlotState.next (.of bareMachine.bus) (notifiedFlush ++
        [.access {} (.store Bus.blkSlot 0x038 4 0 .none), .serve {} 0, .first {} 0]) =
          .error .zeroModulus :=
  ⟨bareMachine_reached, eq_of_stopsAt (by decide +kernel), eq_of_stopsAt (by decide +kernel),
    eq_of_stopsAt (by decide +kernel), eq_of_stopsAt (by decide +kernel)⟩

end Xemu
