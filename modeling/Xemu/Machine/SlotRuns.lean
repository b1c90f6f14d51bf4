import Xemu.Machine.QueueSteps
import Xemu.Machine.SlotStops

/-! An access to a virtio slot, with all the queue work it causes, as a run of single steps. -/

namespace Xemu

open AddressSpace

namespace Bus

variable {host : Host} {fuel : Nat} {bus after : Bus}

/-- The queue work, its stores of words left out, keeps the worker where it is. -/
theorem narrowWork_worker (worker : Worker) :
    NarrowWork host (fun bus => bus.blk.worker = worker) (fun _ => True)
      (nestedWriter host fuel) where
  ordinary _ _ := trivial
  kept _ _ _ _ same := fun _ read =>
    (congrArg VirtioBlk.worker (asReadNommu_keeps read).blk).trans same
  narrow size narrow bus addr data same := by
    have apart : ¬ Reaches addr size := fun reaches => narrow reaches.1
    refine (nestedWriter_stored apart fuel bus data).mono (fun after stored => ?_) fun _ _ => trivial
    rw [stored.blk]
    exact same
  blk _ _ _ kept _ same := kept.trans same
  signal _ same := fun _ _ => same

/-- Neither does a pop move it. -/
theorem vqueuePop_worker : Ensures (bus.vqueuePop host (nestedWriter host fuel)) fun result =>
    result.2.blk.worker = bus.blk.worker := by
  have work := @narrowWork_worker host fuel bus.blk.worker
  rw [vqueuePop_parts]
  refine .bind (work.virtioQueueEmpty rfl).ensures fun look same => ?_
  refine .ite (fun _ => .ok same) fun _ => ?_
  exact .bind (work.vqueueTake same fun _ => trivial).ensures fun popped kept => .ok kept

/-- So does a store of a word that is no notification. -/
theorem nestedWriter_worker {addr data : BitVec 64} (plain : addr ≠ SlotState.notifyAddr) :
    Ensures (nestedWriter host (fuel + 1) bus addr 4 data) fun after =>
      after.blk.worker = bus.blk.worker := by
  have written : Ensures (bus.asWriteNommuWith host (nestedWriter host fuel) fuel addr 4 data .none)
      fun result => result.2.blk.worker = bus.blk.worker := by
    by_cases taken : ∃ slot, (route rootChildren addr).1 = .virtio slot
    · obtain ⟨slot, taken⟩ := taken
      obtain ⟨offset, rfl⟩ := exists_slotAddr taken
      rw [asWriteNommuWith_slot rfl]
      -- A register of the device is not where its worker is.
      have registers : Ensures (mmioWrite host (nestedWriter host fuel) fuel bus slot
          (offset.setWidth 64) data 4) fun after => after.blk.worker = bus.blk.worker := by
        rw [mmioWrite, if_neg (not_not.mpr rfl)]
        refine .ite (fun _ => .andThen fun _ => .ok rfl) fun first => ?_
        refine .ite (fun notify => ?_) fun _ => .andThen fun vdev => .ok rfl
        have zero : slot = 0 := Fin.ext (not_not.mp first)
        exact absurd (by rw [zero, eq_of_queueNotify notify]; rfl) plain
      exact .bind registers fun after same => .ok same
    · refine .ite (fun _ => .error) fun _ => ?_
      rw [writeFrom_route]
      have other (slot : Fin 8) : (route rootChildren addr).1 ≠ .virtio slot := fun device =>
        taken ⟨slot, device⟩
      exact (deviceWrite_changed other).mono fun result changed => by rw [changed.blk]
  exact .bind written fun result same => .ok same

/-- A store of a word to the register of a notification is the loop of the notification. -/
theorem asWriteNommuWith_notify (write : Writer) (data : BitVec 64) (params : Params) :
    bus.asWriteNommuWith host write fuel (slotAddr 0 0x050) 4 data params =
      notifyLoop host write fuel bus >>= fun bus => .ok (0, bus) := by
  have loop : mmioWrite host write fuel bus 0 (BitVec.setWidth 64 (0x050 : BitVec 12)) data 4 =
      notifyLoop host write fuel bus := rfl
  rw [asWriteNommuWith_slot rfl, loop]

/-- So is one of the device itself. -/
theorem nestedWriter_notify (data : BitVec 64) :
    nestedWriter host (fuel + 1) bus SlotState.notifyAddr 4 data =
      notifyLoop host (nestedWriter host fuel) fuel bus := by
  rw [nestedWriter]
  dsimp only
  rw [SlotState.notifyAddr, asWriteNommuWith_notify]
  cases notifyLoop host (nestedWriter host fuel) fuel bus <;> rfl

end Bus

namespace SlotState

variable {state : SlotState} {host : Host} {fuel : Nat} {thread : SlotThread} {after : Bus}
variable {req : VqRequest}

/-- Where a thread was put in the loop is where it is. -/
@[simp] theorem notifying_setNotifying (notifying : Notifying) :
    (state.setNotifying notifying thread).notifying thread = notifying := by
  cases thread <;> rfl

/-- A pop of the next request is a look that finds one, and its removal from the queue. -/
theorem run_pop (looking : state.notifying thread = .looking)
    (popped : state.bus.vqueuePop host (write host fuel) = .ok (some req, after)) :
    Runs.run next state [.look thread host, .pop thread host fuel] =
      .ok ({ state with bus := after }.setNotifying (.handing req) thread) := by
  -- The pop is its two parts, and nothing comes between the steps.
  rw [Bus.vqueuePop_parts] at popped
  obtain ⟨⟨empty, middle⟩, looked, rest⟩ := bind_eq_ok.mp popped
  cases empty with
  | true => cases rest
  | false =>
    obtain ⟨⟨taken, last⟩, removed, same⟩ := bind_eq_ok.mp rest
    cases Except.ok.inj same
    have first : next (.look thread host) state =
        .ok ({ state with bus := middle }.setNotifying .found thread) := by
      rw [next, look, looking]
      dsimp only
      rw [looked]
      rfl
    rw [Runs.run_cons_ok first]
    cases thread <;> simp [Runs.run, next, pop, notifying, setNotifying, removed]

/-- A look that finds nothing ends the loop. -/
theorem run_empty (looking : state.notifying thread = .looking)
    (popped : state.bus.vqueuePop host (write host fuel) = .ok (none, after)) :
    Runs.run next state [.look thread host] =
      .ok ({ state with bus := after }.setNotifying .idle thread) := by
  -- A queue that is not empty would have given a request.
  rw [Bus.vqueuePop_parts] at popped
  obtain ⟨⟨empty, middle⟩, looked, rest⟩ := bind_eq_ok.mp popped
  cases empty with
  | true =>
    cases Except.ok.inj rest
    have first : next (.look thread host) state =
        .ok ({ state with bus := after }.setNotifying .idle thread) := by
      rw [next, look, looking]
      dsimp only
      rw [looked]
      rfl
    exact Runs.run_cons_ok first []
  | false =>
    obtain ⟨_, _, same⟩ := bind_eq_ok.mp rest
    cases same

/-- A request is put into an empty `_req`. -/
theorem run_hand (handing : state.notifying thread = .handing req)
    (empty : state.bus.blk.req = none) :
    Runs.run next state [.hand thread] =
      .ok ({ state with bus.blk.req := some req }.setNotifying .looking thread) := by
  have step : state.hand thread =
      { state with bus.blk.req := some req }.setNotifying .looking thread := by
    rw [hand, handing, empty]
  exact Runs.run_cons_ok (congrArg Except.ok step) []

/-- A notification by the worker itself is a run of steps, which leaves the worker busy. -/
theorem run_nested (left : Nat) (looking : state.worker = .looking)
    (busy : state.bus.blk.worker = .busy)
    (notified : state.bus.notifyLoop host (write host fuel) left = .ok after) :
    after.blk.worker = .busy ∧ ∃ events,
      Runs.run next state events = .ok { state with bus := after, worker := .idle } := by
  induction left generalizing state with
  | zero => cases notified
  | succ left ih =>
    rw [Bus.notifyLoop] at notified
    obtain ⟨⟨found, middle⟩, popped, rest⟩ := bind_eq_ok.mp notified
    have kept : middle.blk.worker = .busy := (Bus.vqueuePop_worker _ popped).trans busy
    cases found with
    | none =>
      cases Except.ok.inj rest
      exact ⟨kept, _, @run_empty state host fuel .worker _ looking popped⟩
    | some req =>
      obtain ⟨handed, handled, later⟩ := bind_eq_ok.mp rest
      unfold Bus.handleRequest at handled
      split at handled
      · rename_i empty
        cases Except.ok.inj handled
        let popped' : SlotState := { state with bus := middle, worker := .handing req }
        let handed : SlotState :=
          { state with bus := { middle with blk.req := some req }, worker := .looking }
        have first : Runs.run next state [.look .worker host, .pop .worker host fuel] =
            .ok popped' := run_pop looking popped
        have second : Runs.run next popped' [.hand .worker] = .ok handed :=
          run_hand rfl (Option.isNone_iff_eq_none.mp empty)
        obtain ⟨last, events, ran⟩ := @ih handed rfl kept later
        refine ⟨last,
          [.look .worker host, .pop .worker host fuel] ++ ([.hand .worker] ++ events), ?_⟩
        rw [Runs.run_append first, Runs.run_append second, ran]
      · -- Behind a full `_req` the worker would wait for itself.
        cases handled

/-- A half of an element is a step, or that and a notification. -/
theorem run_half {event : SlotEvent} {addr data : BitVec 64} {ending : Ending}
    (busy : state.bus.blk.worker = .busy) (outside : state.worker = .idle)
    (step : next event state = state.half host fuel addr data ending)
    (written : write host fuel state.bus addr 4 data = .ok after) :
    after.blk.worker = .busy ∧ ∃ events,
      Runs.run next state (event :: events) = .ok { state with bus := after, ending } := by
  -- At the register of the notification the store is the loop, which the worker is then in.
  by_cases notify : addr = notifyAddr
  · subst notify
    rw [write, Bus.nestedWriter_notify] at written
    let begun : SlotState := { state with worker := .looking, ending }
    rw [half, if_pos rfl] at step
    cases fuel with
    | zero => cases written
    | succ left =>
      obtain ⟨kept, events, ran⟩ := @run_nested begun host left after (left + 1) rfl busy written
      refine ⟨kept, events, ?_⟩
      rw [Runs.run_cons_ok step, ran, ← outside]
  · rw [half, if_neg notify, written] at step
    exact ⟨(Bus.nestedWriter_worker notify _ written).trans busy, [], Runs.run_cons_ok step []⟩

/-- What the worker does with the request it holds is a run of steps. -/
theorem run_serve (idle : state.worker = .idle) (outside : state.ending = .outside)
    (holding : state.bus.blk.worker = .holding req)
    (served : state.bus.workerServe host (write host fuel) = .ok after) :
    ∃ events, Runs.run next state events = .ok { state with bus := after } := by
  rw [Bus.workerServe, holding] at served
  obtain ⟨done, request, same⟩ := bind_eq_ok.mp served
  cases Except.ok.inj same
  rw [Bus.doRequest_parts] at request
  obtain ⟨moved, data, rest⟩ := bind_eq_ok.mp request
  rw [Bus.complete_parts] at rest
  obtain ⟨status, told, rest⟩ := bind_eq_ok.mp rest
  obtain ⟨addr, found, rest⟩ := bind_eq_ok.mp rest
  obtain ⟨half, index, rest⟩ := bind_eq_ok.mp rest
  obtain ⟨whole, length, published⟩ := bind_eq_ok.mp rest
  have work := @Bus.narrowWork_worker host (fuel + 1) .busy
  have busy : status.blk.worker = .busy :=
    (work.writeStatus ((work.requestData trivial rfl req).ensures _ data) req).ensures _ told
  -- The states between the steps: before the element, within it, and behind it.
  let before : SlotState := { state with bus := status, ending := .first req }
  let within : SlotState := { state with bus := half, ending := .second req (addr + 4) }
  let behind : SlotState := { state with bus := whole, ending := .index }
  have serving : next (.serve host fuel) state = .ok before := by
    rw [next, serve, holding]
    dsimp only
    rw [data, ok_bind, told]
    rfl
  have first : next (.first host fuel) before =
      before.half host fuel addr (req.index.setWidth 64) (.second req (addr + 4)) := by
    rw [next, SlotState.first, found]
    rfl
  have second : next (.second host fuel) within =
      within.half host fuel (addr + 4) (req.inLen.setWidth 64) .index := by
    rw [next, SlotState.second, show within.worker = .idle from idle]
  obtain ⟨still, nested, ranFirst⟩ :=
    @run_half before host fuel half _ addr _ _ busy idle first index
  obtain ⟨_, further, ranSecond⟩ :=
    @run_half within host fuel whole _ (addr + 4) _ _ still idle second length
  have last : next (.index host fuel) behind =
      .ok { state with bus := { done with blk.worker := .idle }, ending := .outside } := by
    rw [next, SlotState.index, show behind.worker = .idle from idle]
    dsimp only [behind]
    rw [published]
    rfl
  refine ⟨.serve host fuel :: ((.first host fuel :: nested) ++
    ((.second host fuel :: further) ++ [.index host fuel])), ?_⟩
  rw [Runs.run_cons_ok serving, Runs.run_append ranFirst, Runs.run_append ranSecond,
    Runs.run_cons_ok last, Runs.run_nil, ← outside]

/-- The worker comes to its end, whether it holds a request or not. -/
theorem run_work (idle : state.worker = .idle) (outside : state.ending = .outside)
    (free : state.bus.blk.worker ≠ .busy)
    (served : state.bus.workerServe host (write host fuel) = .ok after) :
    after.blk.worker = .idle ∧
      ∃ events, Runs.run next state events = .ok { state with bus := after } := by
  -- A worker that waits has nothing to do, and one that holds a request ends it.
  cases worker : state.bus.blk.worker with
  | busy => exact absurd worker free
  | idle =>
    rw [Bus.workerServe, worker] at served
    cases Except.ok.inj served
    exact ⟨worker, [], rfl⟩
  | holding req =>
    refine ⟨?_, run_serve idle outside worker served⟩
    rw [Bus.workerServe, worker] at served
    obtain ⟨done, _, same⟩ := bind_eq_ok.mp served
    cases Except.ok.inj same
    rfl

/-- Handing a request over is a run of steps, the worker's own ones first if `_req` is taken. -/
theorem run_handle (idle : state.worker = .idle) (outside : state.ending = .outside)
    (handing : state.hart = .handing req)
    (handled : state.bus.handleRequest host (write host fuel) req = .ok after) :
    ∃ events, Runs.run next state events = .ok { state with bus := after, hart := .looking } := by
  unfold Bus.handleRequest at handled
  split at handled
  · rename_i empty
    cases Except.ok.inj handled
    exact ⟨_, @run_hand state .hart req handing (Option.isNone_iff_eq_none.mp empty)⟩
  · split at handled
    · cases handled
    · rename_i free
      obtain ⟨middle, served, rest⟩ := bind_eq_ok.mp handled
      cases Except.ok.inj rest
      -- The worker takes what is in `_req` once it has served what it held.
      obtain ⟨ended, steps, ran⟩ := run_work idle outside free served
      let taken : SlotState := { state with bus := middle.workerTake }
      have take : Runs.run next { state with bus := middle } [.take] = .ok taken := rfl
      have hand : Runs.run next taken [.hand .hart] =
          .ok { state with bus := { middle.workerTake with blk.req := some req }, hart := .looking } :=
        @run_hand taken .hart req handing (QueueState.req_workerTake ended)
      refine ⟨steps ++ ([.take] ++ [.hand .hart]), ?_⟩
      rw [Runs.run_append ran, Runs.run_append take, hand]

/-- A notification of the guest is a run of steps. -/
theorem run_notify (left : Nat) (idle : state.worker = .idle) (outside : state.ending = .outside)
    (looking : state.hart = .looking)
    (notified : state.bus.notifyLoop host (write host fuel) left = .ok after) :
    ∃ events, Runs.run next state events = .ok { state with bus := after, hart := .idle } := by
  -- The induction is on the rounds left, each of which looks and hands over.
  induction left generalizing state with
  | zero => cases notified
  | succ left ih =>
    rw [Bus.notifyLoop] at notified
    obtain ⟨⟨found, middle⟩, popped, rest⟩ := bind_eq_ok.mp notified
    cases found with
    | none =>
      cases Except.ok.inj rest
      exact ⟨_, @run_empty state host fuel .hart _ looking popped⟩
    | some req =>
      obtain ⟨handed, handled, later⟩ := bind_eq_ok.mp rest
      let taken : SlotState := { state with bus := middle, hart := .handing req }
      let ready : SlotState := { state with bus := handed, hart := .looking }
      have first : Runs.run next state [.look .hart host, .pop .hart host fuel] = .ok taken :=
        run_pop looking popped
      obtain ⟨steps, second⟩ := @run_handle taken host fuel handed req idle outside rfl handled
      obtain ⟨events, ran⟩ := @ih ready idle outside rfl later
      refine ⟨[.look .hart host, .pop .hart host fuel] ++ (steps ++ events), ?_⟩
      rw [Runs.run_append first, Runs.run_append second, ran]

/-- An access of the guest that completes is a run of steps, and with nobody at work between. -/
theorem run_access {bus : Bus} {access : SlotAccess}
    (completed : access.run host bus = .ok after) :
    ∃ events, Runs.run next (.of bus) (.access host access :: events) = .ok (.of after) := by
  cases notify : access.notifies with
  | false =>
    have step : next (.access host access) (.of bus) = .ok (.of after) := by
      rw [next, SlotState.access]
      simp only [of, notify, completed]
      rfl
    exact ⟨[], Runs.run_cons_ok step []⟩
  | true =>
    -- Only a store of a word to one register notifies.
    cases access with
    | load slot offset size params => cases notify
    | store slot offset size data params =>
      simp only [SlotAccess.notifies, Bool.and_eq_true, beq_iff_eq] at notify
      obtain ⟨⟨rfl, rfl⟩, rfl⟩ := notify
      rw [SlotAccess.run, Bus.asWriteNommu, Bus.asWriteNommuWith_notify] at completed
      obtain ⟨_, written, same⟩ := bind_eq_ok.mp completed
      cases Except.ok.inj same
      obtain ⟨_, loop, also⟩ := bind_eq_ok.mp written
      cases Except.ok.inj also
      -- A loop that completes had room for a first look.
      obtain ⟨left, bound⟩ : ∃ left, host.fuel = left + 1 := by
        cases fuel : host.fuel with
        | zero =>
          rw [fuel] at loop
          cases loop
        | succ left => exact ⟨left, rfl⟩
      rw [bound] at loop
      let begun : SlotState := { bus, hart := .looking }
      have first : next (.access host (.store 0 0x050 4 data params)) (.of bus) = .ok begun := rfl
      obtain ⟨events, ran⟩ := @run_notify begun host left _ (left + 1) rfl rfl rfl loop
      exact ⟨events, (Runs.run_cons_ok first events).trans ran⟩

/-- A sequence of accesses that all complete is a run of steps, to the same devices. -/
theorem run_accesses {bus : Bus} {accesses : List (Host × SlotAccess)}
    (completed : Runs.run (fun (access : Host × SlotAccess) bus => access.2.run access.1 bus) bus
      accesses = .ok after) : ∃ events, Runs.run next (.of bus) events = .ok (.of after) := by
  -- The accesses follow each other, each with the steps it causes.
  induction accesses generalizing bus with
  | nil =>
    cases Except.ok.inj completed
    exact ⟨[], rfl⟩
  | cons access rest ih =>
    obtain ⟨middle, served, remaining⟩ := Runs.run_cons_inv completed
    obtain ⟨steps, first⟩ := run_access served
    obtain ⟨events, later⟩ := ih remaining
    exact ⟨.access access.1 access.2 :: steps ++ events, (Runs.run_append first events).trans later⟩

end SlotState

end Xemu
