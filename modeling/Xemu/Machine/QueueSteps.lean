import Xemu.Lib.Runs
import Xemu.Machine.BusWrite

/-! The block queue as a system of steps: its driver, the notifying thread, and its worker. -/

namespace Xemu

/-- The queue between two steps, with what went through each of its stages, oldest first. -/
structure QueueState where
  bus : Bus
  /-- The request that the notifying thread popped and has not put into `_req` yet. -/
  popping : Option VqRequest := none
  published : List (BitVec 16) := []
  popped : List (BitVec 32) := []
  handed : List (BitVec 32) := []
  taken : List (BitVec 32) := []
  served : List (BitVec 32) := []

/-- The steps of the three parties, each with what it takes from outside. -/
inductive QueueEvent where
  /-- The guest goes on, and puts these heads into the available ring. -/
  | drive (after : Bus) (heads : List (BitVec 16))
  /-- The notifying thread calls `vqueue_pop`. -/
  | pop (host : Host) (fuel : Nat)
  /-- It looks at `_req` in `virtio_blk_handle_request`. -/
  | hand
  /-- The worker looks at `_req` in `_routine`. -/
  | take
  /-- It serves the request it took. -/
  | serve (host : Host) (fuel : Nat)

namespace QueueState

/-- The notifying thread looks for the next request, once it has handed over the one before. -/
def pop (host : Host) (fuel : Nat) (state : QueueState) : Except Stop QueueState :=
  match state.popping with
  | some _ => .ok state
  | none => do
    let (found, bus) ← state.bus.vqueuePop host (Bus.nestedWriter host fuel)
    return { state with
      bus, popping := found, popped := state.popped ++ found.toList.map (·.index) }

/-- The notifying thread puts its request into `_req`, or waits as long as there is one. -/
def hand (state : QueueState) : QueueState :=
  match state.popping, state.bus.blk.req with
  | some req, none =>
    { state with
      bus := { state.bus with blk.req := some req }
      popping := none
      handed := state.handed ++ [req.index] }
  | _, _ => state

/-- The worker takes the request out of `_req`, or waits until there is one. -/
def take (state : QueueState) : QueueState :=
  match state.bus.blk.worker, state.bus.blk.req with
  | .idle, some req =>
    { state with bus := state.bus.workerTake, taken := state.taken ++ [req.index] }
  | _, _ => state

/-- The worker serves the request it holds. -/
def serve (host : Host) (fuel : Nat) (state : QueueState) : Except Stop QueueState :=
  match state.bus.blk.worker with
  | .holding req => do
    let bus ← state.bus.workerServe host (Bus.nestedWriter host fuel)
    return { state with bus, served := state.served ++ [req.index] }
  | _ => .ok state

/-- The effect of one step. -/
def next : QueueEvent → QueueState → Except Stop QueueState
  | .drive after heads, state =>
    -- What the guest may do besides is asked of the step, not built into it.
    .ok { state with bus := after, published := state.published ++ heads }
  | .pop host fuel, state => state.pop host fuel
  | .hand, state => .ok state.hand
  | .take, state => .ok state.take
  | .serve host fuel, state => state.serve host fuel

section Steps

variable {state : QueueState} {host : Host} {fuel : Nat} {req : VqRequest} {after : Bus}

/-- A look of the worker at `_req` is one of `workerTake`. -/
theorem bus_take (state : QueueState) : state.take.bus = state.bus.workerTake := by
  unfold take Bus.workerTake
  split <;> simp [*]

/-- The worker keeps out of what the notifying thread popped, and out of what was published. -/
theorem take_keeps (state : QueueState) :
    state.take.popping = state.popping ∧ state.take.published = state.published := by
  unfold take
  split <;> exact ⟨rfl, rfl⟩

/-- An idle worker that looks at `_req` leaves nothing in it. -/
theorem req_workerTake {bus : Bus} (idle : bus.blk.worker = .idle) :
    bus.workerTake.blk.req = none := by
  -- A slot that is empty stays so, and one that is full is emptied.
  unfold Bus.workerTake
  rw [idle]
  cases slot : bus.blk.req with
  | none => exact slot
  | some req => rfl

/-- What `workerServe` does is a step of the worker, which is idle after it. -/
theorem serve_of_workerServe (free : state.bus.blk.worker ≠ .busy)
    (served : state.bus.workerServe host (Bus.nestedWriter host fuel) = .ok after) :
    ∃ final, state.serve host fuel = .ok final ∧ final.bus = after ∧ after.blk.worker = .idle ∧
      final.popping = state.popping ∧ final.published = state.published := by
  unfold serve
  cases worker : state.bus.blk.worker with
  | busy => exact absurd worker free
  | idle =>
    -- Nothing is held, so nothing is done.
    rw [Bus.workerServe, worker] at served
    cases Except.ok.inj served
    exact ⟨state, rfl, rfl, worker, rfl, rfl⟩
  | holding req =>
    dsimp only
    rw [served]
    rw [Bus.workerServe, worker] at served
    obtain ⟨done, _, idle⟩ := bind_eq_ok.mp served
    cases Except.ok.inj idle
    exact ⟨_, rfl, rfl, rfl, rfl, rfl⟩

/-- A request that was popped is put into an empty `_req`. -/
theorem hand_of_none (popping : state.popping = some req) (empty : state.bus.blk.req = none) :
    state.hand.bus = { state.bus with blk.req := some req } ∧ state.hand.popping = none ∧
      state.hand.published = state.published := by
  unfold hand
  rw [popping, empty]
  exact ⟨rfl, rfl, rfl⟩

/-- Handing a request over is a run of steps: the worker serves and takes until `_req` is empty. -/
theorem run_handleRequest (popping : state.popping = some req)
    (handled : state.bus.handleRequest host (Bus.nestedWriter host fuel) req = .ok after) :
    ∃ events final, Runs.run next state events = .ok final ∧ final.bus = after ∧
      final.popping = none ∧ final.published = state.published := by
  unfold Bus.handleRequest at handled
  split at handled
  · rename_i empty
    obtain ⟨bus, handed, kept⟩ := hand_of_none popping (Option.isNone_iff_eq_none.mp empty)
    cases Except.ok.inj handled
    exact ⟨[.hand], state.hand, rfl, bus, handed, kept⟩
  · split at handled
    · cases handled
    · rename_i free
      obtain ⟨middle, served, rest⟩ := bind_eq_ok.mp handled
      cases Except.ok.inj rest
      -- The worker ends what it holds and takes what is in the slot, which makes room.
      obtain ⟨ended, done, rfl, idle, still, same⟩ := serve_of_workerServe free served
      obtain ⟨kept, also⟩ := take_keeps ended
      have slot : ended.take.bus.blk.req = none := by
        rw [bus_take]
        exact req_workerTake idle
      obtain ⟨bus, handed, published⟩ := hand_of_none ((kept.trans still).trans popping) slot
      have stepped : next (.serve host fuel) state = .ok ended := done
      refine ⟨[.serve host fuel, .take, .hand], ended.take.hand, ?_, ?_, handed, ?_⟩
      · exact Runs.run_cons_ok stepped _
      · rw [bus, bus_take]
      · exact published.trans (also.trans same)

/-- A notification is a run of steps, the last of which is a look that finds nothing new. -/
theorem run_notifyLoop (left : Nat) (ready : state.popping = none)
    (notified : state.bus.notifyLoop host (Bus.nestedWriter host fuel) left = .ok after) :
    ∃ events final, Runs.run next state events = .ok final ∧ final.popping = none ∧
      final.published = state.published ∧
      final.bus.vqueuePop host (Bus.nestedWriter host fuel) = .ok (none, after) := by
  induction left generalizing state with
  | zero => cases notified
  | succ left ih =>
    rw [Bus.notifyLoop] at notified
    obtain ⟨⟨found, bus⟩, popped, rest⟩ := bind_eq_ok.mp notified
    cases found with
    | none =>
      cases Except.ok.inj rest
      exact ⟨[], state, rfl, ready, rfl, popped⟩
    | some req =>
      obtain ⟨middle, handled, later⟩ := bind_eq_ok.mp rest
      -- The request is popped, then handed over, and the loop goes on from there.
      let taken : QueueState := { state with
        bus, popping := some req, popped := state.popped ++ [req.index] }
      have first : next (.pop host fuel) state = .ok taken := by
        rw [next, pop, ready, popped]
        rfl
      have popping : taken.popping = some req := rfl
      obtain ⟨steps, handed, ran, rfl, empty, same⟩ := run_handleRequest popping handled
      obtain ⟨further, final, finished, none, kept, last⟩ := ih empty later
      refine ⟨.pop host fuel :: steps ++ further, final, ?_, none, kept.trans same, last⟩
      rw [List.cons_append, Runs.run_cons_ok first, Runs.run_append ran, finished]

end Steps

end QueueState

end Xemu
