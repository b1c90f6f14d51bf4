import Xemu.Machine.QueueSteps
import Xemu.Machine.RingLists
import Xemu.Proofs.BlockRequests

/-! No schedule of driver, notification and worker loses, repeats or reorders a request. -/

namespace Xemu

/-- The request that a worker took and has not served yet. -/
def Worker.held : Worker → Option VqRequest
  | .holding req => some req
  | _ => none

namespace QueueState

/-! ### What the parties keep to -/

/-- What the guest may do in one step, at most publish further heads behind those before. -/
structure Drives (state : QueueState) (after : Bus) (heads : List (BitVec 16)) : Prop where
  vq : after.blk.vdev.vq = state.bus.blk.vdev.vq
  irqNum : after.blk.vdev.irqNum = state.bus.blk.vdev.irqNum
  req : after.blk.req = state.bus.blk.req
  worker : after.blk.worker = state.bus.blk.worker
  size : after.ram.size = state.bus.ram.size
  /-- The heads that have not been popped yet stay where they are. -/
  adds : RingBuffer.Adds state.bus.ringSize state.bus.availSlot after.availSlot
    state.popped.length state.published.length heads
  availIdx : after.availIdx = state.bus.availIdx + BitVec.ofNat 16 heads.length
  /-- The used ring is written by the device alone. -/
  used : ∀ i < state.bus.blk.vdev.vq.vring.usedSize,
    after.memory (state.bus.blk.vdev.vq.vring.used + BitVec.ofNat 64 i) =
      state.bus.memory (state.bus.blk.vdev.vq.vring.used + BitVec.ofNat 64 i)
  /-- No more requests are outstanding than the rings have elements. -/
  room : state.published.length + heads.length ≤ state.served.length + state.bus.ringSize

/-- The driver keeps to its part, and no buffer of a request that is served reaches the rings. -/
def Permitted : QueueEvent → QueueState → Prop
  | .drive after heads, state => state.Drives after heads
  | .serve _ _, state => ∀ req, state.bus.blk.worker = .holding req →
    ∀ segment ∈ req.iov, state.bus.blk.vdev.vq.vring.Avoids segment
  | _, _ => True

/-- The queue was set up, and nothing has happened to it. -/
structure Begins (state : QueueState) : Prop where
  rings : state.bus.Rings
  fresh : state = { bus := state.bus }
  req : state.bus.blk.req = none
  worker : state.bus.blk.worker = .idle
  lastAvailIdx : state.bus.blk.vdev.vq.lastAvailIdx = 0
  usedIdx : state.bus.blk.vdev.vq.usedIdx = 0
  availIdx : state.bus.availIdx = 0
  usedRingIdx : state.bus.usedRingIdx = 0

/-! ### What holds between any two steps -/

/-- Each stage has the heads of the one before it in order, except for the one still on its way. -/
structure InOrder (state : QueueState) : Prop where
  popped : state.popped <+: state.published.map (·.setWidth 32)
  handed : state.popped = state.handed ++ state.popping.toList.map (·.index)
  taken : state.handed = state.taken ++ state.bus.blk.req.toList.map (·.index)
  served : state.taken = state.served ++ state.bus.blk.worker.held.toList.map (·.index)
  /-- The heads that were served are in the used ring, each in the slot of its count. -/
  used : state.bus.UsedRing state.served

/-- The invariant: the stages are in order, and each index is the count of a stage. -/
structure Flows (state : QueueState) : Prop extends InOrder state where
  rings : state.bus.Rings
  free : state.bus.blk.worker ≠ .busy
  avail : state.bus.AvailRing state.published state.popped.length
  lastAvailIdx : state.bus.blk.vdev.vq.lastAvailIdx = BitVec.ofNat 16 state.popped.length
  usedIdx : state.bus.blk.vdev.vq.usedIdx = BitVec.ofNat 16 state.served.length
  room : state.published.length ≤ state.served.length + state.bus.ringSize

variable {state after : QueueState} {host : Host} {fuel : Nat}

/-- A queue that begins is in order. -/
theorem Begins.flows (begins : state.Begins) : state.Flows := by
  obtain ⟨rings, fresh, req, worker, lastAvailIdx, usedIdx, availIdx, usedRingIdx⟩ := begins
  rw [fresh]
  -- No head has gone anywhere, so every index is the count of an empty list.
  refine ⟨⟨List.nil_prefix, rfl, ?_, ?_, ⟨usedRingIdx, .nil⟩⟩, rings, ?_, ⟨availIdx, .nil⟩,
    lastAvailIdx, usedIdx, Nat.zero_le _⟩
  · simp [req]
  · simp [worker, Worker.held]
  · simp [worker]

/-- Every stage has at most as many heads as the one before it. -/
theorem InOrder.lengths (order : state.InOrder) : state.served.length ≤ state.popped.length ∧
    state.popped.length ≤ state.published.length := by
  -- The stages follow each other, so their lengths add up.
  have popped := order.popped.length_le
  rw [List.length_map] at popped
  refine ⟨?_, popped⟩
  rw [order.handed, order.taken, order.served]
  simp only [List.length_append]
  omega

/-- What the guest may do keeps the order. -/
theorem Flows.drive (flows : state.Flows) {bus : Bus} {heads : List (BitVec 16)}
    (drives : state.Drives bus heads) :
    Flows { state with bus, published := state.published ++ heads } := by
  have layout : bus.blk.vdev.vq.vring = state.bus.blk.vdev.vq.vring := by rw [drives.vq]
  have size := Bus.ringSize_congr layout
  have kept := Bus.used_congr layout drives.used
  refine ⟨⟨?_, flows.handed, ?_, ?_, flows.used.congr flows.rings.some layout kept⟩,
    flows.rings.congr layout drives.irqNum drives.size, ?_, ⟨?_, ?_⟩, ?_, ?_, ?_⟩
  · -- What was popped is still a part of what is published, which grew at its end.
    rw [List.map_append]
    exact flows.popped.trans (List.prefix_append _ _)
  · rw [drives.req]
    exact flows.taken
  · rw [drives.worker]
    exact flows.served
  · rw [drives.worker]
    exact flows.free
  · rw [drives.availIdx, flows.avail.idx, List.length_append, BitVec.ofNat_add]
  · rw [size]
    exact flows.avail.slots.append drives.adds
  · rw [drives.vq]
    exact flows.lastAvailIdx
  · rw [drives.vq]
    exact flows.usedIdx
  · rw [List.length_append, size]
    exact drives.room

/-- The index of the driver tells whether there is a head that has not been popped. -/
theorem Flows.empty_iff (flows : state.Flows) :
    state.bus.availIdx = state.bus.blk.vdev.vq.lastAvailIdx ↔
      state.published.length = state.popped.length := by
  obtain ⟨order, inside⟩ := flows.lengths
  have room := flows.room
  have small := flows.rings.size_le
  rw [flows.avail.idx, flows.lastAvailIdx]
  -- Less than a whole turn of the index lies between the two counts.
  exact RingBuffer.index_eq_iff inside (by omega)

/-- A look at the available ring takes the first of the heads that have not been popped. -/
theorem Flows.pop (flows : state.Flows) (popped : state.pop host fuel = .ok after) :
    after.Flows := by
  unfold QueueState.pop at popped
  split at popped
  · cases Except.ok.inj popped
    exact flows
  rename_i none
  obtain ⟨⟨found, bus⟩, looked, counted⟩ := bind_eq_ok.mp popped
  cases Except.ok.inj counted
  have handed := flows.handed
  rw [none] at handed
  rcases Bus.vqueuePop_same flows.rings host fuel _ looked with
    ⟨_, nothing⟩ | ⟨new, same, req, rfl, index⟩
  · -- Nothing new is found, and nothing changes.
    cases nothing
    have same : { state with popping := Option.none, popped := state.popped ++ [] } = state := by
      rw [List.append_nil, ← none]
    exact (congrArg Flows same).mpr flows
  · have more : state.popped.length < state.published.length :=
      Nat.lt_of_le_of_ne flows.lengths.2 fun all => new (flows.empty_iff.mpr all.symm)
    have head : req.index = (state.published[state.popped.length]).setWidth 32 := by
      rw [index, flows.lastAvailIdx]
      exact flows.avail.head flows.rings more
    have layout : bus.blk.vdev.vq.vring = state.bus.blk.vdev.vq.vring := by
      rw [same.vdev]
      rfl
    have size := Bus.ringSize_congr layout
    refine ⟨⟨?_, ?_, ?_, ?_, flows.used.congr flows.rings.some layout same.used⟩,
      flows.rings.congr layout ?_ same.size, ?_, ?_, ?_, ?_, ?_⟩
    · have further := List.concat_get_prefix flows.popped (by rwa [List.length_map])
      rw [List.get_eq_getElem, List.getElem_map, ← head] at further
      exact further
    · simp [handed]
    · rw [same.req]
      exact flows.taken
    · rw [same.worker]
      exact flows.served
    · rw [same.vdev]
      rfl
    · rw [same.worker]
      exact flows.free
    · have ring := flows.avail.congr flows.rings.some layout same.avail
      exact ⟨ring.idx, ring.slots.mono (by simp)⟩
    · have counted : bus.blk.vdev.vq.lastAvailIdx = state.bus.blk.vdev.vq.lastAvailIdx + 1 := by
        rw [same.vdev]
        rfl
      rw [counted, flows.lastAvailIdx, ← RingBuffer.index_succ]
      exact congrArg _ (by simp)
    · rw [same.vdev]
      exact flows.usedIdx
    · rw [size]
      exact flows.room

/-- The order is kept when requests move between the stages that are not in memory. -/
theorem Flows.move (flows : state.Flows) {popping slot : Option VqRequest} {worker : Worker}
    {handed taken : List (BitVec 32)}
    (first : state.popped = handed ++ popping.toList.map (·.index))
    (second : handed = taken ++ slot.toList.map (·.index))
    (third : taken = state.served ++ worker.held.toList.map (·.index)) (free : worker ≠ .busy) :
    Flows { state with
      bus := { state.bus with blk.req := slot, blk.worker := worker }
      popping, handed, taken } where
  popped := flows.popped
  handed := first
  taken := second
  served := third
  used := ⟨flows.used.idx, flows.used.slots⟩
  rings := flows.rings.congr rfl rfl rfl
  free := free
  avail := ⟨flows.avail.idx, flows.avail.slots⟩
  lastAvailIdx := flows.lastAvailIdx
  usedIdx := flows.usedIdx
  room := flows.room

/-- Handing a request over moves its head on by one stage. -/
theorem Flows.hand (flows : state.Flows) : state.hand.Flows := by
  unfold QueueState.hand
  split
  · rename_i req popping empty
    have handed := flows.handed
    have taken := flows.taken
    rw [popping] at handed
    rw [empty] at taken
    -- The head leaves the notifying thread and is the one in the slot.
    refine flows.move ?_ ?_ flows.served flows.free
    · simpa using handed
    · simpa using taken
  · exact flows

/-- So does taking it out of `_req`. -/
theorem Flows.take (flows : state.Flows) : state.take.Flows := by
  unfold QueueState.take
  split
  · rename_i req idle full
    have taken := flows.taken
    have served := flows.served
    rw [full] at taken
    rw [idle] at served
    have took : state.bus.workerTake =
        { state.bus with blk.worker := .holding req, blk.req := none } := by
      rw [Bus.workerTake, idle, full]
    rw [took]
    -- The head leaves the slot and is the one the worker holds.
    refine flows.move flows.handed ?_ ?_ (by simp)
    · simpa using taken
    · simpa [Worker.held] using served
  · exact flows

/-- A request whose buffers avoid the rings ends with its element, and then the index. -/
theorem doRequest_published {bus done : Bus} (rings : bus.Rings) {req : VqRequest}
    (avoids : ∀ segment ∈ req.iov, bus.blk.vdev.vq.vring.Avoids segment)
    (worked : bus.doRequest host (Bus.nestedWriter host fuel) req = .ok done) :
    ∃ marked, Bus.SameQueue bus marked ∧
      Bus.Published (Bus.nestedWriter host fuel) marked req done := by
  obtain ⟨last, same, completed⟩ := (Bus.SameQueue.refl bus).doRequest avoids done worked
  -- A request without segments has no header, which stops the worker.
  have some : req.iov ≠ [] := by
    intro empty
    rw [Bus.doRequest, empty] at worked
    cases worked
  exact Bus.complete_published rings.toServes same
    (fun segment last => avoids segment (List.mem_of_getLast? last)) some done completed

/-- So does a request that the worker serves, which is idle after that. -/
theorem workerServe_published {bus after : Bus} (rings : bus.Rings) {req : VqRequest}
    (holding : bus.blk.worker = .holding req)
    (avoids : ∀ segment ∈ req.iov, bus.blk.vdev.vq.vring.Avoids segment)
    (served : bus.workerServe host (Bus.nestedWriter host fuel) = .ok after) :
    ∃ marked done, Bus.SameQueue { bus with blk.worker := .busy } marked ∧
      Bus.Published (Bus.nestedWriter host fuel) marked req done ∧
      after = { done with blk.worker := .idle } := by
  -- The worker is busy from its first access to memory to its last.
  rw [Bus.workerServe, holding] at served
  obtain ⟨done, worked, idle⟩ := bind_eq_ok.mp served
  have busy : Bus.Rings { bus with blk.worker := .busy } := rings.congr rfl rfl rfl
  obtain ⟨marked, same, published⟩ := doRequest_published busy avoids worked
  exact ⟨marked, done, same, published, (Except.ok.inj idle).symm⟩

/-- The work on a request leaves the rings and the counts to its end. -/
theorem Flows.marked (flows : state.Flows) {marked : Bus}
    (same : Bus.SameQueue { state.bus with blk.worker := .busy } marked) :
    marked.Rings ∧ marked.blk.vdev.vq.usedIdx = BitVec.ofNat 16 state.served.length ∧
      marked.UsedRing state.served ∧ marked.AvailRing state.published state.popped.length := by
  have layout : marked.blk.vdev.vq.vring = state.bus.blk.vdev.vq.vring := by rw [same.vdev]
  refine ⟨flows.rings.congr layout (by rw [same.vdev]) same.size, ?_, ?_, ?_⟩
  · -- The thread that is busy has no part in the registers.
    rw [same.vdev]
    exact flows.usedIdx
  · exact flows.used.congr flows.rings.some layout same.used
  · exact flows.avail.congr flows.rings.some layout same.avail

/-- Serving a request puts its head into the used ring, behind those served before. -/
theorem Flows.serve (flows : state.Flows) (permitted : Permitted (.serve host fuel) state)
    (served : state.serve host fuel = .ok after) : after.Flows := by
  unfold QueueState.serve at served
  split at served
  · rename_i req holding
    obtain ⟨bus, worked, counted⟩ := bind_eq_ok.mp served
    cases Except.ok.inj counted
    obtain ⟨marked, done, same, published, rfl⟩ :=
      workerServe_published flows.rings holding (permitted req holding) worked
    obtain ⟨rings, count, used, avail⟩ := flows.marked same
    have fills := published.fills rings
    have registers := fills.settled.vdev
    have kept : done.blk.vdev.vq.vring = marked.blk.vdev.vq.vring := by rw [registers]
    -- The end of the request adds its element and leaves the available ring as it was.
    have filled := avail.congr rings.some kept ⟨fills.availIdx, fills.availSlot⟩
    have added := used.append rings count fills
    have taken := flows.served
    rw [holding] at taken
    refine ⟨⟨flows.popped, flows.handed, ?_, ?_, ⟨added.idx, added.slots⟩⟩,
      rings.congr kept ?_ fills.settled.size, ?_, ⟨filled.idx, filled.slots⟩, ?_, ?_, ?_⟩
    · rw [fills.slot, same.req]
      exact flows.taken
    · simpa [Worker.held] using taken
    · rw [registers]
    · simp
    · rw [registers, same.vdev]
      exact flows.lastAvailIdx
    · rw [registers, count, ← RingBuffer.index_succ, List.length_append, List.length_singleton]
    · have room := flows.room
      have size : done.ringSize = state.bus.ringSize := by
        rw [Bus.ringSize_congr kept, Bus.ringSize, Bus.ringSize, same.vdev]
      rw [List.length_append]
      change state.published.length ≤ _ + done.ringSize
      omega
  · cases Except.ok.inj served
    exact flows

/-- Every permitted step keeps the order. -/
theorem flows_next (event : QueueEvent) (state after : QueueState) (flows : state.Flows)
    (permitted : Permitted event state) (stepped : next event state = .ok after) :
    after.Flows := by
  -- One lemma for each kind of step, of which two depend on what is asked of the parties.
  cases event with
  | drive bus heads =>
    cases Except.ok.inj stepped
    exact flows.drive permitted
  | pop host fuel => exact flows.pop stepped
  | hand =>
    cases Except.ok.inj stepped
    exact flows.hand
  | take =>
    cases Except.ok.inj stepped
    exact flows.take
  | serve host fuel => exact flows.serve permitted stepped

/-- So does every run of permitted steps. -/
theorem Flows.run {events : List QueueEvent} (flows : state.Flows)
    (permitted : Runs.Along next Permitted state events)
    (ran : Runs.run next state events = .ok after) : after.Flows :=
  Runs.run_induction_along Flows flows_next flows permitted ran

/-- A look that finds nothing new finds all of the published heads popped. -/
theorem Flows.all_popped (flows : state.Flows) {bus : Bus}
    (looked : state.bus.vqueuePop host (Bus.nestedWriter host fuel) = .ok (none, bus)) :
    state.popped = state.published.map (·.setWidth 32) := by
  rcases Bus.vqueuePop_same flows.rings host fuel _ looked with
    ⟨same, _⟩ | ⟨_, _, req, found, _⟩
  · -- The counts agree, so the part at the start is the whole.
    have all := flows.empty_iff.mp same
    exact flows.popped.eq_of_length (by rw [List.length_map, all])
  · cases found

/-- The index of the used ring counts an element on only after that element was written. -/
def IndexLast (write : Bus.Writer) (state : QueueState) (req : VqRequest) (after : Bus) : Prop :=
  ∃ marked done, Bus.Published write marked req done ∧
    after = { done with blk.worker := .idle } ∧
    (marked.entered req).usedEntry (BitVec.ofNat 16 state.served.length) =
      (req.index, req.inLen) ∧
    (marked.entered req).usedRingIdx = BitVec.ofNat 16 state.served.length ∧
    after.usedRingIdx = BitVec.ofNat 16 (state.served.length + 1)

/-- What the queue does with the heads that were published, whichever party is next. -/
structure Delivers (state : QueueState) : Prop extends InOrder state where
  /-- A look that finds nothing more has popped every head that was published. -/
  emptied : ∀ host fuel bus,
    state.bus.vqueuePop host (Bus.nestedWriter host fuel) = .ok (none, bus) →
      state.popped = state.published.map (·.setWidth 32)
  /-- A notification is a run of steps up to such a look. -/
  notified : ∀ host fuel left after, state.popping = none →
    state.bus.notifyLoop host (Bus.nestedWriter host fuel) left = .ok after →
      ∃ steps last, Runs.run next state steps = .ok last ∧ last.popping = none ∧
        last.published = state.published ∧
        last.bus.vqueuePop host (Bus.nestedWriter host fuel) = .ok (none, after)
  /-- A request that is served gets its element before the index counts it. -/
  ended : ∀ host fuel req after, state.bus.blk.worker = .holding req →
    Permitted (.serve host fuel) state →
      state.bus.workerServe host (Bus.nestedWriter host fuel) = .ok after →
        IndexLast (Bus.nestedWriter host fuel) state req after

/-- A request that is served gets its element before the index counts it. -/
theorem Flows.indexLast (flows : state.Flows) {req : VqRequest} {after : Bus}
    (holding : state.bus.blk.worker = .holding req) (permitted : Permitted (.serve host fuel) state)
    (served : state.bus.workerServe host (Bus.nestedWriter host fuel) = .ok after) :
    IndexLast (Bus.nestedWriter host fuel) state req after := by
  obtain ⟨marked, done, same, published, rfl⟩ :=
    workerServe_published flows.rings holding (permitted req holding) served
  obtain ⟨rings, count, used, _⟩ := flows.marked same
  have fills := published.fills rings
  -- The element reads back while the index still is the count from before.
  obtain ⟨entry, index⟩ := Bus.entered_reads rings.toServes req
  rw [count] at entry
  refine ⟨marked, done, published, rfl, entry, ?_, ?_⟩
  · exact index.trans used.idx
  · rw [RingBuffer.index_succ, ← count]
    exact fills.usedRingIdx

/-- In every run the published heads go through every stage once and in order. -/
theorem queue_order {start final : QueueState} {events : List QueueEvent} (begins : start.Begins)
    (permitted : Runs.Along next Permitted start events)
    (ran : Runs.run next start events = .ok final) : final.Delivers := by
  -- The order holds at the beginning and along the run, and the rest follows from it.
  have flows := begins.flows.run permitted ran
  refine ⟨flows.toInOrder, ?_, ?_, ?_⟩
  · exact fun host fuel bus looked => flows.all_popped looked
  · exact fun host fuel left after ready notified => run_notifyLoop left ready notified
  · exact fun host fuel req after holding avoids served => flows.indexLast holding avoids served

/-- A test that no buffer of the request the worker holds reaches the rings. -/
def avoidsTest (state : QueueState) : Bool :=
  let vring := state.bus.blk.vdev.vq.vring
  state.bus.blk.worker.held.toList.all fun req => req.iov.all fun segment =>
    decide (0 < segment.len.toNat ∧ InMemory segment.base segment.len.toNat ∧
      (InMemory vring.avail vring.availSize ∧
        Apart vring.avail vring.availSize segment.base segment.len.toNat) ∧
      InMemory vring.used vring.usedSize ∧
        Apart vring.used vring.usedSize segment.base segment.len.toNat)

/-- Where the test succeeds every step of the two threads is permitted. -/
theorem permitted_of_test (tested : avoidsTest state) {event : QueueEvent}
    (inside : ∀ bus heads, event ≠ .drive bus heads) : Permitted event state := by
  cases event with
  | drive bus heads => exact absurd rfl (inside bus heads)
  | pop _ _ | hand | take => trivial
  | serve host fuel =>
    -- The one request that is looked at is the one that the worker holds.
    intro req holding segment member
    have held : req ∈ state.bus.blk.worker.held.toList := by simp [holding, Worker.held]
    have passed := List.all_eq_true.mp (List.all_eq_true.mp tested req held) segment member
    obtain ⟨some, placed, avail, used⟩ := of_decide_eq_true passed
    exact Vring.avoids_of_apart some placed avail used

/-- The machine of a driver that has sent so many of two requests to flush the disk. -/
def flushBus (count : BitVec 64) : Bus :=
  { twoSegmentBus true with
    ram := {
      bytes := imageOf [(0x1000, 8, 0x80003000), (0x1008, 4, 32), (0x100c, 2, 4),
        (0x1010, 8, 0x80003000), (0x1018, 4, 32), (0x101c, 2, 4), (0x1086, 2, 1),
        (0x3000, 8, 0x80004000), (0x3008, 4, 16), (0x300c, 2, 1), (0x300e, 2, 1),
        (0x3010, 8, 0x80005000), (0x3018, 4, 1), (0x301c, 2, 2), (0x4000, 4, 4),
        (0x1082, 2, count)]
      size := ramSize } }

/-- The requests go from the notification to the worker, the second one while the first is served. -/
def flushEvents : List QueueEvent :=
  [.pop {} 1, .hand, .take, .pop {} 1, .hand, .serve {} 1, .take, .serve {} 1]

/-- The queue of that driver begins. -/
theorem flush_begins : Begins { bus := flushBus 0 } where
  -- The set-up is read off the registers, and the indices are read from the image.
  rings :=
    { whole := rfl
      some := by decide
      used := by decide
      irq := by decide
      avail := by decide
      power := ⟨3, by decide, rfl⟩
      apart := by decide }
  fresh := rfl
  req := rfl
  worker := rfl
  lastAvailIdx := rfl
  usedIdx := rfl
  availIdx := by decide +kernel
  usedRingIdx := by decide +kernel

/-- The driver sends both requests at once, as it should. -/
theorem flush_drives : Drives { bus := flushBus 0 } (flushBus 2) [0, 1] where
  vq := rfl
  irqNum := rfl
  req := rfl
  worker := rfl
  size := rfl
  adds := ⟨by simp, by decide +kernel⟩
  availIdx := by decide +kernel
  used := by decide +kernel
  room := by decide

/-- The requests of that driver are served in their order, and go through every stage. -/
theorem flush_order : ∃ final, Runs.run next { bus := flushBus 0 }
    (.drive (flushBus 2) [0, 1] :: flushEvents) = .ok final ∧
      final.served = [0, 1] ∧ final.Delivers := by
  obtain ⟨final, ran, served⟩ := @ok_of_test _ (Runs.run next { bus := flushBus 0 }
    (.drive (flushBus 2) [0, 1] :: flushEvents)) (fun final => final.served = [0, 1])
    (by decide +kernel)
  -- The driver is the first to act, and the two threads are permitted what the test allows.
  have threads : Runs.Along next Permitted
      { bus := flushBus 2, published := [0, 1] } flushEvents := by
    refine Runs.Along.mono (fun event state both => permitted_of_test both.2 both.1)
      ((Runs.along_of_forall ?_ _).and (Runs.along_of_testAlong avoidsTest (fun _ => id) ?_))
    · simp [flushEvents]
    · decide +kernel
  have permitted : Runs.Along next Permitted { bus := flushBus 0 }
      (.drive (flushBus 2) [0, 1] :: flushEvents) := .cons flush_drives rfl threads
  exact ⟨final, ran, of_decide_eq_true served, queue_order flush_begins permitted ran⟩

end QueueState

end Xemu
