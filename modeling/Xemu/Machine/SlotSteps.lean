import Xemu.Lib.Runs
import Xemu.Machine.BusWrite
import Xemu.Machine.QueueParts

/-! The virtio slots as a system of steps: the hart that accesses them, and the block worker. -/

namespace Xemu

/-- The physical address of a place in the 4 KiB of a slot. -/
def AddressSpace.slotAddr (slot : Fin 8) (offset : BitVec 12) : BitVec 64 :=
  (virtioSlot slot).start + offset.setWidth 64

/-- An access of the guest to one of the eight slots, at a physical address in its 4 KiB. -/
inductive SlotAccess where
  | load (slot : Fin 8) (offset : BitVec 12) (size : Nat) (params : Params)
  | store (slot : Fin 8) (offset : BitVec 12) (size : Nat) (data : BitVec 64) (params : Params)

namespace SlotAccess

/-- The devices after the access, with all the queue work a notification causes. -/
def run (host : Host) (bus : Bus) : SlotAccess → Except Stop Bus
  | load slot offset size params => do
    let (_, bus) ← bus.asReadNommu host (AddressSpace.slotAddr slot offset) size params
    return bus
  | store slot offset size data params => do
    let (_, bus) ← bus.asWriteNommu host (AddressSpace.slotAddr slot offset) size data params
    return bus

/-- The access is the store that begins the loop of a queue notification. -/
def notifies : SlotAccess → Bool
  | load .. => false
  | store slot offset size _ _ => slot == Bus.blkSlot && offset == 0x050 && size == 4

end SlotAccess

/-! ### Threads -/

/-- The two threads that may be in the loop of a queue notification. -/
inductive SlotThread where
  | hart
  /-- The worker is there when it stores a word to the register of the notification. -/
  | worker
  deriving DecidableEq

/-- How far a thread is in the loop of a queue notification. -/
inductive Notifying where
  | idle
  /-- It is about to look whether the queue is empty. -/
  | looking
  /-- It found the queue not empty, and is about to take a request out of it. -/
  | found
  /-- It popped this request, and has not put it into `_req` yet. -/
  | handing (req : VqRequest)

/-- How far the worker is with the element of the used ring for the request it serves. -/
inductive Ending where
  /-- It has not come to the element. -/
  | outside
  /-- The data and the status are written, and the first half is next. -/
  | first (req : VqRequest)
  /-- The second half is next, at this address. -/
  | second (req : VqRequest) (addr : BitVec 64)
  /-- The index behind the element is next. -/
  | index

/-- The devices between two steps, and how far the threads are. -/
structure SlotState where
  bus : Bus
  hart : Notifying := .idle
  worker : Notifying := .idle
  ending : Ending := .outside

/-- The steps of the threads, each with what it takes from outside. -/
inductive SlotEvent where
  /-- The guest accesses a slot, once its hart is out of the last notification. -/
  | access (host : Host) (access : SlotAccess)
  /-- Everything but the block device goes on. -/
  | other (after : Bus)
  /-- A thread in the loop looks whether the queue is empty. -/
  | look (thread : SlotThread) (host : Host)
  /-- It takes the next request out of the queue. -/
  | pop (thread : SlotThread) (host : Host) (fuel : Nat)
  /-- It looks at `_req` in `virtio_blk_handle_request`. -/
  | hand (thread : SlotThread)
  /-- The worker looks at `_req` in `_routine`. -/
  | take
  /-- It moves the data of the request it took, and writes the status. -/
  | serve (host : Host) (fuel : Nat)
  /-- It writes the first half of the element, and then the second one. -/
  | first (host : Host) (fuel : Nat)
  | second (host : Host) (fuel : Nat)
  /-- It counts the element, and sends the interrupt. -/
  | index (host : Host) (fuel : Nat)

namespace SlotState

/-- Nobody is in a notification, and the worker is not at an element. -/
def of (bus : Bus) : SlotState := { bus }

/-- How far a thread is in the loop. -/
def notifying (state : SlotState) : SlotThread → Notifying
  | .hart => state.hart
  | .worker => state.worker

/-- The state with a thread somewhere else in the loop. -/
def setNotifying (state : SlotState) (notifying : Notifying) : SlotThread → SlotState
  | .hart => { state with hart := notifying }
  | .worker => { state with worker := notifying }

/-- The stores of the device itself. -/
abbrev write (host : Host) (fuel : Nat) : Bus.Writer := Bus.nestedWriter host (fuel + 1)

/-- The address of the register that a notification is a store to. -/
def notifyAddr : BitVec 64 := AddressSpace.slotAddr Bus.blkSlot 0x050

/-! ### The loop of a notification -/

/-- The access of the hart, of which a notification is only the beginning. -/
def access (host : Host) (access : SlotAccess) (state : SlotState) : Except Stop SlotState :=
  match state.hart with
  | .idle =>
    if access.notifies then .ok { state with hart := .looking }
    else do return { state with bus := ← access.run host state.bus }
  -- Within the loop the hart executes no other instruction.
  | _ => .ok state

/-- A thread that is about to look reads the index of the available ring. -/
def look (thread : SlotThread) (host : Host) (state : SlotState) : Except Stop SlotState :=
  match state.notifying thread with
  | .looking => do
    let (empty, bus) ← state.bus.virtioQueueEmpty host
    -- The loop ends when the queue is empty.
    return { state with bus }.setNotifying (if empty then .idle else .found) thread
  | _ => .ok state

/-- A thread that found the queue not empty takes the next request out of it. -/
def pop (thread : SlotThread) (host : Host) (fuel : Nat) (state : SlotState) :
    Except Stop SlotState :=
  match state.notifying thread with
  | .found => do
    let (req, bus) ← state.bus.vqueueTake host (write host fuel)
    return { state with bus }.setNotifying (.handing req) thread
  | _ => .ok state

/-- A thread puts the request it popped into `_req`. -/
def hand (thread : SlotThread) (state : SlotState) : SlotState :=
  match state.notifying thread, state.bus.blk.req with
  | .handing req, none => { state with bus.blk.req := some req }.setNotifying .looking thread
  -- As long as `_req` is taken the thread waits.
  | _, _ => state

/-! ### The worker -/

/-- The worker begins with the request it holds, and comes to the element of the used ring. -/
def serve (host : Host) (fuel : Nat) (state : SlotState) : Except Stop SlotState :=
  match state.bus.blk.worker with
  | .holding req => do
    let bus ← Bus.requestData host (write host fuel) { state.bus with blk.worker := .busy } req
    let bus ← Bus.writeStatus (write host fuel) bus req
    return { state with bus, ending := .first req }
  | _ => .ok state

/-- A half of an element is stored, which is the beginning of a notification at its register. -/
def half (host : Host) (fuel : Nat) (addr data : BitVec 64) (ending : Ending)
    (state : SlotState) : Except Stop SlotState :=
  if addr = notifyAddr then .ok { state with worker := .looking, ending }
  else do return { state with bus := ← write host fuel state.bus addr 4 data, ending }

/-- It computes the place of the element, and stores the first half there. -/
def first (host : Host) (fuel : Nat) (state : SlotState) : Except Stop SlotState :=
  match state.ending with
  | .first req => do
    let addr ← state.bus.nextElement
    state.half host fuel addr (req.index.setWidth 64) (.second req (addr + 4))
  | _ => .ok state

/-- It stores the second half behind the first. -/
def second (host : Host) (fuel : Nat) (state : SlotState) : Except Stop SlotState :=
  match state.worker, state.ending with
  -- The store of the first half has ended, with the notification it may have been.
  | .idle, .second req addr => state.half host fuel addr (req.inLen.setWidth 64) .index
  | _, _ => .ok state

/-- It counts the element, sends the interrupt, and is done with the request. -/
def index (host : Host) (fuel : Nat) (state : SlotState) : Except Stop SlotState :=
  match state.worker, state.ending with
  | .idle, .index => do
    let bus ← Bus.publish (write host fuel) state.bus
    return { state with bus := { bus with blk.worker := .idle }, ending := .outside }
  | _, _ => .ok state

/-- The effect of one step. -/
def next : SlotEvent → SlotState → Except Stop SlotState
  | .access host access, state => state.access host access
  | .other after, state => .ok { state with bus := { after with blk := state.bus.blk } }
  | .look thread host, state => state.look thread host
  | .pop thread host fuel, state => state.pop thread host fuel
  | .hand thread, state => .ok (state.hand thread)
  | .take, state => .ok { state with bus := state.bus.workerTake }
  | .serve host fuel, state => state.serve host fuel
  | .first host fuel, state => state.first host fuel
  | .second host fuel, state => state.second host fuel
  | .index host fuel, state => state.index host fuel

end SlotState

end Xemu
