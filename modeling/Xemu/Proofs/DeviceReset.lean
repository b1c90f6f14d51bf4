import Xemu.Lib.Runs
import Xemu.Machine.Program
import Xemu.Machine.Rings

/-! Zero in the status register of the block device resets that register and nothing else. -/

namespace Xemu

/-- The registers and the queue of a device as `virtio_blk_init` leaves them. -/
structure VirtioDev.Initial (vdev : VirtioDev) : Prop where
  isr : vdev.isr = 0
  hostFeaturesSel : vdev.hostFeaturesSel = false
  guestFeatures : vdev.guestFeatures = 0
  guestFeaturesSel : vdev.guestFeaturesSel = false
  guestPageShift : vdev.guestPageShift = 0
  queueSel : vdev.queueSel = 0
  status : vdev.status = 0
  vq : vdev.vq = {}

/-- The address of the status register of the first virtio slot. -/
def statusRegister : BitVec 64 := 0x10001070

namespace Bus

/-- The devices with zero in the status register of the block device. -/
def clearStatus (bus : Bus) : Bus := { bus with blk.vdev.status := 0 }

/-- A write of zero to the status register clears it and changes nothing else. -/
theorem asWriteNommu_status (host : Host) (bus : Bus) (params : Params) :
    bus.asWriteNommu host statusRegister 4 0 params = .ok (0, bus.clearStatus) := by
  have routed : AddressSpace.route AddressSpace.rootChildren statusRegister =
      (.virtio 0, 0x070) := by decide
  rw [asWriteNommu, asWriteNommuWith, writeFrom_route, routed]
  rfl

end Bus

/-! ### What a driver does after that write -/

/-- The devices, and how many requests the block device has taken and ended so far. -/
structure Session where
  bus : Bus
  popped : Nat := 0
  served : Nat := 0

/-- A step of a driver or of the device. -/
inductive SessionEvent where
  /-- The driver changes guest memory. -/
  | memory (mem : BitVec 64 → BitVec 8)
  /-- The driver writes a register that does not make the device look at its queue. -/
  | register (addr data : BitVec 64)
  /-- The device looks at the available ring. -/
  | pop (host : Host) (fuel : Nat)
  /-- The device serves a request. -/
  | serve (host : Host) (fuel : Nat) (req : VqRequest)

namespace Session

/-- The effect of one event. -/
def next (event : SessionEvent) (session : Session) : Except Stop Session :=
  match event with
  | .memory mem => .ok { session with bus := session.bus.setMemory mem }
  | .register addr data => do
    let vdev ← session.bus.blk.vdev.mmioWrite addr data
    return { session with bus.blk.vdev := vdev }
  | .pop host fuel => do
    let (req, bus) ← session.bus.vqueuePop host (Bus.nestedWriter host (fuel + 1))
    -- A look that finds nothing new takes no request.
    return { session with bus, popped := session.popped + if req.isSome then 1 else 0 }
  | .serve host fuel req => do
    let bus ← Bus.doRequest host (Bus.nestedWriter host (fuel + 1)) session.bus req
    return { session with bus, served := session.served + 1 }

/-- The device works on its queue only while the rings lie in RAM. -/
def RingsPlaced (event : SessionEvent) (session : Session) : Prop :=
  match event with
  | .pop _ _ | .serve _ _ _ => session.bus.Ready
  | _ => True

/-- The two indices have gone on from where they were, by one for each request. -/
structure Counted (first : Vqueue) (session : Session) : Prop where
  avail : session.bus.blk.vdev.vq.lastAvailIdx =
    first.lastAvailIdx + BitVec.ofNat 16 session.popped
  used : session.bus.blk.vdev.vq.usedIdx = first.usedIdx + BitVec.ofNat 16 session.served

/-- No register write moves one of the two indices. -/
theorem mmioWrite_indices (vdev : VirtioDev) (addr data : BitVec 64) :
    Ensures (vdev.mmioWrite addr data) fun after =>
      after.vq.lastAvailIdx = vdev.vq.lastAvailIdx ∧ after.vq.usedIdx = vdev.vq.usedIdx := by
  unfold VirtioDev.mmioWrite
  dsimp only
  split
  -- Each register has a field of its own, and neither index is one of them.
  case h_2 => exact .ok (by split <;> exact ⟨rfl, rfl⟩)
  case h_5 => exact .ok (by split <;> exact ⟨rfl, rfl⟩)
  case h_6 => exact .ite (fun _ => .andThen fun vring => .ok ⟨rfl, rfl⟩) fun _ => .ok ⟨rfl, rfl⟩
  case h_11 => exact .error
  all_goals exact .ok ⟨rfl, rfl⟩

/-- Counting one more is one step further. -/
theorem count_succ (first : BitVec 16) (count : Nat) :
    first + BitVec.ofNat 16 count + 1 = first + BitVec.ofNat 16 (count + 1) := by
  rw [BitVec.ofNat_add, BitVec.add_assoc]
  rfl

/-- Every event of a session moves the indices with the requests. -/
theorem Counted.next {first : Vqueue} {event : SessionEvent} {session after : Session}
    (counted : Counted first session) (placed : RingsPlaced event session)
    (stepped : Session.next event session = .ok after) : Counted first after := by
  -- Only a request taken or served moves an index, and by one.
  cases event with
  | memory mem =>
    cases Except.ok.inj stepped
    exact ⟨counted.avail, counted.used⟩
  | register addr data =>
    obtain ⟨vdev, written, result⟩ := bind_eq_ok.mp stepped
    cases Except.ok.inj result
    obtain ⟨avail, used⟩ := mmioWrite_indices _ _ _ _ written
    exact ⟨avail.trans counted.avail, used.trans counted.used⟩
  | pop host fuel =>
    obtain ⟨⟨req, bus⟩, popped, result⟩ := bind_eq_ok.mp stepped
    cases Except.ok.inj result
    have narrow := fun vdev size =>
      @Bus.nestedWriter_narrow vdev size host 2 (by decide) (fuel + 1)
    cases Bus.vqueuePop_ready placed narrow _ popped with
    | empty same => exact ⟨counted.avail, counted.used⟩
    | request _ _ new index settled =>
      constructor
      · change bus.blk.vdev.vq.lastAvailIdx = _ + BitVec.ofNat 16 (session.popped + 1)
        rw [settled.vdev, ← count_succ, ← counted.avail]
      · change bus.blk.vdev.vq.usedIdx = _
        rw [settled.vdev, ← counted.used]
  | serve host fuel req =>
    obtain ⟨bus, served, result⟩ := bind_eq_ok.mp stepped
    cases Except.ok.inj result
    have narrow := fun vdev size count different =>
      @Bus.nestedWriter_narrow vdev size host count different (fuel + 1)
    have ended := Bus.doRequest_ended (Bus.nestedWriter_plain host fuel.succ_pos) narrow placed.toServes
      host req _ served
    constructor
    · change bus.blk.vdev.vq.lastAvailIdx = _
      rw [ended.settled.vdev, ← counted.avail]
    · change bus.blk.vdev.vq.usedIdx = _ + BitVec.ofNat 16 (session.served + 1)
      rw [ended.settled.vdev, ← count_succ, ← counted.used]

end Session

/-- Takes a request from the block device's queue in RAM and leaves it to the device's thread. -/
def requestProgram : List (BitVec 32) :=
  [0x00100293, 0x01f29293, 0x0052b023, 0x01000313, -- li t0, 1; slli t0, t0, 31; sd t0, (t0); li t1, 16
    0x0062a423, 0x00400313, 0x0062a623, 0x00100313, -- sw t1, 8(t0); li t1, 4; sw t1, 12(t0); li t1, 1
    0x00629923, 0x100013b7, 0x0263ac23, 0x0263ae23, -- sh t1, 18(t0); lui t2, 0x10001; sw t1, 56(t2); sw t1, 60(t2)
    0x00001e37, 0x03c3a423, 0x00080e37, 0x05c3a023, -- lui t3, 1; sw t3, 40(t2); lui t3, 0x80; sw t3, 64(t2)
    0x0463a823] -- sw t1, 80(t2)

/-- A write of zero to the status register leaves the count of the requests taken before it. -/
theorem request_counted_after_reset :
    ¬ ∀ (m : Machine) (host : Host) (ret : BitVec 64) (after : Bus), m.Reached →
      m.bus.asWriteNommu host statusRegister 4 0 .none = .ok (ret, after) →
      after.blk.vdev.Initial := by
  intro always
  have tested : (Runs.run Machine.next (Machine.boot requestProgram)
      (List.replicate 17 (.hart { fuel := 3 }))).map
        (fun m => m.bus.blk.vdev.vq.lastAvailIdx) = .ok 1 := by decide +kernel
  obtain ⟨m, ran, counted⟩ := map_eq_ok.mp tested
  have initial := always m {} _ _ ⟨_, _, ⟨_, _, _, rfl⟩, ran⟩ (Bus.asWriteNommu_status {} m.bus .none)
  -- The write of zero should have made the device initial, where no request was taken.
  have zero : m.bus.blk.vdev.vq.lastAvailIdx = 0 := congrArg Vqueue.lastAvailIdx initial.vq
  rw [counted] at zero
  exact absurd zero (by decide)

/--
A write of zero to the status register of the block device clears it and changes nothing else.

So whatever the driver sets up then, its requests are taken from the slots that follow the last one
taken before the write, and are reported in the slots that follow the last one reported.
-/
theorem status_zero_keeps_queue (host : Host) (bus : Bus) :
    bus.asWriteNommu host statusRegister 4 0 .none = .ok (0, bus.clearStatus) ∧
      ∀ events session,
        Runs.Along Session.next Session.RingsPlaced { bus := bus.clearStatus } events →
        Runs.run Session.next { bus := bus.clearStatus } events = .ok session →
        session.bus.Ready →
        (∀ host fuel req after,
          session.bus.vqueuePop host (Bus.nestedWriter host (fuel + 1)) = .ok (some req, after) →
          req.index = session.bus.availHead
            (bus.blk.vdev.vq.lastAvailIdx + BitVec.ofNat 16 session.popped)) ∧
        ∀ host fuel req after,
          Bus.doRequest host (Bus.nestedWriter host (fuel + 1)) session.bus req = .ok after →
          after.usedEntry (bus.blk.vdev.vq.usedIdx + BitVec.ofNat 16 session.served) =
            (req.index, req.inLen) := by
  refine ⟨Bus.asWriteNommu_status host bus .none, fun events session placed ran ready => ?_⟩
  -- At the start of the session nothing has been counted yet.
  have begins : Session.Counted bus.blk.vdev.vq { bus := bus.clearStatus } :=
    ⟨(BitVec.add_zero _).symm, (BitVec.add_zero _).symm⟩
  have counted : session.Counted bus.blk.vdev.vq :=
    Runs.run_induction_along (Session.Counted bus.blk.vdev.vq)
      (fun _ _ _ counted placed stepped => counted.next placed stepped) begins placed ran
  constructor
  · intro host fuel req after popped
    have narrow := fun vdev size =>
      @Bus.nestedWriter_narrow vdev size host 2 (by decide) (fuel + 1)
    cases Bus.vqueuePop_ready ready narrow _ popped with
    | request _ _ new index settled => rw [index, counted.avail]
  · intro host fuel req after served
    have narrow := fun vdev size count different =>
      @Bus.nestedWriter_narrow vdev size host count different (fuel + 1)
    rw [← counted.used]
    exact (Bus.doRequest_ended (Bus.nestedWriter_plain host fuel.succ_pos) narrow ready.toServes host req
      _ served).entry

/-- A machine whose block device has taken five requests, and to which the driver gave two more. -/
def sixthRequest : Bus :=
  let bus := (Machine.boot []).bus
  let bus := { bus with
    blk.vdev.vq := ⟨⟨8, 4096, 0x80001000, 0x80001080, 0x80002000⟩, 5, 5⟩ }
  -- The ring is filled up to its seventh slot, and the last two name indirect descriptors.
  let mem := LittleEndian.store (fun _ => 0) 0x80001082 2 (7 : BitVec 16)
  let mem := LittleEndian.store mem 0x8000108E 4 (0x00030002 : BitVec 32)
  let mem := LittleEndian.store mem 0x80001020 8 (0x80003000 : BitVec 64)
  let mem := LittleEndian.store mem 0x80001028 8 (0x0000000400000020 : BitVec 64)
  let mem := LittleEndian.store mem 0x80001030 8 (0x80003000 : BitVec 64)
  let mem := LittleEndian.store mem 0x80001038 8 (0x0000000400000020 : BitVec 64)
  -- Both stand for a request to flush the disk: a header and a status.
  let mem := LittleEndian.store mem 0x80003000 8 (0x80004000 : BitVec 64)
  let mem := LittleEndian.store mem 0x80003008 8 (0x0001000100000010 : BitVec 64)
  let mem := LittleEndian.store mem 0x80003010 8 (0x80005000 : BitVec 64)
  let mem := LittleEndian.store mem 0x80003018 8 (0x0000000200000001 : BitVec 64)
  bus.setMemory (LittleEndian.store mem 0x80004000 4 (4 : BitVec 32))

/-- The request in that slot, as the device takes it. -/
def sixthFlush : VqRequest :=
  { index := 2, inLen := 1, iov := [⟨0x80004000, 16, 1⟩, ⟨0x80005000, 1, 2⟩] }

/-- The sixth request is taken and served. -/
def sixthEvents : List SessionEvent := [.pop {} 0, .serve {} 0 sixthFlush]

/-- A test that the queue is set up in RAM. -/
def readyTest (bus : Bus) : Bool :=
  let vring := bus.blk.vdev.vq.vring
  bus.ram.size = ramSize && decide (0 < vring.num.toNat) &&
    decide (InMemory vring.used vring.usedSize) &&
    decide (0 < bus.blk.vdev.irqNum.toNat ∧ bus.blk.vdev.irqNum.toNat < 160) &&
    decide (InMemory vring.avail vring.availSize)

theorem ready_of_test {bus : Bus} (tested : readyTest bus) : bus.Ready := by
  simp only [readyTest, Bool.and_eq_true, decide_eq_true_eq] at tested
  obtain ⟨⟨⟨⟨whole, some⟩, used⟩, irq⟩, avail⟩ := tested
  exact { whole, some, used, irq, avail }

/-- After the write of zero and the sixth request the next is taken from the seventh slot. -/
theorem status_zero_keeps_queue_seventh :
    ∃ session req popped served,
      Runs.run Session.next { bus := sixthRequest.clearStatus } sixthEvents = .ok session ∧
      session.popped = 1 ∧ session.served = 1 ∧
      session.bus.vqueuePop {} (Bus.nestedWriter {} 1) = .ok (some req, popped) ∧
      req.index = session.bus.availHead 6 ∧
      Bus.doRequest {} (Bus.nestedWriter {} 1) session.bus req = .ok served ∧
      served.usedEntry 6 = (req.index, req.inLen) := by
  obtain ⟨session, ran, tested⟩ := @ok_of_test _
    (Runs.run Session.next { bus := sixthRequest.clearStatus } sixthEvents)
    (fun session => readyTest session.bus && session.popped = 1 && session.served = 1 &&
      (session.bus.vqueuePop {} (Bus.nestedWriter {} 1)).toOption.any fun result =>
        result.1.any fun req =>
          (Bus.doRequest {} (Bus.nestedWriter {} 1) session.bus req).toOption.any fun _ => true)
    (by decide +kernel)
  simp only [Bool.and_eq_true, decide_eq_true_eq] at tested
  obtain ⟨⟨⟨set, popped⟩, served⟩, takes⟩ := tested
  obtain ⟨⟨found, left⟩, took, completes⟩ := ok_of_test takes
  obtain ⟨req, rfl, completes⟩ := (Option.any_eq_true _ _).mp completes
  obtain ⟨after, done, -⟩ := ok_of_test completes
  -- The queue is set up whenever the device works on it.
  have placed : Runs.Along Session.next Session.RingsPlaced { bus := sixthRequest.clearStatus }
      sixthEvents := by
    refine Runs.Along.mono (fun event session ready => ?_)
      (Runs.along_of_testAlong (fun session => readyTest session.bus) (fun _ => ready_of_test)
        (by decide +kernel))
    cases event with
    | memory | register => trivial
    | pop | serve => exact ready
  obtain ⟨taken, reported⟩ :=
    (status_zero_keeps_queue {} sixthRequest).2 sixthEvents session placed ran (ready_of_test set)
  have taken := taken {} 0 req left took
  have reported := reported {} 0 req after done
  rw [popped] at taken
  rw [served] at reported
  exact ⟨session, req, left, after, ran, popped, served, took, taken, done, reported⟩

end Xemu
