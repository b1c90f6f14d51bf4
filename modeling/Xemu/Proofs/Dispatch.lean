import Mathlib.Data.List.Induction
import Xemu.Machine.AddressSpace
import Xemu.Machine.Ram

/-! Reads and writes reach the one region that contains the address, however it was registered. -/

namespace Xemu

/-- Nodes that differ in their pointers only have the same bounds, handlers and device. -/
theorem SpaceNode.unlinked_eq {Ptr Device State : Type} {first second : SpaceNode Ptr Device State}
    (same : first.unlinked = second.unlinked) :
    first.start = second.start ∧ first.last = second.last ∧ first.readOp = second.readOp ∧
      first.writeOp = second.writeOp ∧ first.device = second.device := by
  cases first
  cases second
  simpa [unlinked] using same

namespace Spaces

variable {Ptr Device State : Type}

/-! ### Both dispatchers follow one route -/

section Route

variable (spaces : Spaces Ptr Device State) (rootAs : Ptr)

/-- The read loop ends in the handler at the end of the route. -/
theorem readLoop_route {size : Nat} (valid : Bus.validSize size) (params : Params) (state : State)
    (fuel : Nat) (space : Ptr) (child : Option Ptr) (addr : BitVec 64) :
    readLoop spaces rootAs size params state fuel space child addr =
      match spaces.route fuel space child addr with
      | none => .error .fuel
      | some (target, offset) =>
        (spaces target).readOp (spaces target).device offset size params state := by
  -- Both loops consume one unit at each child and at each level they descend.
  induction fuel generalizing space child addr with
  | zero => rfl
  | succ fuel ih =>
    cases child with
    | none => rfl
    | some child =>
      by_cases inside : (spaces child).contains addr
      · simp [readLoop, route, inside, asReadBody, valid, ih]
      · simp [readLoop, route, inside, ih]

/-- The write loop ends in the handler at the end of the same route. -/
theorem writeLoop_route {size : Nat} (valid : Bus.validSize size) (data : BitVec 64)
    (params : Params) (state : State) (fuel : Nat) (space : Ptr) (child : Option Ptr)
    (addr : BitVec 64) :
    writeLoop spaces rootAs size data params state fuel space child addr =
      match spaces.route fuel space child addr with
      | none => .error .fuel
      | some (target, offset) =>
        (spaces target).writeOp (spaces target).device offset data size params state := by
  -- The loop and the route take the same branch at every region.
  induction fuel generalizing space child addr with
  | zero => rfl
  | succ fuel ih =>
    cases child with
    | none => rfl
    | some child =>
      by_cases inside : (spaces child).contains addr
      · simp [writeLoop, route, inside, asWriteBody, valid, ih]
      · simp [writeLoop, route, inside, ih]

variable {spaces rootAs}

/-- A read is handled where its route ends, unless its size is refused before it starts. -/
theorem asReadNommu_route {fuel : Nat} {target : Ptr} {addr offset : BitVec 64}
    (routed : spaces.route fuel rootAs (spaces rootAs).children addr = some (target, offset))
    (size : Nat) (params : Params) (state : State) :
    spaces.asReadNommu rootAs fuel none addr size params state =
      if Bus.validSize size then
        (spaces target).readOp (spaces target).device offset size params state
      else .error (.panic "as_read_nommu: bad size %d\n") := by
  by_cases valid : Bus.validSize size
  · simp [asReadNommu, asReadBody, valid, readLoop_route spaces rootAs valid, routed]
  · simp [asReadNommu, asReadBody, valid]

/-- A write is handled where its route ends, unless its size is refused before it starts. -/
theorem asWriteNommu_route {fuel : Nat} {target : Ptr} {addr offset : BitVec 64}
    (routed : spaces.route fuel rootAs (spaces rootAs).children addr = some (target, offset))
    (size : Nat) (data : BitVec 64) (params : Params) (state : State) :
    spaces.asWriteNommu rootAs fuel none addr size data params state =
      if Bus.validSize size then
        (spaces target).writeOp (spaces target).device offset data size params state
      else .error (.panic "as_write_nommu: bad size %d\n") := by
  by_cases valid : Bus.validSize size
  · simp [asWriteNommu, asWriteBody, valid, writeLoop_route spaces rootAs valid, routed]
  · simp [asWriteNommu, asWriteBody, valid]

end Route

/-! ### The list that registration builds -/

/-- The siblings from a pointer on are the nodes of a list, in its order. -/
def Chain (spaces : Spaces Ptr Device State) : Option Ptr → List Ptr → Prop
  | first, [] => first = none
  | first, child :: rest => first = some child ∧ Chain spaces (spaces child).sibling rest

/-- A chain depends on the siblings of its own nodes only. -/
theorem Chain.congr {before after : Spaces Ptr Device State} {first : Option Ptr}
    {list : List Ptr} (same : ∀ child ∈ list, (after child).sibling = (before child).sibling)
    (chain : before.Chain first list) : after.Chain first list := by
  induction list generalizing first with
  | nil => exact chain
  | cons child rest ih =>
    refine ⟨chain.1, ?_⟩
    rw [same child List.mem_cons_self]
    exact ih (fun other member => same other (List.mem_cons_of_mem _ member)) chain.2

/-- The route along a chain of leaves ends at the first one that contains the address. -/
theorem route_chain {spaces : Spaces Ptr Device State} {space : Ptr} {first : Option Ptr}
    {list : List Ptr} {addr : BitVec 64} {fuel : Nat} (chain : spaces.Chain first list)
    (leaves : ∀ child ∈ list, (spaces child).children = none) (enough : list.length < fuel) :
    spaces.route fuel space first addr =
      some (match list.find? fun child => (spaces child).contains addr with
        | none => (space, addr)
        | some child => (child, addr - (spaces child).start)) := by
  induction list generalizing first fuel with
  | nil =>
    obtain ⟨fuel, rfl⟩ := Nat.exists_eq_succ_of_ne_zero (Nat.ne_of_gt enough)
    cases chain
    rfl
  | cons child rest ih =>
    obtain ⟨fuel, rfl⟩ := Nat.exists_eq_succ_of_ne_zero (Nat.ne_of_gt (Nat.zero_lt_of_lt enough))
    obtain ⟨rfl, later⟩ := chain
    rw [List.length_cons] at enough
    by_cases inside : (spaces child).contains addr
    · -- The child is a leaf, so the dispatch ends in it.
      obtain ⟨more, rfl⟩ := Nat.exists_eq_succ_of_ne_zero (show fuel ≠ 0 by omega)
      simp [route, inside, leaves child List.mem_cons_self]
    · have next := ih later (fun other member => leaves other (List.mem_cons_of_mem _ member))
        (Nat.lt_of_succ_lt_succ enough)
      simp [route, inside, next]

/-- Address spaces as they are set up: initialised, apart, and about to be registered once each. -/
structure Registrable (spaces : Spaces Ptr Device State) (root : Ptr) (order : List Ptr) : Prop where
  once : order.Nodup
  apart : root ∉ order
  empty : (spaces root).children = none
  leaf : ∀ child ∈ order, (spaces child).children = none
  alone : ∀ child ∈ order, (spaces child).sibling = none
  disjoint : ∀ addr, ∀ first ∈ order, ∀ second ∈ order,
    (spaces first).contains addr → (spaces second).contains addr → first = second

/-- What can be registered in one order can be in any other. -/
theorem Registrable.perm {spaces : Spaces Ptr Device State} {root : Ptr} {order other : List Ptr}
    (fit : spaces.Registrable root order) (perm : other.Perm order) :
    spaces.Registrable root other where
  once := perm.nodup_iff.mpr fit.once
  apart := fun member => fit.apart (perm.mem_iff.mp member)
  empty := fit.empty
  leaf := fun child member => fit.leaf child (perm.mem_iff.mp member)
  alone := fun child member => fit.alone child (perm.mem_iff.mp member)
  disjoint := fun addr first inFirst second inSecond =>
    fit.disjoint addr first (perm.mem_iff.mp inFirst) second (perm.mem_iff.mp inSecond)

/-- Where an access goes: the region that contains the address, or the root if there is none. -/
structure Place (spaces : Spaces Ptr Device State) (root : Ptr) (regions : List Ptr)
    (addr : BitVec 64) (space : Ptr) (offset : BitVec 64) : Prop where
  inside : ∀ child ∈ regions, (spaces child).contains addr →
    space = child ∧ offset = addr - (spaces child).start
  outside : (∀ child ∈ regions, ¬ (spaces child).contains addr) → space = root ∧ offset = addr

/-- Every access goes somewhere. -/
theorem exists_place {spaces : Spaces Ptr Device State} {root : Ptr} {regions : List Ptr}
    (fit : spaces.Registrable root regions) (addr : BitVec 64) :
    ∃ space offset, spaces.Place root regions addr space offset := by
  by_cases taken : ∃ child ∈ regions, (spaces child).contains addr
  · obtain ⟨child, member, inside⟩ := taken
    refine ⟨child, addr - (spaces child).start, fun other otherMember otherInside => ?_,
      fun outside => absurd inside (outside child member)⟩
    -- Two regions with a common address are one.
    rw [fit.disjoint addr other otherMember child member otherInside inside]
    exact ⟨rfl, rfl⟩
  · exact ⟨root, addr, fun child member inside => absurd ⟨child, member, inside⟩ taken,
      fun _ => ⟨rfl, rfl⟩⟩

/-- A search through the regions, in whatever order they stand, ends at that place. -/
theorem Place.find {spaces : Spaces Ptr Device State} {root : Ptr} {regions list : List Ptr}
    {addr offset : BitVec 64} {space : Ptr} (place : spaces.Place root regions addr space offset)
    (same : ∀ child, child ∈ list ↔ child ∈ regions) :
    (match list.find? fun child => (spaces child).contains addr with
      | none => (root, addr)
      | some child => (child, addr - (spaces child).start)) = (space, offset) := by
  -- Regions are apart, so that the order of the search does not matter.
  cases found : list.find? fun child => (spaces child).contains addr with
  | none =>
    obtain ⟨rfl, rfl⟩ := place.outside fun child member =>
      List.find?_eq_none.mp found child ((same child).mpr member)
    rfl
  | some child =>
    obtain ⟨rfl, rfl⟩ := place.inside child
      ((same child).mp (List.mem_of_find?_eq_some found)) (by simpa using List.find?_some found)
    rfl

section Registered

variable [DecidableEq Ptr]

/-- A registration gives the root its new first child, and the child the former one as sibling. -/
theorem registerAddressSpace_apply {spaces : Spaces Ptr Device State} {root child : Ptr}
    (apart : child ≠ root) (alone : (spaces child).sibling = none) (ptr : Ptr) :
    spaces.registerAddressSpace root child ptr =
      if ptr = root then { spaces root with children := some child }
      else if ptr = child then { spaces child with sibling := (spaces root).children }
      else spaces ptr := by
  have other : root ≠ child := apart.symm
  cases first : (spaces root).children with
  | none =>
    -- Without children of the root the child keeps its sibling, and there is none to keep.
    simp only [registerAddressSpace, first, assign, Option.isSome_none, Bool.false_eq_true, if_false]
    split
    · rfl
    · split
      · rename_i own
        rw [own, ← alone]
      · rfl
  | some head =>
    simp only [registerAddressSpace, first, assign, Option.isSome_some, if_true, if_neg other]

/-- The nodes after some registrations: what they have become, and how they are linked. -/
structure Linked (before after : Spaces Ptr Device State) (root : Ptr) (list : List Ptr) : Prop where
  /-- The children of the root are the registered nodes, the latest one first. -/
  chain : after.Chain (after root).children list
  /-- Nothing but pointers has changed. -/
  same : ∀ ptr, (after ptr).unlinked = (before ptr).unlinked
  /-- Only the root has got children. -/
  children : ∀ ptr, ptr ≠ root → (after ptr).children = (before ptr).children
  /-- Only registered nodes have got siblings. -/
  sibling : ∀ ptr, ptr ∉ list → (after ptr).sibling = (before ptr).sibling

/-- One more registration puts the new node in front of the list. -/
theorem Linked.register {before after : Spaces Ptr Device State} {root child : Ptr}
    {list : List Ptr} (linked : before.Linked after root list) (apart : child ≠ root)
    (fresh : child ∉ list) (alone : (before child).sibling = none) (rootApart : root ∉ list) :
    before.Linked (after.registerAddressSpace root child) root (child :: list) := by
  have apply := registerAddressSpace_apply apart ((linked.sibling child fresh).trans alone)
  refine ⟨⟨?_, ?_⟩, fun ptr => ?_, fun ptr other => ?_, fun ptr outside => ?_⟩
  · rw [apply, if_pos rfl]
  · -- The former list goes on behind the new node, and its own links are as they were.
    rw [apply, if_neg apart, if_pos rfl]
    refine linked.chain.congr fun old member => ?_
    have differs : old ≠ child := fun same => fresh (same ▸ member)
    have notRoot : old ≠ root := fun same => rootApart (same ▸ member)
    rw [apply, if_neg notRoot, if_neg differs]
  · rw [apply, ← linked.same ptr]
    split
    · rename_i parent
      rw [parent]
      rfl
    · split
      · rename_i own
        rw [own]
        rfl
      · rfl
  · rw [apply, if_neg other, ← linked.children ptr other]
    split
    · rename_i own
      rw [own]
    · rfl
  · rw [apply, ← linked.sibling ptr fun member => outside (List.mem_cons_of_mem _ member)]
    have differs : ptr ≠ child := fun same => outside (same ▸ List.mem_cons_self)
    rw [if_neg differs]
    split
    · rename_i parent
      rw [parent]
    · rfl

/-- Registering nodes one after another links them in the reverse of that order. -/
theorem linked_registerAll {spaces : Spaces Ptr Device State} {root : Ptr} {order : List Ptr}
    (fit : spaces.Registrable root order) :
    spaces.Linked (spaces.registerAll root order) root order.reverse := by
  -- The induction is on the end of the list, where the latest registration stands.
  induction order using List.reverseRecOn with
  | nil =>
    exact ⟨fit.empty, fun _ => rfl, fun _ _ => rfl, fun _ _ => rfl⟩
  | append_singleton earlier child ih =>
    have inside : ∀ other ∈ earlier, other ∈ earlier ++ [child] :=
      fun other member => List.mem_append_left _ member
    have here : child ∈ earlier ++ [child] := List.mem_append_right _ List.mem_cons_self
    have apart : root ∉ earlier := fun member => fit.apart (inside root member)
    have differs : child ≠ root := fun same => fit.apart (same ▸ here)
    have parts := List.nodup_append.mp fit.once
    have fresh : child ∉ earlier :=
      fun member => parts.2.2 child member child List.mem_cons_self rfl
    have before := ih ⟨parts.1, apart, fit.empty, fun other member => fit.leaf other (inside other member),
      fun other member => fit.alone other (inside other member),
      fun addr first inFirst second inSecond =>
        fit.disjoint addr first (inside first inFirst) second (inside second inSecond)⟩
    have last := before.register differs (fun member => fresh (List.mem_reverse.mp member))
      (fit.alone child here) (fun member => apart (List.mem_reverse.mp member))
    rw [registerAll, List.foldl_append, List.reverse_append]
    exact last

/-- After the registrations the route is that of a search through the list. -/
theorem route_registerAll {spaces : Spaces Ptr Device State} {root : Ptr} {order : List Ptr}
    (fit : spaces.Registrable root order) {fuel : Nat} (enough : order.length < fuel)
    (addr : BitVec 64) :
    (spaces.registerAll root order).route fuel root
        ((spaces.registerAll root order) root).children addr =
      some (match order.reverse.find? fun child => (spaces child).contains addr with
        | none => (root, addr)
        | some child => (child, addr - (spaces child).start)) := by
  have linked := linked_registerAll fit
  have leaves : ∀ child ∈ order.reverse, (spaces.registerAll root order child).children = none := by
    intro child member
    have inside := List.mem_reverse.mp member
    have differs : child ≠ root := fun same => fit.apart (same ▸ inside)
    rw [linked.children child differs]
    exact fit.leaf child inside
  rw [route_chain linked.chain leaves (by rwa [List.length_reverse])]
  -- The bounds of every node are those it was initialised with.
  simp only [SpaceNode.contains, (SpaceNode.unlinked_eq (linked.same _)).1,
    (SpaceNode.unlinked_eq (linked.same _)).2.1]

/-- After registrations in any order, both dispatchers hand the access to the handler there. -/
theorem Place.dispatch {spaces : Spaces Ptr Device State} {root : Ptr} {regions order : List Ptr}
    {addr offset : BitVec 64} {space : Ptr} (place : spaces.Place root regions addr space offset)
    (fit : spaces.Registrable root regions) (perm : order.Perm regions) {fuel : Nat}
    (enough : order.length < fuel) (size : Nat) (data : BitVec 64) (params : Params)
    (state : State) :
    (spaces.registerAll root order).asReadNommu root fuel none addr size params state =
        (if Bus.validSize size then
          (spaces space).readOp (spaces space).device offset size params state
        else .error (.panic "as_read_nommu: bad size %d\n")) ∧
      (spaces.registerAll root order).asWriteNommu root fuel none addr size data params state =
        (if Bus.validSize size then
          (spaces space).writeOp (spaces space).device offset data size params state
        else .error (.panic "as_write_nommu: bad size %d\n")) := by
  have routed := route_registerAll (fit.perm perm) enough addr
  rw [place.find fun child => List.mem_reverse.trans perm.mem_iff] at routed
  -- Registration has left the handlers and the device of the node as they were.
  obtain ⟨-, -, readOp, writeOp, device⟩ :=
    SpaceNode.unlinked_eq ((linked_registerAll (fit.perm perm)).same space)
  rw [asReadNommu_route routed, asWriteNommu_route routed, readOp, writeOp, device]
  exact ⟨rfl, rfl⟩

end Registered

end Spaces

/-! ### The regions of the emulator -/

namespace AddressSpace

/-- The bounds a device is initialised with, which for the device `dummy` are those of the root. -/
def initialBounds (id : DeviceId) : BitVec 64 × BitVec 64 :=
  ((registered.find? fun region => region.device == id).map fun region =>
    (region.start, region.last)).getD (0x0, 0x7FFFFFFFFF)

/-- The address space of each device before its registration. -/
def initialSpaces (host : Host) (write : Bus.Writer) (fuel : Nat) : Spaces DeviceId DeviceId Bus :=
  fun id =>
    let node : SpaceNode DeviceId DeviceId Bus :=
      initAddressSpace (initialBounds id).1 (initialBounds id).2
    { node with
      readOp := fun _ addr size params bus => bus.deviceRead host id addr size params
      writeOp := fun _ addr data size params bus =>
        bus.deviceWrite host write fuel id addr data size params
      device := some id }

/-- The devices of the regions, in the order in which `main` registers them. -/
def registeredDevices : List DeviceId := registered.map fun region => region.device

/-- The space of a registered device has the bounds it is registered with. -/
theorem initialSpaces_contains {host : Host} {write : Bus.Writer} {fuel : Nat}
    {region : AddressSpace} (member : region ∈ registered) (addr : BitVec 64) :
    (initialSpaces host write fuel region.device).contains addr = region.contains addr ∧
      (initialSpaces host write fuel region.device).start = region.start := by
  have bounds : ∀ region ∈ registered,
      initialBounds region.device = (region.start, region.last) := by decide
  constructor
  · rw [SpaceNode.contains, initialSpaces, initAddressSpace, bounds region member]
    rfl
  · rw [initialSpaces, initAddressSpace, bounds region member]

/-- The regions of `main` are apart from each other, and each is registered once. -/
theorem registrable_main (host : Host) (write : Bus.Writer) (fuel : Nat) :
    (initialSpaces host write fuel).Registrable .dummy registeredDevices where
  once := by decide
  apart := by decide
  empty := rfl
  leaf := fun _ _ => rfl
  alone := fun _ _ => rfl
  disjoint := by
    intro addr first inFirst second inSecond firstInside secondInside
    obtain ⟨one, oneMember, rfl⟩ := List.mem_map.mp inFirst
    obtain ⟨two, twoMember, rfl⟩ := List.mem_map.mp inSecond
    rw [(initialSpaces_contains oneMember addr).1] at firstInside
    rw [(initialSpaces_contains twoMember addr).1] at secondInside
    -- An address in two ranges is one of a single device, since no two of the ranges meet.
    have apart : ∀ one ∈ registered, ∀ two ∈ registered, one.device = two.device ∨
        one.last < two.start ∨ two.last < one.start := by decide
    simp only [contains, Bool.and_eq_true, decide_eq_true_eq, BitVec.le_def] at firstInside
    simp only [contains, Bool.and_eq_true, decide_eq_true_eq, BitVec.le_def] at secondInside
    rcases apart one oneMember two twoMember with same | before | after
    · exact same
    · rw [BitVec.lt_def] at before
      omega
    · rw [BitVec.lt_def] at after
      omega

/-- The bus of the model is what the linked nodes come to, in whatever order they are registered. -/
theorem dispatch_main {host : Host} {write : Bus.Writer} {work fuel : Nat} {order : List DeviceId}
    (perm : order.Perm registeredDevices) (enough : order.length < fuel) (bus : Bus)
    (addr : BitVec 64) (size : Nat) (data : BitVec 64) (params : Params) :
    ((initialSpaces host write work).registerAll .dummy order).asReadNommu .dummy fuel none addr
        size params bus = bus.asReadNommu host addr size params ∧
      ((initialSpaces host write work).registerAll .dummy order).asWriteNommu .dummy fuel none addr
        size data params bus = bus.asWriteNommuWith host write work addr size data params := by
  have fit := registrable_main host write work
  obtain ⟨space, offset, place⟩ := Spaces.exists_place fit addr
  -- The place the nodes lead to is the one the list of regions leads to.
  have same : route rootChildren addr = (space, offset) := by
    have list : rootChildren = registered.reverse := by decide
    rw [route_find, list]
    cases found : registered.reverse.find? fun child => child.contains addr with
    | none =>
      have free := List.find?_eq_none.mp found
      obtain ⟨rfl, rfl⟩ := place.outside fun child member contained => by
        obtain ⟨region, registers, rfl⟩ := List.mem_map.mp member
        rw [(initialSpaces_contains registers addr).1] at contained
        exact free region (List.mem_reverse.mpr registers) contained
      rfl
    | some region =>
      have member := List.mem_reverse.mp (List.mem_of_find?_eq_some found)
      have contained : region.contains addr := by simpa using List.find?_some found
      have bounds := @initialSpaces_contains host write work region member addr
      obtain ⟨rfl, rfl⟩ := place.inside region.device (List.mem_map.mpr ⟨region, member, rfl⟩)
        (bounds.1.trans contained)
      rw [bounds.2]
  obtain ⟨read, written⟩ := place.dispatch fit perm enough size data params bus
  rw [read, written, Bus.asReadNommu, Bus.asWriteNommuWith, Bus.readFrom_route,
    Bus.writeFrom_route, same]
  have handlers : ∀ id, (initialSpaces host write work id).readOp = (fun _ addr size params bus =>
      bus.deviceRead host id addr size params) ∧
      (initialSpaces host write work id).writeOp = (fun _ addr data size params bus =>
        bus.deviceWrite host write work id addr data size params) :=
    fun id => ⟨rfl, rfl⟩
  rw [(handlers space).1, (handlers space).2]
  by_cases valid : Bus.validSize size <;> simp [valid]

end AddressSpace

/-! ### One place for every access -/

/--
Every access reaches one place, which neither its kind nor the order of registration changes.

It is the one region that contains the address, at the distance from its start, or else the root.
-/
theorem dispatch_unique {Ptr Device State : Type} [DecidableEq Ptr]
    {spaces : Spaces Ptr Device State} {root : Ptr} {regions : List Ptr}
    (fit : spaces.Registrable root regions) (addr : BitVec 64) :
    ∃ space offset, spaces.Place root regions addr space offset ∧
      ∀ order : List Ptr, order.Perm regions → ∀ fuel, order.length < fuel →
        ∀ size data params state,
          (spaces.registerAll root order).asReadNommu root fuel none addr size params state =
              (if Bus.validSize size then
                (spaces space).readOp (spaces space).device offset size params state
              else .error (.panic "as_read_nommu: bad size %d\n")) ∧
            (spaces.registerAll root order).asWriteNommu root fuel none addr size data params state =
              (if Bus.validSize size then
                (spaces space).writeOp (spaces space).device offset data size params state
              else .error (.panic "as_write_nommu: bad size %d\n")) := by
  obtain ⟨space, offset, place⟩ := Spaces.exists_place fit addr
  exact ⟨space, offset, place, fun order perm fuel enough size data params state =>
    place.dispatch fit perm enough size data params state⟩

/-- With the regions of `main` registered the other way round, RAM takes an address in it. -/
theorem dispatch_unique_ram :
    ((AddressSpace.initialSpaces {} (Bus.nestedWriter {} 0) 0).registerAll .dummy
      AddressSpace.registeredDevices.reverse).asReadNommu .dummy 17 none 0x80000004 4 .none =
      fun bus => bus.deviceRead {} .ram 4 4 .none := by
  obtain ⟨space, offset, place, reach⟩ :=
    dispatch_unique (AddressSpace.registrable_main {} (Bus.nestedWriter {} 0) 0) 0x80000004
  obtain ⟨rfl, rfl⟩ := place.inside .ram (by decide) (by decide)
  funext bus
  exact (reach _ (List.reverse_perm _) 17 (by decide) 4 0 .none bus).1

end Xemu
