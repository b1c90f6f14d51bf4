import Xemu.Machine.BusWrite

/-! Address spaces as nodes linked by pointers: registration, and the two dispatchers. -/

namespace Xemu

/-- The result of a handler: the value it returns and the state it leaves. -/
abbrev Handled (State : Type) := Except Stop (BitVec 64 × State)

/-- The struct `address_space`: its bounds, its handlers, its device, and the pointers out of it. -/
structure SpaceNode (Ptr Device State : Type) where
  start : BitVec 64
  last : BitVec 64
  readOp : Option Device → BitVec 64 → Nat → Params → State → Handled State
  writeOp : Option Device → BitVec 64 → BitVec 64 → Nat → Params → State → Handled State
  device : Option Device
  children : Option Ptr
  sibling : Option Ptr

/-- The address spaces of a program, found through pointers. -/
def Spaces (Ptr Device State : Type) := Ptr → SpaceNode Ptr Device State

variable {Ptr Device State : Type}

namespace SpaceNode

/-- The bounds test of the two dispatch loops. -/
def contains (node : SpaceNode Ptr Device State) (addr : BitVec 64) : Bool :=
  node.start ≤ addr && addr ≤ node.last

/-- A node without its pointers: what registration never changes. -/
def unlinked (node : SpaceNode Ptr Device State) : SpaceNode Ptr Device State :=
  { node with children := none, sibling := none }

end SpaceNode

/-- The function `init_address_space`. -/
def initAddressSpace (start last : BitVec 64) : SpaceNode Ptr Device State where
  start := start
  last := last
  readOp := fun _ _ _ _ _ => .error (.panic "as_read_dummy: bad addr(0x%llx) priv(%u)!\n")
  writeOp := fun _ _ _ _ _ _ => .error (.panic "as_write_dummy: bad addr(0x%llx)\n")
  device := none
  children := none
  sibling := none

namespace Spaces

/-! ### Registration -/

section Registration

variable [DecidableEq Ptr]

/-- An assignment through a pointer. -/
def assign (spaces : Spaces Ptr Device State) (ptr : Ptr) (node : SpaceNode Ptr Device State) :
    Spaces Ptr Device State :=
  fun other => if other = ptr then node else spaces other

/-- The function `register_address_space`. -/
def registerAddressSpace (spaces : Spaces Ptr Device State) (parent child : Ptr) :
    Spaces Ptr Device State :=
  -- A first child keeps whatever sibling it has.
  let spaces := if (spaces parent).children.isSome then
      spaces.assign child { spaces child with sibling := (spaces parent).children }
    else spaces
  spaces.assign parent { spaces parent with children := some child }

/-- The registration of several address spaces under one parent, in the order given. -/
def registerAll (spaces : Spaces Ptr Device State) (parent : Ptr) (order : List Ptr) :
    Spaces Ptr Device State :=
  order.foldl (fun spaces child => spaces.registerAddressSpace parent child) spaces

end Registration

/-! ### Dispatch -/

section Dispatch

variable (spaces : Spaces Ptr Device State) (rootAs : Ptr)

/-- The body of `as_read_nommu`, around its loop over the children of the node it starts from. -/
def asReadBody (loop : Ptr → Option Ptr → BitVec 64 → Handled State) (space : Option Ptr)
    (addr : BitVec 64) (size : Nat) : Handled State :=
  if !Bus.validSize size then .error (.panic "as_read_nommu: bad size %d\n")
  else
    -- A null pointer stands for the root.
    let space := space.getD rootAs
    loop space (spaces space).children addr

/-- The loop of `as_read_nommu`, from one child of the node on. -/
def readLoop (size : Nat) (params : Params) (state : State) :
    Nat → Ptr → Option Ptr → BitVec 64 → Handled State
  | 0, _, _, _ => .error .fuel
  -- After the last child the node handles the access itself.
  | _ + 1, space, none, addr =>
    (spaces space).readOp (spaces space).device addr size params state
  | fuel + 1, space, some child, addr =>
    if (spaces child).contains addr then
      asReadBody spaces rootAs (readLoop size params state fuel) (some child)
        (addr - (spaces child).start) size
    else readLoop size params state fuel space (spaces child).sibling addr

/-- The function `as_read_nommu`. -/
def asReadNommu (fuel : Nat) (space : Option Ptr) (addr : BitVec 64) (size : Nat)
    (params : Params) (state : State) : Handled State :=
  asReadBody spaces rootAs (readLoop spaces rootAs size params state fuel) space addr size

/-- The body of `as_write_nommu`, around its loop over the children of the node it starts from. -/
def asWriteBody (loop : Ptr → Option Ptr → BitVec 64 → Handled State) (space : Option Ptr)
    (addr : BitVec 64) (size : Nat) : Handled State :=
  if !Bus.validSize size then .error (.panic "as_write_nommu: bad size %d\n")
  else
    let space := space.getD rootAs
    loop space (spaces space).children addr

/-- The loop of `as_write_nommu`, from one child of the node on. -/
def writeLoop (size : Nat) (data : BitVec 64) (params : Params) (state : State) :
    Nat → Ptr → Option Ptr → BitVec 64 → Handled State
  | 0, _, _, _ => .error .fuel
  | _ + 1, space, none, addr =>
    (spaces space).writeOp (spaces space).device addr data size params state
  | fuel + 1, space, some child, addr =>
    if (spaces child).contains addr then
      asWriteBody spaces rootAs (writeLoop size data params state fuel) (some child)
        (addr - (spaces child).start) size
    else writeLoop size data params state fuel space (spaces child).sibling addr

/-- The function `as_write_nommu`. -/
def asWriteNommu (fuel : Nat) (space : Option Ptr) (addr : BitVec 64) (size : Nat)
    (data : BitVec 64) (params : Params) (state : State) : Handled State :=
  asWriteBody spaces rootAs (writeLoop spaces rootAs size data params state fuel) space addr size

/-- The node a dispatch ends at, and the offset it hands to the handler there. -/
def route : Nat → Ptr → Option Ptr → BitVec 64 → Option (Ptr × BitVec 64)
  | 0, _, _, _ => none
  | _ + 1, space, none, addr => some (space, addr)
  | fuel + 1, space, some child, addr =>
    if (spaces child).contains addr then
      route fuel child (spaces child).children (addr - (spaces child).start)
    else route fuel space (spaces child).sibling addr

end Dispatch

end Spaces

end Xemu
