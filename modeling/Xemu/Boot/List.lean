import Xemu.Lib.CyclicLists
import Xemu.Util

/-! The list heads of `list.h`, which other structures embed and whose pointers link them. -/

namespace Xemu

open Cyclic

/-- What a use of a list head through the null pointer is. -/
def Stop.null : Stop := .undefined "use of a null pointer"

/-- What a use of freed memory is, or of memory that is no such structure. -/
def Stop.stray : Stop := .undefined "use of memory that is no such structure"

/-- A stop that neither a pointer of a list nor a loop or a call without end is the cause of. -/
def Stop.Foreign (stop : Stop) : Prop := stop ≠ .fuel ∧ stop ≠ .null ∧ stop ≠ .stray

instance (stop : Stop) : Decidable stop.Foreign := inferInstanceAs (Decidable (_ ∧ _ ∧ _))

/-! ### Pointers -/

/-- A memory that has list heads in its structures. -/
class HeadMemory (Memory : Type) (Ptr : outParam Type) where
  /-- The pointers in the list heads. -/
  links : Memory → Links Ptr
  /-- The memory with other pointers in its list heads. -/
  setLinks : Memory → Links Ptr → Memory
  /-- Whether a list head is in a structure that is allocated and not freed. -/
  live : Memory → Ptr → Bool
  links_setLinks (memory : Memory) (heads : Links Ptr) : links (setLinks memory heads) = heads
  setLinks_links (memory : Memory) : setLinks memory (links memory) = memory
  setLinks_setLinks (memory : Memory) (one other : Links Ptr) :
    setLinks (setLinks memory one) other = setLinks memory other
  live_setLinks (memory : Memory) (heads : Links Ptr) : live (setLinks memory heads) = live memory

namespace HeadMemory

attribute [simp] links_setLinks setLinks_links setLinks_setLinks live_setLinks

/-- List heads in variables alone, which are never freed. -/
instance {Ptr : Type} : HeadMemory (Links Ptr) Ptr where
  links memory := memory
  setLinks _ heads := heads
  live _ _ := true
  links_setLinks _ _ := rfl
  setLinks_links _ := rfl
  setLinks_setLinks _ _ _ := rfl
  live_setLinks _ _ := rfl

end HeadMemory

open HeadMemory

variable {Memory Ptr : Type} [DecidableEq Ptr] [HeadMemory Memory Ptr]

section Pointers

variable (node value : Option Ptr) (memory : Memory)

/-- The list head that a pointer leads to. -/
def headAt : Except Stop Ptr :=
  match node with
  | none => .error .null
  | some node => if live memory node then .ok node else .error .stray

/-- A load of `next` through a pointer. -/
def loadNext : Except Stop (Option Ptr) := do
  let node ← headAt node memory
  return (links memory).next node

/-- A load of `prev` through a pointer. -/
def loadPrev : Except Stop (Option Ptr) := do
  let node ← headAt node memory
  return (links memory).prev node

/-- A store to `next` through a pointer. -/
def storeNext : Except Stop Memory := do
  let node ← headAt node memory
  let heads := links memory
  return setLinks memory { heads with next := Function.update heads.next node value }

/-- A store to `prev` through a pointer. -/
def storePrev : Except Stop Memory := do
  let node ← headAt node memory
  let heads := links memory
  return setLinks memory { heads with prev := Function.update heads.prev node value }

end Pointers

/-! ### Operations -/

/-- `INIT_LIST_HEAD`. -/
def initListHead (list : Option Ptr) (memory : Memory) : Except Stop Memory := do
  let memory ← storeNext list list memory
  storePrev list list memory

/-- `__list_add`. -/
def rawListAdd (new prev next : Option Ptr) (memory : Memory) : Except Stop Memory := do
  let memory ← storePrev next new memory
  let memory ← storeNext new next memory
  let memory ← storePrev new prev memory
  storeNext prev new memory

/-- `list_add`. -/
def listAdd (new head : Option Ptr) (memory : Memory) : Except Stop Memory := do
  let next ← loadNext head memory
  rawListAdd new head next memory

/-- `list_add_tail`. -/
def listAddTail (new head : Option Ptr) (memory : Memory) : Except Stop Memory := do
  let prev ← loadPrev head memory
  rawListAdd new prev head memory

/-- `__list_del`. -/
def rawListDel (prev next : Option Ptr) (memory : Memory) : Except Stop Memory := do
  let memory ← storePrev next prev memory
  storeNext prev next memory

/-- `__list_del_entry`. -/
def rawListDelEntry (entry : Option Ptr) (memory : Memory) : Except Stop Memory := do
  let prev ← loadPrev entry memory
  let next ← loadNext entry memory
  rawListDel prev next memory

/-- `list_del`. -/
def listDel (entry : Option Ptr) (memory : Memory) : Except Stop Memory := do
  let memory ← rawListDelEntry entry memory
  let memory ← storeNext entry none memory
  storePrev entry none memory

/-- `list_move`. -/
def listMove (list head : Option Ptr) (memory : Memory) : Except Stop Memory := do
  let memory ← rawListDelEntry list memory
  listAdd list head memory

/-- `list_move_tail`. -/
def listMoveTail (list head : Option Ptr) (memory : Memory) : Except Stop Memory := do
  let memory ← rawListDelEntry list memory
  listAddTail list head memory

/-- `list_empty`. -/
def listEmpty (head : Option Ptr) (memory : Memory) : Except Stop Bool := do
  let next ← loadNext head memory
  return next == head

/-- `__list_splice`. -/
def rawListSplice (list prev next : Option Ptr) (memory : Memory) : Except Stop Memory := do
  let first ← loadNext list memory
  let last ← loadPrev list memory
  let memory ← storePrev first prev memory
  let memory ← storeNext prev first memory
  let memory ← storeNext last next memory
  storePrev next last memory

/-- `list_splice_init`. -/
def listSpliceInit (list head : Option Ptr) (memory : Memory) : Except Stop Memory := do
  if ← listEmpty list memory then .ok memory
  else
    let next ← loadNext head memory
    let memory ← rawListSplice list head next memory
    initListHead list memory

/-- `list_splice_tail_init`. -/
def listSpliceTailInit (list head : Option Ptr) (memory : Memory) : Except Stop Memory := do
  if ← listEmpty list memory then .ok memory
  else
    let prev ← loadPrev head memory
    let memory ← rawListSplice list prev head memory
    initListHead list memory

/-! ### Loops -/

section Loops

variable {State : Type} (memory : State → Memory)
  (body : Ptr → State → Except Stop (ForInStep State)) (head : Ptr)

/-- The macro `list_for_each_safe` from one entry on, whose successor was read already. -/
def listForEachSafeFrom : Nat → Ptr → Option Ptr → State → Except Stop (ForInStep State)
  | 0, _, _, _ => .error .fuel
  | bound + 1, pos, n, state =>
    if pos = head then .ok (.yield state)
    else do
      match ← body pos state with
      | .done state => .ok (.done state)
      | .yield state =>
        let next ← loadNext n (memory state)
        match n with
        | none => .error .null
        | some pos => listForEachSafeFrom bound pos next state

/-- The macro `list_for_each_safe`, with a bound on its rounds and whether its body left it. -/
def listForEachSafe (bound : Nat) (state : State) : Except Stop (ForInStep State) := do
  let pos ← loadNext (some head) (memory state)
  let n ← loadNext pos (memory state)
  match pos with
  | none => .error .null
  | some pos => listForEachSafeFrom memory body head bound pos n state

/-- The macro `list_for_each_entry` from one entry on. -/
def listForEachEntryFrom : Nat → Option Ptr → State → Except Stop (ForInStep State)
  | 0, _, _ => .error .fuel
  -- No structure begins so many bytes before the null pointer.
  | _ + 1, none, _ => .error .null
  | bound + 1, some pos, state =>
    if pos = head then .ok (.yield state)
    else do
      match ← body pos state with
      | .done state => .ok (.done state)
      | .yield state =>
        let next ← loadNext (some pos) (memory state)
        listForEachEntryFrom bound next state

/-- The macro `list_for_each_entry`, with a bound on its rounds and whether its body left it. -/
def listForEachEntry (bound : Nat) (state : State) : Except Stop (ForInStep State) := do
  let pos ← loadNext (some head) (memory state)
  listForEachEntryFrom memory body head bound pos state

end Loops

end Xemu
