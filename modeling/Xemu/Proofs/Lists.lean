import Xemu.Boot.List
import Xemu.Lib.Runs

/-! Linked list heads behave as lists under every operation, and loops over them visit each entry once. -/

namespace Xemu

open Cyclic Runs HeadMemory

variable {Memory Ptr : Type} [HeadMemory Memory Ptr]

/-! ### Operations -/

section Stores

variable {memory : Memory} {node new prev next list first last : Ptr}

/-- A pointer to a structure in use can be followed. -/
theorem headAt_live (alive : live memory node) : headAt (some node) memory = .ok node := if_pos alive

variable [DecidableEq Ptr]

/-- What is in a structure that was freed can not be taken off its list any more. -/
theorem listDel_freed (freed : live memory node = false) :
    listDel (some node) memory = .error .stray := by
  simp only [listDel, rawListDelEntry, loadPrev, headAt, freed]
  rfl

/-- A node is linked to both of the nodes it is put between. -/
theorem rawListAdd_eq (fresh : live memory new) (before : live memory prev)
    (behind : live memory next) : rawListAdd (some new) (some prev) (some next) memory =
      .ok (setLinks memory (((links memory).join new next).join prev new)) := by
  simp only [rawListAdd, storeNext, storePrev, headAt, live_setLinks, links_setLinks,
    setLinks_setLinks, fresh, before, behind, if_true, ok_bind, pure_eq_ok]
  rfl

/-- The nodes around an entry are linked to each other. -/
theorem rawListDel_eq (before : live memory prev) (behind : live memory next) :
    rawListDel (some prev) (some next) memory =
      .ok (setLinks memory ((links memory).join prev next)) := by
  simp only [rawListDel, storeNext, storePrev, headAt, live_setLinks, links_setLinks,
    setLinks_setLinks, before, behind, if_true, ok_bind, pure_eq_ok]
  rfl

/-- Both pointers lead to the node itself. -/
theorem initListHead_eq (fresh : live memory list) :
    initListHead (some list) memory = .ok (setLinks memory ((links memory).join list list)) := by
  simp only [initListHead, storeNext, storePrev, headAt, live_setLinks, links_setLinks,
    setLinks_setLinks, fresh, if_true, ok_bind, pure_eq_ok]
  rfl

/-- The ends of a list are linked to the nodes it is put between. -/
theorem rawListSplice_eq (starts : (links memory).next list = some first)
    (ends : (links memory).prev list = some last) (source : live memory list)
    (front : live memory first) (back : live memory last) (before : live memory prev)
    (behind : live memory next) :
    rawListSplice (some list) (some prev) (some next) memory =
      .ok (setLinks memory (((links memory).join prev first).join last next)) := by
  simp only [rawListSplice, loadNext, loadPrev, storeNext, storePrev, headAt, live_setLinks,
    links_setLinks, setLinks_setLinks, source, front, back, before, behind, starts, ends, if_true,
    ok_bind, pure_eq_ok]
  rfl

end Stores

/-- What the step leaves behind are the given lists, and nothing but pointers has changed. -/
def Makes (memory : Memory) (result : Except Stop Memory) (lists : Listing Ptr) : Prop :=
  ∃ after, result = .ok (setLinks memory after) ∧ after.Holds lists

/-- All of the nodes are in structures that are in use. -/
def Live (memory : Memory) (nodes : List Ptr) : Prop := ∀ node ∈ nodes, live memory node

section Effects

variable {memory : Memory} {lists : Listing Ptr} {head host list new entry one other : Ptr}
  {entries inner front back before behind : List Ptr}

/-- A step that goes on from other pointers changes nothing but pointers. -/
theorem Makes.again {heads : Links Ptr} {result : Except Stop Memory}
    (made : Makes (setLinks memory heads) result lists) : Makes memory result lists := by
  obtain ⟨after, done, holds⟩ := made
  rw [setLinks_setLinks] at done
  exact ⟨after, done, holds⟩

/-- Other pointers leave the structures in use. -/
theorem Live.setLinks (alive : Live memory entries) (heads : Links Ptr) :
    Live (setLinks memory heads) entries := by
  simpa [Live] using alive

/-- The nodes stay in use where every structure does. -/
theorem Live.mono {grown : Memory} (alive : Live memory entries)
    (kept : ∀ node, live memory node → live grown node) : Live grown entries :=
  fun node member => kept node (alive node member)

/-- The nodes around a place in a list are nodes of the list. -/
theorem Live.around (alive : Live memory (head :: entries))
    (gap : circuit head entries = before ++ one :: (inner ++ other :: behind)) :
    live memory one ∧ live memory other := by
  have within (node : Ptr) (member : node ∈ before ++ one :: (inner ++ other :: behind)) :
      live memory node := alive node (mem_circuit.mp (gap ▸ member))
  exact ⟨within one (by simp), within other (by simp)⟩

variable [DecidableEq Ptr]

/-- A list is reported to be empty when it has no entry. -/
theorem listEmpty_eq (holds : (links memory).Holds lists) (listed : lists head = some entries)
    (alive : live memory head) : listEmpty (some head) memory = .ok entries.isEmpty := by
  simp only [listEmpty, loadNext, headAt_live alive, holds.next_head listed, ok_bind, pure_eq_ok]
  cases entries with
  | nil => simp
  | cons first rest =>
    -- The head points at an entry, which is another node than the head itself.
    have other : first ≠ head := fun same =>
      (List.nodup_cons.mp (holds.nodup listed)).1 (same ▸ List.mem_cons_self)
    simpa using other

/-- A node that is in no list is put between two parts of one. -/
theorem rawListAdd_makes (holds : (links memory).Holds lists)
    (listed : lists head = some (front ++ back)) (alive : Live memory (head :: (front ++ back)))
    (free : lists.Free new) (fresh : live memory new)
    (gap : ∀ inner, circuit head (front ++ (inner ++ back)) =
      before ++ one :: (inner ++ other :: behind)) :
    Makes memory (rawListAdd (some new) (some one) (some other) memory)
      (Function.update lists head (some (front ++ new :: back))) := by
  -- The nodes around the gap are in the list, and the new one is in none.
  have around : ∀ node ∈ before ++ one :: other :: behind, node ≠ new := by
    intro node member same
    have inside := mem_circuit.mp ((gap []).symm ▸ member : node ∈ circuit head (front ++ back))
    exact free head _ listed (same ▸ inside)
  obtain ⟨first, second⟩ := alive.around (gap [])
  refine ⟨_, rawListAdd_eq fresh first second, ?_⟩
  rw [Links.join_comm _ (around one (by simp)).symm (around other (by simp))]
  exact holds.insert listed (gap []) (gap [new]) (.singleton new) rfl
    (List.nil_append [new]).symm (List.nodup_singleton new) (by simpa using free)

/-- A node becomes the first entry of a list. -/
theorem listAdd_makes (holds : (links memory).Holds lists) (listed : lists head = some entries)
    (alive : Live memory (head :: entries)) (free : lists.Free new) (fresh : live memory new) :
    Makes memory (listAdd (some new) (some head) memory)
      (Function.update lists head (some (new :: entries))) := by
  -- The node goes between the head and the one behind it.
  obtain ⟨before, one, other, behind, starts, -, gap⟩ := circuit_gap head [] entries
  obtain ⟨rfl, rfl⟩ : before = [] ∧ one = head := by
    cases before <;> simp_all
  have whole : lists one = some ([] ++ entries) := listed
  have linked := holds.linked whole gap
  have entered := headAt_live (alive one List.mem_cons_self)
  simp only [listAdd, loadNext, entered, linked.1, ok_bind, pure_eq_ok]
  exact rawListAdd_makes holds whole alive free fresh gap

/-- A node becomes the last entry of a list. -/
theorem listAddTail_makes (holds : (links memory).Holds lists) (listed : lists head = some entries)
    (alive : Live memory (head :: entries)) (free : lists.Free new) (fresh : live memory new) :
    Makes memory (listAddTail (some new) (some head) memory)
      (Function.update lists head (some (entries ++ [new]))) := by
  -- The node goes between the one before the head and the head.
  obtain ⟨before, one, other, behind, -, ends, gap⟩ := circuit_gap head entries []
  obtain ⟨rfl, rfl⟩ : head = other ∧ behind = [] := by
    simpa using ends
  have whole : lists head = some (entries ++ []) := by rwa [List.append_nil]
  have all : Live memory (head :: (entries ++ [])) := by rwa [List.append_nil]
  have linked := holds.linked whole gap
  have entered := headAt_live (alive head List.mem_cons_self)
  simp only [listAddTail, loadPrev, entered, linked.2, ok_bind, pure_eq_ok]
  exact rawListAdd_makes holds whole all free fresh gap

/-- The nodes around an entry are linked to each other, and the entry is in no list. -/
theorem rawListDelEntry_makes (holds : (links memory).Holds lists)
    (listed : lists head = some (front ++ entry :: back))
    (alive : Live memory (head :: (front ++ entry :: back))) :
    ∃ after, rawListDelEntry (some entry) memory = .ok (setLinks memory after) ∧
      after.Holds (Function.update lists head (some (front ++ back))) ∧
      Listing.Free (Function.update lists head (some (front ++ back))) entry := by
  obtain ⟨before, one, other, behind, -, -, gap⟩ := circuit_gap head front back
  have whole : circuit head (front ++ entry :: back) = before ++ one :: entry :: other :: behind :=
    gap [entry]
  -- The entry leads to the nodes on both of its sides.
  have ring := holds.ring listed
  rw [whole, Links.Chain, List.isChain_append_cons_cons, List.isChain_cons_cons] at ring
  obtain ⟨-, came, went, -⟩ := ring
  have removed := holds.remove listed whole (gap [])
  obtain ⟨first, second⟩ := alive.around (gap [entry])
  have entered := headAt_live (alive entry (by simp))
  refine ⟨_, ?_, removed⟩
  simp only [rawListDelEntry, loadPrev, loadNext, entered, came.2, went.1, ok_bind, pure_eq_ok]
  exact rawListDel_eq first second

/-- An entry is taken out of its list. -/
theorem listDel_makes (holds : (links memory).Holds lists)
    (listed : lists head = some (front ++ entry :: back))
    (alive : Live memory (head :: (front ++ entry :: back))) :
    Makes memory (listDel (some entry) memory)
      (Function.update lists head (some (front ++ back))) := by
  obtain ⟨after, done, kept, free⟩ := rawListDelEntry_makes holds listed alive
  have entered : live memory entry := alive entry (by simp)
  simp only [listDel, done, storeNext, storePrev, headAt, live_setLinks, links_setLinks,
    setLinks_setLinks, entered, if_true, ok_bind, pure_eq_ok]
  exact ⟨_, rfl, kept.clear free⟩

/-- An entry becomes the first one of a list. -/
theorem listMove_makes (holds : (links memory).Holds lists)
    (listed : lists host = some (front ++ list :: back))
    (alive : Live memory (host :: (front ++ list :: back)))
    (target : Function.update lists host (some (front ++ back)) head = some entries)
    (also : Live memory (head :: entries)) :
    Makes memory (listMove (some list) (some head) memory) (Function.update
      (Function.update lists host (some (front ++ back))) head (some (list :: entries))) := by
  -- What was taken out is in no list, so it can be put into one.
  obtain ⟨after, done, kept, free⟩ := rawListDelEntry_makes holds listed alive
  have entered : live memory list := alive list (by simp)
  simp only [listMove, done, ok_bind]
  exact (listAdd_makes (by simpa using kept) target (also.setLinks after) free
    (by simpa using entered)).again

/-- An entry becomes the last one of a list. -/
theorem listMoveTail_makes (holds : (links memory).Holds lists)
    (listed : lists host = some (front ++ list :: back))
    (alive : Live memory (host :: (front ++ list :: back)))
    (target : Function.update lists host (some (front ++ back)) head = some entries)
    (also : Live memory (head :: entries)) :
    Makes memory (listMoveTail (some list) (some head) memory) (Function.update
      (Function.update lists host (some (front ++ back))) head (some (entries ++ [list]))) := by
  obtain ⟨after, done, kept, free⟩ := rawListDelEntry_makes holds listed alive
  have entered : live memory list := alive list (by simp)
  simp only [listMoveTail, done, ok_bind]
  exact (listAddTail_makes (by simpa using kept) target (also.setLinks after) free
    (by simpa using entered)).again

/-- A node that is in no list becomes the node of an empty one. -/
theorem initListHead_makes (holds : (links memory).Holds lists)
    (free : Listing.Free (Function.update lists list none) list) (fresh : live memory list) :
    Makes memory (initListHead (some list) memory) (Function.update lists list (some [])) := by
  have made := (holds.forget list).init free
  rw [Function.update_idem] at made
  exact ⟨_, initListHead_eq fresh, made⟩

/-- The entries of one list are put between two parts of another one, and the first list is emptied. -/
theorem rawListSplice_makes (holds : (links memory).Holds lists) (source : lists list = some inner)
    (alive : Live memory (list :: inner)) (nonempty : inner ≠ []) (different : list ≠ head)
    (listed : lists head = some (front ++ back)) (also : Live memory (head :: (front ++ back)))
    (gap : ∀ inner, circuit head (front ++ (inner ++ back)) =
      before ++ one :: (inner ++ other :: behind)) :
    Makes memory (do
      let memory ← rawListSplice (some list) (some one) (some other) memory
      initListHead (some list) memory)
      (Function.update (Function.update lists list (some [])) head
        (some (front ++ (inner ++ back)))) := by
  have own := holds.nodup source
  obtain ⟨first, more, starts⟩ := List.exists_cons_of_ne_nil nonempty
  obtain ⟨most, last, ends⟩ : ∃ most last, inner = most ++ [last] :=
    ⟨_, _, (List.dropLast_append_getLast nonempty).symm⟩
  -- The entries are a chain of their own once the first list is no longer looked at.
  have inside : (links memory).Chain inner := by
    have ring : (links memory).Chain (list :: inner ++ [list]) := holds.ring source
    exact (List.isChain_append.mp ring.tail).1
  have free : ∀ node ∈ list :: inner, Listing.Free (Function.update lists list none) node :=
    fun node member => holds.free source member
  have target : Function.update lists list none head = some (front ++ back) := by
    rwa [Function.update_of_ne different.symm]
  have moved := (holds.forget list).insert target (gap []) (gap inner) inside starts ends
    (List.nodup_cons.mp own).2 fun node member => free node (List.mem_cons_of_mem _ member)
  -- The first list's node is in neither of the lists now.
  have alone : Listing.Free (Function.update (Function.update lists list none) head
      (some (front ++ (inner ++ back)))) list := by
    refine Links.free_update (free list List.mem_cons_self) ?_
    have outside := free list List.mem_cons_self head _ target
    have apart := (List.nodup_cons.mp own).1
    simp only [List.mem_cons, List.mem_append, not_or] at outside ⊢
    exact ⟨outside.1, outside.2.1, apart, outside.2.2⟩
  have made := moved.init alone
  rw [Function.update_comm different, Function.update_idem,
    Function.update_comm different.symm] at made
  -- The first list's node leads to both of its ends.
  have ring : (links memory).Chain ((list :: most) ++ last :: [list]) := by
    have whole := holds.ring source
    rw [ends] at whole
    simpa [circuit] using whole
  have last_prev := (List.isChain_append_cons_cons.mp ring).2.1.2
  have first_next : (links memory).next list = some first := by
    have next := holds.next_head source
    rwa [starts] at next
  -- All of the nodes that get a pointer are of one of the two lists.
  obtain ⟨left, right⟩ := also.around (gap [])
  have entered : live memory list := alive list List.mem_cons_self
  have lowest : live memory first := alive first (by simp [starts])
  have highest : live memory last := alive last (by simp [ends])
  refine ⟨_, ?_, made⟩
  rw [rawListSplice_eq first_next last_prev entered lowest highest left right, ok_bind,
    initListHead_eq (by simpa using entered), links_setLinks, setLinks_setLinks]

/-- The entries of a list become the first ones of another list. -/
theorem listSpliceInit_makes (holds : (links memory).Holds lists) (source : lists list = some inner)
    (alive : Live memory (list :: inner)) (different : list ≠ head)
    (listed : lists head = some entries) (also : Live memory (head :: entries)) :
    Makes memory (listSpliceInit (some list) (some head) memory)
      (Function.update (Function.update lists list (some [])) head (some (inner ++ entries))) := by
  simp only [listSpliceInit, listEmpty_eq holds source (alive list List.mem_cons_self), ok_bind]
  -- An empty list has nothing to hand over, and its head is left as it is.
  cases inner with
  | nil =>
    refine ⟨links memory, by simp, ?_⟩
    rwa [← source, Function.update_eq_self, List.nil_append, ← listed, Function.update_eq_self]
  | cons first more =>
    obtain ⟨before, one, other, behind, starts, -, gap⟩ := circuit_gap head [] entries
    obtain ⟨rfl, rfl⟩ : before = [] ∧ one = head := by
      cases before <;> simp_all
    have whole : lists one = some ([] ++ entries) := listed
    have entered := headAt_live (also one List.mem_cons_self)
    simp only [loadNext, entered, (holds.linked whole gap).1, ok_bind, pure_eq_ok]
    exact rawListSplice_makes holds source alive (List.cons_ne_nil _ _) different whole also gap

/-- The entries of a list become the last ones of another list. -/
theorem listSpliceTailInit_makes (holds : (links memory).Holds lists)
    (source : lists list = some inner) (alive : Live memory (list :: inner))
    (different : list ≠ head) (listed : lists head = some entries)
    (also : Live memory (head :: entries)) :
    Makes memory (listSpliceTailInit (some list) (some head) memory)
      (Function.update (Function.update lists list (some [])) head (some (entries ++ inner))) := by
  simp only [listSpliceTailInit, listEmpty_eq holds source (alive list List.mem_cons_self), ok_bind]
  cases inner with
  | nil =>
    refine ⟨links memory, by simp, ?_⟩
    rwa [← source, Function.update_eq_self, List.append_nil, ← listed, Function.update_eq_self]
  | cons first more =>
    obtain ⟨before, one, other, behind, -, ends, gap⟩ := circuit_gap head entries []
    obtain ⟨rfl, rfl⟩ : head = other ∧ behind = [] := by
      simpa using ends
    have whole : lists head = some (entries ++ []) := by rwa [List.append_nil]
    have all : Live memory (head :: (entries ++ [])) := by rwa [List.append_nil]
    have entered := headAt_live (also head List.mem_cons_self)
    simp only [loadPrev, entered, (holds.linked whole gap).2, ok_bind, pure_eq_ok]
    have made := rawListSplice_makes holds source alive (List.cons_ne_nil _ _) different whole all gap
    rwa [List.append_nil] at made

end Effects

/-! ### Loops -/

section Loops

variable {State : Type} {memory : State → Memory}
  {body : Ptr → State → Except Stop (ForInStep State)} {head : Ptr}

/-- What a loop does that runs its body for the entries in their order. -/
def eachEntry (body : Ptr → State → Except Stop (ForInStep State)) :
    List Ptr → State → Except Stop (ForInStep State)
  | [], state => .ok (.yield state)
  | pos :: rest, state => do
    match ← body pos state with
    | .done state => .ok (.done state)
    | .yield state => eachEntry body rest state

/-- The nodes follow each other, all of them in structures that are in use. -/
structure Walkable (memory : Memory) (nodes : List Ptr) : Prop where
  chain : (links memory).Chain nodes
  alive : Live memory nodes

/-- The entries of a list are walked through, back to its head. -/
theorem Walkable.of_listed {memory : Memory} {lists : Listing Ptr} {entries : List Ptr}
    (holds : (links memory).Holds lists) (listed : lists head = some entries)
    (alive : Live memory (head :: entries)) : Walkable memory (entries ++ [head]) := by
  refine ⟨(holds.ring listed).tail, fun node member => alive node ?_⟩
  have inside : node ∈ (circuit head entries).tail := member
  exact mem_circuit.mp (List.mem_of_mem_tail inside)

/-- A node leads to the one behind it. -/
theorem Walkable.next {memory : Memory} {pos : Ptr} {rest : List Ptr}
    (walkable : Walkable memory (pos :: rest ++ [head])) :
    loadNext (some pos) memory = .ok (some (rest.headD head)) := by
  have linked : (links memory).next pos = some (rest.headD head) := by
    have chain := walkable.chain
    cases rest <;> exact (List.isChain_cons_cons.mp chain).1.1
  rw [loadNext, headAt_live (walkable.alive pos List.mem_cons_self), ok_bind, linked]
  rfl

/-- The last node is walked to as the others are. -/
theorem Walkable.last {memory : Memory} {nodes : List Ptr}
    (walkable : Walkable memory (nodes ++ [head])) : live memory head :=
  walkable.alive head (by simp)

variable [DecidableEq Ptr]

/--
A loop that is safe against removal runs its body once for every entry that there was.

The body can take out the entry that it is run for, as long as those behind stay linked to each other.
-/
theorem listForEachSafe_eq (inv : List Ptr → State → Prop)
    (walkable : ∀ entries state, inv entries state → Walkable (memory state) (entries ++ [head]))
    (kept : ∀ pos rest state after, inv (pos :: rest) state →
      body pos state = .ok (.yield after) → inv rest after)
    {entries : List Ptr} {state : State} (start : inv entries state)
    (first : (links (memory state)).next head = some (entries.headD head))
    (distinct : head ∉ entries) {bound : Nat} (enough : entries.length < bound) :
    listForEachSafe memory body head bound state = eachEntry body entries state := by
  have entered := headAt_live (walkable _ _ start).last
  simp only [listForEachSafe, loadNext, entered, first, ok_bind, pure_eq_ok]
  clear first entered
  induction entries generalizing state bound with
  | nil =>
    obtain ⟨bound, rfl⟩ := Nat.exists_eq_add_one_of_ne_zero (Nat.ne_of_gt enough)
    have entered := headAt_live (walkable _ _ start).last
    simp [listForEachSafeFrom, eachEntry, entered]
  | cons pos rest ih =>
    obtain ⟨bound, rfl⟩ := Nat.exists_eq_add_one_of_ne_zero (Nat.ne_of_gt (Nat.zero_lt_of_lt enough))
    rw [List.mem_cons, not_or] at distinct
    have linked := (walkable _ _ start).next
    simp only [loadNext, pure_eq_ok] at linked
    simp only [List.headD_cons, linked, ok_bind, listForEachSafeFrom, Ne.symm distinct.1, if_false,
      eachEntry]
    -- The successor was read before the body ran, and the body left it the first of the rest.
    cases ran : body pos state with
    | error stop => rfl
    | ok ended =>
      cases ended with
      | done after => rfl
      | yield after =>
        exact ih (kept _ _ _ _ start ran) distinct.2 (Nat.lt_of_succ_lt_succ enough)

/-- A loop that takes out the entry of each round comes to its end with an empty list. -/
theorem listForEachSafe_drain (lists : Listing Ptr) (inv : List Ptr → State → Prop)
    (holds : ∀ left state, inv left state →
      (links (memory state)).Holds (Function.update lists head (some left)))
    (alive : ∀ left state, inv left state → Live (memory state) (head :: left))
    (step : ∀ pos rest state, inv (pos :: rest) state →
      ∃ after, body pos state = .ok (.yield after) ∧ inv rest after)
    {entries : List Ptr} {state : State} (start : inv entries state) {bound : Nat}
    (enough : entries.length < bound) :
    ∃ after, listForEachSafe memory body head bound state = .ok (.yield after) ∧ inv [] after := by
  have whole := holds entries state start
  have listed : Function.update lists head (some entries) head = some entries :=
    Function.update_self ..
  -- The entry of a round is the first that is left, so the saved successor starts the rest.
  rw [listForEachSafe_eq inv (fun left state left_inv =>
      .of_listed (holds left state left_inv) (Function.update_self ..) (alive left state left_inv))
    ?_ start (whole.next_head listed) (List.nodup_cons.mp (whole.nodup listed)).1 enough]
  · clear whole listed enough
    induction entries generalizing state with
    | nil => exact ⟨state, rfl, start⟩
    | cons pos rest ih =>
      obtain ⟨middle, ran, kept⟩ := step pos rest state start
      obtain ⟨after, done, emptied⟩ := ih kept
      exact ⟨after, by simp [eachEntry, ran, done], emptied⟩
  · intro pos rest state after left_inv ran
    obtain ⟨middle, done, kept⟩ := step pos rest state left_inv
    cases ran.symm.trans done
    exact kept

/-- A loop runs its body once for every entry, if the body leaves the successor of its entry alone. -/
theorem listForEachEntry_eq (inv : List Ptr → State → Prop)
    (walkable : ∀ entries state, inv entries state → Walkable (memory state) (entries ++ [head]))
    (kept : ∀ pos rest state after, inv (pos :: rest) state →
      body pos state = .ok (.yield after) →
        inv rest after ∧ loadNext (some pos) (memory after) = loadNext (some pos) (memory state))
    {entries : List Ptr} {state : State} (start : inv entries state)
    (first : (links (memory state)).next head = some (entries.headD head))
    (distinct : head ∉ entries) {bound : Nat} (enough : entries.length < bound) :
    listForEachEntry memory body head bound state = eachEntry body entries state := by
  have entered := headAt_live (walkable _ _ start).last
  simp only [listForEachEntry, loadNext, entered, first, ok_bind, pure_eq_ok]
  clear first entered
  induction entries generalizing state bound with
  | nil =>
    obtain ⟨bound, rfl⟩ := Nat.exists_eq_add_one_of_ne_zero (Nat.ne_of_gt enough)
    simp [listForEachEntryFrom, eachEntry]
  | cons pos rest ih =>
    obtain ⟨bound, rfl⟩ := Nat.exists_eq_add_one_of_ne_zero (Nat.ne_of_gt (Nat.zero_lt_of_lt enough))
    rw [List.mem_cons, not_or] at distinct
    -- The chain ends at the head, so the node behind the last entry ends the loop.
    have linked := (walkable _ _ start).next
    simp only [List.headD_cons, listForEachEntryFrom, Ne.symm distinct.1, if_false, eachEntry]
    cases ran : body pos state with
    | error stop => rfl
    | ok ended =>
      cases ended with
      | done after => rfl
      | yield after =>
        -- The body left the successor as it was, so the loop goes on with the next entry.
        obtain ⟨later, same⟩ := kept _ _ _ _ start ran
        simp only [ok_bind, same, linked]
        exact ih later distinct.2 (Nat.lt_of_succ_lt_succ enough)

/-- A loop whose body keeps the list as it is runs its body once for every entry. -/
theorem listForEachEntry_steady (inv : State → Prop) {entries : List Ptr} {bound : Nat}
    (steady : ∀ state, inv state → ∃ lists : Listing Ptr, (links (memory state)).Holds lists ∧
      lists head = some entries ∧ Live (memory state) (head :: entries))
    (kept : ∀ pos ∈ entries, ∀ state after, inv state → body pos state = .ok (.yield after) →
      inv after)
    {state : State} (start : inv state) (enough : entries.length < bound) :
    listForEachEntry memory body head bound state = eachEntry body entries state := by
  -- Every end of the list can be walked through, before and after the body ran.
  have ends {front rest : List Ptr} {state : State} (split : entries = front ++ rest)
      (holds : inv state) : Walkable (memory state) (rest ++ [head]) := by
    obtain ⟨lists, whole, listed, alive⟩ := steady state holds
    obtain ⟨chain, alive⟩ := Walkable.of_listed whole listed alive
    rw [split, List.append_assoc] at chain alive
    exact ⟨chain.right_of_append, fun node member => alive node (List.mem_append_right _ member)⟩
  obtain ⟨lists, whole, listed, -⟩ := steady state start
  refine listForEachEntry_eq (fun left state => inv state ∧ ∃ front, entries = front ++ left)
    ?_ ?_ ⟨start, [], rfl⟩ (whole.next_head listed)
    (List.nodup_cons.mp (whole.nodup listed)).1 enough
  · rintro left state ⟨holds, front, split⟩
    exact ends split holds
  · rintro pos rest state after ⟨holds, front, split⟩ ran
    have later := kept pos (split ▸ by simp) state after holds ran
    exact ⟨⟨later, front ++ [pos], by simpa using split⟩,
      (ends split later).next.trans (ends split holds).next.symm⟩

/-- A loop that leaves the list heads alone runs its body once for every entry of the list. -/
theorem listForEachEntry_read {memory : Memory} {lists : Listing Ptr} {entries : List Ptr}
    {bound : Nat} (holds : (links memory).Holds lists) (listed : lists head = some entries)
    (alive : Live memory (head :: entries)) (enough : entries.length < bound)
    (body : Ptr → State → Except Stop (ForInStep State)) (state : State) :
    listForEachEntry (fun _ => memory) body head bound state = eachEntry body entries state :=
  listForEachEntry_steady (fun _ => True) (fun _ _ => ⟨lists, holds, listed, alive⟩)
    (fun _ _ _ _ _ _ => trivial) trivial enough

end Loops

/-! ### Runs of operations -/

variable [DecidableEq Ptr]

/-- A use of the list heads. -/
inductive ListOp (Ptr : Type) where
  | init (list : Ptr)
  | add (new head : Ptr)
  | addTail (new head : Ptr)
  | del (entry : Ptr)
  | move (list head : Ptr)
  | moveTail (list head : Ptr)
  | spliceInit (list head : Ptr)
  | spliceTailInit (list head : Ptr)
  /-- A loop that is safe against removal and takes out the entry of each round. -/
  | delEach (bound : Nat) (head : Ptr)

namespace ListOp

/-- The body of a loop that takes out every entry. -/
def delBody (pos : Ptr) (heads : Links Ptr) : Except Stop (ForInStep (Links Ptr)) :=
  (listDel (some pos) heads).map .yield

/-- What the code does. -/
def perform : ListOp Ptr → Links Ptr → Except Stop (Links Ptr)
  | init list, heads => initListHead (some list) heads
  | add new head, heads => listAdd (some new) (some head) heads
  | addTail new head, heads => listAddTail (some new) (some head) heads
  | del entry, heads => listDel (some entry) heads
  | move list head, heads => listMove (some list) (some head) heads
  | moveTail list head, heads => listMoveTail (some list) (some head) heads
  | spliceInit list head, heads => listSpliceInit (some list) (some head) heads
  | spliceTailInit list head, heads => listSpliceTailInit (some list) (some head) heads
  | delEach bound head, heads => (listForEachSafe id delBody head bound heads).map ForInStep.run

/-- What an operation is for: how the lists change that the nodes stand for. -/
inductive Effect : ListOp Ptr → Listing Ptr → Listing Ptr → Prop where
  | init {lists : Listing Ptr} {list : Ptr}
    (free : Listing.Free (Function.update lists list none) list) :
    Effect (.init list) lists (Function.update lists list (some []))
  | add {lists : Listing Ptr} {new head : Ptr} {entries : List Ptr} (free : lists.Free new)
    (listed : lists head = some entries) :
    Effect (.add new head) lists (Function.update lists head (some (new :: entries)))
  | addTail {lists : Listing Ptr} {new head : Ptr} {entries : List Ptr} (free : lists.Free new)
    (listed : lists head = some entries) :
    Effect (.addTail new head) lists (Function.update lists head (some (entries ++ [new])))
  | del {lists : Listing Ptr} {entry head : Ptr} {front back : List Ptr}
    (listed : lists head = some (front ++ entry :: back)) :
    Effect (.del entry) lists (Function.update lists head (some (front ++ back)))
  | move {lists : Listing Ptr} {list host head : Ptr} {front back entries : List Ptr}
    (listed : lists host = some (front ++ list :: back))
    (target : Function.update lists host (some (front ++ back)) head = some entries) :
    Effect (.move list head) lists (Function.update
      (Function.update lists host (some (front ++ back))) head (some (list :: entries)))
  | moveTail {lists : Listing Ptr} {list host head : Ptr} {front back entries : List Ptr}
    (listed : lists host = some (front ++ list :: back))
    (target : Function.update lists host (some (front ++ back)) head = some entries) :
    Effect (.moveTail list head) lists (Function.update
      (Function.update lists host (some (front ++ back))) head (some (entries ++ [list])))
  | spliceInit {lists : Listing Ptr} {list head : Ptr} {inner entries : List Ptr}
    (source : lists list = some inner) (different : list ≠ head)
    (listed : lists head = some entries) :
    Effect (.spliceInit list head) lists (Function.update
      (Function.update lists list (some [])) head (some (inner ++ entries)))
  | spliceTailInit {lists : Listing Ptr} {list head : Ptr} {inner entries : List Ptr}
    (source : lists list = some inner) (different : list ≠ head)
    (listed : lists head = some entries) :
    Effect (.spliceTailInit list head) lists (Function.update
      (Function.update lists list (some [])) head (some (entries ++ inner)))
  | delEach {lists : Listing Ptr} {bound : Nat} {head : Ptr} {entries : List Ptr}
    (listed : lists head = some entries) (enough : entries.length < bound) :
    Effect (.delEach bound head) lists (Function.update lists head (some []))

/-- The changes by a sequence of operations. -/
inductive Effects : List (ListOp Ptr) → Listing Ptr → Listing Ptr → Prop where
  | nil (lists : Listing Ptr) : Effects [] lists lists
  | cons {op : ListOp Ptr} {ops : List (ListOp Ptr)} {lists middle last : Listing Ptr}
    (effect : Effect op lists middle) (rest : Effects ops middle last) :
    Effects (op :: ops) lists last

end ListOp

omit [DecidableEq Ptr] in
/-- List heads in variables stay in use. -/
theorem live_links (heads : Links Ptr) (nodes : List Ptr) : Live heads nodes := fun _ _ => rfl

section Entries

variable {heads : Links Ptr} {lists : Listing Ptr} {head : Ptr} {entries : List Ptr} {bound : Nat}

/-- The loop that takes out the entry of each round takes out every entry. -/
theorem delEach_makes (holds : heads.Holds lists) (listed : lists head = some entries)
    (enough : entries.length < bound) :
    Makes heads ((ListOp.delEach bound head).perform heads)
      (Function.update lists head (some [])) := by
  have kept : heads.Holds (Function.update lists head (some entries)) := by
    rwa [← listed, Function.update_eq_self]
  -- Each round takes out the first of the entries left.
  have step (pos : Ptr) (rest : List Ptr) (state : Links Ptr)
      (holds : state.Holds (Function.update lists head (some (pos :: rest)))) :
      ∃ after, ListOp.delBody pos state = .ok (.yield after) ∧
        after.Holds (Function.update lists head (some rest)) := by
    have listed : Function.update lists head (some (pos :: rest)) head = some ([] ++ pos :: rest) :=
      Function.update_self ..
    obtain ⟨after, deleted, kept⟩ := @listDel_makes _ _ _ state _ _ _ _ _ _ holds listed (live_links _ _)
    rw [Function.update_idem] at kept
    refine ⟨after, ?_, kept⟩
    rw [ListOp.delBody, deleted]
    rfl
  obtain ⟨after, done, emptied⟩ := @listForEachSafe_drain _ _ _ _ id _ _ _ lists
    (fun left (state : Links Ptr) => state.Holds (Function.update lists head (some left)))
    (fun _ _ holds => holds) (fun _ state _ => live_links state _) step _ _ kept _ enough
  refine ⟨after, ?_, emptied⟩
  rw [ListOp.perform, done]
  rfl

/-- The entries that a loop over the list comes to. -/
def listEntries (bound : Nat) (head : Ptr) (heads : Links Ptr) : Except Stop (List Ptr) :=
  (listForEachEntry (fun _ => heads) (fun pos seen => .ok (.yield (seen ++ [pos]))) head bound []).map
    ForInStep.run

/-- A loop over a list comes to its entries in their order. -/
theorem listEntries_eq (holds : heads.Holds lists) (listed : lists head = some entries)
    (enough : entries.length < bound) : listEntries bound head heads = .ok entries := by
  have collected (seen : List Ptr) :
      eachEntry (fun pos seen => .ok (.yield (seen ++ [pos]))) entries seen =
        (.ok (.yield (seen ++ entries)) : Except Stop (ForInStep (List Ptr))) := by
    clear listed enough
    induction entries generalizing seen with
    | nil => simp [eachEntry]
    | cons pos rest ih => simp [eachEntry, ih]
  rw [listEntries, listForEachEntry_read holds listed (live_links _ _) enough, collected]
  rfl

end Entries

/-- One operation changes the lists as it is meant to. -/
theorem ListOp.perform_makes {op : ListOp Ptr} {heads : Links Ptr} {lists last : Listing Ptr}
    (holds : heads.Holds lists) (effect : op.Effect lists last) : Makes heads (op.perform heads) last := by
  cases effect with
  | init free => exact initListHead_makes holds free rfl
  | add free listed => exact listAdd_makes holds listed (live_links _ _) free rfl
  | addTail free listed => exact listAddTail_makes holds listed (live_links _ _) free rfl
  | del listed => exact listDel_makes holds listed (live_links _ _)
  | move listed target =>
    exact listMove_makes holds listed (live_links _ _) target (live_links _ _)
  | moveTail listed target =>
    exact listMoveTail_makes holds listed (live_links _ _) target (live_links _ _)
  | spliceInit source different listed =>
    exact listSpliceInit_makes holds source (live_links _ _) different listed (live_links _ _)
  | spliceTailInit source different listed =>
    exact listSpliceTailInit_makes holds source (live_links _ _) different listed (live_links _ _)
  | delEach listed enough => exact delEach_makes holds listed enough

/-- A sequence of operations changes the lists as it is meant to. -/
theorem ListOp.run_makes {ops : List (ListOp Ptr)} {heads : Links Ptr} {lists last : Listing Ptr}
    (holds : heads.Holds lists) (effects : Effects ops lists last) :
    Makes heads (run ListOp.perform heads ops) last := by
  induction effects generalizing heads with
  | nil lists => exact ⟨heads, rfl, holds⟩
  | cons effect rest ih =>
    obtain ⟨middle, performed, kept⟩ := ListOp.perform_makes holds effect
    rw [run_cons_ok performed]
    exact ih kept

/--
List heads behave as lists.

Whatever the memory held first, operations that are meaningful on lists never use a null pointer.
Afterwards the pointers make up the lists that the operations stand for, and the tests and loops read them back.
-/
theorem lists_refined {ops : List (ListOp Ptr)} {lists : Listing Ptr}
    (effects : ListOp.Effects ops (fun _ => none) lists) (memory : Links Ptr) :
    ∃ heads, run ListOp.perform memory ops = .ok heads ∧ heads.Holds lists ∧
      ∀ head entries, lists head = some entries →
        listEmpty (some head) heads = .ok entries.isEmpty ∧
        ∀ bound, entries.length < bound → listEntries bound head heads = .ok entries := by
  obtain ⟨heads, performed, holds⟩ := ListOp.run_makes (Links.holds_none memory) effects
  refine ⟨heads, performed, holds, fun head entries listed => ?_⟩
  exact ⟨listEmpty_eq holds listed rfl, fun bound enough => listEntries_eq holds listed enough⟩

/-- Two entries are put into a list, and then they end up in the other order in a second one. -/
theorem lists_refined_two :
    ∃ heads : Links (Fin 4), run ListOp.perform ⟨fun _ => none, fun _ => none⟩ [.init 0, .init 1,
      .addTail 2 0, .addTail 3 0, .move 3 1, .spliceTailInit 0 1] = .ok heads ∧
        listEntries 3 1 heads = .ok [3, 2] ∧ listEmpty (some 0) heads = .ok true := by
  obtain ⟨lists, effects, filled, emptied⟩ : ∃ lists : Listing (Fin 4),
      ListOp.Effects [.init 0, .init 1, .addTail 2 0, .addTail 3 0, .move 3 1, .spliceTailInit 0 1]
        (fun _ => none) lists ∧ lists 1 = some [3, 2] ∧ lists 0 = some [] := by
    refine ⟨_, .cons (.init ?_) <| .cons (.init ?_) <| .cons (.addTail ?_ rfl) <|
      .cons (.addTail ?_ rfl) <| .cons (@ListOp.Effect.move _ _ _ 3 0 1 [2] [] [] rfl rfl) <|
      .cons (.spliceTailInit rfl (by decide) rfl) <| .nil _, rfl, rfl⟩
    -- Every node is in no list before it is put into its first one.
    · exact Links.free_forget (Links.free_none 0) 0
    · exact Links.free_forget (Links.free_update (Links.free_none 1) (by decide)) 1
    · exact Links.free_update (Links.free_update (Links.free_none 2) (by decide)) (by decide)
    · exact Links.free_update (Links.free_update (Links.free_update (Links.free_none 3)
        (by decide)) (by decide)) (by decide)
  obtain ⟨heads, performed, -, reads⟩ := lists_refined effects ⟨fun _ => none, fun _ => none⟩
  exact ⟨heads, performed, (reads 1 _ filled).2 3 (by decide), (reads 0 _ emptied).1⟩

end Xemu
