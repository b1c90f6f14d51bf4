import Mathlib.Data.List.Chain
import Mathlib.Data.List.Nodup
import Mathlib.Logic.Function.Basic

/-! Doubly linked lists, each closed to a ring by a node that stands for the list itself. -/

namespace Cyclic

variable {Ptr : Type*}

/-- The two pointers of every node, either of which can be null. -/
structure Links (Ptr : Type*) where
  next : Ptr → Option Ptr
  prev : Ptr → Option Ptr

namespace Links

/-- One node comes directly before another one. -/
def Linked (links : Links Ptr) (one other : Ptr) : Prop :=
  links.next one = some other ∧ links.prev other = some one

/-- The nodes follow each other. -/
abbrev Chain (links : Links Ptr) (nodes : List Ptr) : Prop := nodes.IsChain links.Linked

section Chains

variable [DecidableEq Ptr]

/-- The pointers after one node was put directly before another one. -/
def join (links : Links Ptr) (one other : Ptr) : Links Ptr where
  next := Function.update links.next one (some other)
  prev := Function.update links.prev other (some one)

/-- The pointers after those of one node were set to null. -/
def clear (links : Links Ptr) (node : Ptr) : Links Ptr where
  next := Function.update links.next node none
  prev := Function.update links.prev node none

variable {links : Links Ptr} {one other node : Ptr} {nodes front back : List Ptr}

/-- The two nodes follow each other afterwards. -/
theorem linked_join (links : Links Ptr) (one other : Ptr) : (links.join one other).Linked one other :=
  ⟨Function.update_self .., Function.update_self ..⟩

/-- A chain stays one that neither goes on behind the first node nor comes to the second. -/
theorem Chain.join (chain : links.Chain nodes) (source : one ∉ nodes.dropLast)
    (target : other ∉ nodes.tail) : (links.join one other).Chain nodes := by
  -- Only the pointers of the two nodes change, and the chain follows neither of them.
  induction nodes with
  | nil => exact .nil
  | cons node rest ih =>
    cases rest with
    | nil => exact .singleton _
    | cons next rest =>
      rw [List.dropLast_cons_cons, List.mem_cons, not_or] at source
      rw [List.tail_cons, List.mem_cons, not_or] at target
      obtain ⟨linked, later⟩ := List.isChain_cons_cons.mp chain
      refine .cons_cons ⟨?_, ?_⟩ (ih later source.2 target.2)
      · exact (Function.update_of_ne (Ne.symm source.1) ..).trans linked.1
      · exact (Function.update_of_ne (Ne.symm target.1) ..).trans linked.2

/-- A chain without the two nodes stays one. -/
theorem Chain.join_apart (chain : links.Chain nodes) (first : one ∉ nodes) (second : other ∉ nodes) :
    (links.join one other).Chain nodes :=
  chain.join (fun member => first (List.dropLast_subset _ member))
    (fun member => second (List.mem_of_mem_tail member))

/-- A chain stays one when the pointers of a node outside of it are cleared. -/
theorem Chain.clear (chain : links.Chain nodes) (outside : node ∉ nodes) :
    (links.clear node).Chain nodes := by
  refine List.IsChain.imp_of_mem_imp (fun one other listed later linked => ?_) chain
  have first : one ≠ node := fun same => outside (same ▸ listed)
  have second : other ≠ node := fun same => outside (same ▸ later)
  exact ⟨(Function.update_of_ne first ..).trans linked.1,
    (Function.update_of_ne second ..).trans linked.2⟩

/-- Two chains become one when the end of the first is put before the start of the second. -/
theorem Chain.bridge (first : links.Chain (front ++ [one])) (second : links.Chain (other :: back))
    (source : (front ++ one :: (other :: back).dropLast).Nodup)
    (target : ((front ++ [one]).tail ++ other :: back).Nodup) :
    (links.join one other).Chain (front ++ one :: other :: back) := by
  -- Neither node is one that the chains leave or enter, as it would then be there twice.
  have ⟨outside, apart⟩ : one ∉ front ∧ one ∉ (other :: back).dropLast := by
    have moved := List.nodup_middle.mp source
    simpa [not_or] using (List.nodup_cons.mp moved).1
  have ⟨before, behind⟩ : other ∉ (front ++ [one]).tail ∧ other ∉ back := by
    have moved := List.nodup_middle.mp target
    simpa [not_or] using (List.nodup_cons.mp moved).1
  rw [Chain, List.isChain_append_cons_cons]
  refine ⟨Chain.join first ?_ before, linked_join links one other, Chain.join second apart behind⟩
  rwa [List.dropLast_concat]

end Chains

end Links

/-! ### Rings -/

/-- The nodes in the order in which the list is walked through, back to where it began. -/
def circuit (head : Ptr) (entries : List Ptr) : List Ptr := head :: entries ++ [head]

section Circuits

variable {head : Ptr} {entries : List Ptr}

@[simp] theorem circuit_dropLast : (circuit head entries).dropLast = head :: entries :=
  List.dropLast_concat ..

@[simp] theorem circuit_tail : (circuit head entries).tail = entries ++ [head] := rfl

theorem circuit_perm : (circuit head entries).Perm (head :: head :: entries) :=
  List.perm_append_singleton ..

/-- The nodes of the circuit are the list's. -/
theorem mem_circuit {node : Ptr} : node ∈ circuit head entries ↔ node ∈ head :: entries := by
  rw [circuit_perm.mem_iff, List.mem_cons, or_iff_right_of_imp]
  exact fun same => same ▸ List.mem_cons_self

/-- The walk enters the nodes of a list without repetition, as it leaves them. -/
theorem circuit_entered (nodup : (head :: entries).Nodup) : (circuit head entries).tail.Nodup :=
  (List.perm_append_singleton ..).nodup_iff.mpr nodup

/-- Between two parts of a list there is a place between two nodes, where entries can stand. -/
theorem circuit_gap (head : Ptr) (front back : List Ptr) : ∃ before one other behind,
    head :: front = before ++ [one] ∧ back ++ [head] = other :: behind ∧
      ∀ inner, circuit head (front ++ (inner ++ back)) = before ++ one :: (inner ++ other :: behind) := by
  obtain ⟨before, one, starts⟩ : ∃ before one, head :: front = before ++ [one] :=
    ⟨_, _, (List.dropLast_append_getLast (List.cons_ne_nil head front)).symm⟩
  obtain ⟨other, behind, ends⟩ := List.exists_cons_of_ne_nil (List.concat_ne_nil head back)
  refine ⟨before, one, other, behind, starts, ends, fun inner => ?_⟩
  calc circuit head (front ++ (inner ++ back))
    _ = (head :: front) ++ (inner ++ (back ++ [head])) := by simp [circuit]
    _ = before ++ one :: (inner ++ other :: behind) := by simp [starts, ends]

end Circuits

/-- The lists that some nodes stand for. -/
abbrev Listing (Ptr : Type*) := Ptr → Option (List Ptr)

/-- The pointers make up exactly the given lists, each node in one of them at most. -/
structure Links.Holds (links : Links Ptr) (lists : Listing Ptr) : Prop where
  ring : ∀ {head entries}, lists head = some entries → links.Chain (circuit head entries)
  nodup : ∀ {head entries}, lists head = some entries → (head :: entries).Nodup
  apart : ∀ {one other ones others}, lists one = some ones → lists other = some others →
    one ≠ other → (one :: ones).Disjoint (other :: others)

section Ends

variable {links : Links Ptr} {lists : Listing Ptr} {head : Ptr} {entries : List Ptr}

/-- The node of a list leads to the first of its entries, or to itself. -/
theorem Links.Holds.next_head (holds : links.Holds lists) (listed : lists head = some entries) :
    links.next head = some (entries.headD head) := by
  have ring := holds.ring listed
  cases entries with
  | nil => exact (List.isChain_cons_cons.mp ring).1.1
  | cons first rest => exact (List.isChain_cons_cons.mp ring).1.1

/-- The nodes on both sides of a place in a list are linked to each other. -/
theorem Links.Holds.linked {front back before behind : List Ptr} {one other : Ptr}
    (holds : links.Holds lists) (listed : lists head = some (front ++ back))
    (gap : ∀ inner, circuit head (front ++ (inner ++ back)) =
      before ++ one :: (inner ++ other :: behind)) : links.Linked one other := by
  have ring := holds.ring listed
  rw [show front ++ back = front ++ ([] ++ back) from rfl, gap] at ring
  exact (List.isChain_append_cons_cons.mp ring).2.1

end Ends

/-- No list has the node, nor does it stand for one. -/
def Listing.Free (lists : Listing Ptr) (node : Ptr) : Prop :=
  ∀ head entries, lists head = some entries → node ∉ head :: entries

namespace Links

open scoped List

variable [DecidableEq Ptr] {links after : Links Ptr} {lists : Listing Ptr}
  {head host node one other first last : Ptr} {entries longer inner front back more most : List Ptr}

/-- A list gets other entries and the rest of the lists stay as they are. -/
theorem Holds.replace (holds : links.Holds lists) (ring : after.Chain (circuit head entries))
    (nodup : (head :: entries).Nodup)
    (rest : ∀ other others, lists other = some others → other ≠ head →
      after.Chain (circuit other others) ∧ (head :: entries).Disjoint (other :: others)) :
    after.Holds (Function.update lists head (some entries)) where
  ring {one ones} listed := by
    by_cases same : one = head
    · subst same
      rw [Function.update_self, Option.some_inj] at listed
      exact listed ▸ ring
    · rw [Function.update_of_ne same] at listed
      exact (rest one ones listed same).1
  nodup {one ones} listed := by
    by_cases same : one = head
    · subst same
      rw [Function.update_self, Option.some_inj] at listed
      exact listed ▸ nodup
    · rw [Function.update_of_ne same] at listed
      exact holds.nodup listed
  apart {one other ones others} first second different := by
    -- Only a pair with the changed list has to be looked at, from either side.
    by_cases same : one = head
    · subst same
      rw [Function.update_self, Option.some_inj] at first
      rw [Function.update_of_ne (Ne.symm different)] at second
      exact first ▸ (rest other others second (Ne.symm different)).2
    · rw [Function.update_of_ne same] at first
      by_cases also : other = head
      · subst also
        rw [Function.update_self, Option.some_inj] at second
        exact second ▸ List.disjoint_symm (rest one ones first same).2
      · rw [Function.update_of_ne also] at second
        exact holds.apart first second different

/-- A node is in front of another one and gets in front of a third one, in either order. -/
theorem join_comm (links : Links Ptr) (sources : one ≠ first) (targets : other ≠ last) :
    (links.join one other).join first last = (links.join first last).join one other := by
  simp only [join, Function.update_comm sources, Function.update_comm targets]

/-- The nodes of a chain are put between two nodes that follow each other in another one. -/
theorem Chain.splice (outer : links.Chain (front ++ one :: other :: back))
    (inside : links.Chain inner) (starts : inner = first :: more) (ends : inner = most ++ [last])
    (source : (front ++ one :: (inner ++ (other :: back).dropLast)).Nodup)
    (target : ((front ++ [one]).tail ++ (inner ++ other :: back)).Nodup) :
    ((links.join one first).join last other).Chain (front ++ one :: (inner ++ other :: back)) := by
  obtain ⟨before, -, behind⟩ := List.isChain_append_cons_cons.mp outer
  -- The first of the nodes is linked to the one in front.
  have begun : (links.join one first).Chain (front ++ one :: inner) := by
    subst starts
    refine Chain.bridge before inside (source.sublist ?_) (target.sublist ?_)
    · exact .append_left (.cons_cons _ ((List.dropLast_sublist _).trans (List.sublist_append_left ..))) _
    · exact .append_left (List.sublist_append_left ..) _
  have left : (links.join one first).Chain (other :: back) := by
    subst starts
    refine Chain.join behind (fun member => ?_) fun member => ?_
    · have moved := List.nodup_middle.mp source
      simp only [List.nodup_cons, List.mem_append, not_or] at moved
      exact moved.1.2.2 member
    · have moved := (List.nodup_append'.mp target).2.1
      simp only [List.cons_append, List.nodup_cons, List.mem_append, List.mem_cons, not_or] at moved
      exact moved.1.2.2 member
  -- Then the last one is linked to the one behind.
  have done : ((links.join one first).join last other).Chain
      ((front ++ one :: most) ++ last :: other :: back) := by
    refine Chain.bridge ?_ left ?_ ?_
    · simpa [ends] using begun
    · simpa [ends] using source
    · cases front <;> simpa [ends] using target
  simpa [ends] using done

omit [DecidableEq Ptr] in
/-- Before there are lists, the pointers of the nodes can be any. -/
theorem holds_none (links : Links Ptr) : links.Holds (fun _ => none) :=
  ⟨fun listed => absurd listed (by simp), fun listed => absurd listed (by simp),
    fun listed => absurd listed (by simp)⟩

/-- A list whose node is used for something else is no longer kept track of. -/
theorem Holds.forget (holds : links.Holds lists) (head : Ptr) :
    links.Holds (Function.update lists head none) := by
  have listed {one : Ptr} {ones : List Ptr}
      (left : Function.update lists head none one = some ones) : lists one = some ones := by
    by_cases same : one = head
    · rw [same, Function.update_self] at left
      exact absurd left (by simp)
    · rwa [Function.update_of_ne same] at left
  exact ⟨fun left => holds.ring (listed left), fun left => holds.nodup (listed left),
    fun first second => holds.apart (listed first) (listed second)⟩

omit [DecidableEq Ptr] in
/-- Before there are lists, every node is free. -/
theorem free_none (node : Ptr) : Listing.Free (fun _ => none) node :=
  fun _ _ listed => absurd listed (by simp)

/-- A free node that a list does not get stays free. -/
theorem free_update (free : lists.Free node) (outside : node ∉ head :: entries) :
    Listing.Free (Function.update lists head (some entries)) node := by
  intro two others also
  by_cases same : two = head
  · subst same
    rw [Function.update_self, Option.some_inj] at also
    exact also ▸ outside
  · rw [Function.update_of_ne same] at also
    exact free two others also

/-- A free node stays free when a list is no longer kept track of. -/
theorem free_forget (free : lists.Free node) (head : Ptr) :
    Listing.Free (Function.update lists head none) node := by
  intro two others also
  by_cases same : two = head
  · rw [same, Function.update_self] at also
    exact absurd also (by simp)
  · rw [Function.update_of_ne same] at also
    exact free two others also

/-- The nodes of a list are in no other one. -/
theorem Holds.free (holds : links.Holds lists) (listed : lists head = some entries)
    (member : node ∈ head :: entries) : Listing.Free (Function.update lists head none) node := by
  intro one ones left inside
  by_cases same : one = head
  · rw [same, Function.update_self] at left
    exact absurd left (by simp)
  · rw [Function.update_of_ne same] at left
    exact holds.apart listed left (Ne.symm same) member inside

/-- A node that is linked to itself stands for a list without entries. -/
theorem Holds.init (holds : links.Holds lists) (free : lists.Free head) :
    (links.join head head).Holds (Function.update lists head (some [])) := by
  refine holds.replace (.cons_cons (linked_join ..) (.singleton _)) (by simp) ?_
  intro other others listed _
  have outside := free other others listed
  exact ⟨(holds.ring listed).join_apart (mem_circuit.not.mpr outside) (mem_circuit.not.mpr outside),
    by simpa using outside⟩

/-- Nodes that follow each other and are in no list are put between two nodes of one list. -/
theorem Holds.insert (holds : links.Holds lists) (listed : lists head = some entries)
    (gap : circuit head entries = front ++ one :: other :: back)
    (filled : circuit head longer = front ++ one :: (inner ++ other :: back))
    (inside : links.Chain inner) (starts : inner = first :: more) (ends : inner = most ++ [last])
    (distinct : inner.Nodup) (free : ∀ node ∈ inner, lists.Free node) :
    ((links.join one first).join last other).Holds (Function.update lists head (some longer)) := by
  -- The longer list has the nodes of the shorter one and the new ones.
  have perm : (head :: longer).Perm (inner ++ head :: entries) := by
    refine (List.perm_cons head).mp ?_
    calc head :: head :: longer
      _ ~ front ++ one :: (inner ++ other :: back) := filled ▸ circuit_perm.symm
      _ ~ inner ++ (front ++ one :: other :: back) := by
        simpa using List.perm_append_comm_assoc (front ++ [one]) inner (other :: back)
      _ ~ inner ++ head :: head :: entries := gap ▸ circuit_perm.append_left inner
      _ ~ head :: (inner ++ head :: entries) := List.perm_middle
  have unique : (head :: longer).Nodup := by
    refine perm.nodup_iff.mpr (List.nodup_append'.mpr ⟨distinct, holds.nodup listed, ?_⟩)
    exact fun node member => free node member head entries listed
  refine holds.replace ?_ unique ?_
  · rw [filled]
    refine Chain.splice (gap ▸ holds.ring listed) inside starts ends ?_ ?_
    · have left : (circuit head longer).dropLast.Nodup := circuit_dropLast ▸ unique
      rw [filled, ← List.cons_append, ← List.append_assoc,
        List.dropLast_append_of_ne_nil (List.cons_ne_nil _ _)] at left
      simpa using left
    · have entered := circuit_entered unique
      rw [filled] at entered
      cases front <;> simpa using entered
  · -- The nodes that are linked anew are free ones or ones of the list.
    intro two others also different
    have outside {node : Ptr} (member : node ∈ inner ++ head :: entries) : node ∉ two :: others :=
      (List.mem_append.mp member).elim (fun new => free node new two others also)
        (holds.apart listed also (Ne.symm different) ·)
    have around {node : Ptr} (member : node ∈ front ++ one :: other :: back) :
        node ∉ circuit two others :=
      mem_circuit.not.mpr (outside (List.mem_append_right _ (mem_circuit.mp (gap ▸ member))))
    have within {node : Ptr} (member : node ∈ inner) : node ∉ circuit two others :=
      mem_circuit.not.mpr (outside (List.mem_append_left _ member))
    refine ⟨?_, fun node member => outside (perm.mem_iff.mp member)⟩
    exact ((holds.ring also).join_apart (around (by simp)) (within (by simp [starts]))).join_apart
      (within (by simp [ends])) (around (by simp))

/-- A node is taken out of its list, and then it is in none. -/
theorem Holds.remove (holds : links.Holds lists) (listed : lists head = some longer)
    (filled : circuit head longer = front ++ one :: node :: other :: back)
    (gap : circuit head entries = front ++ one :: other :: back) :
    (links.join one other).Holds (Function.update lists head (some entries)) ∧
      Listing.Free (Function.update lists head (some entries)) node := by
  -- The longer list has the nodes of the shorter one and the one that leaves.
  have perm : (head :: longer).Perm (node :: head :: entries) := by
    refine (List.perm_cons head).mp ?_
    calc head :: head :: longer
      _ ~ front ++ one :: node :: other :: back := filled ▸ circuit_perm.symm
      _ ~ node :: (front ++ one :: other :: back) := by
        simpa using @List.perm_middle _ node (front ++ [one]) (other :: back)
      _ ~ node :: head :: head :: entries := gap ▸ circuit_perm.cons node
      _ ~ head :: node :: head :: entries := .swap ..
  have distinct := perm.nodup_iff.mp (holds.nodup listed)
  have unique := (List.nodup_cons.mp distinct).2
  have inside : ∀ {node}, node ∈ head :: entries → node ∈ head :: longer :=
    fun member => perm.mem_iff.mpr (List.mem_cons_of_mem _ member)
  constructor
  · refine holds.replace ?_ unique fun two others also different => ?_
    · -- The nodes in front and those behind are chains of their own.
      have whole : links.Chain (front ++ one :: node :: other :: back) := filled ▸ holds.ring listed
      obtain ⟨before, -, behind⟩ := List.isChain_append_cons_cons.mp whole
      rw [gap]
      refine Chain.bridge before behind.tail ?_ ?_
      · have left : (circuit head entries).dropLast.Nodup := circuit_dropLast ▸ unique
        simpa [gap] using left
      · have entered := circuit_entered unique
        rw [gap] at entered
        cases front <;> simpa using entered
    · -- The nodes that are linked anew are of this list, so the others do not notice.
      have outside := holds.apart listed also (Ne.symm different)
      have around {node : Ptr} (member : node ∈ front ++ one :: other :: back) :
          node ∉ circuit two others :=
        mem_circuit.not.mpr (outside (inside (mem_circuit.mp (gap ▸ member))))
      exact ⟨(holds.ring also).join_apart (around (by simp)) (around (by simp)),
        fun node member => outside (inside member)⟩
  · intro two others also
    -- It was in this list once, and in no other.
    by_cases same : two = head
    · subst same
      rw [Function.update_self, Option.some_inj] at also
      exact also ▸ (List.nodup_cons.mp distinct).1
    · rw [Function.update_of_ne same] at also
      exact holds.apart listed also (Ne.symm same) (perm.mem_iff.mpr List.mem_cons_self)

/-- The pointers of a node that is in no list can be cleared. -/
theorem Holds.clear (holds : links.Holds lists) (free : lists.Free node) :
    (links.clear node).Holds lists where
  ring listed := (holds.ring listed).clear (mem_circuit.not.mpr (free _ _ listed))
  nodup listed := holds.nodup listed
  apart listed also := holds.apart listed also

end Links

end Cyclic
