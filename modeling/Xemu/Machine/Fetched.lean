import Xemu.Machine.Step

/-! What a fetch finds at the program counter, before a fault is made into a trap. -/

namespace Xemu

/-- The two ways in which `fetch` ends. -/
inductive Fetched where
  /-- It delivers a word. -/
  | word (inst : BitVec 32)
  /-- It raises a page fault for an address. -/
  | fault (tval : BitVec 64)
  deriving DecidableEq, Repr

namespace Machine

/-- The reads that `fetch` makes, and the way in which it ends after them. -/
def fetched (host : Host) (m : Machine) : Except Stop (Fetched × Bus) := do
  let pc := m.hart.pc
  if (pc + 2) &&& 0xFFF ≠ 0 then
    let (inst, bus) ← m.asRead host pc 4 .none
    match inst with
    | none => return (.fault pc, bus)
    | some inst => return (.word (inst.setWidth 32), bus)
  else
    let (lo, bus) ← m.asRead host pc 2 .none
    match lo with
    | none => return (.fault pc, bus)
    | some lo =>
      let (hi, bus) ← { m with bus }.asRead host (pc + 2) 2 .none
      match hi with
      | none => return (.fault (pc + 2), bus)
      | some hi => return (.word ((hi.setWidth 32 <<< 16) ||| lo.setWidth 32), bus)

/-- What `fetch` returns: zero with a word, or what the trap returns. -/
def endFetch (m : Machine) (result : Fetched × Bus) : BitVec 64 × BitVec 32 × Machine :=
  match result.1 with
  | .word inst => (0, inst, { m with bus := result.2 })
  | .fault tval => { m with bus := result.2 }.fetchFault tval

/-- A fetch makes its reads and then ends in one of the two ways. -/
theorem fetch_eq (host : Host) (m : Machine) :
    m.fetch host = (m.fetched host).map m.endFetch := by
  unfold fetch fetched
  by_cases whole : (m.hart.pc + 2) &&& 0xFFF ≠ 0
  · simp only [if_pos whole]
    -- One read finds the word or no translation.
    cases read : m.asRead host m.hart.pc 4 .none with
    | error stop => rfl
    | ok found =>
      obtain ⟨_ | inst, bus⟩ := found
      · rfl
      · rfl
  · simp only [if_neg whole]
    -- Two reads find the halves, and either may find no translation.
    cases read : m.asRead host m.hart.pc 2 .none with
    | error stop => rfl
    | ok found =>
      obtain ⟨_ | lo, bus⟩ := found
      · rfl
      · simp only [ok_bind]
        cases second : { m with bus }.asRead host (m.hart.pc + 2) 2 .none with
        | error stop => rfl
        | ok found =>
          obtain ⟨_ | hi, last⟩ := found
          · rfl
          · rfl

end Machine

end Xemu
