import Xemu.Device.Plic
import Xemu.Lib.Ensures

/-! Which sources the interrupt controller may offer, and which of them its scan selects. -/

namespace Xemu.Plic

/-! ### Bits of the pending and enable words -/

/-- The word that holds the bit of a source. -/
def word (id : Fin 128) : Fin 5 := ⟨id.val / 32, by omega⟩

/-- The bit of a source among the bits of all sources. -/
def bitOf (words : Fin 5 → BitVec 32) (id : Fin 128) : Bool :=
  (words (word id)).getLsbD (id.val % 32)

/-- The enable words of the mode a scan looks for a source for. -/
def xie (plic : Plic) (supervisor : Bool) : Fin 5 → BitVec 32 :=
  if supervisor then plic.sie else plic.mie

/-- The threshold of that mode. -/
def xpt (plic : Plic) (supervisor : Bool) : BitVec 32 :=
  if supervisor then plic.spt else plic.mpt

/-- The claim register of that mode. -/
def xcc (plic : Plic) (supervisor : Bool) : BitVec 32 :=
  if supervisor then plic.scc else plic.mcc

/-- An assignment to the claim register of that mode. -/
def setClaim (plic : Plic) (supervisor : Bool) (id : BitVec 32) : Plic :=
  if supervisor then { plic with scc := id } else { plic with mcc := id }

@[simp] theorem setClaim_pending (plic : Plic) (supervisor : Bool) (id : BitVec 32) :
    (plic.setClaim supervisor id).pending = plic.pending := by
  unfold setClaim
  split <;> rfl

@[simp] theorem setClaim_xcc (plic : Plic) (supervisor other : Bool) (id : BitVec 32) :
    (plic.setClaim supervisor id).xcc other =
      if other = supervisor then id else plic.xcc other := by
  cases supervisor <;> cases other <;> rfl

/-- A source that is pending, enabled for a mode, and above its threshold. -/
structure Eligible (plic : Plic) (supervisor : Bool) (id : Fin 128) : Prop where
  pending : bitOf plic.pending id
  enabled : bitOf (plic.xie supervisor) id
  above : plic.priority id > plic.xpt supervisor

/-- An eligible source that the scan looks at: no lower one of its word is pending and enabled. -/
structure Offered (plic : Plic) (supervisor : Bool) (id : Fin 128) : Prop
    extends Eligible plic supervisor id where
  first : ∀ other < id, word other = word id →
    ¬ (bitOf plic.pending other ∧ bitOf (plic.xie supervisor) other)

/-- Only numbers of sources are pending. -/
structure Numbered (plic : Plic) : Prop where
  /-- The last word has bits of no source. -/
  last : plic.pending 4 = 0
  /-- Number zero stands for no source. -/
  zero : bitOf plic.pending 0 = false

/-! ### Signals and claims -/

section Pending

variable {plic after : Plic} {id : BitVec 32} {change : BitVec 32 → BitVec 32}
  {refused : String}

/-- An assignment to a pending word changes that word alone. -/
theorem updatePending_word (changed : plic.updatePending refused id change = .ok after) :
    id ≠ 0 ∧ after = { plic with pending := after.pending } ∧
      ∀ i : Fin 5, after.pending i =
        if i.val = id.toNat / 32 then change (plic.pending i) else plic.pending i := by
  unfold updatePending at changed
  split at changed
  · cases changed
  · rename_i nonzero
    split at changed
    · cases Except.ok.inj changed
      refine ⟨nonzero, rfl, fun i => ?_⟩
      -- The word of the number gets the new content, and every other keeps its own.
      by_cases here : i.val = id.toNat / 32
      · rw [if_pos here]
        have same : i = ⟨id.toNat / 32, by omega⟩ := Fin.ext here
        simp only [same, Function.update_self]
      · rw [if_neg here]
        exact Function.update_of_ne (fun same => here (congrArg Fin.val same)) _ _
    · cases changed

/-- A number is known by its word and its place there. -/
theorem decide_place (source : Fin 128) :
    decide (BitVec.ofNat 32 source = id) =
      (decide ((word source).val = id.toNat / 32) &&
        decide (source.val % 32 = id.toNat % 32)) := by
  -- A number below 128 is its quotient and its remainder by 32.
  rw [← Bool.decide_and, decide_eq_decide, ← BitVec.toNat_inj, BitVec.toNat_ofNat, word]
  have small := source.isLt
  simp only
  omega

/-- The bit that a number has in its word. -/
theorem getLsbD_place (source : Fin 128) :
    (1#32 <<< (id.toNat % 32)).getLsbD (source.val % 32) =
      decide (source.val % 32 = id.toNat % 32) := by
  -- A one shifted by the place is set there and nowhere else.
  rw [BitVec.getLsbD_shiftLeft, BitVec.getLsbD_one]
  have first := Nat.mod_lt source.val (show 32 > 0 by decide)
  have second := Nat.mod_lt id.toNat (show 32 > 0 by decide)
  simp only [first, decide_true, Bool.true_and, show (0 : Nat) < 32 by decide]
  by_cases same : source.val % 32 = id.toNat % 32
  · simp [same]
  · by_cases lower : source.val % 32 < id.toNat % 32
    · simp [lower, same]
    · simp [lower, same, show source.val % 32 - id.toNat % 32 ≠ 0 by omega]

/-- After a signal the source is pending, and the others are as before. -/
theorem signal_bitOf (sent : plic.signal id = .ok after) (source : Fin 128) :
    bitOf after.pending source =
      (bitOf plic.pending source || decide (BitVec.ofNat 32 source = id)) := by
  obtain ⟨_, _, words⟩ := updatePending_word sent
  rw [bitOf, words, decide_place]
  by_cases here : (word source).val = id.toNat / 32
  · -- In the word of the number its own bit joins the others.
    rw [if_pos here, BitVec.getLsbD_or, getLsbD_place]
    simp [bitOf, here]
  · -- The other words are as they were, and the number has no bit there.
    rw [if_neg here]
    simp [bitOf, here]

/-- After its pending bit is cleared the source is not pending, and the others are as before. -/
theorem clearPendingBit_bitOf (cleared : plic.clearPendingBit id = .ok after)
    (source : Fin 128) :
    bitOf after.pending source =
      (bitOf plic.pending source && decide (BitVec.ofNat 32 source ≠ id)) := by
  obtain ⟨_, _, words⟩ := updatePending_word cleared
  have bound := Nat.mod_lt source.val (show 32 > 0 by decide)
  rw [bitOf, words, decide_not, decide_place]
  by_cases here : (word source).val = id.toNat / 32
  · -- In the word of the number its own bit is masked out.
    rw [if_pos here, BitVec.getLsbD_and, BitVec.getLsbD_not, getLsbD_place]
    simp [bitOf, here, bound]
  · -- The other words are as they were.
    rw [if_neg here]
    simp [bitOf, here]

end Pending

/-- A signal of a source leaves numbers of sources pending only. -/
theorem Numbered.signal {plic : Plic} {id : BitVec 32} (numbered : plic.Numbered)
    (source : id.toNat < 128) : Ensures (plic.signal id) Numbered := by
  intro after sent
  obtain ⟨nonzero, _, words⟩ := updatePending_word sent
  refine ⟨?_, ?_⟩
  · -- A source below 128 has its bit in one of the first four words.
    rw [words, if_neg (by change ¬ 4 = id.toNat / 32; omega)]
    exact numbered.last
  · -- The number signalled is not zero, so bit zero stays clear.
    rw [signal_bitOf sent, numbered.zero]
    simpa using Ne.symm nonzero

/-- Clearing a pending bit leaves numbers of sources pending only. -/
theorem Numbered.clearPendingBit {plic : Plic} {id : BitVec 32} (numbered : plic.Numbered) :
    Ensures (plic.clearPendingBit id) Numbered := by
  intro after cleared
  obtain ⟨_, _, words⟩ := updatePending_word cleared
  refine ⟨?_, ?_⟩
  · -- Clearing a bit sets none.
    rw [words, numbered.last]
    simp
  · rw [clearPendingBit_bitOf cleared, numbered.zero]
    rfl

/-- A register read leaves numbers of sources pending only. -/
theorem Numbered.read {plic : Plic} (numbered : plic.Numbered) (addr : BitVec 64) :
    Ensures (plic.read addr) fun result => Numbered result.2 := by
  unfold Plic.read
  refine .ite (fun _ => .error) fun _ => ?_
  split
  · -- Only a claim touches the pending words, and it clears a bit of them.
    exact .ok numbered
  · refine .ite (fun _ => .ite (fun _ => .error) fun _ => ?_) fun _ => .ite (fun _ => ?_)
      fun _ => .error
    · exact .bind numbered.clearPendingBit fun plic cleared => .ok cleared
    · exact .ite (fun _ => .ok numbered) fun _ =>
        .bind numbered.clearPendingBit fun plic cleared => .ok cleared

/-- The address of the claim and complete register of a mode. -/
def claimAddr (supervisor : Bool) : BitVec 64 := if supervisor then 0x201004 else 0x200004

/-- A register write does not touch the pending words, and a claim register only at its address. -/
theorem write_kept {plic : Plic} (addr data : BitVec 64) :
    Ensures (plic.write addr data) fun after => after.pending = plic.pending ∧
      ∀ supervisor, addr ≠ claimAddr supervisor →
        after.xcc supervisor = plic.xcc supervisor := by
  have same : ∀ supervisor, addr ≠ claimAddr supervisor →
      plic.xcc supervisor = plic.xcc supervisor := fun _ _ => rfl
  unfold Plic.write
  refine .ite (fun _ => .error) fun _ => .ite (fun _ => ?_) fun _ => ?_
  · -- First the registers below the thresholds, which are not claim registers.
    split
    · exact .ok ⟨rfl, same⟩
    · exact .error
  · split
    · exact .ok ⟨rfl, same⟩
    · split
      · exact .ok ⟨rfl, same⟩
      · refine .ite (fun _ => .ok ⟨rfl, same⟩) fun _ => .ite (fun _ => .ok ⟨rfl, same⟩) fun _ => ?_
        -- The last two registers are the claim registers themselves.
        refine .ite (fun machine => .ite (fun _ => .error) fun _ => .ok ⟨rfl, ?_⟩) fun _ =>
          .ite (fun supervisor => .ite (fun _ => .error) fun _ => .ok ⟨rfl, ?_⟩) fun _ => .error
        · rintro (_ | _) other
          · exact absurd machine other
          · rfl
        · rintro (_ | _) other
          · rfl
          · exact absurd supervisor other

/-- A write to a claim register completes the source it holds. -/
theorem write_claim (plic : Plic) (supervisor : Bool) (data : BitVec 64) :
    plic.write (claimAddr supervisor) data =
      if plic.xcc supervisor ≠ data.setWidth 32 then
        .error (.panic "plic_write: bad complete (%u, %u)\n")
      else .ok (plic.setClaim supervisor 0) := by
  cases supervisor <;> rfl

/-- A read of a claim register that is not zero clears the pending bit of the source it holds. -/
theorem read_claim (plic : Plic) (supervisor : Bool) (nonzero : plic.xcc supervisor ≠ 0) :
    plic.read (claimAddr supervisor) = plic.clearPendingBit (plic.xcc supervisor) >>= fun after =>
      .ok ((after.xcc supervisor).setWidth 64, after) := by
  -- Each claim register has its own case in the read, with the same test.
  cases supervisor with
  | false =>
    change (if plic.xcc false = 0 then _ else _) = _
    rw [if_neg nonzero]
    rfl
  | true =>
    change (if plic.xcc true = 0 then _ else _) = _
    rw [if_neg nonzero]
    rfl

/-- A read of a claim register that is zero answers zero or stops the emulator. -/
theorem read_unclaimed (plic : Plic) (supervisor : Bool) (zero : plic.xcc supervisor = 0) :
    Ensures (plic.read (claimAddr supervisor)) fun result => result = (0, plic) := by
  cases supervisor with
  | false =>
    change Ensures (if plic.mcc = 0 then _ else _) _
    -- The machine panics where the supervisor reads a zero.
    exact .ite (fun _ => .error) fun other => absurd zero other
  | true =>
    change Ensures (if plic.scc = 0 then _ else _) _
    exact .ite (fun _ => .ok rfl) fun other => absurd zero other

/-- Whether only numbers of sources are pending is seen from the pending words alone. -/
theorem Numbered.congr {plic after : Plic} (numbered : plic.Numbered)
    (same : after.pending = plic.pending) : after.Numbered :=
  ⟨same ▸ numbered.last, same ▸ numbered.zero⟩

/-! ### The scan -/

/-- The loop of `first_one` finds the lowest bit among those it looks at. -/
theorem firstOneFrom_lowest {left : Nat} (ret : Nat) {bits : BitVec 32}
    (found : ∃ i < left, bits.getLsbD i) :
    ∃ place < left, firstOneFrom left ret bits = .ok (ret + place) ∧ bits.getLsbD place ∧
      ∀ lower < place, bits.getLsbD lower = false := by
  induction left generalizing ret bits with
  | zero =>
    obtain ⟨i, below, _⟩ := found
    omega
  | succ left ih =>
    -- The loop tests the lowest bit, by masking the others off.
    have lowest : bits &&& 1 ≠ 0 ↔ bits.getLsbD 0 := by
      have single : bits &&& 1#32 = (BitVec.ofBool (bits.getLsbD 0)).setWidth 32 :=
        BitVec.and_one_eq_setWidth_ofBool_getLsbD
      change bits &&& 1#32 ≠ 0#32 ↔ _
      rw [single]
      cases bits.getLsbD 0 <;> decide
    rw [firstOneFrom]
    by_cases first : bits.getLsbD 0
    · -- The lowest bit is set, and no place lies below it.
      refine ⟨0, by omega, ?_, first, by omega⟩
      rw [if_pos (lowest.mpr first), Nat.add_zero]
    · rw [if_neg (fun set => first (lowest.mp set))]
      -- The remaining places are those of the shifted word.
      obtain ⟨i, below, set⟩ := found
      have later : i ≠ 0 := fun zero => first (zero ▸ set)
      have shifted : (bits >>> 1).getLsbD (i - 1) := by
        rw [BitVec.getLsbD_ushiftRight, show 1 + (i - 1) = i by omega]
        exact set
      obtain ⟨place, inside, result, there, lower⟩ :=
        ih (ret + 1) ⟨i - 1, by omega, shifted⟩
      -- Undoing the shift, the place found lies one higher in the word itself.
      refine ⟨place + 1, by omega, by rw [result]; congr 1; omega, ?_, fun j before => ?_⟩
      · rw [BitVec.getLsbD_ushiftRight] at there
        rwa [Nat.add_comm]
      · rcases Nat.eq_zero_or_pos j with rfl | positive
        · simpa using first
        · have shifted := lower (j - 1) (by omega)
          rwa [BitVec.getLsbD_ushiftRight, show 1 + (j - 1) = j by omega] at shifted

/-- A word with a bit set has a lowest one, and `first_one` returns its place. -/
theorem firstOne_lowest {bits : BitVec 32} (nonzero : bits ≠ 0) :
    ∃ place < 32, firstOne bits = .ok place ∧ bits.getLsbD place ∧
      ∀ lower < place, bits.getLsbD lower = false := by
  have found : ∃ i < 32, bits.getLsbD i := by
    -- Without a set bit the word would be zero.
    by_contra none
    apply nonzero
    apply BitVec.eq_of_getLsbD_eq
    intro i below
    have clear : ¬ bits.getLsbD i := fun set => none ⟨i, below, set⟩
    simpa using clear
  obtain ⟨place, inside, result, rest⟩ := firstOneFrom_lowest 0 found
  exact ⟨place, inside, by rw [firstOne, result, Nat.zero_add], rest⟩

section Scan

variable {plic : Plic} {supervisor : Bool}

/-- The bit of a source in the words that a scan looks at. -/
theorem bitOf_and (plic : Plic) (supervisor : Bool) (id : Fin 128) :
    (plic.pending (word id) &&& plic.xie supervisor (word id)).getLsbD (id.val % 32) =
      (bitOf plic.pending id && bitOf (plic.xie supervisor) id) := by
  rw [BitVec.getLsbD_and, bitOf, bitOf]

/-- The source that comes first among the pending and enabled ones of its word. -/
def FirstOf (plic : Plic) (supervisor : Bool) (id : Fin 128) : Prop :=
  (bitOf plic.pending id ∧ bitOf (plic.xie supervisor) id) ∧
    ∀ other < id, word other = word id →
      ¬ (bitOf plic.pending other ∧ bitOf (plic.xie supervisor) other)

/-- Only one source comes first in a word. -/
theorem FirstOf.unique {id other : Fin 128} (one : plic.FirstOf supervisor id)
    (also : plic.FirstOf supervisor other) (same : word other = word id) : other = id := by
  -- The lower of two would stand before the other in their word.
  rcases Nat.lt_trichotomy other.val id.val with lower | equal | higher
  · exact absurd also.1 (one.2 other lower same)
  · exact Fin.ext equal
  · exact absurd one.1 (also.2 id higher same.symm)

/-- A word with a pending and enabled bit in the range of the sources has a first source. -/
theorem firstOf_place {i : Fin 5} {place : Nat} (below : place < 32)
    (inside : i.val * 32 + place < 128)
    (set : (plic.pending i &&& plic.xie supervisor i).getLsbD place)
    (lower : ∀ j < place, (plic.pending i &&& plic.xie supervisor i).getLsbD j = false) :
    word ⟨i.val * 32 + place, inside⟩ = i ∧
      plic.FirstOf supervisor ⟨i.val * 32 + place, inside⟩ := by
  have place32 : (i.val * 32 + place) % 32 = place := by omega
  have wordOf : word ⟨i.val * 32 + place, inside⟩ = i := by
    apply Fin.ext
    simp only [word]
    omega
  refine ⟨wordOf, ?_, ?_⟩
  · -- The lowest bit of the word is that of a source, which it makes pending and enabled.
    have bits := bitOf_and plic supervisor ⟨i.val * 32 + place, inside⟩
    rw [wordOf, place32, set] at bits
    exact (Bool.and_eq_true _ _).mp bits.symm
  · rintro other before same ⟨pending, enabled⟩
    -- A lower source of the word would have its bit below the lowest one.
    have bits := bitOf_and plic supervisor other
    rw [same, wordOf, pending, enabled] at bits
    have quotient : other.val / 32 = i.val := by
      rw [wordOf] at same
      exact congrArg Fin.val same
    have less : other.val < i.val * 32 + place := before
    rw [lower (other.val % 32) (by omega)] at bits
    cases bits

/-- What a scan of some words finds: the first source they offer, if one of them offers a source. -/
def Finds (plic : Plic) (supervisor : Bool) (words : List (Fin 5)) : Option (Fin 128) → Prop
  | some id => plic.Offered supervisor id ∧ word id ∈ words ∧
      ∀ other, word other ∈ words → plic.Offered supervisor other → id ≤ other
  | none => ∀ other, word other ∈ words → ¬ plic.Offered supervisor other

/-- When a word offers nothing, what is found in the rest is found in all. -/
theorem Finds.skip {i : Fin 5} {rest : List (Fin 5)} {found : Option (Fin 128)}
    (nothing : ∀ other, word other = i → ¬ plic.Offered supervisor other)
    (finds : plic.Finds supervisor rest found) : plic.Finds supervisor (i :: rest) found := by
  -- A word that offers nothing is no obstacle to what the rest of them offers.
  cases found with
  | none =>
    intro other member
    rcases List.mem_cons.mp member with same | later
    · exact nothing other same
    · exact finds other later
  | some id =>
    refine ⟨finds.1, List.mem_cons_of_mem _ finds.2.1, fun other member offered => ?_⟩
    rcases List.mem_cons.mp member with same | later
    · exact absurd offered (nothing other same)
    · exact finds.2.2 other later offered

/-- The only source a word can offer is the first of its pending and enabled ones. -/
theorem FirstOf.offered_eq {id other : Fin 128} (first : plic.FirstOf supervisor id)
    (offered : plic.Offered supervisor other) (same : word other = word id) : other = id :=
  first.unique ⟨⟨offered.pending, offered.enabled⟩, offered.first⟩ same

/-- The scan ends with the first offered source of the words, if one of them offers a source. -/
theorem scan_selected (supervisor : Bool) (words : List (Fin 5)) (sorted : words.Pairwise (· < ·)) :
    Ensures (plic.scan (plic.xie supervisor) (plic.xpt supervisor) words)
      (plic.Finds supervisor words) := by
  induction words with
  -- The words are scanned in rising order, and the induction follows the scan.
  | nil => exact .ok fun other member => absurd member List.not_mem_nil
  | cons i rest ih =>
    rw [List.pairwise_cons] at sorted
    rw [scan]
    refine .ite (fun nonzero => ?_) fun empty =>
      (ih sorted.2).mono fun _ => .skip fun other same offered => ?_
    · -- A word with something pending and enabled is decided by its first source.
      obtain ⟨place, below, found, set, lower⟩ := firstOne_lowest nonzero
      rw [found, ok_bind]
      split
      · rename_i inside
        obtain ⟨wordOf, first⟩ := firstOf_place below inside set lower
        refine .ite (fun above => .ok ⟨⟨⟨first.1.1, first.1.2, above⟩, first.2⟩, ?_, ?_⟩)
          fun tooLow => (ih sorted.2).mono fun _ => .skip fun other same offered => ?_
        · rw [wordOf]
          exact List.mem_cons_self
        · intro other member offered
          rcases List.mem_cons.mp member with same | later
          · -- In this word only its first source is offered.
            exact first.offered_eq offered (same.trans wordOf.symm) ▸ Nat.le_refl _
          · -- The sources of later words have higher numbers.
            have further : i.val < (word other).val := sorted.1 _ later
            have index : (word other).val = other.val / 32 := rfl
            change i.val * 32 + place ≤ other.val
            omega
        · -- What this word offers is its first source, which is not above the threshold.
          exact tooLow (first.offered_eq offered (same.trans wordOf.symm) ▸ offered.above)
      · -- A place past the sources is undefined, so nothing is selected.
        exact .error
    · -- A word with nothing pending and enabled offers no source.
      have bits := bitOf_and plic supervisor other
      rw [same, not_not.mp empty, offered.pending, offered.enabled] at bits
      simp at bits

/-- The scan completes as long as only numbers of sources are pending. -/
theorem scan_completes (numbered : plic.Numbered) (supervisor : Bool) (words : List (Fin 5)) :
    ∃ found, plic.scan (plic.xie supervisor) (plic.xpt supervisor) words = .ok found := by
  induction words with
  | nil => exact ⟨none, rfl⟩
  | cons i rest ih =>
    rw [scan]
    by_cases nonzero : plic.pending i &&& plic.xie supervisor i ≠ 0
    · obtain ⟨place, below, found, set, lower⟩ := firstOne_lowest nonzero
      -- No bit of the last word is pending, so the place is that of a source.
      have inside : i.val * 32 + place < 128 := by
        have small : i ≠ 4 := by
          rintro rfl
          exact nonzero (by rw [numbered.last]; simp)
        have index := i.isLt
        omega
      rw [if_pos nonzero, found]
      simp only [ok_bind, dif_pos inside]
      -- The source found is selected, or the scan goes on.
      split
      · exact ⟨_, rfl⟩
      · exact ih
    · rw [if_neg nonzero]
      exact ih

/-- The source a poll selects: the lowest of those the words offer. -/
structure Selected (plic : Plic) (supervisor : Bool) (id : Fin 128) : Prop
    extends Offered plic supervisor id where
  lowest : ∀ other, plic.Offered supervisor other → id ≤ other

/-- A poll sets the claim register to the source it selects, or finds that there is none. -/
theorem interrupt_selected (supervisor : Bool) :
    Ensures (plic.interrupt supervisor) fun result =>
      (∃ id, plic.Selected supervisor id ∧
        result = (BitVec.ofNat 32 id, plic.setClaim supervisor (BitVec.ofNat 32 id))) ∨
      ((∀ id, ¬ plic.Offered supervisor id) ∧ result = (0, plic)) := by
  have all : ∀ id, word id ∈ ([0, 1, 2, 3, 4] : List (Fin 5)) := by
    intro id
    generalize word id = i
    revert i
    decide
  refine .bind (scan_selected supervisor [0, 1, 2, 3, 4] (by decide)) fun found result => ?_
  cases found with
  -- Nothing was selected, so no word offers a source.
  | none => exact .ok (.inr ⟨fun id => result id (all id), rfl⟩)
  -- Every source has its word among the five, so the one selected is the lowest of all.
  | some id => exact .ok (.inl ⟨id, ⟨result.1, fun other => result.2.2 other (all other)⟩, rfl⟩)

/-- A poll completes as long as only numbers of sources are pending. -/
theorem interrupt_completes (numbered : plic.Numbered) (supervisor : Bool) :
    ∃ result, plic.interrupt supervisor = .ok result := by
  obtain ⟨found, scanned⟩ := scan_completes numbered supervisor [0, 1, 2, 3, 4]
  -- The scan is all of a poll that can stop.
  change ∃ result, (plic.scan (plic.xie supervisor) (plic.xpt supervisor) [0, 1, 2, 3, 4] >>= _) =
    Except.ok result
  rw [scanned]
  cases found with
  | none => exact ⟨_, rfl⟩
  | some id => exact ⟨_, rfl⟩

end Scan

end Xemu.Plic
