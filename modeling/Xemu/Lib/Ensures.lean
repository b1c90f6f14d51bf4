import Mathlib.Logic.Basic

/-! Postconditions of computations that may stop with an error. -/

universe u v

variable {α β : Type u} {Stop : Type v}

/-- Every result a computation completes with has a property. -/
def Ensures (comp : Except Stop α) (post : α → Prop) : Prop :=
  ∀ result, comp = .ok result → post result

namespace Ensures

variable {post stronger : α → Prop} {comp : Except Stop α}

/-- A computation that completes at once ensures what holds of its result. -/
theorem ok {result : α} (holds : post result) : Ensures (.ok result : Except Stop α) post := by
  intro other same
  cases Except.ok.inj same
  exact holds

/-- A computation that stops ensures everything, having no result. -/
theorem error {stop : Stop} : Ensures (.error stop : Except Stop α) post := by
  intro result impossible
  cases impossible

/-- A sequence ensures what its second part does after every result of the first. -/
theorem bind {next : α → Except Stop β} {last : β → Prop} (first : Ensures comp post)
    (second : ∀ result, post result → Ensures (next result) last) :
    Ensures (comp >>= next) last := by
  -- A sequence has a result only if its first part has one.
  intro result completed
  cases comp with
  | error stop => cases completed
  | ok middle => exact second middle (first middle rfl) result completed

/-- A sequence ensures what its second part does, whatever the first one results in. -/
theorem andThen {next : α → Except Stop β} {last : β → Prop}
    (second : ∀ result, Ensures (next result) last) : Ensures (comp >>= next) last :=
  .bind (fun _ _ => trivial : Ensures comp fun _ => True) fun result _ => second result

/-- A stronger property is ensured in particular. -/
theorem mono (ensured : Ensures comp stronger) (weakens : ∀ result, stronger result → post result) :
    Ensures comp post :=
  fun result completed => weakens result (ensured result completed)

/-- A choice ensures what both of its sides do. -/
theorem ite {cond : Prop} [Decidable cond] {other : Except Stop α}
    (yes : cond → Ensures comp post) (no : ¬ cond → Ensures other post) :
    Ensures (if cond then comp else other) post := by
  -- The side taken is decided by the condition, which its proof may use.
  by_cases holds : cond
  · rw [if_pos holds]
    exact yes holds
  · rw [if_neg holds]
    exact no holds

/-- A first part that is sometimes left out ensures what follows it in either case. -/
theorem optional {cond : Prop} [Decidable cond] {next : α → Except Stop β} {value : α}
    {last : β → Prop} (first : Ensures comp post) (holds : post value)
    (second : ∀ result, post result → Ensures (next result) last) :
    Ensures (if cond then comp >>= next else next value) last :=
  .ite (fun _ => .bind first second) fun _ => second value holds

end Ensures

/-! ### Stops -/

/-- Every result a computation completes with has one property, and every stop has another. -/
structure Ends (comp : Except Stop α) (post : α → Prop) (stops : Stop → Prop) : Prop where
  ensures : Ensures comp post
  stopped : ∀ stop, comp = .error stop → stops stop

namespace Ends

variable {post stronger : α → Prop} {stops fewer : Stop → Prop} {comp : Except Stop α}

/-- A computation that completes at once does not stop. -/
theorem ok {result : α} (holds : post result) : Ends (.ok result : Except Stop α) post stops :=
  ⟨.ok holds, fun _ impossible => by cases impossible⟩

/-- A computation that stops has no result. -/
theorem error {stop : Stop} (holds : stops stop) :
    Ends (.error stop : Except Stop α) post stops := by
  refine ⟨.error, fun other same => ?_⟩
  cases same
  exact holds

/-- A sequence stops where its first part does, or else where its second part does. -/
theorem bind {next : α → Except Stop β} {last : β → Prop} (first : Ends comp post stops)
    (second : ∀ result, post result → Ends (next result) last stops) :
    Ends (comp >>= next) last stops := by
  refine ⟨.bind first.ensures fun result holds => (second result holds).ensures, ?_⟩
  intro stop stopped
  cases comp with
  | error early =>
    -- The second part is not reached.
    cases stopped
    exact first.stopped stop rfl
  | ok middle => exact (second middle (first.ensures middle rfl)).stopped stop stopped

/-- A choice ends as both of its sides do. -/
theorem ite {cond : Prop} [Decidable cond] {other : Except Stop α}
    (yes : cond → Ends comp post stops) (no : ¬ cond → Ends other post stops) :
    Ends (if cond then comp else other) post stops := by
  by_cases holds : cond
  · rw [if_pos holds]
    exact yes holds
  · rw [if_neg holds]
    exact no holds

/-- A first part that is sometimes left out ends as what follows it does in either case. -/
theorem optional {cond : Prop} [Decidable cond] {next : α → Except Stop β} {value : α}
    {last : β → Prop} (first : cond → Ends comp post stops) (holds : post value)
    (second : ∀ result, post result → Ends (next result) last stops) :
    Ends (if cond then comp >>= next else next value) last stops :=
  .ite (fun taken => .bind (first taken) second) fun _ => second value holds

/-- Weaker properties hold of the same results and the same stops. -/
theorem mono (ends : Ends comp stronger fewer) (weakens : ∀ result, stronger result → post result)
    (admits : ∀ stop, fewer stop → stops stop) : Ends comp post stops :=
  ⟨ends.ensures.mono weakens, fun stop stopped => admits stop (ends.stopped stop stopped)⟩

end Ends
