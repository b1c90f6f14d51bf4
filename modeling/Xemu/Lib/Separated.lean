import Mathlib.Data.List.Infix

/-! Words that occur in a list with separators between its parts. -/

namespace Separated

variable {α : Type*} {needle before after : List α} {mark : α}

/-- A word without the separator that begins a list does not go on behind the separator. -/
theorem prefix_iff (absent : mark ∉ needle) :
    needle <+: before ++ mark :: after ↔ needle <+: before := by
  induction needle generalizing before with
  | nil => simp
  | cons first rest ih =>
    rw [List.mem_cons, not_or] at absent
    cases before with
    | nil => simp [List.cons_prefix_cons, Ne.symm absent.1]
    | cons head before => simp [List.cons_prefix_cons, ih absent.2]

/-- A word without the separator occurs in front of the separator or behind it. -/
theorem infix_iff (absent : mark ∉ needle) :
    needle <:+: before ++ mark :: after ↔ needle <:+: before ∨ needle <:+: after := by
  induction before with
  | nil =>
    have start : needle <+: mark :: after ↔ needle = [] := by
      simpa using @prefix_iff _ needle [] after mark absent
    rw [List.nil_append, List.infix_cons_iff, start, List.infix_nil]
  | cons head before ih =>
    rw [List.cons_append, List.infix_cons_iff, List.infix_cons_iff, ih, ← List.cons_append,
      prefix_iff absent, or_assoc]

end Separated
