import Mathlib.Data.List.Count
import Mathlib.Data.List.Induction

/-! Counting the uses of a shared resource: every opening adds one, every closing takes one away
unless none is left. -/

namespace UseCount

inductive Use where
  | opened
  | closed
  deriving DecidableEq, Repr

/-- One use counted on top of the others. -/
def counted (count : Nat) : Use → Nat
  | .opened => count + 1
  | .closed => count - 1

/-- Openings minus closings, never below zero. -/
def tally (uses : List Use) : Nat := uses.foldl counted 0

@[simp] theorem tally_concat (uses : List Use) (use : Use) : tally (uses ++ [use]) = counted (tally uses) use := by
  rw [tally, List.foldl_append]
  rfl

/-- What is left after the closings is counted at least. -/
theorem opened_le_tally (uses : List Use) : uses.count .opened ≤ tally uses + uses.count .closed := by
  induction uses using List.reverseRecOn with
  | nil => exact Nat.le_refl 0
  | append_singleton uses use ih =>
    rw [List.count_append, List.count_append, tally_concat]
    cases use with
    | opened =>
      have one : List.count Use.opened [Use.opened] = 1 := rfl
      have none : List.count Use.closed [Use.opened] = 0 := rfl
      rw [one, none, counted]
      omega
    | closed =>
      have none : List.count Use.opened [Use.closed] = 0 := rfl
      have one : List.count Use.closed [Use.closed] = 1 := rfl
      rw [one, none, counted]
      omega

end UseCount
