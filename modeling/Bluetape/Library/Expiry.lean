import Mathlib.Data.Int.Notation

/-!
# Keys that expire

A key with a deadline is gone once the clock of its server has passed it. Whether it is gone *at*
the deadline already differs between servers, and nothing that is proved of a key should depend on
it: what is said of deadlines holds for either reading (`Expiry`). They differ by one unit of time
(`Expiry.slack`).
-/

/-- Whether a key is gone at its deadline, or from the next unit of time on. -/
inductive Expiry where
  | atDeadline
  | afterDeadline
  deriving DecidableEq, Repr

namespace Expiry

/-- How long a key is there at its deadline: not at all, or for that unit of time. -/
def slack : Expiry → ℤ
  | atDeadline => 0
  | afterDeadline => 1

/-- A key with this deadline is gone. -/
def Gone (x : Expiry) (deadline now : ℤ) : Prop := deadline + x.slack ≤ now
  deriving Decidable

theorem slack_nonneg (x : Expiry) : 0 ≤ x.slack := by
  cases x <;> decide

end Expiry
