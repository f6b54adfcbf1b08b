import ScriptBundle.Text.CodePoint

/-!
# Sets of code points given by their runs

A set of code points is written as the increasing list of its boundaries: the first code point of
each run and the first one after it, in turn. A code point belongs to the set when an odd number of
boundaries is at or below it.
-/

namespace ScriptBundle

/-- The boundaries of the runs of a set of code points, in increasing order. -/
structure RunSet where
  boundaries : List Nat

namespace RunSet

/-- Whether a code point belongs to the set. -/
def contains (r : RunSet) (c : CodePoint) : Bool :=
  r.boundaries.countP (· ≤ c.val) % 2 = 1

@[simp] theorem contains_empty (c : CodePoint) : contains ⟨[]⟩ c = false := rfl

/-- The single run from `a` up to, but not with, `b`. -/
theorem contains_pair {a b : Nat} (h : a ≤ b) (c : CodePoint) :
    contains ⟨[a, b]⟩ c = (a ≤ c.val && c.val < b) := by
  by_cases ha : a ≤ c.val <;> by_cases hb : b ≤ c.val <;>
    simp [contains, ha, hb] <;> omega

/-- Code points between the same boundaries belong to the set together. -/
theorem contains_congr {r : RunSet} {c d : CodePoint} (h : ∀ b ∈ r.boundaries, b ≤ c.val ↔ b ≤ d.val) :
    r.contains c = r.contains d := by
  unfold contains
  rw [List.countP_congr (q := fun b => decide (b ≤ d.val)) (by simpa using h)]

end RunSet

end ScriptBundle
