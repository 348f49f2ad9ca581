import DocWire.Number.Natural

/-!
# Sets of code points as lists of bounds

A set of natural numbers is written as the ascending list of the points at which membership
changes: `[b₀, b₁, b₂, b₃, …]` stands for the union of `[b₀, b₁)`, `[b₂, b₃)` and so on.

* `inRanges`        membership;
* `inRanges_pair`   the first interval decides for every number below its end.
-/

namespace DocWire.Text

/-- Membership in the set that an ascending list of bounds describes. -/
def inRanges : List Nat → Nat → Bool
  | lo :: hi :: rest, n => if n < hi then decide (lo ≤ n) else inRanges rest n
  | _, _ => false

theorem inRanges_nil (n : Nat) : inRanges [] n = false := rfl

theorem inRanges_pair (lo hi n : Nat) (rest : List Nat) (h : n < hi) :
    inRanges (lo :: hi :: rest) n = decide (lo ≤ n) := by
  rw [inRanges, if_pos h]

theorem inRanges_beyond (lo hi n : Nat) (rest : List Nat) (h : hi ≤ n) :
    inRanges (lo :: hi :: rest) n = inRanges rest n := by
  rw [inRanges, if_neg (by omega)]

end DocWire.Text
