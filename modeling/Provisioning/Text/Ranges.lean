/-!
# Ranges of code points

A character class is a table of ascending ranges. The search ends at the first range that starts
beyond the code point, so plain ASCII text looks at the head of a table only.
-/

namespace Provisioning.Text

def inRanges : List (Nat × Nat) → Nat → Bool
  | [], _ => false
  | (lo, hi) :: rest, n => if n < lo then false else decide (n ≤ hi) || inRanges rest n

/-- Whether `n` is met by one of the ascending strides `(lo, hi, step)`: every `step`-th code point
from `lo` up to `hi`. -/
def inStrides : List (Nat × Nat × Nat) → Nat → Bool
  | [], _ => false
  | (lo, hi, step) :: rest, n =>
    if n < lo then false
    else (decide (n ≤ hi) && (n - lo) % step == 0) || inStrides rest n

end Provisioning.Text
