/-!
# Sets of code points as sorted bounds

A property of characters that no short rule describes is a table. `Ranges` keeps it as one
increasing list of bounds: the first code point of a run, the first one after it, and so on. A code
point lies in the set exactly when the number of bounds at or below it is odd, and that number is
found by halving.
-/

namespace SourceScan.Text

/-- A set of code points, given by the bounds of its runs in increasing order. -/
structure Ranges where
  bounds : Array Nat

namespace Ranges

/-- How many bounds of `b` are at most `x`, when that number lies between `lo` and `hi`. Each step
halves the interval, so `fuel` steps settle any table of fewer than `2 ^ fuel` bounds. -/
def rank (b : Array Nat) (x : Nat) : (fuel lo hi : Nat) → Nat
  | 0, lo, _ => lo
  | fuel + 1, lo, hi =>
    if lo < hi then
      let mid := (lo + hi) / 2
      if b.getD mid 0 ≤ x then rank b x fuel (mid + 1) hi else rank b x fuel lo mid
    else lo

/-- Whether the code point `x` is in the set. -/
def contains (r : Ranges) (x : Nat) : Bool :=
  rank r.bounds x (r.bounds.size.log2 + 1) 0 r.bounds.size % 2 == 1

end Ranges

end SourceScan.Text
