/-!
# Ranges of code points

A property of characters is given as a list of closed ranges of code points in increasing order.
Membership walks the list up to the first range that does not end before the character; that range
decides, because all later ones start beyond it.  Characters with small numbers, which are most of
them, are decided at once.
-/

namespace Descent.Text

/-- The code points from `first` to `last`, both included. -/
structure CodeRange where
  first : Nat
  last : Nat

namespace CodeRange

/-- Whether one of the ranges, which are in increasing order, holds the character. -/
def covers : List CodeRange → Char → Bool
  | [], _ => false
  | range :: ranges, c => if c.toNat ≤ range.last then range.first ≤ c.toNat else covers ranges c

@[simp] theorem covers_nil (c : Char) : covers [] c = false := rfl

theorem covers_cons_of_le {range : CodeRange} {c : Char} (ranges : List CodeRange)
    (h : c.toNat ≤ range.last) : covers (range :: ranges) c = decide (range.first ≤ c.toNat) := by
  rw [covers, if_pos h]

theorem covers_cons_of_lt {range : CodeRange} {c : Char} (ranges : List CodeRange)
    (h : range.last < c.toNat) : covers (range :: ranges) c = covers ranges c := by
  rw [covers, if_neg (Nat.not_le_of_lt h)]

end CodeRange

end Descent.Text
