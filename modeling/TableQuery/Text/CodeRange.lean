/-!
# Tables of code points

A class of characters given by data of the Unicode standard is a sorted list of closed ranges of
code points. Membership stops at the first range that lies above the character, so that a look-up
of a low code point reads only the head of the table.
-/

namespace TableQuery.Text

/-- The code points from `first` to `last`, both included. -/
structure CodeRange where
  first : Nat
  last : Nat
deriving Repr

namespace CodeRange

/-- The code point `n` lies in one of the ranges, which stand in ascending order. -/
def covers : List CodeRange → Nat → Bool
  | [], _ => false
  | r :: rs, n => if n < r.first then false else n ≤ r.last || covers rs n

@[simp] theorem covers_nil (n : Nat) : covers [] n = false := rfl

theorem covers_cons (r : CodeRange) (rs : List CodeRange) (n : Nat) :
    covers (r :: rs) n = if n < r.first then false else n ≤ r.last || covers rs n := rfl

end CodeRange

end TableQuery.Text
