import TableQuery.Fault

/-!
# `LIMIT`

A limit is written in ASCII digits alone and fits into 64 bits.
-/

namespace TableQuery.Limit

/-- The value of a text of ASCII digits that is below 2^64. -/
def ofDigits? (cs : List Char) : Option UInt64 :=
  if cs.isEmpty || !cs.all Char.isDigit then
    none
  else
    let n := Nat.ofDigitChars 10 cs 0
    if h : n < UInt64.size then some (UInt64.ofNatLT n h) else none

def parse (body : Piece) : Except ParseError UInt64 :=
  match ofDigits? body.chars with
  | some n => .ok n
  | none => .error (body.faultWhole .notLimit)

end TableQuery.Limit
