import TableQuery.Outline

/-!
# Conditions

A condition compares a field with a value: `<field> <operator> <value>`. It is split at the first
`LIKE` outside literals, or else at the first operator in symbols outside literals. One layer of
quotes is taken off the value when it is read and put on when it is rendered.
-/

namespace TableQuery

structure Condition where
  field : String
  operator : Operator
  value : String
deriving DecidableEq, Repr

namespace Condition

/-- The condition of a fragment that is split at an operator of the given range. -/
def ofParts (fragment : Piece) (operator : Operator) (first last : Nat) :
    Except ParseError Condition := do
  let field := fragment.cut 0 first
  let value := fragment.rest last
  if field.isEmpty then
    throw (fragment.faultWhole (.missingField operator))
  if value.isEmpty then
    throw (fragment.faultWhole (.missingValue operator))
  return ⟨field.text, operator, String.ofList (Literal.unquote value.chars)⟩

/-- The first `LIKE` outside literals: where it starts and where it ends. -/
def likeRange (fragment : Piece) (o : Outline) : Except ParseError (Option (Nat × Nat)) :=
  fragment.search o fun s => (s.keyword? .like).map fun length => (s.index, s.index + length)

/-- The first operator in symbols outside literals: where it starts and where it ends. -/
def comparisonRange (fragment : Piece) (o : Outline) :
    Except ParseError (Option (Operator × Nat × Nat)) :=
  fragment.search o fun s =>
    (Operator.detect? s.here).map fun (operator, length) => (operator, s.index, s.index + length)

def parse (fragment : Piece) : Except ParseError Condition := do
  let o := fragment.outline
  if let some (first, last) ← likeRange fragment o then
    ofParts fragment .like first last
  else
    let some (operator, first, last) ← comparisonRange fragment o
      | throw (fragment.faultWhole .noOperator)
    ofParts fragment operator first last

def render (c : Condition) : String :=
  c.field ++ " " ++ c.operator.symbol ++ " " ++ String.ofList (Literal.quote c.value.toList)

end Condition

end TableQuery
