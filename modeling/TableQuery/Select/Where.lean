import TableQuery.Select.Condition

/-!
# `WHERE`

The body of a `WHERE` clause is a flat list of conditions, split at every `AND` and `OR` outside
literals and parentheses. The two connectors are not told apart.
-/

namespace TableQuery.Where

/-- The length of a connector at a site. -/
def connector? (s : Site) : Option Nat :=
  s.topKeyword? .and <|> s.topKeyword? .or

/-- The condition in a range of the body. A blank one is reported up to the end of the connector
behind it. -/
def conditionIn (body : Piece) (first last reported : Nat) : Except ParseError Piece :=
  let piece := body.cut first last
  if piece.isEmpty then
    .error (body.faultSpan .blankCondition first reported)
  else
    .ok piece

/-- The conditions that end at a connector, where the first of them starts at `first`, and the
start of the condition behind the last connector. -/
def fragmentsFrom (body : Piece) (first : Nat) :
    List Site → Except ParseError (List Piece × Nat)
  | [] => .ok ([], first)
  | s :: r =>
    match connector? s with
    | some length => do
      let head ← conditionIn body first s.index (s.index + length)
      let (fragments, last) ← fragmentsFrom body (s.index + length) r
      return (head :: fragments, last)
    | none => fragmentsFrom body first r

/-- The conditions of the body as pieces. -/
def split (body : Piece) : Except ParseError (List Piece) := do
  if body.isEmpty then
    throw (body.faultWhole .noCondition)
  let outline := body.outline
  let (fragments, first) ← fragmentsFrom body 0 outline.sites
  body.requireTerminated outline
  let last ← conditionIn body first body.length body.length
  return fragments ++ [last]

def parse (body : Piece) : Except ParseError (List Condition) := do
  let fragments ← split body
  fragments.mapM Condition.parse

end TableQuery.Where
