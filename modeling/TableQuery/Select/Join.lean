import TableQuery.Cursor
import TableQuery.Outline

/-!
# Joins

Behind the join keyword stands `<table> ON <left> = <right>`, where the two sides are references of
ASCII letters, digits, `_` and `.`. The table reaches to the first `ON` outside literals.
-/

namespace TableQuery

structure Join where
  kind : JoinKind
  table : String
  left : String
  right : String
deriving DecidableEq, Repr

namespace Join

def inReference (c : Char) : Bool :=
  c.isAlphanum || c == '_' || c == '.'

/-- The first `ON` outside literals: where it starts and where it ends. -/
def onRange (body : Piece) : Except ParseError (Option (Nat × Nat)) :=
  body.search body.outline fun s =>
    (s.keyword? .on).map fun length => (s.index, s.index + length)

/-- The reference behind the cursor and the cursor behind it. -/
def reference (c : Cursor) : Except ParseError (List Char × Cursor) :=
  let name := c.rest.takeWhile inReference
  if name.isEmpty then
    .error (c.piece.faultAt .missingReference c.position)
  else
    .ok (name, c.jump name.length)

/-- The two sides of the equality that fills the body behind the cursor. -/
def equality (c : Cursor) : Except ParseError (List Char × List Char) := do
  let (left, c) ← reference c.skipBlanks
  let c := c.skipBlanks
  if c.current ≠ '=' then
    throw (c.piece.faultAt .missingJoinEquals c.position)
  let (right, c) ← reference c.next.skipBlanks
  let c := c.skipBlanks
  if !c.atEnd then
    throw (c.piece.faultFrom .extraJoinCondition c.position)
  return (left, right)

/-- The join of a given kind with this body. -/
def parse (kind : JoinKind) (body : Piece) : Except ParseError Join := do
  let some (first, last) ← onRange body
    | throw (body.faultWhole .notJoin)
  let table := body.cut 0 first
  if table.isEmpty then
    throw (body.faultSpan .missingJoinTable 0 last)
  let (left, right) ← equality ⟨body, last⟩
  return ⟨kind, table.text, String.ofList left, String.ofList right⟩

def render (j : Join) : String :=
  j.kind.name ++ " JOIN " ++ j.table ++ " ON " ++ j.left ++ " = " ++ j.right

end Join

end TableQuery
