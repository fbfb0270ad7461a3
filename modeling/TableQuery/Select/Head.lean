import TableQuery.Cursor
import TableQuery.Outline

/-!
# The head of a `SELECT`

What stands in front of the clauses: `SELECT [DISTINCT] <fields> FROM <table>`. The head is cut at
the first `FROM` outside literals and parentheses; the fields may be missing here and are refused
when the list is read.
-/

namespace TableQuery

structure SelectHead where
  distinct : Bool
  fields : Piece
  table : String
deriving DecidableEq, Repr

namespace SelectHead

/-- The first `FROM` behind a position: where it starts and where it ends. -/
def fromRange (head : Piece) (first : Nat) : Except ParseError (Option (Nat × Nat)) :=
  head.search (head.outlineFrom first) fun s =>
    (s.topKeyword? .fromTable).map fun length => (s.index, s.index + length)

def parse (head : Piece) : Except ParseError SelectHead := do
  let some cursor := (Cursor.ofPiece head).consume? .select
    | throw (head.faultWhole .notSelect)
  let cursor := cursor.skipBlanks
  let behind := cursor.consume? .distinct
  let first := (behind.getD cursor).position
  let some (fromFirst, fromLast) ← fromRange head first
    | throw (head.faultWhole .notSelect)
  let table := head.rest fromLast
  if table.isEmpty then
    throw (head.faultFrom .missingTable fromFirst)
  return ⟨behind.isSome, head.cut first fromFirst, table.text⟩

end SelectHead

end TableQuery
