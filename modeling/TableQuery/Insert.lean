import TableQuery.Cursor
import TableQuery.ItemList
import TableQuery.QualifiedName

/-!
# `INSERT` queries

`INSERT INTO <table> (<columns>) VALUES (<values>) [RETURNING <columns>]`. The outer shape is read
first, from left to right; the list behind `RETURNING` is split before the lists in parentheses.
Columns lose their qualifiers and quotes, values one layer of quotes.
-/

namespace TableQuery

open Text

structure InsertQuery where
  table : String
  columns : List String
  values : List String
  returning : List String
deriving DecidableEq, Repr

namespace InsertQuery

/-- The table name behind the cursor, which ends at a blank, a parenthesis or the end of the text,
and the cursor behind it. -/
def tableAt (c : Cursor) : Except ParseError (List Char × Cursor) := do
  let p := c.piece
  let ending ← p.search (p.outlineFrom c.position) fun s =>
    if isBlank s.char || s.char == '(' || s.char == ')' then some s else none
  let stop ← match ending with
    | none => pure p.length
    | some s => if s.char = ')' then throw (p.faultAt .unexpectedClose s.index) else pure s.index
  if stop = c.position then
    throw (p.faultAt .missingInsertTable c.position)
  return (tableName (p.slice c.position stop), c.seek stop)

/-- The trimmed inside of the parenthesis behind the cursor, and the cursor behind the closing
parenthesis. -/
def enclosed (c : Cursor) (role : ListRole) : Except ParseError (Piece × Cursor) := do
  let p := c.piece
  if c.current ≠ '(' then
    throw (p.faultFrom (.missingOpen role) c.position)
  let close ← p.search (p.outlineFrom c.position) fun s =>
    if s.char = ')' ∧ s.depth = 1 then some s.index else none
  match close with
  | none => throw (p.faultFrom .unclosedOpen c.position)
  | some i => return (p.cut (c.position + 1) i, c.seek (i + 1))

/-- The columns of the `RETURNING` clause that fills the text behind the cursor. -/
def returningColumns (c : Cursor) : Except ParseError (List String) := do
  let p := c.piece
  if c.atEnd then
    return []
  if c.current = ')' then
    throw (p.faultAt .unexpectedClose c.position)
  let some c := c.consume? .returning
    | throw (p.faultFrom .unexpectedTail c.position)
  let items ← ItemList.split (p.rest c.position) .returning
  return items.map fun item => String.ofList (columnName item.chars)

/-- Reads a statement that has been trimmed. With `arity`, there must be as many values as
columns. -/
def parse (arity : Bool) (statement : Piece) : Except ParseError InsertQuery := do
  let some c := (Cursor.ofPiece statement).consume? .insertInto
    | throw (statement.faultWhole .notInsert)
  let (table, c) ← tableAt c.skipBlanks
  let (columnList, c) ← enclosed c.skipBlanks .insertColumns
  let c := c.skipBlanks
  let some c := c.consume? .values
    | throw (statement.faultFrom .missingValues c.position)
  let (valueList, c) ← enclosed c.skipBlanks .insertValues
  let returning ← returningColumns c.skipBlanks
  let columns ← ItemList.split columnList .insertColumns
  let values ← ItemList.split valueList .insertValues
  if arity && columns.length != values.length then
    throw (valueList.faultWhole (.arity columns.length values.length))
  return {
    table := String.ofList table
    columns := columns.map fun item => String.ofList (columnName item.chars)
    values := values.map fun item => String.ofList (Literal.unquote item.chars)
    returning := returning }

/-- The query in canonical form, with every value quoted. -/
def render (q : InsertQuery) : String :=
  "INSERT INTO " ++ q.table ++ " (" ++ ", ".intercalate q.columns ++ ") VALUES (" ++
    ", ".intercalate (q.values.map fun v => String.ofList (Literal.quote v.toList)) ++ ")" ++
    (if q.returning.isEmpty then "" else " RETURNING " ++ ", ".intercalate q.returning)

end InsertQuery

end TableQuery
