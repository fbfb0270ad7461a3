import TableQuery.Insert
import TableQuery.Select

/-!
# Statements

A text is checked against the limit on its size, trimmed, freed of one semicolon at its end, and
read. `SelectQuery.ofText`, `InsertQuery.ofText` and `Statement.ofText` read a whole statement,
`Join.ofText` only the join of a `SELECT`.
-/

namespace TableQuery

open Text

/-- What a caller may choose about reading. -/
structure Settings where
  /-- The largest number of bytes that a text may have. -/
  maxLength : Nat := 65536
  /-- An `INSERT` must have as many values as columns. -/
  matchArity : Bool := true
deriving DecidableEq, Repr

inductive Statement where
  | select (query : SelectQuery)
  | insert (query : InsertQuery)
deriving DecidableEq, Repr

namespace Statement

/-- The statement in canonical form. -/
def render : Statement → String
  | select query => query.render
  | insert query => query.render

/-- The piece without a semicolon at its end and without the blanks in front of that semicolon. -/
def dropSemicolon (p : Piece) : Piece :=
  if p.chars.getLast? = some ';' then { p with chars := trimEnd p.chars.dropLast } else p

/-- The refusal of a text that is too long. It shows no text and covers the bytes beyond the
limit. -/
def tooLong (length limit : Nat) : ParseError where
  kind := (Fault.tooLong length limit).kind
  message := (Fault.tooLong length limit).message
  text := ""
  start := limit
  stop := length

/-- The statement that a text holds, without the blanks and the semicolon around it. -/
def isolate (settings : Settings) (text : String) : Except ParseError Piece :=
  let whole := Piece.ofString text 0
  let length := byteLength whole.chars
  if settings.maxLength < length then
    .error (tooLong length settings.maxLength)
  else
    .ok (dropSemicolon (whole.rest 0))

/-- The number of characters of the first word of a text. -/
def leadingLength (cs : List Char) : Nat :=
  (cs.takeWhile isNameChar).length

/-- The refusal of a statement by its first word, or by its text up to the first blank if it does
not start with a word. -/
def unsupported (p : Piece) : ParseError :=
  let length := leadingLength p.chars
  let stop := if length = 0 then (p.chars.takeWhile (!isBlank ·)).length else length
  p.faultSpan .unsupported 0 stop

/-- Reads a statement that has been trimmed, as its first word says. -/
def parse (settings : Settings) (p : Piece) : Except ParseError Statement :=
  let word := (p.chars.takeWhile isNameChar).map Char.toUpper
  if word = "SELECT".toList then
    .select <$> SelectQuery.parse p
  else if word = "INSERT".toList then
    .insert <$> InsertQuery.parse settings.matchArity p
  else
    .error (unsupported p)

/-- Reads a `SELECT` or an `INSERT`. -/
def ofText (settings : Settings) (text : String) : Except ParseError Statement := do
  let p ← isolate settings text
  parse settings p

end Statement

/-- Reads a `SELECT`. -/
def SelectQuery.ofText (settings : Settings) (text : String) : Except ParseError SelectQuery := do
  let p ← Statement.isolate settings text
  SelectQuery.parse p

/-- Reads an `INSERT`. -/
def InsertQuery.ofText (settings : Settings) (text : String) : Except ParseError InsertQuery := do
  let p ← Statement.isolate settings text
  InsertQuery.parse settings.matchArity p

/-- Reads the join of a `SELECT`, if it has one. The other clauses are told apart but not read. -/
def Join.ofText (settings : Settings) (text : String) : Except ParseError (Option Join) := do
  let p ← Statement.isolate settings text
  let clauses ← Clauses.split p
  SelectQuery.joinOf clauses

end TableQuery
