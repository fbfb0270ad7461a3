import TableQuery.Literal
import TableQuery.Text.Blank
import TableQuery.Text.Word

/-!
# Qualified names

A name may carry a qualifier in front of a point, as in `people.age` or `"public" . "people"`. Both
parts are ASCII identifiers, the name may also be `*`, each part may have a double quote on either
side, and blanks may stand around the point. The quotes need not come in pairs.

`columnName` keeps the last part, `tableName` writes both parts without quotes and blanks. A text
that is not a qualified name is only unquoted.
-/

namespace TableQuery

open Text

structure QualifiedName where
  qualifier : List Char
  name : List Char
deriving DecidableEq, Repr

namespace QualifiedName

/-- The text behind a double quote, if it starts with one. -/
def dropQuote : List Char → List Char
  | '"' :: cs => cs
  | cs => cs

/-- The longest ASCII identifier at the front of a text, and what follows it. -/
def identifier? (cs : List Char) : Option (List Char × List Char) :=
  match cs with
  | [] => none
  | c :: _ =>
    if isAsciiNameStart c then some (cs.takeWhile isAsciiNameChar, cs.dropWhile isAsciiNameChar)
    else none

/-- An ASCII identifier or `*` at the front of a text, and what follows it. -/
def name? (cs : List Char) : Option (List Char × List Char) :=
  match cs with
  | '*' :: r => some (['*'], r)
  | _ => identifier? cs

/-- A text as a qualified name. -/
def parse? (cs : List Char) : Option QualifiedName := do
  let (qualifier, r) ← identifier? (dropQuote cs)
  match trimStart (dropQuote r) with
  | '.' :: r =>
    let (name, r) ← name? (dropQuote (trimStart r))
    if (dropQuote r).isEmpty then some ⟨qualifier, name⟩ else none
  | _ => none

/-- The parts of the name around a point. -/
def chars (n : QualifiedName) : List Char :=
  n.qualifier ++ '.' :: n.name

end QualifiedName

/-- The name of a column, without its qualifier or its quotes. -/
def columnName (cs : List Char) : List Char :=
  match QualifiedName.parse? cs with
  | some n => n.name
  | none => Literal.unquote cs

/-- The name of a table, with its qualifier and without its quotes. -/
def tableName (cs : List Char) : List Char :=
  match QualifiedName.parse? cs with
  | some n => n.chars
  | none => Literal.unquote cs

end TableQuery
