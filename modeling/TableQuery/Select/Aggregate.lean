import TableQuery.Text.Blank
import TableQuery.Text.Word

/-!
# Aggregate calls

A field calls an aggregate function where the name of one starts a word and is followed by an
opening parenthesis, with any blanks between. Case is free, and the long s `ſ` counts as an `s`.
-/

namespace TableQuery.Aggregate

open Text

/-- The names of the aggregate functions. -/
def names : List String :=
  ["COUNT", "AVG", "SUM", "MIN", "MAX"]

/-- The character is the given upper-case ASCII letter under simple case folding. -/
def isLetter (letter c : Char) : Bool :=
  c.toUpper == letter || (letter == 'S' && c == 'ſ')

/-- What follows a name at the front of a text. -/
def dropName : List Char → List Char → Option (List Char)
  | [], cs => some cs
  | _ :: _, [] => none
  | l :: ls, c :: cs => if isLetter l c then dropName ls cs else none

/-- A call of the function with this name stands at the front of the text. -/
def callsName (name : List Char) (cs : List Char) : Bool :=
  match dropName name cs with
  | some after => (trimStart after).head? == some '('
  | none => false

/-- A call of an aggregate function stands at the front of the text. -/
def startsCall (cs : List Char) : Bool :=
  names.any fun name => callsName name.toList cs

/-- A word can start behind this character. -/
def isBoundary (before : Option Char) : Bool :=
  !before.any isWordChar

/-- A call of an aggregate function stands somewhere in a text that follows the given character. -/
def callsFrom (before : Option Char) : List Char → Bool
  | [] => false
  | c :: r => (isBoundary before && startsCall (c :: r)) || callsFrom (some c) r

/-- Some field calls an aggregate function. -/
def called (fields : List String) : Bool :=
  fields.any fun field => callsFrom none field.toList

end TableQuery.Aggregate
