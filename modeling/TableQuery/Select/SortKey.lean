import TableQuery.ItemList

/-!
# `ORDER BY`

Each entry is a field, which may be followed by `ASC` or `DESC`; without one it is ascending. A
field has no blank outside literals and parentheses.
-/

namespace TableQuery

inductive Direction where
  | asc
  | desc
deriving DecidableEq, Repr

namespace Direction

def all : List Direction :=
  [asc, desc]

def name : Direction → String
  | asc => "ASC"
  | desc => "DESC"

/-- The direction with exactly this name. -/
def ofName? (name : String) : Option Direction :=
  all.find? (·.name == name)

theorem ofName?_name (d : Direction) : ofName? d.name = some d := by
  cases d <;> decide

/-- The direction that a word names, in any case of its ASCII letters. -/
def ofWord? (word : List Char) : Option Direction :=
  ofName? (String.ofList (word.map Char.toUpper))

end Direction

structure SortKey where
  field : String
  direction : Direction
deriving DecidableEq, Repr

namespace SortKey

open Text

/-- The text in front of the last blank and the word behind it. -/
def lastWord? (cs : List Char) : Option (List Char × List Char) :=
  let word := (cs.reverse.takeWhile (!isBlank ·)).reverse
  match cs.reverse.dropWhile (!isBlank ·) with
  | [] => none
  | _ :: front => some (front.reverse, word)

/-- The field and the direction of an entry. -/
def divide (cs : List Char) : List Char × Direction :=
  match lastWord? cs with
  | some (front, word) =>
    match Direction.ofWord? word with
    | some direction => (trimEnd front, direction)
    | none => (cs, .asc)
  | none => (cs, .asc)

/-- The piece has a blank outside literals and parentheses. -/
def hasTopBlank (p : Piece) : Except ParseError Bool := do
  let found ← p.search p.outline fun s => if s.depth = 0 ∧ isBlank s.char then some s else none
  return found.isSome

/-- One entry of the list. -/
def parseItem (item : Piece) : Except ParseError SortKey := do
  let (field, direction) := divide item.chars
  if ← hasTopBlank ⟨field, item.start⟩ then
    throw (item.faultWhole .notSortKey)
  return ⟨String.ofList field, direction⟩

def parse (body : Piece) : Except ParseError (List SortKey) := do
  let items ← ItemList.split body .orderBy
  items.mapM parseItem

def render (o : SortKey) : String :=
  o.field ++ " " ++ o.direction.name

end SortKey

end TableQuery
