import TableQuery.Outline

/-!
# Lists of items

A list is split at the commas that stand outside literals and parentheses. The items are trimmed and
none may be blank. A list is read from left to right: a blank item in front of an unbalanced
parenthesis is reported, one behind it is not.
-/

namespace TableQuery.ItemList

/-- The item in a range of the list. A blank one is reported with the commas around it. -/
def itemIn (list : Piece) (role : ListRole) (first last : Nat) : Except ParseError Piece :=
  let piece := list.cut first last
  if piece.isEmpty then
    .error (list.faultSpan (.blankItem role) (first - 1) (min (last + 1) list.length))
  else
    .ok piece

/-- The items that end at a comma, where the first of them starts at `first`, and the start of the
item behind the last comma. -/
def itemsFrom (list : Piece) (role : ListRole) (first : Nat) :
    List Site → Except ParseError (List Piece × Nat)
  | [] => .ok ([], first)
  | s :: r =>
    if s.isTop ')' then
      .error (list.faultAt .unexpectedClose s.index)
    else if s.isTop ',' then do
      let head ← itemIn list role first s.index
      let (items, last) ← itemsFrom list role (s.index + 1) r
      return (head :: items, last)
    else
      itemsFrom list role first r

/-- The items of a list as pieces. -/
def split (list : Piece) (role : ListRole) : Except ParseError (List Piece) := do
  if list.isEmpty then
    throw (list.faultWhole (.noItem role))
  let outline := list.outline
  let (items, first) ← itemsFrom list role 0 outline.sites
  list.requireTerminated outline
  list.requireClosed outline
  let last ← itemIn list role first list.length
  return items ++ [last]

/-- The items of a list as texts. -/
def parse (list : Piece) (role : ListRole) : Except ParseError (List String) := do
  let items ← split list role
  return items.map Piece.text

end TableQuery.ItemList
