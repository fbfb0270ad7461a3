import TableQuery.Error

/-!
# The role of a list

The same splitting at commas reads projected fields, grouping and ordering fields, and the three
lists of an `INSERT`. The role of a list decides how a missing item is reported.
-/

namespace TableQuery

inductive ListRole where
  | projection
  | groupBy
  | orderBy
  | insertColumns
  | insertValues
  | returning
deriving DecidableEq, Repr

namespace ListRole

/-- The kind of mistake that a missing item is. -/
def missingKind : ListRole → ErrorKind
  | projection => .emptyFieldList
  | groupBy => .malformedGroupBy
  | orderBy => .malformedOrderBy
  | insertColumns | insertValues | returning => .malformedInsert

/-- What an item of the list is called in messages. -/
def noun : ListRole → String
  | projection => "field"
  | groupBy => "GROUP BY field"
  | orderBy => "ORDER BY field"
  | insertColumns => "column"
  | insertValues => "value"
  | returning => "RETURNING column"

end ListRole

end TableQuery
