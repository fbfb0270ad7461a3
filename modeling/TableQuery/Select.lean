import TableQuery.Clause
import TableQuery.ItemList
import TableQuery.Select.Aggregate
import TableQuery.Select.Head
import TableQuery.Select.Join
import TableQuery.Select.Limit
import TableQuery.Select.SortKey
import TableQuery.Select.Where

/-!
# `SELECT` queries

A query keeps its fields, its table and its clauses as written, and knows whether it aggregates all
rows at once: whether it calls an aggregate function without grouping.

The parts of a statement are read in a fixed order, and the first that fails decides the refusal:
the division into clauses, the head, the fields, then join, conditions, grouping, ordering and
limit.
-/

namespace TableQuery

structure SelectQuery where
  fields : List String
  table : String
  join : Option Join
  conditions : List Condition
  groupBy : Option (List String)
  /-- The fields call an aggregate function and there is no grouping. -/
  aggregatesAll : Bool
  orderBy : Option (List SortKey)
  limit : Option UInt64
  distinct : Bool
deriving DecidableEq, Repr

namespace SelectQuery

/-- Fields and grouping together decide whether a query aggregates all rows. -/
def aggregates (fields : List String) (groupBy : Option (List String)) : Bool :=
  groupBy.isNone && Aggregate.called fields

/-- The query with the given parts. -/
def ofParts (fields : List String) (table : String) (join : Option Join)
    (conditions : List Condition) (groupBy : Option (List String))
    (orderBy : Option (List SortKey)) (limit : Option UInt64) (distinct : Bool) : SelectQuery :=
  ⟨fields, table, join, conditions, groupBy, aggregates fields groupBy, orderBy, limit, distinct⟩

/-- Reads a clause that may be missing. -/
def optional {α : Type} (body : Option Piece) (read : Piece → Except ParseError α) :
    Except ParseError (Option α) :=
  match body with
  | none => .ok none
  | some piece => some <$> read piece

/-- The join among the clauses of a statement. -/
def joinOf (clauses : Clauses) : Except ParseError (Option Join) :=
  match clauses.join with
  | none => .ok none
  | some (kind, body) => some <$> Join.parse kind body

/-- Reads a statement that has been trimmed. -/
def parse (statement : Piece) : Except ParseError SelectQuery := do
  let clauses ← Clauses.split statement
  let head ← SelectHead.parse clauses.head
  let fields ← ItemList.parse head.fields .projection
  let join ← joinOf clauses
  let conditions ← optional clauses.whereRows Where.parse
  let groupBy ← optional clauses.groupBy (ItemList.parse · .groupBy)
  let orderBy ← optional clauses.orderBy SortKey.parse
  let limit ← optional clauses.limit Limit.parse
  return ofParts fields head.table join (conditions.getD []) groupBy orderBy limit head.distinct

/-! ## Rendering -/

/-- A clause in front of which a blank stands, or nothing. -/
def renderClause (text : Option String) : String :=
  match text with
  | none => ""
  | some t => " " ++ t

/-- The query in canonical form: upper-case keywords, single blanks, every value quoted, conditions
joined by `AND`. -/
def render (q : SelectQuery) : String :=
  "SELECT " ++ (if q.distinct then "DISTINCT " else "") ++ ", ".intercalate q.fields ++
    " FROM " ++ q.table ++
    renderClause (q.join.map Join.render) ++
    renderClause (if q.conditions.isEmpty then none
      else some ("WHERE " ++ " AND ".intercalate (q.conditions.map Condition.render))) ++
    renderClause (q.groupBy.map fun fields => "GROUP BY " ++ ", ".intercalate fields) ++
    renderClause (q.orderBy.map fun entries =>
      "ORDER BY " ++ ", ".intercalate (entries.map SortKey.render)) ++
    renderClause (q.limit.map fun n => "LIMIT " ++ toString n.toNat)

end SelectQuery

end TableQuery
