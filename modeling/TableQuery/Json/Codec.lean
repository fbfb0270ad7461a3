import TableQuery.Json
import TableQuery.Statement

/-!
# Queries as JSON

How each part of a query is written as a JSON value (`toJson`) and read from one (`ofJson?`).

A record is written as an object with all its keys in a fixed order. It is read from an object,
whose other keys are ignored, or from an array of its fields in that order; fields with a default
may be missing, in an array only at the end. A choice without contents is written as its name, and
is also read from an object with that name as its only key and `null` as its value.

Whether a query aggregates all rows is written, but never read: it follows from the other fields.
-/

namespace TableQuery

namespace Json

/-! ## Reading values -/

def string? : Json → Option String
  | .str s => some s
  | _ => none

def bool? : Json → Option Bool
  | .bool b => some b
  | _ => none

/-- A natural number below 2^64. -/
def word? : Json → Option UInt64
  | .nat n => if h : n < UInt64.size then some (UInt64.ofNatLT n h) else none
  | _ => none

def list? {α : Type} (read : Json → Option α) : Json → Option (List α)
  | .arr items => items.mapM read
  | _ => none

/-- `null` or a value. -/
def nullable? {α : Type} (read : Json → Option α) : Json → Option (Option α)
  | .null => some none
  | j => (read j).map some

/-- The name of a choice without contents. -/
def choice? : Json → Option String
  | .str name => some name
  | .obj [(name, .null)] => some name
  | _ => none

/-- The fields of a record with the given names, as far as they are there. -/
def fields? (names : List String) : Json → Option (List (Option Json))
  | .obj entries => some (names.map fun name => entries.lookup name)
  | .arr items =>
    if items.length ≤ names.length then
      some (items.map some ++ List.replicate (names.length - items.length) none)
    else
      none
  | _ => none

/-- A field that must be there. -/
def required {α : Type} (read : Json → Option α) (field : Option Json) : Option α :=
  field >>= read

/-- A field with a default. -/
def defaulted {α : Type} (default : α) (read : Json → Option α) : Option Json → Option α
  | none => some default
  | some j => read j

/-! ## Writing values -/

def ofStrings (texts : List String) : Json :=
  .arr (texts.map .str)

def ofOption {α : Type} (write : α → Json) : Option α → Json
  | none => .null
  | some a => write a

end Json

open Json (required defaulted nullable? list? string? bool? word? choice?)

namespace JoinKind

def toJson (k : JoinKind) : Json :=
  .str k.name

def ofJson? (j : Json) : Option JoinKind :=
  choice? j >>= ofName?

end JoinKind

namespace Join

def toJson (j : Join) : Json :=
  .obj [("kind", j.kind.toJson), ("table", .str j.table), ("left", .str j.left),
    ("right", .str j.right)]

def ofJson? (j : Json) : Option Join := do
  let [kind, table, left, right] ← j.fields? ["kind", "table", "left", "right"]
    | none
  return {
    kind := ← required JoinKind.ofJson? kind
    table := ← required string? table
    left := ← required string? left
    right := ← required string? right }

end Join

namespace Operator

def toJson (o : Operator) : Json :=
  .str o.symbol

def ofJson? (j : Json) : Option Operator :=
  choice? j >>= ofSymbol?

end Operator

namespace Condition

def toJson (c : Condition) : Json :=
  .obj [("field", .str c.field), ("operator", c.operator.toJson), ("value", .str c.value)]

def ofJson? (j : Json) : Option Condition := do
  let [field, operator, value] ← j.fields? ["field", "operator", "value"]
    | none
  return {
    field := ← required string? field
    operator := ← required Operator.ofJson? operator
    value := ← required string? value }

end Condition

namespace Direction

def toJson (d : Direction) : Json :=
  .str d.name

def ofJson? (j : Json) : Option Direction :=
  choice? j >>= ofName?

end Direction

namespace SortKey

def toJson (o : SortKey) : Json :=
  .obj [("fieldName", .str o.field), ("direction", o.direction.toJson)]

def ofJson? (j : Json) : Option SortKey := do
  let [field, direction] ← j.fields? ["fieldName", "direction"]
    | none
  return {
    field := ← required string? field
    direction := ← required Direction.ofJson? direction }

end SortKey

namespace SelectQuery

def toJson (q : SelectQuery) : Json :=
  .obj [
    ("fields", .ofStrings q.fields),
    ("table", .str q.table),
    ("join", .ofOption Join.toJson q.join),
    ("whereClauses", .arr (q.conditions.map Condition.toJson)),
    ("groupByFields", .ofOption .ofStrings q.groupBy),
    ("hasAggregateWithoutGroupBy", .bool q.aggregatesAll),
    ("orderBy", .ofOption (fun keys => .arr (keys.map SortKey.toJson)) q.orderBy),
    ("limit", .ofOption (fun n => .nat n.toNat) q.limit),
    ("distinct", .bool q.distinct)]

def ofJson? (j : Json) : Option SelectQuery := do
  let [fields, table, join, conditions, groupBy, orderBy, limit, distinct] ←
      j.fields? ["fields", "table", "join", "whereClauses", "groupByFields", "orderBy", "limit",
        "distinct"]
    | none
  return ofParts
    (← required (list? string?) fields)
    (← required string? table)
    (← defaulted none (nullable? Join.ofJson?) join)
    (← defaulted [] (list? Condition.ofJson?) conditions)
    (← defaulted none (nullable? (list? string?)) groupBy)
    (← defaulted none (nullable? (list? SortKey.ofJson?)) orderBy)
    (← defaulted none (nullable? word?) limit)
    (← defaulted false bool? distinct)

end SelectQuery

namespace InsertQuery

def toJson (q : InsertQuery) : Json :=
  .obj [("table", .str q.table), ("columns", .ofStrings q.columns),
    ("values", .ofStrings q.values), ("returningColumns", .ofStrings q.returning)]

def ofJson? (j : Json) : Option InsertQuery := do
  let [table, columns, values, returning] ←
      j.fields? ["table", "columns", "values", "returningColumns"]
    | none
  return {
    table := ← required string? table
    columns := ← required (list? string?) columns
    values := ← required (list? string?) values
    returning := ← defaulted [] (list? string?) returning }

end InsertQuery

namespace Statement

def toJson : Statement → Json
  | select query => .obj [("select", query.toJson)]
  | insert query => .obj [("insert", query.toJson)]

def ofJson? : Json → Option Statement
  | .obj [("select", j)] => (SelectQuery.ofJson? j).map select
  | .obj [("insert", j)] => (InsertQuery.ofJson? j).map insert
  | _ => none

end Statement

namespace Settings

def ofJson? (j : Json) : Option Settings := do
  let [maxLength, matchArity] ← j.fields? ["max_input_length", "enforce_insert_arity"]
    | none
  let standard : Settings := {}
  return {
    maxLength := ← defaulted standard.maxLength (fun j => (word? j).map UInt64.toNat) maxLength
    matchArity := ← defaulted standard.matchArity bool? matchArity }

end Settings

end TableQuery
