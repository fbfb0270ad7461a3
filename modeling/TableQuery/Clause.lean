import TableQuery.Outline

/-!
# Clauses of a statement

The head of a `SELECT` ends where the first clause keyword stands outside literals and parentheses,
right behind a blank; each clause reaches to the next such keyword. The clauses may come in any
order, each at most once.
-/

namespace TableQuery

/-- The head of a statement and what stands behind each of its clause keywords. -/
structure Clauses where
  head : Piece
  join : Option (JoinKind × Piece)
  whereRows : Option Piece
  groupBy : Option Piece
  orderBy : Option Piece
  limit : Option Piece
deriving DecidableEq, Repr

/-- An occurrence of a clause keyword. -/
structure ClauseStart where
  kind : ClauseKind
  /-- The position of the keyword. -/
  first : Nat
  /-- The position behind the keyword. -/
  last : Nat
deriving DecidableEq, Repr

namespace ClauseStart

/-- The clause keyword at a site. -/
def ofSite? (s : Site) : Option ClauseStart :=
  if s.depth = 0 ∧ s.followsBlank then
    (ClauseKind.detect? s.here).map fun (kind, length) => ⟨kind, s.index, s.index + length⟩
  else
    none

end ClauseStart

namespace Clauses

/-- A statement without clauses. -/
def ofHead (head : Piece) : Clauses :=
  ⟨head, none, none, none, none, none⟩

/-- The slot of a kind of clause is filled. -/
def has (c : Clauses) : ClauseKind → Bool
  | .join _ => c.join.isSome
  | .whereRows => c.whereRows.isSome
  | .groupBy => c.groupBy.isSome
  | .orderBy => c.orderBy.isSome
  | .limit => c.limit.isSome

/-- The clauses with the slot of a kind filled. -/
def put (c : Clauses) (kind : ClauseKind) (body : Piece) : Clauses :=
  match kind with
  | .join k => { c with join := some (k, body) }
  | .whereRows => { c with whereRows := some body }
  | .groupBy => { c with groupBy := some body }
  | .orderBy => { c with orderBy := some body }
  | .limit => { c with limit := some body }

theorem has_put (c : Clauses) (kind : ClauseKind) (body : Piece) :
    (c.put kind body).has kind = true := by
  cases kind <;> rfl

/-- The refusal of a clause whose slot is already filled: a join is shown with its body, any other
clause with its keyword. -/
def repeated (statement : Piece) (mark : ClauseStart) (stop : Nat) : ParseError :=
  match mark.kind with
  | .join _ => statement.faultSpan .repeatedJoin mark.first stop
  | kind => statement.faultSpan (.repeatedClause kind) mark.first mark.last

/-- The clauses with those of the given marks added, each of which reaches to the next. -/
def fill (statement : Piece) (c : Clauses) : List ClauseStart → Except ParseError Clauses
  | [] => .ok c
  | mark :: marks =>
    let stop := (marks.head?.map ClauseStart.first).getD statement.length
    if c.has mark.kind then
      .error (repeated statement mark stop)
    else
      fill statement (c.put mark.kind (statement.cut mark.last stop)) marks

/-- The head and the clauses of a statement. -/
def split (statement : Piece) : Except ParseError Clauses := do
  let outline := statement.outline
  statement.requireBalanced outline
  let marks := outline.sites.filterMap ClauseStart.ofSite?
  let stop := (marks.head?.map ClauseStart.first).getD statement.length
  fill statement (ofHead (statement.cut 0 stop)) marks

end Clauses

end TableQuery
