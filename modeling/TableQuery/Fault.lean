import TableQuery.Clause.Kind
import TableQuery.ItemList.Role
import TableQuery.Piece
import TableQuery.Select.Operator

/-!
# Causes of a refusal

Every mistake that reading a statement can meet, with its kind and its wording. A `Fault` says what
is wrong; where it is wrong is added by `Piece.faultAt`, `Piece.faultSpan` and `Piece.faultWhole`.
-/

namespace TableQuery

inductive Fault where
  /-- A quoted literal runs to the end of the text. -/
  | unterminatedLiteral
  /-- A parenthesis closes that none opened. -/
  | unexpectedClose
  /-- A parenthesis is never closed. -/
  | unclosedOpen
  | repeatedJoin
  | repeatedClause (clause : ClauseKind)
  /-- The text does not have the shape of a `SELECT`. -/
  | notSelect
  | missingTable
  | noItem (role : ListRole)
  /-- Nothing stands between two commas, or between a comma and the end of the list. -/
  | blankItem (role : ListRole)
  | noCondition
  /-- Nothing stands on one side of `AND` or `OR`. -/
  | blankCondition
  | noOperator
  | missingField (operator : Operator)
  | missingValue (operator : Operator)
  /-- The text does not have the shape of a join. -/
  | notJoin
  | missingJoinTable
  | missingJoinEquals
  | missingReference
  /-- Something follows the one equality of a join. -/
  | extraJoinCondition
  | notSortKey
  | notLimit
  /-- The text does not have the shape of an `INSERT`. -/
  | notInsert
  | missingInsertTable
  | missingValues
  | missingOpen (role : ListRole)
  /-- Something other than `RETURNING` follows the values. -/
  | unexpectedTail
  | arity (columns values : Nat)
  | tooLong (length limit : Nat)
  | unsupported
deriving DecidableEq, Repr

namespace Fault

def kind : Fault → ErrorKind
  | unterminatedLiteral | unexpectedClose | unclosedOpen => .unbalancedDelimiter
  | repeatedClause _ => .duplicateClause
  | notSelect | missingTable => .malformedSelect
  | noItem role | blankItem role => role.missingKind
  | noCondition | blankCondition | noOperator | missingField _ | missingValue _ =>
    .malformedCondition
  | repeatedJoin | notJoin | missingJoinTable | missingJoinEquals | missingReference
  | extraJoinCondition => .malformedJoin
  | notSortKey => .malformedOrderBy
  | notLimit => .invalidLimit
  | notInsert | missingInsertTable | missingValues | missingOpen _ | unexpectedTail =>
    .malformedInsert
  | arity _ _ => .arityMismatch
  | tooLong _ _ => .inputTooLong
  | unsupported => .unsupportedStatement

def message : Fault → String
  | unterminatedLiteral => "Unterminated quoted literal"
  | unexpectedClose => "Unexpected ')'"
  | unclosedOpen => "Unclosed '('"
  | repeatedJoin => "Only one join clause is supported"
  | repeatedClause clause => clause.name ++ " clause appears more than once"
  | notSelect => "Expected 'SELECT <fields> FROM <table>'"
  | missingTable => "Expected a table name after FROM"
  | noItem role => "Expected at least one " ++ role.noun
  | blankItem role => "Expected a " ++ role.noun ++ " between commas"
  | noCondition => "Expected at least one condition after WHERE"
  | blankCondition => "Expected a condition around AND/OR"
  | noOperator =>
    "Expected '<field> <operator> <value>' with one of =, !=, <>, >=, <=, >, < or LIKE"
  | missingField operator => "Expected a field before '" ++ operator.symbol ++ "'"
  | missingValue operator => "Expected a value after '" ++ operator.symbol ++ "'"
  | notJoin => "Expected '<table> ON <left> = <right>'"
  | missingJoinTable => "Expected a table name before ON"
  | missingJoinEquals => "Expected '=' between the join columns"
  | missingReference => "Expected a column reference"
  | extraJoinCondition => "Only a single equality join condition is supported"
  | notSortKey => "Expected '<field> [ASC|DESC]'"
  | notLimit => "Expected a non-negative integer after LIMIT"
  | notInsert => "Expected 'INSERT INTO <table> (<columns>) VALUES (<values>)'"
  | missingInsertTable => "Expected a table name after INSERT INTO"
  | missingValues => "Expected VALUES after the column list"
  | missingOpen role => "Expected '(' to open the " ++ role.noun ++ " list"
  | unexpectedTail => "Expected RETURNING or the end of the statement after the VALUES list"
  | arity columns values => toString columns ++ " columns but " ++ toString values ++ " values"
  | tooLong length limit =>
    "Statement is " ++ toString length ++ " bytes, the limit is " ++ toString limit
  | unsupported => "Only SELECT and INSERT INTO statements are supported"

end Fault

namespace Piece

/-- The fault at one position of the piece. -/
def faultAt (p : Piece) (f : Fault) (i : Nat) : ParseError :=
  p.reportAt f.kind f.message i

/-- The fault in the characters from `first` up to, not including, `last`. -/
def faultSpan (p : Piece) (f : Fault) (first last : Nat) : ParseError :=
  p.reportSpan f.kind f.message first last

/-- The fault from character `first` to the end of the piece. -/
def faultFrom (p : Piece) (f : Fault) (first : Nat) : ParseError :=
  p.reportSpan f.kind f.message first p.length

/-- The fault in the whole piece. -/
def faultWhole (p : Piece) (f : Fault) : ParseError :=
  p.reportWhole f.kind f.message

@[simp] theorem faultAt_kind (p : Piece) (f : Fault) (i : Nat) : (p.faultAt f i).kind = f.kind :=
  rfl

@[simp] theorem faultSpan_kind (p : Piece) (f : Fault) (first last : Nat) :
    (p.faultSpan f first last).kind = f.kind :=
  rfl

@[simp] theorem faultFrom_kind (p : Piece) (f : Fault) (first : Nat) :
    (p.faultFrom f first).kind = f.kind :=
  rfl

@[simp] theorem faultWhole_kind (p : Piece) (f : Fault) : (p.faultWhole f).kind = f.kind :=
  rfl

@[simp] theorem faultWhole_text (p : Piece) (f : Fault) : (p.faultWhole f).text = p.text := by
  simp [faultWhole, reportWhole, reportSpan, text]

@[simp] theorem faultWhole_start (p : Piece) (f : Fault) : (p.faultWhole f).start = p.start := by
  simp [faultWhole, reportWhole, reportSpan]

@[simp] theorem faultWhole_stop (p : Piece) (f : Fault) :
    (p.faultWhole f).stop = p.start + Text.byteLength p.chars := by
  simp [faultWhole, reportWhole, reportSpan, byteOffset_eq, length]

end Piece

end TableQuery
