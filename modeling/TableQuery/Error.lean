/-!
# Refusals

A statement that cannot be read is refused with a `ParseError`: what kind of mistake it is, a
message, the text at fault and the range of bytes of the input where that text stands.
-/

namespace TableQuery

/-- The kinds of mistake. -/
inductive ErrorKind where
  | malformedSelect
  | emptyFieldList
  | malformedCondition
  | malformedJoin
  | malformedInsert
  | invalidLimit
  | malformedOrderBy
  | malformedGroupBy
  | duplicateClause
  | unbalancedDelimiter
  | arityMismatch
  | inputTooLong
  | unsupportedStatement
deriving DecidableEq, Repr

namespace ErrorKind

/-- All kinds, in order of declaration. -/
def all : List ErrorKind :=
  [malformedSelect, emptyFieldList, malformedCondition, malformedJoin, malformedInsert,
   invalidLimit, malformedOrderBy, malformedGroupBy, duplicateClause, unbalancedDelimiter,
   arityMismatch, inputTooLong, unsupportedStatement]

theorem mem_all (k : ErrorKind) : k ∈ all := by
  cases k <;> decide

/-- The name under which a kind is reported. -/
def name : ErrorKind → String
  | malformedSelect => "MalformedSelect"
  | emptyFieldList => "EmptyFieldList"
  | malformedCondition => "MalformedCondition"
  | malformedJoin => "MalformedJoin"
  | malformedInsert => "MalformedInsert"
  | invalidLimit => "InvalidLimit"
  | malformedOrderBy => "MalformedOrderBy"
  | malformedGroupBy => "MalformedGroupBy"
  | duplicateClause => "DuplicateClause"
  | unbalancedDelimiter => "UnbalancedDelimiter"
  | arityMismatch => "ArityMismatch"
  | inputTooLong => "InputTooLong"
  | unsupportedStatement => "UnsupportedStatement"

/-- The kind with a given name. -/
def ofName? (name : String) : Option ErrorKind :=
  all.find? (·.name == name)

theorem ofName?_name (k : ErrorKind) : ofName? k.name = some k := by
  cases k <;> decide

end ErrorKind

/-- Why and where a statement was refused. -/
structure ParseError where
  kind : ErrorKind
  message : String
  /-- The text at fault. -/
  text : String
  /-- The byte of the input at which the fault begins. -/
  start : Nat
  /-- The byte of the input at which the fault ends. -/
  stop : Nat
deriving DecidableEq, Repr

namespace ParseError

/-- The refusal on two lines: the mistake, then the range and the text. -/
def render (e : ParseError) : String :=
  "ParseError(" ++ e.kind.name ++ "): " ++ e.message ++ "\n  at [" ++ toString e.start ++ ":" ++
    toString e.stop ++ "] -> '" ++ e.text ++ "'"

end ParseError

end TableQuery
