import TableQuery.Keyword

/-!
# Kinds of clauses

The clauses that may follow the head of a `SELECT`. The three joins fill one slot: a statement has
at most one join, of any kind.
-/

namespace TableQuery

inductive JoinKind where
  | inner
  | left
  | right
deriving DecidableEq, Repr

namespace JoinKind

def all : List JoinKind :=
  [inner, left, right]

/-- The word in front of `JOIN`. -/
def name : JoinKind → String
  | inner => "INNER"
  | left => "LEFT"
  | right => "RIGHT"

def ofName? (name : String) : Option JoinKind :=
  all.find? (·.name == name)

theorem ofName?_name (k : JoinKind) : ofName? k.name = some k := by
  cases k <;> decide

end JoinKind

inductive ClauseKind where
  | orderBy
  | groupBy
  | limit
  | whereRows
  | join (kind : JoinKind)
deriving DecidableEq, Repr

namespace ClauseKind

/-- All kinds, in the order in which they are tried at a position. -/
def all : List ClauseKind :=
  [orderBy, groupBy, limit, whereRows, join .inner, join .left, join .right]

theorem mem_all (k : ClauseKind) : k ∈ all := by
  rcases k with _ | _ | _ | _ | (_ | _ | _) <;> decide

/-- A property that can be checked of a kind can be checked of all of them. -/
instance decidableForall (P : ClauseKind → Prop) [DecidablePred P] : Decidable (∀ k, P k) :=
  decidable_of_iff (∀ k ∈ all, P k) ⟨fun h k => h k (mem_all k), fun h k _ => h k⟩

def keyword : ClauseKind → Keyword
  | orderBy => .orderBy
  | groupBy => .groupBy
  | limit => .limit
  | whereRows => .whereRows
  | join .inner => .innerJoin
  | join .left => .leftJoin
  | join .right => .rightJoin

/-- The keyword of the clause as it is named in messages. -/
def name (k : ClauseKind) : String :=
  " ".intercalate k.keyword.words

/-- The clause whose keyword stands at the front of a text, with the length of the keyword. -/
def detect? (cs : List Char) : Option (ClauseKind × Nat) :=
  all.findSome? fun k => (k.keyword.match? cs).map (k, ·)

end ClauseKind

end TableQuery
