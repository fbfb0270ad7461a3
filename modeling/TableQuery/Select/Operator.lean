import TableQuery.Text.Upper

/-!
# Comparison operators

The operators of a condition. `<>` is a second spelling of `!=`, and an operator of two characters
wins over the operator of one character with which it starts.
-/

namespace TableQuery

inductive Operator where
  | eq
  | ne
  | ge
  | le
  | gt
  | lt
  | like
deriving DecidableEq, Repr

namespace Operator

def all : List Operator :=
  [eq, ne, ge, le, gt, lt, like]

def symbol : Operator → String
  | eq => "="
  | ne => "!="
  | ge => ">="
  | le => "<="
  | gt => ">"
  | lt => "<"
  | like => "LIKE"

/-- The operator with exactly this symbol. -/
def ofSymbol? (symbol : String) : Option Operator :=
  all.find? (·.symbol == symbol)

theorem ofSymbol?_symbol (o : Operator) : ofSymbol? o.symbol = some o := by
  cases o <;> decide

/-- The operator that a text names, in any case and with `<>` for `!=`. -/
def ofText? (text : String) : Option Operator :=
  let name := String.ofList (Text.upper text.toList)
  if name = "<>" then some ne else ofSymbol? name

/-- The refusal of a text that names no operator. -/
def invalidMessage (text : String) : String :=
  "Invalid condition operator: '" ++ text ++ "'"

/-- The comparison that is spelled in symbols at the front of a text, with its length. -/
def detect? : List Char → Option (Operator × Nat)
  | '!' :: '=' :: _ => some (ne, 2)
  | '<' :: '>' :: _ => some (ne, 2)
  | '>' :: '=' :: _ => some (ge, 2)
  | '<' :: '=' :: _ => some (le, 2)
  | '=' :: _ => some (eq, 1)
  | '>' :: _ => some (gt, 1)
  | '<' :: _ => some (lt, 1)
  | _ => none

/-- The comparison is told by the first character and the one behind it. -/
theorem detect?_cons (c : Char) (r : List Char) : detect? (c :: r) =
    if c = '=' then some (eq, 1)
    else if c = '>' then some (if r.head? = some '=' then (ge, 2) else (gt, 1))
    else if c = '<' then
      some (if r.head? = some '>' then (ne, 2) else if r.head? = some '=' then (le, 2) else (lt, 1))
    else if c = '!' ∧ r.head? = some '=' then some (ne, 2)
    else none := by
  cases r with
  | nil =>
    unfold detect?
    split <;> simp_all
  | cons d t =>
    by_cases hgt : c = '>'
    · subst hgt
      by_cases hd : d = '=' <;> simp [detect?, hd]
    · by_cases hlt : c = '<'
      · subst hlt
        by_cases hd : d = '>'
        · simp [detect?, hd]
        · by_cases hd' : d = '=' <;> simp [detect?, hd, hd']
      · by_cases heq : c = '=' <;> by_cases hne : c = '!' <;> by_cases hd : d = '=' <;>
          simp_all [detect?]

end Operator

end TableQuery
