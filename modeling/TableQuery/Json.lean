/-!
# JSON values

The values that queries are exchanged as. A number that is written in digits alone and fits into 64
bits is a natural number; any other number (larger, or with a sign, a fraction or an exponent) is
kept as it is written, because no part of a query is such a number. The entries of an object are
ordered and their keys distinct.
-/

namespace TableQuery

inductive Json where
  | null
  | bool (value : Bool)
  | nat (value : Nat)
  /-- A number that is not a natural number of 64 bits, as written. -/
  | number (literal : String)
  | str (value : String)
  | arr (items : List Json)
  | obj (entries : List (String × Json))
deriving Inhabited

namespace Json

/-- The entries with the value of a key set: in place if the key is there, at the end if not. -/
def put (key : String) (value : Json) : List (String × Json) → List (String × Json)
  | [] => [(key, value)]
  | (k, v) :: entries =>
    if k = key then (k, value) :: entries else (k, v) :: put key value entries

/-- The object with the given entries, where the last value of a repeated key counts. -/
def ofEntries (entries : List (String × Json)) : Json :=
  .obj (entries.foldl (fun es e => put e.1 e.2 es) [])

/-- The value of a key of an object. -/
def get? (j : Json) (key : String) : Option Json :=
  match j with
  | .obj entries => entries.lookup key
  | _ => none

end Json

end TableQuery
