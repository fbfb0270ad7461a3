import TableQuery.Proofs.Clauses
import TableQuery.Proofs.Isolation
import TableQuery.Proofs.Join
import TableQuery.Proofs.Limit
import TableQuery.Proofs.SelectHead
import TableQuery.Proofs.SortKey
import TableQuery.Proofs.Where

/-!
# Rendered `SELECT`s

A rendered query is a statement assembled from a head and clauses (`render_toList`).
-/

namespace TableQuery

open Text Outline

/-! ## The end of a text -/

theorem getLast?_reference_ne {x : List Char} (h : Join.IsReference x) : x.getLast? ≠ some ';' := by
  intro e
  have := h.2 ';' (List.mem_of_getLast? e)
  revert this
  decide

theorem Clauses.getLast?_assemble_ne {head : List Char} {l : List (ClauseKind × List Char)}
    {c : Char} (hh : head ≠ [] ∧ head.getLast? ≠ some c)
    (hl : ∀ a ∈ l, a.2 ≠ [] ∧ a.2.getLast? ≠ some c) :
    assemble head l ≠ [] ∧ (assemble head l).getLast? ≠ some c := by
  induction l generalizing head with
  | nil =>
    rw [assemble, List.map_nil, Joint.assemble_nil]
    exact hh
  | cons a l ih =>
    obtain ⟨ha, hl⟩ := List.forall_mem_cons.1 hl
    obtain ⟨hne, hlast⟩ := ih ha hl
    rw [assemble, List.map_cons, Joint.assemble_cons, ← List.append_assoc]
    exact ⟨fun e => hne (List.append_eq_nil_iff.1 e).2, getLast?_append_ne hne hlast⟩

namespace Clauses

theorem chunk_assemble {head : List Char} {l : List (ClauseKind × List Char)} (hh : Chunk head)
    (hl : ∀ a ∈ l, Chunk a.2) : Chunk (assemble head l) ∧
      openDepth (assemble head l) = openDepth head + (l.map fun a => openDepth a.2).sum := by
  induction l generalizing head with
  | nil =>
    rw [assemble, List.map_nil, Joint.assemble_nil]
    exact ⟨hh, rfl⟩
  | cons a l ih =>
    obtain ⟨ha, hl⟩ := List.forall_mem_cons.1 hl
    obtain ⟨hchunk, hdepth⟩ := ih ha hl
    rw [assemble, List.map_cons, Joint.assemble_cons, List.map_cons, List.sum_cons, ← hdepth]
    exact hh.append (joint a).plain (joint a).lead_ne_nil hchunk

end Clauses

namespace SelectQuery

/-! ## The parts of a statement -/

theorem optional_eq_ok_iff {α : Type} {body : Option Piece} {read : Piece → Except ParseError α}
    {x : Option α} : optional body read = .ok x ↔
      (body = none ∧ x = none) ∨ ∃ b a, body = some b ∧ x = some a ∧ read b = .ok a := by
  cases body with
  | none =>
    rw [optional, Except.ok.injEq]
    constructor
    · intro h
      exact .inl ⟨rfl, h.symm⟩
    · rintro (⟨-, h⟩ | ⟨b, a, h, -⟩)
      · exact h.symm
      · cases h
  | some b =>
    rw [optional, map_eq_ok_iff]
    constructor
    · rintro ⟨a, ha, rfl⟩
      exact .inr ⟨b, a, rfl, rfl, ha⟩
    · rintro (⟨h, -⟩ | ⟨b', a, h, rfl, ha⟩)
      · cases h
      · cases h
        exact ⟨a, ha, rfl⟩

theorem joinOf_eq_ok_iff {c : Clauses} {x : Option Join} : joinOf c = .ok x ↔
    (c.join = none ∧ x = none) ∨
      ∃ k b j, c.join = some (k, b) ∧ x = some j ∧ Join.parse k b = .ok j := by
  rw [joinOf]
  cases c.join with
  | none =>
    rw [Except.ok.injEq]
    constructor
    · intro h
      exact .inl ⟨rfl, h.symm⟩
    · rintro (⟨-, h⟩ | ⟨k, b, j, h, -⟩)
      · exact h.symm
      · cases h
  | some j =>
    obtain ⟨k, b⟩ := j
    rw [map_eq_ok_iff]
    constructor
    · rintro ⟨j, hj, rfl⟩
      exact .inr ⟨k, b, j, rfl, rfl, hj⟩
    · rintro (⟨h, -⟩ | ⟨k', b', j, h, rfl, hj⟩)
      · cases h
      · cases h
        exact ⟨j, hj, rfl⟩

/-- The query is read off a statement with these clauses and this head. -/
structure Reading (p : Piece) (c : Clauses) (h : SelectHead) (q : SelectQuery) : Prop where
  split : Clauses.split p = .ok c
  head : SelectHead.parse c.head = .ok h
  fields : Listed h.fields.chars (q.fields.map String.toList)
  table : q.table = h.table
  distinct : q.distinct = h.distinct
  join : joinOf c = .ok q.join
  conditions : ∃ cs, optional c.whereRows Where.parse = .ok cs ∧ q.conditions = cs.getD []
  groupBy : optional c.groupBy (ItemList.parse · .groupBy) = .ok q.groupBy
  orderBy : optional c.orderBy SortKey.parse = .ok q.orderBy
  limit : optional c.limit Limit.parse = .ok q.limit
  aggregatesAll : q.aggregatesAll = aggregates q.fields q.groupBy

theorem parse_eq_ok_iff {p : Piece} {q : SelectQuery} :
    parse p = .ok q ↔ ∃ c h, Reading p c h q := by
  rw [parse]
  constructor
  · intro hp
    obtain ⟨c, hc, hp⟩ := bind_eq_ok_iff.1 hp
    obtain ⟨h, hh, hp⟩ := bind_eq_ok_iff.1 hp
    obtain ⟨fields, hf, hp⟩ := bind_eq_ok_iff.1 hp
    obtain ⟨join, hj, hp⟩ := bind_eq_ok_iff.1 hp
    obtain ⟨conditions, hw, hp⟩ := bind_eq_ok_iff.1 hp
    obtain ⟨groupBy, hg, hp⟩ := bind_eq_ok_iff.1 hp
    obtain ⟨orderBy, ho, hp⟩ := bind_eq_ok_iff.1 hp
    obtain ⟨limit, hl, hp⟩ := bind_eq_ok_iff.1 hp
    cases hp
    exact ⟨c, h, hc, hh, ItemList.parse_eq_ok_iff.1 hf, rfl, rfl, hj,
      ⟨conditions, hw, rfl⟩, hg, ho, hl, rfl⟩
  · rintro ⟨c, h, hc, hh, hf, ht, hd, hj, ⟨conditions, hw, hcs⟩, hg, ho, hl, ha⟩
    obtain ⟨fields, table, join, conditions', groupBy, aggregatesAll, orderBy, limit, distinct⟩ := q
    dsimp only at hf ht hd hj hcs hg ho hl ha
    subst ht hd hcs ha
    refine bind_eq_ok_iff.2 ⟨c, hc, bind_eq_ok_iff.2 ⟨h, hh, ?_⟩⟩
    refine bind_eq_ok_iff.2 ⟨fields, ItemList.parse_eq_ok_iff.2 hf, bind_eq_ok_iff.2 ⟨join, hj, ?_⟩⟩
    refine bind_eq_ok_iff.2 ⟨conditions, hw, bind_eq_ok_iff.2 ⟨groupBy, hg, ?_⟩⟩
    exact bind_eq_ok_iff.2 ⟨orderBy, ho, bind_eq_ok_iff.2 ⟨limit, hl, rfl⟩⟩

/-- The body of the `WHERE` clause of a `SELECT`, if it has one. -/
def whereBody? (settings : Settings) (text : String) : Except ParseError (Option Piece) := do
  let p ← Statement.isolate settings text
  let clauses ← Clauses.split p
  return clauses.whereRows

/-- The conditions of a `SELECT` are those of its `WHERE`. -/
theorem conditions_of_ofText {settings : Settings} {text : String} {q : SelectQuery}
    (h : ofText settings text = .ok q) :
    (whereBody? settings text = .ok none ∧ q.conditions = []) ∨
    ∃ body, whereBody? settings text = .ok (some body) ∧ Balanced body.chars ∧ Tight body.chars ∧
      Where.parse body = .ok q.conditions := by
  obtain ⟨p, hp, h⟩ := bind_eq_ok_iff.1 h
  obtain ⟨clauses, head, hr⟩ := parse_eq_ok_iff.1 h
  have hbody : whereBody? settings text = .ok clauses.whereRows :=
    bind_eq_ok_iff.2 ⟨p, hp, bind_eq_ok_iff.2 ⟨clauses, hr.split, rfl⟩⟩
  obtain ⟨cs, hcs, hq⟩ := hr.conditions
  rcases optional_eq_ok_iff.1 hcs with ⟨e, rfl⟩ | ⟨body, cs, e, rfl, hparse⟩
  · exact .inl ⟨e ▸ hbody, hq⟩
  · obtain ⟨-, -, hbodies, -⟩ := Clauses.balanced_of_split hr.split
    obtain ⟨hbal, htight⟩ := hbodies .whereRows body e
    exact .inr ⟨body, e ▸ hbody, hbal, htight, hq ▸ hparse⟩

/-! ## The text of a query -/

/-- The head as it is rendered. -/
def headText (q : SelectQuery) : List Char :=
  SelectHead.chars q.distinct (listText q.fields) (" FROM ".toList ++ q.table.toList)

/-- The clauses as they are rendered, in their order. -/
def clauses (q : SelectQuery) : List (ClauseKind × List Char) :=
  (q.join.map fun j => (.join j.kind, j.chars)).toList ++
    ((if q.conditions = [] then none else some (.whereRows, Where.chars q.conditions)).toList ++
      ((q.groupBy.map fun l => (.groupBy, listText l)).toList ++
        ((q.orderBy.map fun ks => (.orderBy, SortKey.listChars ks)).toList ++
          (q.limit.map fun n => (.limit, Nat.toDigits 10 n.toNat)).toList)))

theorem renderClause_toList {t : Option String} {a : Option (ClauseKind × List Char)}
    (h : t.map String.toList = a.map fun a => a.1.keyword.text ++ ' ' :: a.2)
    (hne : ∀ b ∈ a.toList, b.2 ≠ []) :
    (renderClause t).toList = (a.toList.map Clauses.joint).flatMap Joint.text := by
  cases a with
  | none =>
    cases t with
    | none => rfl
    | some t => cases h
  | some a =>
    have hb : a.2 ≠ [] := hne a (by simp)
    cases t with
    | none => cases h
    | some t =>
      rw [Option.map_some, Option.map_some, Option.some.injEq] at h
      simp [renderClause, h, Joint.text, Clauses.joint, Clauses.lead, hb]

theorem render_toList {q : SelectQuery} (h : ∀ a ∈ q.clauses, a.2 ≠ []) :
    q.render.toList = Clauses.assemble q.headText q.clauses := by
  simp only [clauses, List.forall_mem_append] at h
  obtain ⟨hj, hw, hg, ho, hl⟩ := h
  have hjoin := renderClause_toList (t := q.join.map Join.render) (by
    cases q.join with
    | none => rfl
    | some j =>
      have hkind :
          (ClauseKind.join j.kind).keyword.text = j.kind.name.toList ++ " JOIN".toList := by
        cases j.kind <;> decide
      simp [hkind, Join.render_toList]) hj
  have hwhere := renderClause_toList (t := if q.conditions.isEmpty then none
      else some ("WHERE " ++ " AND ".intercalate (q.conditions.map Condition.render))) (by
    have hkind : ClauseKind.whereRows.keyword.text = "WHERE".toList := by decide
    by_cases hq : q.conditions = []
    · simp [hq]
    · simp [hq, hkind, Where.chars, Condition.render_toList, Function.comp_def]) hw
  have hgroup := renderClause_toList
    (t := q.groupBy.map fun l => "GROUP BY " ++ ", ".intercalate l) (by
    have hkind : ClauseKind.groupBy.keyword.text = "GROUP BY".toList := by decide
    simp [hkind, listText, Function.comp_def]) hg
  have horder := renderClause_toList
    (t := q.orderBy.map fun ks => "ORDER BY " ++ ", ".intercalate (ks.map SortKey.render)) (by
    have hkind : ClauseKind.orderBy.keyword.text = "ORDER BY".toList := by decide
    simp [hkind, SortKey.listChars, SortKey.render_toList, Function.comp_def]) ho
  have hlimit := renderClause_toList (t := q.limit.map fun n => "LIMIT " ++ toString n.toNat) (by
    have hkind : ClauseKind.limit.keyword.text = "LIMIT".toList := by decide
    simp [hkind, Function.comp_def]) hl
  rw [Clauses.assemble_eq, clauses]
  simp only [List.map_append, List.flatMap_append, ← hjoin, ← hwhere, ← hgroup, ← horder, ← hlimit]
  -- an equation for `render` would be checked by evaluating its strings
  delta render
  iterate 5 rw [String.toList_append]
  simp only [headText, SelectHead.chars, listText]
  cases hd : q.distinct <;> simp [SelectHead.lead, SelectHead.gap]

theorem lookup_toList {k : ClauseKind} (a : Option (ClauseKind × List Char)) :
    a.toList.lookup k = a.bind fun a => if k = a.1 then some a.2 else none := by
  cases a with
  | none => rfl
  | some a =>
    rw [Option.toList_some, List.lookup_cons, Option.bind_some]
    by_cases h : k = a.1
    · simp [h]
    · simp [h, beq_eq_false_iff_ne.2 h]

/-- The body of a clause as it is rendered. -/
def body? (q : SelectQuery) : ClauseKind → Option (List Char)
  | .join k => q.join.bind fun j => if k = j.kind then some j.chars else none
  | .whereRows => if q.conditions = [] then none else some (Where.chars q.conditions)
  | .groupBy => q.groupBy.map listText
  | .orderBy => q.orderBy.map SortKey.listChars
  | .limit => q.limit.map fun n => Nat.toDigits 10 n.toNat

theorem lookup_clauses (q : SelectQuery) (k : ClauseKind) : q.clauses.lookup k = q.body? k := by
  have hw : (if q.conditions = [] then none
      else some (ClauseKind.whereRows, Where.chars q.conditions)).bind
        (fun a => if k = a.1 then some a.2 else none) =
      if k = .whereRows then (if q.conditions = [] then none else some (Where.chars q.conditions))
      else none := by
    split <;> simp
  simp only [clauses, List.lookup_append, lookup_toList, hw, Option.bind_map, Function.comp_def]
  cases k <;> simp [body?, Option.map_eq_bind]

theorem nodup_slots (q : SelectQuery) : (q.clauses.map fun a => a.1.slot).Nodup := by
  have hsub : (q.clauses.map fun a => a.1.slot).Sublist
      ([.join .inner] ++ ([.whereRows] ++ ([.groupBy] ++ ([.orderBy] ++ [.limit])))) := by
    simp only [clauses, List.map_append]
    refine .append ?_ (.append ?_ (.append ?_ (.append ?_ ?_)))
    · cases q.join <;> simp [ClauseKind.slot]
    · split <;> simp [ClauseKind.slot]
    · cases q.groupBy <;> simp [ClauseKind.slot]
    · cases q.orderBy <;> simp [ClauseKind.slot]
    · cases q.limit <;> simp [ClauseKind.slot]
  exact hsub.nodup (by decide)

/-! ## Queries that come apart into their parts -/

/-- The lists of the query are not empty and hold items, its table is a part, its join and its sort
keys are readable, and the fields of its conditions are chunks. -/
structure Formed (q : SelectQuery) : Prop where
  fields : q.fields ≠ [] ∧ ∀ f ∈ q.fields, Item f.toList
  table : Part q.table.toList
  join : ∀ j ∈ q.join, j.Readable
  conditions : ∀ c ∈ q.conditions, Chunk c.field.toList
  groupBy : ∀ l ∈ q.groupBy, l ≠ [] ∧ ∀ f ∈ l, Item f.toList
  orderBy : ∀ ks ∈ q.orderBy, ks ≠ [] ∧ ∀ k ∈ ks, k.Readable
  aggregatesAll : q.aggregatesAll = aggregates q.fields q.groupBy

/-- A formed query in which the fields of conditions leave no parenthesis open. -/
structure Shaped (q : SelectQuery) : Prop extends Formed q where
  closed : ∀ c ∈ q.conditions, Balanced c.field.toList

theorem part_reference {x : List Char} (h : Join.IsReference x) : Part x :=
  ⟨(Join.plain_of_inReference h.2).balanced, h.1, Join.tight_of_isReference h⟩

theorem isReference_toDigits (n : Nat) : Join.IsReference (Nat.toDigits 10 n) := by
  refine ⟨Nat.toDigits_ne_nil, fun c hc => ?_⟩
  have hdigit := Nat.isDigit_of_mem_toDigits (by decide) (by decide) hc
  simp [Join.inReference, Char.isAlphanum, hdigit]

theorem part_join {j : Join} (h : j.Readable) : Part j.chars := by
  have htable : Part j.table.toList := ⟨h.balanced, h.ne_nil, h.tight⟩
  refine htable.append (by decide) (by decide)
    ((part_reference h.left).append ?_ ?_ (part_reference h.right))
  · decide
  · decide

theorem chunk_condition {c : Condition} (h : Chunk c.field.toList) :
    Chunk c.chars ∧ openDepth c.chars = openDepth c.field.toList := by
  have hquote : Chunk (Literal.quote c.value.toList) :=
    ⟨(balanced_quote _).toSound, Literal.quote_ne_nil _, Condition.tight_quote _⟩
  have := h.append (Condition.plain_middle c.operator) (List.cons_ne_nil _ _) hquote
  rwa [(balanced_quote _).openDepth, Nat.add_zero] at this

/-- Conditions leave open what their fields do. -/
theorem chunk_where {cs : List Condition} (hne : cs ≠ []) (h : ∀ c ∈ cs, Chunk c.field.toList) :
    Chunk (Where.chars cs) ∧
      openDepth (Where.chars cs) = (cs.map fun c => openDepth c.field.toList).sum := by
  have hchunks : ∀ x ∈ cs.map Condition.chars, Chunk x :=
    List.forall_mem_map.2 fun c hc => (chunk_condition (h c hc)).1
  obtain ⟨hchunk, hdepth⟩ :=
    chunk_intercalate (t := [' ', 'A', 'N', 'D', ' ']) (by decide) (by decide)
    (by simpa using hne) hchunks
  refine ⟨hchunk, hdepth.trans ?_⟩
  rw [List.map_map]
  exact congrArg List.sum (List.map_congr_left fun c hc => (chunk_condition (h c hc)).2)

theorem part_where {cs : List Condition} (hne : cs ≠ []) (h : ∀ c ∈ cs, Part c.field.toList) :
    Part (Where.chars cs) := by
  obtain ⟨hchunk, hdepth⟩ := chunk_where hne fun c hc => (part_iff.1 (h c hc)).1
  refine part_iff.2 ⟨hchunk, hdepth.trans ?_⟩
  rw [List.sum_eq_zero_iff_forall_eq_nat, List.forall_mem_map]
  exact fun c hc => (part_iff.1 (h c hc)).2

theorem part_orderBy {ks : List SortKey} (hne : ks ≠ []) (h : ∀ k ∈ ks, k.Readable) :
    Part (SortKey.listChars ks) := by
  refine part_intercalate (by decide) (by decide) (by simpa using hne) ?_
  rw [List.forall_mem_map]
  exact fun k hk => (SortKey.item_chars (h k hk)).part

/-- A clause of a query, by its kind. -/
theorem mem_clauses {q : SelectQuery} {a : ClauseKind × List Char} (h : a ∈ q.clauses) :
    (∃ j ∈ q.join, a = (.join j.kind, j.chars)) ∨
      (q.conditions ≠ [] ∧ a = (.whereRows, Where.chars q.conditions)) ∨
      (∃ l ∈ q.groupBy, a = (.groupBy, listText l)) ∨
      (∃ ks ∈ q.orderBy, a = (.orderBy, SortKey.listChars ks)) ∨
      ∃ n ∈ q.limit, a = (.limit, Nat.toDigits 10 n.toNat) := by
  simp only [clauses, List.mem_append, Option.mem_toList, Option.map_eq_some_iff] at h
  rcases h with ⟨j, hj, rfl⟩ | h | ⟨l, hl, rfl⟩ | ⟨ks, hks, rfl⟩ | ⟨n, hn, rfl⟩
  · exact .inl ⟨j, hj, rfl⟩
  · split at h
    · cases h
    · rename_i hne
      cases h
      exact .inr (.inl ⟨hne, rfl⟩)
  · exact .inr (.inr (.inl ⟨l, hl, rfl⟩))
  · exact .inr (.inr (.inr (.inl ⟨ks, hks, rfl⟩)))
  · exact .inr (.inr (.inr (.inr ⟨n, hn, rfl⟩)))

theorem Shaped.part_condition {q : SelectQuery} (h : q.Shaped) :
    ∀ c ∈ q.conditions, Part c.field.toList := fun c hc =>
  ⟨h.closed c hc, (h.conditions c hc).ne_nil, (h.conditions c hc).tight⟩

/-- Only a `WHERE` may leave parentheses open. -/
theorem Formed.clause {q : SelectQuery} (h : q.Formed) : ∀ a ∈ q.clauses, Part a.2 ∨
    (q.conditions ≠ [] ∧ a = (.whereRows, Where.chars q.conditions)) := by
  intro a ha
  rcases mem_clauses ha with ⟨j, hj, rfl⟩ | hw | ⟨l, hl, rfl⟩ | ⟨ks, hks, rfl⟩ | ⟨n, -, rfl⟩
  · exact .inl (part_join (h.join j hj))
  · exact .inr hw
  · exact .inl (part_listText (h.groupBy l hl).1 (h.groupBy l hl).2)
  · exact .inl (part_orderBy (h.orderBy ks hks).1 (h.orderBy ks hks).2)
  · exact .inl (part_reference (isReference_toDigits n.toNat))

theorem Formed.chunk_clause {q : SelectQuery} (h : q.Formed) : ∀ a ∈ q.clauses, Chunk a.2 := by
  intro a ha
  rcases h.clause a ha with hp | ⟨hne, rfl⟩
  · exact (part_iff.1 hp).1
  · exact (chunk_where hne h.conditions).1

/-- Only a `GROUP BY` may end with a semicolon. -/
theorem Formed.getLast?_clause {q : SelectQuery} (h : q.Formed) : ∀ a ∈ q.clauses,
    a.2.getLast? ≠ some ';' ∨ ∃ l ∈ q.groupBy, a = (.groupBy, listText l) := by
  intro a ha
  rcases mem_clauses ha with ⟨j, hj, rfl⟩ | ⟨hne, rfl⟩ | hg | ⟨ks, hks, rfl⟩ | ⟨n, -, rfl⟩
  · have hright := (h.join j hj).right
    left
    rw [Join.chars, ← List.append_assoc, ← List.append_assoc, ← List.append_assoc]
    exact getLast?_append_ne hright.1 (getLast?_reference_ne hright)
  · left
    refine (getLast?_intercalate_ne (by simpa using hne) ?_).2
    rw [List.forall_mem_map]
    intro c _
    rw [Condition.chars, ← List.append_assoc]
    refine ⟨by simp, getLast?_append_ne (Literal.quote_ne_nil _) ?_⟩
    rw [Literal.getLast?_quote]
    decide
  · exact .inr hg
  · left
    refine (getLast?_intercalate_ne (by simpa using (h.orderBy ks hks).1) ?_).2
    rw [List.forall_mem_map]
    intro k _
    refine ⟨by simp [SortKey.chars], getLast?_append_ne (List.cons_ne_nil _ _) ?_⟩
    cases k.direction <;> decide
  · exact .inl (getLast?_reference_ne (isReference_toDigits _))

theorem Shaped.part_clause {q : SelectQuery} (h : q.Shaped) : ∀ a ∈ q.clauses, Part a.2 := by
  intro a ha
  rcases h.clause a ha with hp | ⟨hne, rfl⟩
  · exact hp
  · exact part_where hne h.part_condition

end SelectQuery

namespace SelectHead

/-- The keywords in front of the fields. -/
def words (distinct : Bool) : List Char :=
  if distinct then "SELECT DISTINCT".toList else "SELECT".toList

theorem chars_eq (d : Bool) (x z : List Char) : chars d x z = words d ++ ([' '] ++ (x ++ z)) := by
  cases d <;> simp [chars, lead, gap, words]

theorem part_chars (d : Bool) {x t : List Char} (hx : Part x) (ht : Part t) :
    Part (chars d x (" FROM ".toList ++ t)) := by
  have hwords : Part (words d) := by
    cases d <;> exact ⟨by decide, by decide, by decide⟩
  rw [chars_eq]
  exact hwords.append (by decide) (by decide) (hx.append (by decide) (by decide) ht)

/-- No clause keyword stands in a rendered head exactly if none stands in its parts. -/
theorem quiet_chars_iff (d : Bool) {x t : List Char} (hx : Balanced x) :
    Quiet ClauseStart.ofSite? none (chars d x (" FROM ".toList ++ t)) ↔
      ClauseFree x ∧ ClauseFree t := by
  constructor
  · intro h
    let p := ((Place.start 0 none).advance (words d)).advance [' ']
    obtain ⟨hquoting, hdepth, hbefore⟩ :
        p.quoting = .outside ∧ p.depth = 0 ∧ p.before = some ' ' := by
      cases d <;> exact ⟨rfl, rfl, rfl⟩
    rw [chars_eq] at h
    have hfields := (forall_sitesFrom_append.1 (forall_sitesFrom_append.1 h).2).2
    obtain ⟨hqx, hqz⟩ := forall_sitesFrom_append.1 hfields
    have hfresh := Place.fresh_of_outside hquoting x
    obtain ⟨hclear, hdepth'⟩ := hx.advance hfresh
    have hfrom : Plain " FROM ".toList := by decide
    obtain ⟨-, hdepth'', hout⟩ := hfrom.advance hclear
    have hbefore' : ((p.advance x).advance " FROM ".toList).before = some ' ' := by
      rw [Place.advance_before]
      rfl
    refine ⟨?_, ?_⟩
    · have := quiet_of_sites hqx (ClauseStart.keyed_ofSite?.persistent _ ?_) hfresh hdepth
      · rwa [hbefore] at this
      · intro c hc
        cases hc
        decide
    · have := quiet_of_sites (y := []) (fun s hs => by
        rw [Site.extend_nil]
        exact (forall_sitesFrom_append.1 hqz).2 s hs)
        (ClauseStart.keyed_ofSite?.persistent [] fun c hc => by cases hc)
        (Place.fresh_of_outside (hout (by decide)) t) (hdepth''.trans (hdepth'.trans hdepth))
      rwa [hbefore'] at this
  · rintro ⟨hqx, hqt⟩
    rw [ClauseFree, quiet_ofSite?_iff] at hqx hqt
    rw [quiet_ofSite?_iff]
    intro k
    have hforeign : Foreign k.keyword "SELECT".toList ∧ Foreign k.keyword "DISTINCT".toList ∧
        Foreign k.keyword "FROM".toList := by
      revert k; decide
    have hstops : Stops (" FROM ".toList ++ t) := stops_blank (c := 'F') (by decide) _
    have htail :
        Quiet (·.topKeyword? k.keyword) (some ' ') (x ++ ([' '] ++ ("FROM".toList ++ ' ' :: t))) :=
      quiet_append k.canEnd_keyword (hqx k) hx (by decide) hstops
        (quiet_word k.canEnd_keyword hforeign.2.2 (.inr ⟨t, rfl, hqt k⟩))
    cases d with
    | false =>
      have hselect := quiet_word (b := none) k.canEnd_keyword hforeign.1 (.inr ⟨_, rfl, htail⟩)
      exact hselect
    | true =>
      have hdistinct :=
        quiet_word (b := some ' ') k.canEnd_keyword hforeign.2.1 (.inr ⟨_, rfl, htail⟩)
      have hselect := quiet_word (b := none) k.canEnd_keyword hforeign.1 (.inr ⟨_, rfl, hdistinct⟩)
      exact hselect

end SelectHead

namespace SelectQuery

/-- A shaped query whose parts hold nothing at which a statement is divided: no clause keyword in
its fields, its table and its clauses, no `FROM` in its fields, and no operator and no connector in
the field of a condition. -/
structure Rereadable (q : SelectQuery) : Prop extends Shaped q where
  /-- The fields do not start like `DISTINCT`. -/
  distinctFree : q.distinct = false → Keyword.distinct.match? (listText q.fields ++ [' ']) = none
  fromFree : Quiet (·.topKeyword? .fromTable) (some ' ') (listText q.fields)
  clauseFree : ClauseFree (listText q.fields) ∧ ClauseFree q.table.toList ∧
    ∀ a ∈ q.clauses, ClauseFree a.2
  readable : ∀ c ∈ q.conditions, c.Readable
  connectorFree : Where.ConnectorFree q.conditions
  /-- A semicolon at the end would be taken off. -/
  last : q.render.toList.getLast? ≠ some ';'

theorem Formed.part_head {q : SelectQuery} (h : q.Formed) : Part q.headText :=
  SelectHead.part_chars q.distinct (part_listText h.fields.1 h.fields.2) h.table

theorem Formed.render_toList {q : SelectQuery} (h : q.Formed) :
    q.render.toList = Clauses.assemble q.headText q.clauses :=
  SelectQuery.render_toList fun a ha => (h.chunk_clause a ha).ne_nil

theorem Formed.chunk_render {q : SelectQuery} (h : q.Formed) : Chunk q.render.toList := by
  rw [h.render_toList]
  exact (Clauses.chunk_assemble (part_iff.1 h.part_head).1 h.chunk_clause).1

theorem Formed.body_eq {q : SelectQuery} (h : q.Formed) {c : Clauses}
    (hc : ∀ k, (c.body? k).map Piece.chars = (q.clauses.lookup k).map trim) (k : ClauseKind) :
    (c.body? k).map Piece.chars = q.body? k := by
  rw [hc, ← lookup_clauses]
  cases hl : q.clauses.lookup k with
  | none => rfl
  | some x =>
    have hmem : (k, x) ∈ q.clauses := by
      obtain ⟨l, l', e, -⟩ := List.lookup_eq_some_iff.1 hl
      rw [e]
      exact List.mem_append_right _ List.mem_cons_self
    rw [Option.map_some, trim_eq_self (h.chunk_clause _ hmem).tight]

/-- What reads every text off a query, reads the query. -/
theorem optional_of_body {α : Type} {body : Option Piece} {read : Piece → Except ParseError α}
    {x : Option α} {t : α → List Char} (h : body.map Piece.chars = x.map t)
    (hr : ∀ a ∈ x, ∀ b : Piece, b.chars = t a → read b = .ok a) : optional body read = .ok x := by
  rw [optional_eq_ok_iff]
  cases x with
  | none => exact .inl ⟨Option.map_eq_none_iff.1 h, rfl⟩
  | some a =>
    obtain ⟨b, hb, e⟩ := Option.map_eq_some_iff.1 h
    exact .inr ⟨b, a, hb, rfl, hr a rfl b e⟩

theorem joinOf_of_body {c : Clauses} {q : SelectQuery}
    (h : ∀ k, (c.body? (.join k)).map Piece.chars = q.body? (.join k))
    (hj : ∀ j ∈ q.join, j.Readable) : joinOf c = .ok q.join := by
  rw [joinOf_eq_ok_iff]
  simp only [Clauses.body?, body?] at h
  cases hq : q.join with
  | none =>
    left
    cases hc : c.join with
    | none => exact ⟨rfl, rfl⟩
    | some j =>
      have := h j.1
      rw [hc, hq] at this
      simp at this
  | some j =>
    right
    have := h j.kind
    rw [hq, Option.bind_some, if_pos rfl] at this
    obtain ⟨b, hb, e⟩ := Option.map_eq_some_iff.1 this
    obtain ⟨⟨k, b'⟩, hc, hk⟩ := Option.bind_eq_some_iff.1 hb
    split at hk
    · rename_i hkind
      cases hk
      dsimp only at hkind
      subst hkind
      exact ⟨_, _, j, hc, rfl, Join.parse_chars e (hj j hq)⟩
    · cases hk

/-- A statement that is divided into the parts of a query is read as that query. -/
theorem parse_render {p : Piece} {q : SelectQuery} (h : p.chars = q.render.toList)
    (hq : q.Rereadable) :
    parse p = .ok q := by
  have hclauses := hq.part_clause
  obtain ⟨hfree, htfree, hcfree⟩ := hq.clauseFree
  have hfields := part_listText hq.fields.1 hq.fields.2
  rw [hq.render_toList] at h
  obtain ⟨c, hsplit, hhead, hbodies⟩ := Clauses.split_assemble h hq.part_head.toBalanced
    ((SelectHead.quiet_chars_iff q.distinct hfields.toBalanced).2 ⟨hfree, htfree⟩)
    (fun a ha => ⟨(hclauses a ha).toBalanced, hcfree a ha⟩) q.nodup_slots
  rw [trim_eq_self hq.part_head.tight] at hhead
  obtain ⟨h', hparse, hd, hf, ht⟩ := SelectHead.parse_chars hhead hfields.ne_nil hfields.tight
    hfields.toBalanced hq.fromFree hq.distinctFree hq.table.ne_nil hq.table.tight
  have hbody := hq.toFormed.body_eq hbodies
  refine parse_eq_ok_iff.2 ⟨c, h', hsplit, hparse, ?_, ?_, hd.symm, ?_, ?_, ?_, ?_, ?_,
    hq.aggregatesAll⟩
  · rw [hf]
    exact listed_listText hq.fields.1 hq.fields.2
  · exact String.toList_inj.1 ht.symm
  · exact joinOf_of_body (fun k => hbody (.join k)) hq.join
  · by_cases hne : q.conditions = []
    · refine ⟨none, optional_eq_ok_iff.2 (.inl ⟨?_, rfl⟩), hne⟩
      simpa [Clauses.body?, body?, hne] using hbody .whereRows
    · refine ⟨some q.conditions, ?_, rfl⟩
      refine optional_of_body (t := Where.chars) ?_ ?_
      · have := hbody .whereRows
        rwa [body?, if_neg hne] at this
      · intro cs hcs b hb
        cases hcs
        exact (Where.parse_chars_iff hb hne hq.closed).2
          ⟨hq.readable, hq.connectorFree⟩
  · refine optional_of_body (hbody .groupBy) fun l hl b hb => ItemList.parse_eq_ok_iff.2 ?_
    rw [hb]
    exact listed_listText (hq.groupBy l hl).1 (hq.groupBy l hl).2
  · exact optional_of_body (hbody .orderBy) fun ks hks b hb =>
      SortKey.parse_chars hb (hq.orderBy ks hks).1 (hq.orderBy ks hks).2
  · exact optional_of_body (hbody .limit) fun n _ b hb => Limit.parse_toDigits hb

/-- A rereadable query is read back from its rendering. -/
theorem ofText_render {settings : Settings} {q : SelectQuery} (hq : q.Rereadable)
    (hl : byteLength q.render.toList ≤ settings.maxLength) : ofText settings q.render = .ok q := by
  obtain ⟨p, hp⟩ := Statement.exists_isolate hl
  have hchars := Statement.isolate_of_tight hq.toFormed.chunk_render.tight hq.last hp
  exact bind_eq_ok_iff.2 ⟨p, hp, parse_render hchars hq⟩

end SelectQuery

end TableQuery
