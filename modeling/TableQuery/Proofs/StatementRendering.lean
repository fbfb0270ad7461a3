import TableQuery.Proofs.CharClass
import TableQuery.Proofs.InsertRereading
import TableQuery.Proofs.SelectRereading

/-!
# Rendered statements

Not every statement that has been read can be read back from its rendering: a table that ends with a
semicolon loses it, and quotes that were taken off leave a name that is read differently.
`Rereadable` says what is asked of the parts of a query, and the statements that can be read back
are those that meet it (`ofText_render_iff_of_ofText`).
-/

namespace TableQuery.Statement

open Text

/-! ## The first word -/

theorem parse_of_select {settings : Settings} {p : Piece} {y : List Char}
    (h : p.chars = "SELECT".toList ++ ' ' :: y) :
    parse settings p = .select <$> SelectQuery.parse p := by
  have hword : ∀ c ∈ "SELECT".toList, isNameChar c = true := by decide
  rw [parse, h, takeWhile_isNameChar hword (by decide)]
  rfl

theorem parse_of_insert {settings : Settings} {p : Piece} {y : List Char}
    (h : p.chars = "INSERT".toList ++ ' ' :: y) :
    parse settings p = .insert <$> InsertQuery.parse settings.matchArity p := by
  have hword : ∀ c ∈ "INSERT".toList, isNameChar c = true := by decide
  rw [parse, h, takeWhile_isNameChar hword (by decide)]
  rfl

/-- A statement is read by the reader of its own kind. -/
theorem parse_eq_ok {settings : Settings} {p : Piece} {s : Statement}
    (h : parse settings p = .ok s) :
    (∃ q, s = .select q ∧ SelectQuery.parse p = .ok q) ∨
      ∃ q, s = .insert q ∧ InsertQuery.parse settings.matchArity p = .ok q := by
  unfold parse at h
  dsimp only at h
  split at h
  · obtain ⟨q, hq, rfl⟩ := map_eq_ok_iff.1 h
    exact .inl ⟨q, rfl, hq⟩
  · split at h
    · obtain ⟨q, hq, rfl⟩ := map_eq_ok_iff.1 h
      exact .inr ⟨q, rfl, hq⟩
    · cases h

theorem selectOfText_of_ofText {settings : Settings} {text : String} {q : SelectQuery}
    (h : ofText settings text = .ok (.select q)) : SelectQuery.ofText settings text = .ok q := by
  obtain ⟨p, hp, h⟩ := bind_eq_ok_iff.1 h
  rcases parse_eq_ok h with ⟨q', e, hq⟩ | ⟨q', e, -⟩
  · cases e
    exact bind_eq_ok_iff.2 ⟨p, hp, hq⟩
  · cases e

theorem insertOfText_of_ofText {settings : Settings} {text : String} {q : InsertQuery}
    (h : ofText settings text = .ok (.insert q)) : InsertQuery.ofText settings text = .ok q := by
  obtain ⟨p, hp, h⟩ := bind_eq_ok_iff.1 h
  rcases parse_eq_ok h with ⟨q', e, -⟩ | ⟨q', e, hq⟩
  · cases e
  · cases e
    exact bind_eq_ok_iff.2 ⟨p, hp, hq⟩

/-! ## Rendering -/

/-- The parts of the query meet the conditions of `SelectQuery.Rereadable` or
`InsertQuery.Rereadable`. -/
def Rereadable : Statement → Prop
  | .select q => q.Rereadable
  | .insert q => q.Rereadable

theorem exists_select_render {q : SelectQuery} (h : q.Formed) :
    ∃ y, q.render.toList = "SELECT".toList ++ ' ' :: y := by
  rw [h.render_toList, Clauses.assemble_eq, SelectQuery.headText, SelectHead.chars]
  cases q.distinct with
  | true => exact ⟨_, rfl⟩
  | false => exact ⟨_, rfl⟩

theorem exists_insert_render (q : InsertQuery) :
    ∃ y, q.render.toList = "INSERT".toList ++ ' ' :: y :=
  ⟨_, InsertQuery.render_toList q⟩

theorem ofText_render_select_iff {settings : Settings} {q : SelectQuery} :
    ofText settings q.render = .ok (.select q) ↔
      byteLength q.render.toList ≤ settings.maxLength ∧ q.Rereadable := by
  constructor
  · intro h
    exact SelectQuery.ofText_render_iff.1 (selectOfText_of_ofText h)
  · rintro ⟨hl, hq⟩
    obtain ⟨p, hp, hparse⟩ := bind_eq_ok_iff.1 (SelectQuery.ofText_render_iff.2 ⟨hl, hq⟩)
    obtain ⟨y, e⟩ := exists_select_render hq.toFormed
    have hchars := isolate_of_tight hq.toFormed.chunk_render.tight hq.last hp
    refine bind_eq_ok_iff.2 ⟨p, hp, ?_⟩
    rw [parse_of_select (hchars.trans e), hparse]
    rfl

theorem ofText_render_insert_iff {settings : Settings} {q : InsertQuery} :
    ofText settings q.render = .ok (.insert q) ↔
      byteLength q.render.toList ≤ settings.maxLength ∧ q.Rereadable ∧
        (settings.matchArity = true → q.columns.length = q.values.length) := by
  constructor
  · intro h
    exact InsertQuery.ofText_render_iff.1 (insertOfText_of_ofText h)
  · rintro ⟨hl, hq, ha⟩
    obtain ⟨p, hp, hparse⟩ := bind_eq_ok_iff.1 (InsertQuery.ofText_render_iff.2 ⟨hl, hq, ha⟩)
    obtain ⟨y, e⟩ := exists_insert_render q
    have hchars := isolate_of_tight hq.tight_render hq.last hp
    refine bind_eq_ok_iff.2 ⟨p, hp, ?_⟩
    rw [parse_of_insert (hchars.trans e), hparse]
    rfl

/-- An `INSERT` is accepted only with as many values as the settings ask for. -/
theorem arity_of_ofText {settings : Settings} {text : String} {q : InsertQuery}
    (h : InsertQuery.ofText settings text = .ok q) :
    settings.matchArity = true → q.columns.length = q.values.length := by
  intro ha
  obtain ⟨p, -, hparse⟩ := bind_eq_ok_iff.1 h
  obtain ⟨w, cols, vals, tail, xs, ys, hr⟩ := InsertQuery.parse_eq_ok_iff.1 hparse
  rw [hr.columns.2, hr.values.2, List.length_map, List.length_map]
  exact hr.arity ha

/-- A statement that has been read, and whose rendering is not too long, is read back from it
exactly if its parts are rereadable. -/
theorem ofText_render_iff_of_ofText (settings : Settings) (text : String) (s : Statement)
    (h : ofText settings text = .ok s) (hl : byteLength s.render.toList ≤ settings.maxLength) :
    ofText settings s.render = .ok s ↔ s.Rereadable := by
  cases s with
  | select q =>
    have hiff := @ofText_render_select_iff settings q
    exact ⟨fun h' => (hiff.1 h').2, fun hq => hiff.2 ⟨hl, hq⟩⟩
  | insert q =>
    have hiff := @ofText_render_insert_iff settings q
    have ha := arity_of_ofText (insertOfText_of_ofText h)
    exact ⟨fun h' => (hiff.1 h').2.1, fun hq => hiff.2 ⟨hl, hq, ha⟩⟩

/-- The query behind `INSERT INTO "a b" (c) VALUES (1)`, whose table is rendered without its
quotes. -/
def blankTableSample : InsertQuery where
  table := "a b"
  columns := ["c"]
  values := ["1"]
  returning := []

theorem ofText_render_blank_table :
    ofText {} "INSERT INTO \"a b\" (c) VALUES (1)" = .ok (.insert blankTableSample) ∧
      ofText {} (render (.insert blankTableSample)) ≠ .ok (.insert blankTableSample) := by
  have h : ofText {} "INSERT INTO \"a b\" (c) VALUES (1)" = .ok (.insert blankTableSample) := by rfl
  refine ⟨h, fun h' => ?_⟩
  have hq :=
    (ofText_render_iff_of_ofText {} _ (.insert blankTableSample) h (by decide +kernel)).1 h'
  have hbroken : ¬Unbroken blankTableSample.table.toList := by decide
  exact hbroken hq.table.2.1

end TableQuery.Statement
