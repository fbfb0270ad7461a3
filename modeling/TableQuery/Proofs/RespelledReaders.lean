import TableQuery.Proofs.InsertParts
import TableQuery.Proofs.RespelledPieces
import TableQuery.Statement

/-!
# Respelled statements

Each reader of a part of a statement, given a respelled piece, finds the same parts at the same
places: the result differs in the characters of its texts alone, and a refusal also in its range.
The readers are followed one by one, from lists and clauses to whole statements
(`Statement.respell_parse`).
-/

namespace TableQuery

open Text Respelling

/-! ## Results with other characters -/

def Join.mapChars (f : Char → Char) (j : Join) : Join :=
  { j with table := j.table.map f, left := j.left.map f, right := j.right.map f }

def Condition.mapChars (f : Char → Char) (c : Condition) : Condition :=
  { c with field := c.field.map f, value := c.value.map f }

def SortKey.mapChars (f : Char → Char) (k : SortKey) : SortKey :=
  { k with field := k.field.map f }

/-- The query with `f` applied to every character of its texts. -/
def SelectQuery.mapChars (f : Char → Char) (q : SelectQuery) : SelectQuery :=
  { q with
    fields := q.fields.map (String.map f)
    table := q.table.map f
    join := q.join.map (Join.mapChars f)
    conditions := q.conditions.map (Condition.mapChars f)
    groupBy := q.groupBy.map (List.map (String.map f))
    orderBy := q.orderBy.map (List.map (SortKey.mapChars f)) }

/-- The query with `f` applied to every character of its texts. -/
def InsertQuery.mapChars (f : Char → Char) (q : InsertQuery) : InsertQuery where
  table := q.table.map f
  columns := q.columns.map (String.map f)
  values := q.values.map (String.map f)
  returning := q.returning.map (String.map f)

/-- The statement with `f` applied to every character of its texts. -/
def Statement.mapChars (f : Char → Char) : Statement → Statement
  | select query => select (query.mapChars f)
  | insert query => insert (query.mapChars f)

variable {g : Respelling}

/-! ## Lists -/

namespace ItemList

theorem respell_itemIn (p : Piece) (role : ListRole) (i j : Nat) :
    itemIn (p.respell g) role i j = g.outcome (Piece.respell g) (itemIn p role i j) := by
  unfold itemIn
  simp only [Piece.respell_cut, Piece.respell_isEmpty, Piece.respell_length,
    Piece.respell_faultSpan]
  exact outcome_ite rfl rfl

theorem respell_itemsFrom (p : Piece) (role : ListRole) (first : Nat) (sites : List Site) :
    itemsFrom (p.respell g) role first (sites.map (Site.respell g)) =
      g.outcome (Prod.map (List.map (Piece.respell g)) id) (itemsFrom p role first sites) := by
  induction sites generalizing first with
  | nil => rfl
  | cons s r ih =>
    rw [List.map_cons, itemsFrom, itemsFrom, s.respell_isTop g (by decide) (by decide),
      s.respell_isTop g (by decide) (by decide), Piece.respell_faultAt]
    refine outcome_ite rfl (outcome_ite ?_ (ih first))
    exact outcome_bind (respell_itemIn p role first s.index) fun a =>
      outcome_bind (ih (s.index + 1)) fun b => rfl

theorem respell_split (p : Piece) (role : ListRole) :
    split (p.respell g) role = g.outcome (List.map (Piece.respell g)) (split p role) := by
  unfold split
  simp only [Piece.respell_isEmpty, Piece.respell_outline, Piece.respell_length,
    Piece.respell_faultWhole]
  refine outcome_ite rfl (outcome_bind (respell_itemsFrom p role 0 _) fun a => ?_)
  refine outcome_bind (p.respell_requireTerminated g _) fun _ => ?_
  refine outcome_bind (p.respell_requireClosed g _) fun _ => ?_
  refine outcome_bind (respell_itemIn p role _ _) fun b => ?_
  simp

theorem respell_parse (p : Piece) (role : ListRole) :
    parse (p.respell g) role = g.outcome (List.map (String.map g.char)) (parse p role) := by
  refine outcome_bind (respell_split p role) fun items => ?_
  simp [Function.comp_def]

end ItemList

/-! ## Clauses -/

namespace Clauses

/-- The clauses of the respelled statement. -/
def respell (g : Respelling) (c : Clauses) : Clauses where
  head := c.head.respell g
  join := c.join.map (Prod.map id (Piece.respell g))
  whereRows := c.whereRows.map (Piece.respell g)
  groupBy := c.groupBy.map (Piece.respell g)
  orderBy := c.orderBy.map (Piece.respell g)
  limit := c.limit.map (Piece.respell g)

theorem respell_has (c : Clauses) (kind : ClauseKind) : (c.respell g).has kind = c.has kind := by
  cases kind <;> simp [has, respell]

theorem respell_put (c : Clauses) (kind : ClauseKind) (body : Piece) :
    (c.respell g).put kind (body.respell g) = (c.put kind body).respell g := by
  cases kind <;> rfl

theorem respell_ofSite? (s : Site) : ClauseStart.ofSite? (s.respell g) = ClauseStart.ofSite? s := by
  simp only [ClauseStart.ofSite?, Site.respell_depth, Site.respell_followsBlank, Site.respell_here,
    g.detect?_map, Site.respell_index]

theorem respell_repeated (p : Piece) (mark : ClauseStart) (stop : Nat) :
    repeated (p.respell g) mark stop = (repeated p mark stop).respell g := by
  unfold repeated
  split <;> exact p.respell_faultSpan g _ _ _

theorem respell_fill (p : Piece) (c : Clauses) (marks : List ClauseStart) :
    fill (p.respell g) (c.respell g) marks = g.outcome (respell g) (fill p c marks) := by
  induction marks generalizing c with
  | nil => rfl
  | cons mark marks ih =>
    simp only [fill, respell_has, respell_repeated, Piece.respell_length, Piece.respell_cut,
      respell_put]
    exact outcome_ite rfl (ih _)

theorem respell_split (p : Piece) : split (p.respell g) = g.outcome (respell g) (split p) := by
  have hmarks : (p.outline.respell g).sites.filterMap ClauseStart.ofSite? =
      p.outline.sites.filterMap ClauseStart.ofSite? := by
    have e : ClauseStart.ofSite? ∘ Site.respell g = ClauseStart.ofSite? := funext respell_ofSite?
    rw [Outline.respell, List.filterMap_map, e]
  unfold split
  simp only [Piece.respell_outline, hmarks, Piece.respell_length, Piece.respell_cut]
  exact outcome_bind (p.respell_requireBalanced g _) fun _ => respell_fill p (ofHead _) _

end Clauses

/-! ## Cursors -/

namespace Cursor

/-- The cursor at the same position of the respelled piece. -/
def respell (g : Respelling) (c : Cursor) : Cursor :=
  { c with piece := c.piece.respell g }

variable (c : Cursor)

@[simp] theorem respell_piece : (c.respell g).piece = c.piece.respell g := rfl

@[simp] theorem respell_position : (c.respell g).position = c.position := rfl

theorem respell_rest : (c.respell g).rest = c.rest.map g.char := by
  rw [rest, respell_piece, respell_position, Piece.respell_chars, ← List.map_drop, ← rest]

@[simp] theorem respell_atEnd : (c.respell g).atEnd = c.atEnd := by
  rw [atEnd, length, respell_piece, respell_position, Piece.respell_length]
  rfl

theorem respell_current : (c.respell g).current = g.char c.current := by
  have hend : g.char Literal.endMark = Literal.endMark := g.char_sign (by decide) (by decide)
  rw [current_eq, current_eq, respell_rest, List.head?_map]
  cases c.rest.head? with
  | none => exact hend.symm
  | some d => rfl

@[simp] theorem respell_skipBlanks : (c.respell g).skipBlanks = c.skipBlanks.respell g := by
  rw [skipBlanks, respell_rest, g.takeWhile_map isBlank_foldChar, List.length_map]
  rfl

@[simp] theorem respell_jump (n : Nat) : (c.respell g).jump n = (c.jump n).respell g := by
  simp only [jump, length, respell, Piece.respell_length]

@[simp] theorem respell_seek (n : Nat) : (c.respell g).seek n = (c.seek n).respell g := by
  simp only [seek, length, respell, Piece.respell_length]

@[simp] theorem respell_next : (c.respell g).next = c.next.respell g := by
  rw [next, next, respell_atEnd]
  split <;> rfl

@[simp] theorem respell_consume? (k : Keyword) :
    (c.respell g).consume? k = (c.consume? k).map (respell g) := by
  rw [consume?, consume?, respell_rest, g.match?_map, Option.map_map]
  exact congrArg (Option.map · _) (funext c.respell_jump)

theorem respell_ofPiece (p : Piece) : ofPiece (p.respell g) = (ofPiece p).respell g := rfl

end Cursor

/-! ## Parts of a `SELECT` -/

namespace SelectHead

def respell (g : Respelling) (h : SelectHead) : SelectHead :=
  { h with fields := h.fields.respell g, table := h.table.map g.char }

theorem respell_fromRange (p : Piece) (first : Nat) :
    fromRange (p.respell g) first = g.outcome id (fromRange p first) := by
  unfold fromRange
  rw [Piece.respell_outlineFrom]
  exact p.respell_search_eq (fun s => by simp) _

theorem respell_parse (p : Piece) : parse (p.respell g) = g.outcome (respell g) (parse p) := by
  unfold parse
  rw [Cursor.respell_ofPiece, Cursor.respell_consume?]
  cases (Cursor.ofPiece p).consume? .select with
  | none => exact congrArg Except.error (p.respell_faultWhole g _)
  | some c =>
    simp only [Option.map_some, Cursor.respell_skipBlanks, Cursor.respell_consume?,
      Option.isSome_map]
    have hfirst :
        (((c.skipBlanks.consume? .distinct).map (Cursor.respell g)).getD
          (c.skipBlanks.respell g)).position =
        ((c.skipBlanks.consume? .distinct).getD c.skipBlanks).position := by
      cases c.skipBlanks.consume? .distinct <;> rfl
    rw [hfirst]
    refine outcome_bind (respell_fromRange p _) fun range => ?_
    cases range with
    | none => exact congrArg Except.error (p.respell_faultWhole g _)
    | some range =>
      simp only [id, Piece.respell_rest, Piece.respell_isEmpty, Piece.respell_cut,
        Piece.respell_text, Piece.respell_faultFrom]
      exact outcome_ite rfl rfl

end SelectHead

namespace Join

theorem respell_reference (c : Cursor) :
    reference (c.respell g) =
      g.outcome (Prod.map (List.map g.char) (Cursor.respell g)) (reference c) := by
  unfold reference
  simp only [Cursor.respell_rest, g.takeWhile_map inReference_foldChar, List.isEmpty_map,
    List.length_map, Cursor.respell_jump]
  exact outcome_ite (congrArg Except.error (c.piece.respell_faultAt g _ _)) rfl

theorem respell_equality (c : Cursor) :
    equality (c.respell g) =
      g.outcome (Prod.map (List.map g.char) (List.map g.char)) (equality c) := by
  have heq : ∀ c : Cursor, (c.respell g).current ≠ '=' ↔ c.current ≠ '=' := fun c => by
    rw [Cursor.respell_current, Ne, g.char_eq_sign_iff (by decide) (by decide)]
  unfold equality
  simp only [Cursor.respell_skipBlanks]
  refine outcome_bind (respell_reference _) fun a => ?_
  simp only [Prod.map, Cursor.respell_skipBlanks, Cursor.respell_next, heq]
  refine outcome_ite (congrArg Except.error (a.2.piece.respell_faultAt g _ _)) ?_
  refine outcome_bind (respell_reference _) fun b => ?_
  simp only [Prod.map, Cursor.respell_skipBlanks, Cursor.respell_atEnd]
  exact outcome_ite (congrArg Except.error (b.2.piece.respell_faultFrom g _ _)) rfl

theorem respell_onRange (p : Piece) : onRange (p.respell g) = g.outcome id (onRange p) := by
  unfold onRange
  rw [Piece.respell_outline]
  exact p.respell_search_eq (fun s => by simp) _

theorem respell_parse (kind : JoinKind) (p : Piece) :
    parse kind (p.respell g) = g.outcome (mapChars g.char) (parse kind p) := by
  refine outcome_bind (respell_onRange p) fun range => ?_
  cases range with
  | none => exact congrArg Except.error (p.respell_faultWhole g _)
  | some range =>
    simp only [id, Piece.respell_cut, Piece.respell_isEmpty, Piece.respell_text,
      Piece.respell_faultSpan]
    refine outcome_ite rfl (outcome_bind (respell_equality ⟨p, range.2⟩) fun sides => ?_)
    simp only [Prod.map, ofList_map]
    rfl

end Join

namespace Condition

theorem respell_ofParts (p : Piece) (operator : Operator) (i j : Nat) :
    ofParts (p.respell g) operator i j = g.outcome (mapChars g.char) (ofParts p operator i j) := by
  unfold ofParts
  simp only [Piece.respell_cut, Piece.respell_rest, Piece.respell_isEmpty, Piece.respell_text,
    Piece.respell_chars, g.unquote_map, ofList_map, Piece.respell_faultWhole]
  exact outcome_ite rfl (outcome_ite rfl rfl)

theorem respell_likeRange (p : Piece) (o : Outline) :
    likeRange (p.respell g) (o.respell g) = g.outcome id (likeRange p o) :=
  p.respell_search_eq (fun s => by simp) o

theorem respell_comparisonRange (p : Piece) (o : Outline) :
    comparisonRange (p.respell g) (o.respell g) = g.outcome id (comparisonRange p o) :=
  p.respell_search_eq (fun s => by simp) o

theorem respell_parse (p : Piece) :
    parse (p.respell g) = g.outcome (mapChars g.char) (parse p) := by
  unfold parse
  simp only [Piece.respell_outline]
  refine outcome_bind (respell_likeRange p _) fun range => ?_
  cases range with
  | some range => exact respell_ofParts p _ _ _
  | none =>
    refine outcome_bind (respell_comparisonRange p _) fun range => ?_
    cases range with
    | none => exact congrArg Except.error (p.respell_faultWhole g _)
    | some range => exact respell_ofParts p _ _ _

end Condition

namespace Where

theorem respell_conditionIn (p : Piece) (i j k : Nat) :
    conditionIn (p.respell g) i j k = g.outcome (Piece.respell g) (conditionIn p i j k) := by
  unfold conditionIn
  simp only [Piece.respell_cut, Piece.respell_isEmpty, Piece.respell_faultSpan]
  exact outcome_ite rfl rfl

theorem respell_fragmentsFrom (p : Piece) (first : Nat) (sites : List Site) :
    fragmentsFrom (p.respell g) first (sites.map (Site.respell g)) =
      g.outcome (Prod.map (List.map (Piece.respell g)) id) (fragmentsFrom p first sites) := by
  have hconnector : ∀ s : Site, connector? (s.respell g) = connector? s := fun s => by
    simp [connector?]
  induction sites generalizing first with
  | nil => rfl
  | cons s r ih =>
    rw [List.map_cons, fragmentsFrom, fragmentsFrom, hconnector]
    cases connector? s with
    | none => exact ih first
    | some length =>
      exact outcome_bind (respell_conditionIn p _ _ _) fun a => outcome_bind (ih _) fun b => rfl

theorem respell_split (p : Piece) :
    split (p.respell g) = g.outcome (List.map (Piece.respell g)) (split p) := by
  unfold split
  simp only [Piece.respell_isEmpty, Piece.respell_outline, Piece.respell_length,
    Piece.respell_faultWhole]
  refine outcome_ite rfl (outcome_bind (respell_fragmentsFrom p 0 _) fun a => ?_)
  refine outcome_bind (p.respell_requireTerminated g _) fun _ => ?_
  refine outcome_bind (respell_conditionIn p _ _ _) fun b => ?_
  simp

theorem respell_parse (p : Piece) :
    parse (p.respell g) = g.outcome (List.map (Condition.mapChars g.char)) (parse p) :=
  outcome_bind (respell_split p) fun fragments => outcome_mapM Condition.respell_parse fragments

end Where

namespace SortKey

theorem respell_hasTopBlank (p : Piece) :
    hasTopBlank (p.respell g) = g.outcome id (hasTopBlank p) := by
  unfold hasTopBlank
  rw [Piece.respell_outline]
  refine outcome_bind (p.respell_search (φ := Site.respell g) (fun s => ?_) _) fun found => ?_
  · simp only [Site.respell_depth, Site.respell_char, g.isBlank_char]
    split <;> rfl
  · cases found <;> rfl

theorem respell_parseItem (p : Piece) :
    parseItem (p.respell g) = g.outcome (mapChars g.char) (parseItem p) := by
  unfold parseItem
  simp only [Piece.respell_chars, g.divide_map, Piece.respell_faultWhole, ofList_map]
  refine outcome_bind (respell_hasTopBlank ⟨(divide p.chars).1, p.start⟩) fun found => ?_
  exact outcome_ite rfl rfl

theorem respell_parse (p : Piece) :
    parse (p.respell g) = g.outcome (List.map (mapChars g.char)) (parse p) :=
  outcome_bind (ItemList.respell_split p .orderBy) fun items => outcome_mapM respell_parseItem items

end SortKey

theorem Limit.respell_parse (p : Piece) :
    Limit.parse (p.respell g) = g.outcome id (Limit.parse p) := by
  unfold Limit.parse
  rw [Piece.respell_chars, g.ofDigits?_map]
  cases Limit.ofDigits? p.chars with
  | none => exact congrArg Except.error (p.respell_faultWhole g _)
  | some n => rfl

/-! ## Queries -/

namespace SelectQuery

theorem respell_optional {α β : Type} {φ : α → β} {read : Piece → Except ParseError α}
    {read' : Piece → Except ParseError β} (h : ∀ p, read' (p.respell g) = g.outcome φ (read p))
    (body : Option Piece) :
    optional (body.map (Piece.respell g)) read' =
      g.outcome (Option.map φ) (optional body read) := by
  cases body with
  | none => rfl
  | some p =>
    simp only [Option.map_some, optional, h]
    cases read p <;> rfl

theorem respell_joinOf (c : Clauses) :
    joinOf (c.respell g) = g.outcome (Option.map (Join.mapChars g.char)) (joinOf c) := by
  unfold joinOf
  simp only [Clauses.respell]
  cases c.join with
  | none => rfl
  | some join =>
    simp only [Option.map_some, Prod.map, id, Join.respell_parse]
    cases Join.parse join.1 join.2 <;> rfl

theorem respell_ofParts (fields : List String) (table : String) (join : Option Join)
    (conditions : List Condition) (groupBy : Option (List String)) (orderBy : Option (List SortKey))
    (limit : Option UInt64) (distinct : Bool) :
    ofParts (fields.map (String.map g.char)) (table.map g.char) (join.map (Join.mapChars g.char))
        (conditions.map (Condition.mapChars g.char)) (groupBy.map (List.map (String.map g.char)))
        (orderBy.map (List.map (SortKey.mapChars g.char))) limit distinct =
      (ofParts fields table join conditions groupBy orderBy limit distinct).mapChars g.char := by
  simp only [ofParts, aggregates, Option.isNone_map, g.called_map]
  rfl

theorem respell_parse (p : Piece) :
    parse (p.respell g) = g.outcome (mapChars g.char) (parse p) := by
  refine outcome_bind (Clauses.respell_split p) fun clauses => ?_
  refine outcome_bind (SelectHead.respell_parse clauses.head) fun head => ?_
  refine outcome_bind (ItemList.respell_parse head.fields .projection) fun fields => ?_
  refine outcome_bind (respell_joinOf clauses) fun join => ?_
  refine outcome_bind (respell_optional Where.respell_parse clauses.whereRows) fun conditions => ?_
  refine outcome_bind (respell_optional (ItemList.respell_parse · .groupBy) clauses.groupBy)
    fun groupBy => ?_
  refine outcome_bind (respell_optional SortKey.respell_parse clauses.orderBy) fun orderBy => ?_
  refine outcome_bind (respell_optional Limit.respell_parse clauses.limit) fun limit => ?_
  have hconditions : (conditions.map (List.map (Condition.mapChars g.char))).getD [] =
      (conditions.getD []).map (Condition.mapChars g.char) := by
    cases conditions <;> rfl
  have h := respell_ofParts (g := g) fields head.table join (conditions.getD []) groupBy orderBy
    limit head.distinct
  rw [← hconditions] at h
  rw [Option.map_id_apply]
  exact congrArg Except.ok h

end SelectQuery

namespace InsertQuery

theorem respell_tableTo (c : Cursor) (stop : Nat) : tableTo (c.respell g) stop =
    g.outcome (Prod.map (List.map g.char) (Cursor.respell g)) (tableTo c stop) := by
  unfold tableTo
  simp only [Cursor.respell_piece, Cursor.respell_position, Piece.respell_faultAt,
    Piece.respell_slice, g.tableName_map, Cursor.respell_seek]
  exact outcome_ite rfl rfl

theorem respell_tableAt (c : Cursor) :
    tableAt (c.respell g) =
      g.outcome (Prod.map (List.map g.char) (Cursor.respell g)) (tableAt c) := by
  have ho : ∀ d, g.char d = '(' ↔ d = '(' := fun d => g.char_eq_sign_iff (by decide) (by decide)
  have hc : ∀ d, g.char d = ')' ↔ d = ')' := fun d => g.char_eq_sign_iff (by decide) (by decide)
  rw [tableAt_eq, tableAt_eq]
  simp only [Cursor.respell_piece, Cursor.respell_position, Piece.respell_outlineFrom,
    Piece.respell_length]
  refine outcome_bind (c.piece.respell_search (φ := Site.respell g) (fun s => ?_) _)
    fun ending => ?_
  · simp only [ending?, Option.guard, endsTable, Site.respell_char, g.isBlank_char, Bool.or_eq_true,
      beq_iff_eq, ho, hc]
    split <;> rfl
  · cases ending with
    | none => exact respell_tableTo c _
    | some s =>
      simp only [Option.map_some, Site.respell_char, Site.respell_index, hc, Piece.respell_faultAt]
      exact outcome_ite rfl (respell_tableTo c _)

theorem respell_enclosed (c : Cursor) (role : ListRole) :
    enclosed (c.respell g) role =
      g.outcome (Prod.map (Piece.respell g) (Cursor.respell g)) (enclosed c role) := by
  have ho : (c.respell g).current ≠ '(' ↔ c.current ≠ '(' := by
    rw [Cursor.respell_current, Ne, g.char_eq_sign_iff (by decide) (by decide)]
  have hc : ∀ d, g.char d = ')' ↔ d = ')' := fun d => g.char_eq_sign_iff (by decide) (by decide)
  unfold enclosed
  simp only [ho, Cursor.respell_piece, Cursor.respell_position, Piece.respell_outlineFrom,
    Piece.respell_faultFrom]
  refine outcome_ite rfl (outcome_bind (c.piece.respell_search_eq (fun s => ?_) _) fun close => ?_)
  · simp only [Site.respell_char, Site.respell_depth, Site.respell_index, hc]
  · cases close with
    | none => rfl
    | some i => simp [Prod.map]

theorem respell_returningColumns (c : Cursor) :
    returningColumns (c.respell g) =
      g.outcome (List.map (String.map g.char)) (returningColumns c) := by
  have hc : (c.respell g).current = ')' ↔ c.current = ')' := by
    rw [Cursor.respell_current, g.char_eq_sign_iff (by decide) (by decide)]
  unfold returningColumns
  simp only [Cursor.respell_atEnd, hc, Cursor.respell_piece, Cursor.respell_position,
    Piece.respell_faultAt, Piece.respell_faultFrom, Cursor.respell_consume?]
  refine outcome_ite rfl (outcome_ite rfl ?_)
  cases c.consume? .returning with
  | none => rfl
  | some c =>
    simp only [Option.map_some, Cursor.respell_position, Piece.respell_rest]
    refine outcome_bind (ItemList.respell_split _ _) fun items => ?_
    simp [Function.comp_def, ofList_map]

theorem respell_parse (arity : Bool) (p : Piece) :
    parse arity (p.respell g) = g.outcome (mapChars g.char) (parse arity p) := by
  unfold parse
  rw [Cursor.respell_ofPiece, Cursor.respell_consume?]
  cases (Cursor.ofPiece p).consume? .insertInto with
  | none => exact congrArg Except.error (p.respell_faultWhole g _)
  | some c =>
    simp only [Option.map_some, Cursor.respell_skipBlanks]
    refine outcome_bind (respell_tableAt _) fun table => ?_
    simp only [Prod.map, Cursor.respell_skipBlanks]
    refine outcome_bind (respell_enclosed _ _) fun columnList => ?_
    simp only [Prod.map, Cursor.respell_skipBlanks, Cursor.respell_consume?]
    cases columnList.2.skipBlanks.consume? .values with
    | none => exact congrArg Except.error (p.respell_faultFrom g _ _)
    | some c =>
      simp only [Option.map_some, Cursor.respell_skipBlanks]
      refine outcome_bind (respell_enclosed _ _) fun valueList => ?_
      simp only [Prod.map, Cursor.respell_skipBlanks]
      refine outcome_bind (respell_returningColumns _) fun returning => ?_
      refine outcome_bind (ItemList.respell_split _ _) fun columns => ?_
      refine outcome_bind (ItemList.respell_split _ _) fun values => ?_
      simp only [List.length_map, Piece.respell_faultWhole]
      refine outcome_ite rfl ?_
      simp [mapChars, Function.comp_def, ofList_map, g.unquote_map]

end InsertQuery

namespace Statement

theorem respell_unsupported (p : Piece) :
    unsupported (p.respell g) = (unsupported p).respell g := by
  simp only [unsupported, leadingLength, Piece.respell_chars, g.takeWhile_map isNameChar_foldChar,
    g.takeWhile_not_isBlank_map, List.length_map]
  exact p.respell_faultSpan g _ _ _

/-- The first word is the same in upper case, because it has no blanks. -/
theorem respell_word (cs : List Char) : ((cs.map g.char).takeWhile isNameChar).map Char.toUpper =
    (cs.takeWhile isNameChar).map Char.toUpper := by
  rw [g.takeWhile_map isNameChar_foldChar, List.map_map]
  refine List.map_congr_left fun c hc => g.toUpper_char ?_
  rw [Bool.eq_false_iff]
  intro hblank
  have hname := List.mem_takeWhile_imp hc
  rw [isNameChar_of_isBlank hblank] at hname
  cases hname

theorem respell_parse (settings : Settings) (p : Piece) :
    parse settings (p.respell g) = g.outcome (mapChars g.char) (parse settings p) := by
  unfold parse
  simp only [Piece.respell_chars, respell_word, SelectQuery.respell_parse,
    InsertQuery.respell_parse, respell_unsupported]
  refine outcome_ite ?_ (outcome_ite ?_ rfl)
  · cases SelectQuery.parse p <;> rfl
  · cases InsertQuery.parse settings.matchArity p <;> rfl

theorem respell_dropSemicolon (p : Piece) :
    dropSemicolon (p.respell g) = (dropSemicolon p).respell g := by
  have hlast : (p.chars.map g.char).getLast? = some ';' ↔ p.chars.getLast? = some ';' := by
    rw [List.getLast?_map]
    cases p.chars.getLast? with
    | none => simp
    | some c => simp [g.char_eq_sign_iff (m := ';') (by decide) (by decide)]
  simp only [dropSemicolon, Piece.respell_chars, hlast]
  split
  · rw [← List.map_dropLast, g.trimEnd_map]
    rfl
  · rfl

end Statement

/-- The join of a statement is read from the same clause. -/
theorem SelectQuery.respell_joinIn (p : Piece) : (Clauses.split (p.respell g) >>= joinOf) =
    g.outcome (Option.map (Join.mapChars g.char)) (Clauses.split p >>= joinOf) :=
  outcome_bind (Clauses.respell_split p) respell_joinOf

end TableQuery
