import TableQuery.Proofs.InsertParts
import TableQuery.Proofs.Outcome

/-!
# Refusals of `INSERT`s

Everything that reading an `INSERT` may be refused for, with the fault and the piece that make up
the error (`InsertQuery.Refusal`). The reader is followed once (`refusals_parse`); where its errors
point and of which kinds they are is then a matter of these few cases.
-/

namespace TableQuery

open Text

variable {c : Cursor}

namespace InsertQuery

/-- The errors with which the reading of a statement as an `INSERT` may end. -/
inductive Refusal (p : Piece) : ParseError → Prop
  | notInsert : Refusal p (p.faultWhole .notInsert)
  | missingTable (i : Nat) : Refusal p (p.faultAt .missingInsertTable i)
  | missingValues (i : Nat) : Refusal p (p.faultFrom .missingValues i)
  | missingOpen (role : ListRole) (i : Nat) : Refusal p (p.faultFrom (.missingOpen role) i)
  | unexpectedTail (i : Nat) : Refusal p (p.faultFrom .unexpectedTail i)
  | unterminatedLiteral (i : Nat) : Refusal p (p.faultFrom .unterminatedLiteral i)
  | unclosedOpen (i : Nat) : Refusal p (p.faultFrom .unclosedOpen i)
  | unexpectedClose (i : Nat) : Refusal p (p.faultAt .unexpectedClose i)
  /-- One of the three lists is refused. -/
  | list {role : ListRole} {e : ParseError} (i j : Nat)
      (hrole : role ∈ [.insertColumns, .insertValues, .returning])
      (he : ItemList.split (p.cut i j) role = .error e) : Refusal p e
  /-- The list of values is refused for the number of its values. -/
  | arity (i j columns values : Nat) : Refusal p ((p.cut i j).faultWhole (.arity columns values))

theorem piece_of_consume? {c' : Cursor} {k : Keyword} (h : c.consume? k = some c') :
    c'.piece = c.piece := by
  obtain ⟨n, -, rfl⟩ := Option.map_eq_some_iff.1 h
  rfl

theorem refusals_search {α : Type} (o : Outline) (f : Site → Option α) :
    Yields (Refusal c.piece) (fun _ => True) (c.piece.search o f) :=
  (Piece.yields_search fun i _ => .unterminatedLiteral i).mono (fun _ h => h) fun _ _ => trivial

theorem refusals_tableAt : Yields (Refusal c.piece) (fun a => a.2.piece = c.piece) (tableAt c) := by
  have hto : ∀ stop, Yields (Refusal c.piece) (fun a => a.2.piece = c.piece) (tableTo c stop) := by
    intro stop
    unfold tableTo
    split
    · exact .error (.missingTable _)
    · exact .ok rfl
  rw [tableAt_eq]
  refine (refusals_search _ _).bind fun ending _ => ?_
  cases ending with
  | none => exact hto _
  | some s =>
    dsimp only
    split
    · exact .error (.unexpectedClose _)
    · exact hto _

theorem refusals_enclosed (role : ListRole) :
    Yields (Refusal c.piece) (fun a => (∃ i j, a.1 = c.piece.cut i j) ∧ a.2.piece = c.piece)
      (enclosed c role) := by
  unfold enclosed
  dsimp only
  split
  · exact .error (.missingOpen role _)
  · refine (refusals_search _ _).bind fun close _ => ?_
    split
    · exact .error (.unclosedOpen _)
    · exact .ok ⟨⟨_, _, rfl⟩, rfl⟩

theorem refusals_list {p : Piece} {role : ListRole}
    (hrole : role ∈ [.insertColumns, .insertValues, .returning]) (i j : Nat) :
    Yields (Refusal p) (fun _ => True) (ItemList.split (p.cut i j) role) :=
  .of_forall (fun _ => .list i j hrole) fun _ _ => trivial

theorem refusals_returningColumns :
    Yields (Refusal c.piece) (fun _ => True) (returningColumns c) := by
  unfold returningColumns
  dsimp only
  split
  · exact .ok trivial
  · split
    · exact .error (.unexpectedClose _)
    · split
      · exact (refusals_list (by decide) _ _).bind fun _ _ => .ok trivial
      · exact .error (.unexpectedTail _)

/-- An `INSERT` is refused only for what `Refusal` lists. -/
theorem refusals_parse (arity : Bool) (p : Piece) :
    Yields (Refusal p) (fun _ => True) (parse arity p) := by
  unfold parse
  split
  · rename_i c hc
    -- every cursor behind the first keyword stands in the statement
    have hpiece : c.skipBlanks.piece = p := by
      rw [Cursor.skipBlanks_piece, piece_of_consume? hc]
      rfl
    generalize c.skipBlanks = c at hpiece
    subst hpiece
    refine refusals_tableAt.bind ?_
    rintro ⟨table, c₁⟩ hc₁
    have hpiece₁ : c₁.skipBlanks.piece = c.piece := by rw [Cursor.skipBlanks_piece, hc₁]
    have hcolumns := refusals_enclosed (c := c₁.skipBlanks) .insertColumns
    rw [hpiece₁] at hcolumns
    refine hcolumns.bind ?_
    rintro ⟨columnList, c₂⟩ ⟨⟨i, j, rfl⟩, hc₂⟩
    dsimp only at hc₂ ⊢
    split
    · rename_i c₃ hc₃
      have hpiece₃ : c₃.skipBlanks.piece = c.piece := by
        rw [Cursor.skipBlanks_piece, piece_of_consume? hc₃, Cursor.skipBlanks_piece, hc₂]
      have hvalues := refusals_enclosed (c := c₃.skipBlanks) .insertValues
      rw [hpiece₃] at hvalues
      refine hvalues.bind ?_
      rintro ⟨valueList, c₄⟩ ⟨⟨i', j', rfl⟩, hc₄⟩
      dsimp only at hc₄ ⊢
      have hreturning := refusals_returningColumns (c := c₄.skipBlanks)
      rw [Cursor.skipBlanks_piece, hc₄] at hreturning
      refine hreturning.bind fun _ _ => ?_
      refine (refusals_list (by decide) i j).bind fun _ _ => ?_
      refine (refusals_list (by decide) i' j').bind fun _ _ => ?_
      split
      · exact .error (.arity i' j' _ _)
      · exact .ok trivial
    · exact .error (.missingValues _)
  · exact .error .notInsert

end InsertQuery

end TableQuery
