import TableQuery.Proofs.RespelledReaders

/-!
# Case and blanks do not matter

Of a text in which the ASCII letters are brought into upper case and each of U+0009 to U+000D is
replaced by a space, every reader makes what it makes of the text itself, up to the same change in
each string of the result or of the refusal (`ofText_map_foldChar`). Literals are no exception:
their content is folded with the rest of the text, and so are the names and values that are taken
from it.
-/

namespace TableQuery

open Text Respelling

/-- The refusal with `f` applied to every character of the text it shows. -/
def ParseError.mapChars (f : Char → Char) (e : ParseError) : ParseError :=
  { e with text := e.text.map f }

/-- The limit on the length and the blanks and the semicolon around a statement are seen alike. -/
theorem Statement.isolate_map_foldChar (settings : Settings) (text : String) :
    isolate settings (text.map foldChar) =
      fold.outcome (Piece.respell fold) (isolate settings text) := by
  have hwhole : Piece.ofString (text.map foldChar) 0 = (Piece.ofString text 0).respell fold :=
    congrArg (Piece.mk · 0) String.toList_map
  have hlength : byteLength ((Piece.ofString text 0).respell fold).chars =
      byteLength (Piece.ofString text 0).chars :=
    fold.byteLength_map _
  unfold isolate
  simp only [hwhole, hlength, Piece.respell_rest, respell_dropSemicolon]
  refine outcome_ite ?_ rfl
  have hempty : "".map fold.char = "" := by
    rw [← String.toList_inj, String.toList_map]
    rfl
  simp only [outcome_error, ParseError.respell, tooLong, hempty]
  rfl

/-- All four readers follow a change of case and of blanks. -/
theorem ofText_map_foldChar (settings : Settings) (text : String) :
    SelectQuery.ofText settings (text.map foldChar) =
        ((SelectQuery.ofText settings text).map (SelectQuery.mapChars foldChar)).mapError
          (ParseError.mapChars foldChar) ∧
      InsertQuery.ofText settings (text.map foldChar) =
        ((InsertQuery.ofText settings text).map (InsertQuery.mapChars foldChar)).mapError
          (ParseError.mapChars foldChar) ∧
      Join.ofText settings (text.map foldChar) =
        ((Join.ofText settings text).map (Option.map (Join.mapChars foldChar))).mapError
          (ParseError.mapChars foldChar) ∧
      Statement.ofText settings (text.map foldChar) =
        ((Statement.ofText settings text).map (Statement.mapChars foldChar)).mapError
          (ParseError.mapChars foldChar) := by
  have hisolate := Statement.isolate_map_foldChar settings text
  refine ⟨?_, ?_, ?_, ?_⟩
  · exact outcome_bind hisolate SelectQuery.respell_parse
  · exact outcome_bind hisolate (InsertQuery.respell_parse settings.matchArity)
  · exact outcome_bind hisolate SelectQuery.respell_joinIn
  · exact outcome_bind hisolate (Statement.respell_parse settings)

end TableQuery
