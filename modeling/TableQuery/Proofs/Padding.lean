import TableQuery.Proofs.Isolation
import TableQuery.Proofs.Relocation

/-!
# Blanks around a statement

Blanks around a statement, and one semicolon behind it with blanks on either side, are taken off
before it is read. What is left starts as many bytes further on as the blanks in front take
(`isolate_padded`), and no reader looks at where its statement starts except to report a range: the
result is that of the bare statement, and a refusal is moved on by these bytes (`ofText_padded`).
-/

namespace TableQuery

open Text Respelling

/-! ## What is isolated -/

namespace Statement

theorem rest_ofString (text : String) :
    (Piece.ofString text 0).rest 0 =
      ⟨trim text.toList, byteLength (text.toList.takeWhile isBlank)⟩ := by
  have hslice : (Piece.ofString text 0).slice 0 (Piece.ofString text 0).length = text.toList :=
    Piece.slice_zero_length _
  have hoffset : ∀ i, (Piece.ofString text 0).byteOffset i = byteLength (text.toList.take i) := by
    intro i
    rw [Piece.byteOffset_eq]
    exact Nat.zero_add _
  have htake :
      text.toList.takeWhile isBlank = text.toList.take (text.toList.takeWhile isBlank).length :=
    List.prefix_iff_eq_take.1 (List.takeWhile_prefix _)
  simp only [Piece.rest, Piece.cut, hslice, Nat.zero_min, Nat.zero_add, hoffset, ← htake]

/-- What may stand behind a statement: blanks, or a semicolon between blanks. -/
def Trailer (z : List Char) : Prop :=
  Blank z ∨ ∃ b b', z = b ++ ';' :: b' ∧ Blank b ∧ Blank b'

theorem isolate_padded {settings : Settings} {text : String} {w t z : List Char}
    (e : text.toList = w ++ (t ++ z)) (hw : Blank w) (ht : Tight t) (hne : t ≠ [])
    (hlast : t.getLast? ≠ some ';') (hz : Trailer z)
    (hl : byteLength text.toList ≤ settings.maxLength) :
    isolate settings text = .ok ⟨t, byteLength w⟩ := by
  have hfront : text.toList.takeWhile isBlank = w := by
    obtain ⟨c, r, rfl⟩ := List.exists_cons_of_ne_nil hne
    rw [e, List.takeWhile_append_of_pos hw, List.cons_append,
      List.takeWhile_cons_of_neg (by rw [ht.head c rfl]; decide), List.append_nil]
  refine isolate_eq_ok_iff.2 ⟨hl, ?_⟩
  rw [rest_ofString, hfront, e]
  rcases hz with hz | ⟨b, b', rfl, hb, hb'⟩
  · rw [trim_blank_append_blank hw hz ht, dropSemicolon, if_neg hlast]
  · have htight : Tight (t ++ (b ++ [';'])) :=
      tight_append hne (by simp) ht.head (by simp; decide)
    have hassoc : t ++ (b ++ ';' :: b') = (t ++ (b ++ [';'])) ++ b' := by simp
    rw [hassoc, trim_blank_append_blank hw hb' htight, dropSemicolon, if_pos (by simp)]
    rw [← List.append_assoc]
    dsimp only
    rw [List.dropLast_concat, trimEnd_append_blank hb, trimEnd_eq_self ht.last]

end Statement

/-! ## Results with the same characters -/

theorem SelectQuery.mapChars_shift {n : Nat} : mapChars (shift n).char = id := by
  funext q
  simp [mapChars, map_string_id, Join.mapChars_shift, Condition.mapChars_shift,
    SortKey.mapChars_shift]

theorem InsertQuery.mapChars_shift {n : Nat} : mapChars (shift n).char = id := by
  funext q
  simp [mapChars, map_string_id]

theorem Statement.mapChars_shift {n : Nat} : mapChars (shift n).char = id := by
  funext s
  cases s with
  | select q => rw [mapChars, SelectQuery.mapChars_shift]; rfl
  | insert q => rw [mapChars, InsertQuery.mapChars_shift]; rfl

/-- An outcome without texts to change. -/
theorem outcome_shift {α : Type} (n : Nat) (x : Except ParseError α) :
    (shift n).outcome id x = x.mapError (ParseError.shift n) := by
  cases x with
  | error e => exact congrArg Except.error e.respell_shift
  | ok a => rfl

/-! ## What is read -/

/-- A reader of statements that follows respellings reads a padded text as the bare one. -/
theorem read_padded {α : Type} {settings : Settings} {text t : String} {w z : List Char}
    {read : Piece → Except ParseError α}
    (h : ∀ n p, read (p.respell (shift n)) = (shift n).outcome id (read p))
    (e : text.toList = w ++ (t.toList ++ z)) (hw : Blank w) (ht : Tight t.toList)
    (hne : t.toList ≠ []) (hlast : t.toList.getLast? ≠ some ';') (hz : Statement.Trailer z)
    (hl : byteLength text.toList ≤ settings.maxLength) :
    (Statement.isolate settings text >>= read) =
      (Statement.isolate settings t >>= read).mapError (ParseError.shift (byteLength w)) := by
  have hlt : byteLength t.toList ≤ settings.maxLength := by
    rw [e, byteLength_append, byteLength_append] at hl
    omega
  have hbare := Statement.isolate_padded (w := []) (z := []) (by simp) blank_nil ht hne hlast
    (.inl blank_nil) hlt
  rw [Statement.isolate_padded e hw ht hne hlast hz hl, hbare]
  have hmoved :
      Piece.mk t.toList (byteLength w) = (Piece.mk t.toList 0).respell (shift (byteLength w)) := by
    rw [Piece.respell_shift, Piece.relocate, Nat.zero_add]
  change read ⟨t.toList, byteLength w⟩ = (read ⟨t.toList, 0⟩).mapError _
  rw [hmoved, h, outcome_shift]

/-- Blanks around a statement and a semicolon behind it only move the ranges of refusals. -/
theorem ofText_padded (settings : Settings) (t w₁ w₂ w₃ : String) (ht : Tight t.toList)
    (hne : t ≠ "") (hlast : t.toList.getLast? ≠ some ';') (h₁ : Blank w₁.toList)
    (h₂ : Blank w₂.toList) (h₃ : Blank w₃.toList) (text : String)
    (htext : text = w₁ ++ t ++ w₂ ∨ text = w₁ ++ t ++ w₂ ++ ";" ++ w₃)
    (hl : text.utf8ByteSize ≤ settings.maxLength) :
    SelectQuery.ofText settings text =
        (SelectQuery.ofText settings t).mapError (ParseError.shift w₁.utf8ByteSize) ∧
      InsertQuery.ofText settings text =
        (InsertQuery.ofText settings t).mapError (ParseError.shift w₁.utf8ByteSize) ∧
      Join.ofText settings text =
        (Join.ofText settings t).mapError (ParseError.shift w₁.utf8ByteSize) ∧
      Statement.ofText settings text =
        (Statement.ofText settings t).mapError (ParseError.shift w₁.utf8ByteSize) := by
  obtain ⟨z, e, hz⟩ : ∃ z, text.toList = w₁.toList ++ (t.toList ++ z) ∧ Statement.Trailer z := by
    rcases htext with rfl | rfl
    · exact ⟨w₂.toList, by simp, .inl h₂⟩
    · exact ⟨w₂.toList ++ ';' :: w₃.toList, by simp, .inr ⟨_, _, rfl, h₂, h₃⟩⟩
  have hne' : t.toList ≠ [] := by simpa using hne
  rw [← byteLength_toList] at hl
  rw [← byteLength_toList w₁]
  refine ⟨?_, ?_, ?_, ?_⟩
  · refine read_padded (fun n p => ?_) e h₁ ht hne' hlast hz hl
    rw [SelectQuery.respell_parse, SelectQuery.mapChars_shift]
  · refine read_padded (fun n p => ?_) e h₁ ht hne' hlast hz hl
    rw [InsertQuery.respell_parse, InsertQuery.mapChars_shift]
  · refine read_padded (fun n p => ?_) e h₁ ht hne' hlast hz hl
    rw [SelectQuery.respell_joinIn, Join.mapChars_shift, Option.map_id_fun]
  · refine read_padded (fun n p => ?_) e h₁ ht hne' hlast hz hl
    rw [Statement.respell_parse, Statement.mapChars_shift]

/-- The blanks in front of the statement take four bytes. -/
theorem ofText_padded_limit :
    Tight "SELECT a FROM t LIMIT x".toList ∧ "SELECT a FROM t LIMIT x".toList.getLast? ≠ some ';' ∧
      Blank "\u2003\t".toList ∧ Blank "\n".toList ∧ Blank "\u00a0".toList ∧
      Statement.ofText {} "\u2003\tSELECT a FROM t LIMIT x\n;\u00a0" =
        .error ⟨.invalidLimit, "Expected a non-negative integer after LIMIT", "x", 26, 27⟩ := by
  have ht : Tight "SELECT a FROM t LIMIT x".toList := by decide
  have hlast : "SELECT a FROM t LIMIT x".toList.getLast? ≠ some ';' := by decide
  have h₁ : Blank "\u2003\t".toList := by decide
  have h₂ : Blank "\n".toList := by decide
  have h₃ : Blank "\u00a0".toList := by decide
  refine ⟨ht, hlast, h₁, h₂, h₃, ?_⟩
  have hbare : Statement.ofText {} "SELECT a FROM t LIMIT x" =
      .error ⟨.invalidLimit, "Expected a non-negative integer after LIMIT", "x", 22, 23⟩ := by rfl
  have h := ofText_padded {} "SELECT a FROM t LIMIT x" "\u2003\t" "\n" "\u00a0" ht (by decide)
    hlast h₁ h₂ h₃ "\u2003\tSELECT a FROM t LIMIT x\n;\u00a0" (.inr (by decide)) (by decide)
  rw [h.2.2.2, hbare]
  rfl

end TableQuery
