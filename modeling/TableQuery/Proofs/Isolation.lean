import TableQuery.Proofs.Search
import TableQuery.Statement

/-!
# Isolated statements

What is left of a text once its blanks and its semicolon are taken off: a tight text without a
semicolon at its end is left as it is (`isolate_of_tight`), and one with a semicolon loses it
together with the blanks in front of it (`isolate_of_semicolon`). The limit on a text counts its
bytes (`byteLength_toList`).
-/

namespace TableQuery.Text

theorem utf8ByteSize_ofList (cs : List Char) : (String.ofList cs).utf8ByteSize = byteLength cs := by
  induction cs with
  | nil => rfl
  | cons c cs ih =>
    have e : String.ofList (c :: cs) = String.singleton c ++ String.ofList cs := by
      rw [String.singleton_eq_ofList, ← String.ofList_append]
      rfl
    rw [e, String.utf8ByteSize_append, String.utf8ByteSize_singleton, ih, byteLength_cons]

theorem byteLength_toList (text : String) : byteLength text.toList = text.utf8ByteSize := by
  rw [← utf8ByteSize_ofList, String.ofList_toList]

end TableQuery.Text

namespace TableQuery.Statement

open Text

theorem isolate_eq_ok_iff {settings : Settings} {text : String} {p : Piece} :
    isolate settings text = .ok p ↔ byteLength text.toList ≤ settings.maxLength ∧
      p = dropSemicolon ((Piece.ofString text 0).rest 0) := by
  have hchars : (Piece.ofString text 0).chars = text.toList := rfl
  rw [isolate, hchars]
  split
  · rename_i h
    constructor
    · intro h'
      cases h'
    · intro h'
      omega
  · rename_i h
    constructor
    · intro h'
      cases h'
      exact ⟨by omega, rfl⟩
    · rintro ⟨-, rfl⟩
      rfl

theorem chars_rest_ofString (text : String) :
    ((Piece.ofString text 0).rest 0).chars = trim text.toList :=
  Piece.rest_of_eq (u := []) rfl rfl

theorem isolate_of_tight {settings : Settings} {text : String} {p : Piece}
    (ht : Tight text.toList) (hl : text.toList.getLast? ≠ some ';')
    (h : isolate settings text = .ok p) : p.chars = text.toList := by
  obtain ⟨-, rfl⟩ := isolate_eq_ok_iff.1 h
  have hchars := chars_rest_ofString text
  rw [trim_eq_self ht] at hchars
  rw [dropSemicolon, if_neg (by rw [hchars]; exact hl), hchars]

theorem isolate_of_semicolon {settings : Settings} {text : String} {x : List Char} {p : Piece}
    (ht : Tight text.toList) (e : text.toList = x ++ [';']) (h : isolate settings text = .ok p) :
    p.chars = trimEnd x := by
  obtain ⟨-, rfl⟩ := isolate_eq_ok_iff.1 h
  have hchars := chars_rest_ofString text
  rw [trim_eq_self ht, e] at hchars
  have hlast : ((Piece.ofString text 0).rest 0).chars.getLast? = some ';' := by
    rw [hchars, List.getLast?_concat]
  rw [dropSemicolon, if_pos hlast]
  dsimp only
  rw [hchars, List.dropLast_concat]

/-- What is left of a text is a stretch of it. -/
theorem exists_of_isolate {settings : Settings} {text : String} {p : Piece}
    (h : isolate settings text = .ok p) :
    ∃ pre post, text.toList = pre ++ (p.chars ++ post) ∧ Blank pre ∧
      ((Blank post ∧ p.chars.getLast? ≠ some ';') ∨
        ∃ b b', post = b ++ ';' :: b' ∧ Blank b ∧ Blank b') := by
  obtain ⟨-, rfl⟩ := isolate_eq_ok_iff.1 h
  obtain ⟨pre, post, hpre, hpost, e⟩ := exists_blank_trim_blank text.toList
  have hchars := chars_rest_ofString text
  rw [dropSemicolon, hchars]
  split
  · rename_i hlast
    obtain ⟨x, hx⟩ := List.getLast?_eq_some_iff.1 hlast
    obtain ⟨b, hb, hxb⟩ := exists_trimEnd_blank x
    refine ⟨pre, b ++ ';' :: post, ?_, hpre, .inr ⟨b, post, rfl, hb, hpost⟩⟩
    dsimp only
    rw [hx, List.dropLast_concat, ← List.append_assoc (trimEnd x), ← hxb, e, hx]
    simp
  · rename_i hlast
    rw [hchars]
    exact ⟨pre, post, e, hpre, .inl ⟨hpost, hlast⟩⟩

/-- A text within the limit is isolated. -/
theorem exists_isolate {settings : Settings} {text : String}
    (h : byteLength text.toList ≤ settings.maxLength) : ∃ p, isolate settings text = .ok p :=
  ⟨_, isolate_eq_ok_iff.2 ⟨h, rfl⟩⟩

end TableQuery.Statement
