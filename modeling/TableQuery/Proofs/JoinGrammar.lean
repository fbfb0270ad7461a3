import TableQuery.Proofs.ErrorKinds
import TableQuery.Proofs.WordPlaces

/-!
# The grammar of a join

The body of a join is `<table> ON <left> = <right>`. A `Layout` is a text taken apart in this way,
with the gaps between the parts, and it is `Grammatical` if its `ON` is the first one outside
literals and its parts are what they have to be. A body is read exactly if it has a grammatical
layout, and the join holds the parts of it; any other body whose literals end is refused as a
malformed join (`Join.parse_iff_layout`).
-/

namespace TableQuery.Join

open Text Outline

/-- The body of a join, taken apart. -/
structure Layout where
  table : List Char
  keyword : List Char
  gap₁ : List Char
  left : List Char
  gap₂ : List Char
  gap₃ : List Char
  right : List Char
  gap₄ : List Char

/-- `ON` stands in the text `x` right behind `u`, in the spelling `k`: outside literals, behind a
blank, and in front of a blank or at the end. -/
def OnAt (x u k : List Char) : Prop :=
  WordAt Skimmed ['O', 'N'] x u k

namespace Layout

/-- What stands behind the `ON`. -/
def equality (t : Layout) : List Char :=
  t.gap₁ ++ (t.left ++ (t.gap₂ ++ '=' :: (t.gap₃ ++ (t.right ++ t.gap₄))))

/-- The text that is laid out. -/
def chars (t : Layout) : List Char :=
  t.table ++ (t.keyword ++ t.equality)

/-- A table that is not blank, the first `ON`, and an equality of two references, with blanks in the
gaps. -/
structure Grammatical (t : Layout) : Prop where
  keyword : OnAt t.chars t.table t.keyword
  first : ∀ u k, OnAt t.chars u k → t.table.length ≤ u.length
  table : ¬Blank t.table
  spaced : t.gap₁ ≠ []
  gaps : Blank t.gap₁ ∧ Blank t.gap₂ ∧ Blank t.gap₃ ∧ Blank t.gap₄
  left : IsReference t.left
  right : IsReference t.right

/-- The join that is laid out. -/
def join (kind : JoinKind) (t : Layout) : Join :=
  ⟨kind, String.ofList (trim t.table), String.ofList t.left, String.ofList t.right⟩

end Layout

theorem onRange_eq_some_iff_first {body : Piece} {i j : Nat} :
    onRange body = .ok (some (i, j)) ↔
      ∃ u k, OnAt body.chars u k ∧ (∀ u' k', OnAt body.chars u' k' → u.length ≤ u'.length) ∧
        i = u.length ∧ j = u.length + k.length :=
  Keyword.search_eq_some_iff_first rfl rfl

/-- Blanks stand between a keyword and a reference if blanks or nothing follow the keyword. -/
theorem ne_nil_of_spaced {g l y : List Char} (hl : IsReference l)
    (h : ∀ c ∈ (g ++ (l ++ y)).head?, isBlank c = true) : g ≠ [] := by
  rintro rfl
  obtain ⟨c, l, rfl⟩ := List.exists_cons_of_ne_nil hl.1
  have hc := isBlank_of_inReference (hl.2 c List.mem_cons_self)
  rw [h c rfl] at hc
  cases hc

/-- A body that is read has a layout, whose parts the join holds. -/
theorem exists_layout_of_parse {kind : JoinKind} {body : Piece} {j : Join}
    (h : parse kind body = .ok j) :
    ∃ t : Layout, t.chars = body.chars ∧ t.Grammatical ∧ j = t.join kind := by
  obtain ⟨hkind, _, _, hrange, hne, htable, he⟩ := parse_eq_ok_iff.1 h
  obtain ⟨u, k, hon, hfirst, rfl, rfl⟩ := onRange_eq_some_iff_first.1 hrange
  obtain ⟨hleft, hright, g₁, g₂, g₃, g₄, hgaps, hrest⟩ := equality_eq_ok_iff.1 he
  obtain ⟨y, hy, hspaced⟩ := hon.2.2.2
  rw [Cursor.rest_of_eq (u := u ++ k) (by rw [hy, List.append_assoc])
    List.length_append.symm] at hrest
  subst hrest
  rw [Piece.cut_front_of_eq hy rfl] at hne htable
  rw [hy] at hon hfirst
  refine ⟨⟨u, k, g₁, j.left.toList, g₂, g₃, j.right.toList, g₄⟩, hy.symm, ?_, ?_⟩
  · exact {
      keyword := hon
      first := hfirst
      table := mt trim_eq_nil_iff.2 hne
      spaced := ne_nil_of_spaced hleft hspaced
      gaps := hgaps
      left := hleft
      right := hright }
  · rw [Layout.join, ← htable, String.ofList_toList, String.ofList_toList,
      String.ofList_toList, ← hkind]

/-- A body with a layout is read, and the join holds the parts. -/
theorem parse_of_layout {kind : JoinKind} {body : Piece} {t : Layout} (e : t.chars = body.chars)
    (ht : t.Grammatical) : parse kind body = .ok (t.join kind) := by
  have htext : body.chars = t.table ++ (t.keyword ++ t.equality) := e.symm
  have hcut : (body.cut 0 t.table.length).chars = trim t.table := Piece.cut_front_of_eq htext rfl
  have hon : onRange body = .ok (some (t.table.length, t.table.length + t.keyword.length)) :=
    onRange_eq_some_iff_first.2 ⟨t.table, t.keyword, e ▸ ht.keyword, e ▸ ht.first, rfl, rfl⟩
  refine parse_eq_ok_iff.2 ⟨rfl, _, _, hon, ?_, ?_, ?_⟩
  · rw [hcut]
    exact mt trim_eq_nil_iff.1 ht.table
  · rw [hcut]
    exact String.toList_ofList
  · rw [Layout.join, String.toList_ofList, String.toList_ofList]
    refine equality_eq_ok_iff.2 ⟨ht.left, ht.right, t.gap₁, t.gap₂, t.gap₃, t.gap₄, ht.gaps, ?_⟩
    exact Cursor.rest_of_eq (u := t.table ++ t.keyword) (by rw [htext, List.append_assoc]; rfl)
      List.length_append.symm

/-- The body of a join is read exactly if it is a table that is not blank, the first `ON` outside
literals and between blanks, and an equality of two references, with blanks in the gaps; the join
then holds the table, trimmed, and the references. Every other body whose literals end is refused as
a malformed join. -/
theorem parse_iff_layout (kind : JoinKind) (body : Piece) :
    (∀ j, parse kind body = .ok j ↔
      ∃ t : Layout, t.chars = body.chars ∧ t.Grammatical ∧ j = t.join kind) ∧
    (Skimmed body.chars → (¬∃ t : Layout, t.chars = body.chars ∧ t.Grammatical) →
      ∃ e, parse kind body = .error e ∧ e.kind = .malformedJoin) := by
  refine ⟨fun j => ⟨exists_layout_of_parse, ?_⟩, fun hskim hnone => ?_⟩
  · rintro ⟨t, e, ht, rfl⟩
    exact parse_of_layout e ht
  · have hterm : body.outline.unterminated? = none := by
      rw [Piece.outline_eq]
      exact skimmed_iff.1 hskim
    cases hp : parse kind body with
    | error e => exact ⟨e, rfl, (kinds_parse_of_terminated hterm kind).of_error hp⟩
    | ok j =>
      obtain ⟨t, e, ht, -⟩ := exists_layout_of_parse hp
      exact absurd ⟨t, e, ht⟩ hnone

/-- A join whose table holds an `ON` inside a literal and one inside a name. -/
def quotedOn : Piece :=
  .ofString "\"a ON b\" on_c\tOn  l.x =r.y " 20

/-- A join with a second condition. -/
def twoConditions : Piece :=
  .ofString "t ON a = b AND c = d" 20

theorem parse_iff_layout_quoted_on :
    (∃ t : Layout, t.chars = quotedOn.chars ∧ t.Grammatical ∧
      t.join .left = ⟨.left, "\"a ON b\" on_c", "l.x", "r.y"⟩) ∧
    Skimmed twoConditions.chars ∧ (¬∃ t : Layout, t.chars = twoConditions.chars ∧ t.Grammatical) ∧
    ∃ e, parse .inner twoConditions = .error e ∧ e.kind = .malformedJoin := by
  have hread : parse .left quotedOn = .ok ⟨.left, "\"a ON b\" on_c", "l.x", "r.y"⟩ := by
    decide +kernel
  have hrefused : (parse .inner twoConditions).isOk = false := by decide +kernel
  have hskim : Skimmed twoConditions.chars := skimmed_iff.2 (by decide +kernel)
  obtain ⟨t, e, ht, hjoin⟩ := ((parse_iff_layout .left quotedOn).1 _).1 hread
  have hnone : ¬∃ t : Layout, t.chars = twoConditions.chars ∧ t.Grammatical := by
    rintro ⟨t, e, ht⟩
    rw [((parse_iff_layout .inner twoConditions).1 _).2 ⟨t, e, ht, rfl⟩] at hrefused
    cases hrefused
  exact ⟨⟨t, e, ht, hjoin.symm⟩, hskim, hnone,
    (parse_iff_layout .inner twoConditions).2 hskim hnone⟩

end TableQuery.Join
