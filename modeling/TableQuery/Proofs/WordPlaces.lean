import TableQuery.Proofs.Scan
import TableQuery.Proofs.Spelling

/-!
# Words in a text

A keyword of one word is looked for by a walk over the text, which knows at each character whether
it stands outside literals, how many parentheses are open and which character came before. Here the
places where it is found are described by the text in front of them: `WordAt Front w x u k` says
that a word stands right behind `u` in the text `x`, where `Front u` says what the front has to be,
one whose literals end (`Skimmed`) or one that is balanced too (`Scanned 0`). These are the places
at which the walk answers (`Keyword.answersAt_iff`, `Keyword.answersAt_top_iff`). A keyword at the
front of a text, which a blank has to follow, is described by `StartsWith`
(`Keyword.match?_eq_some_iff_startsWith`).
-/

namespace TableQuery

open Text Outline

/-- The word `w` stands in the text `x` right behind `u`, in the spelling `k`: behind a front of the
given kind that ends in a blank, and in front of a blank or at the end. -/
def WordAt (Front : List Char → Prop) (w x u k : List Char) : Prop :=
  Front u ∧ (∃ c ∈ u.getLast?, isBlank c = true) ∧ k.map Char.toUpper = w ∧
    ∃ y, x = u ++ (k ++ y) ∧ ∀ c ∈ y.head?, isBlank c = true

/-- The text `x` starts with the word `w` in the spelling `k`, and a blank follows. -/
def StartsWith (w x k : List Char) : Prop :=
  k.map Char.toUpper = w ∧ ∃ y, x = k ++ y ∧ ∃ c ∈ y.head?, isBlank c = true

/-- A spelling of a word is neither empty nor has quotes or parentheses. -/
theorem Spelling.IsWord.plain {w k : List Char} (hw : IsWord w) (hk : k.map Char.toUpper = w) :
    k ≠ [] ∧ Plain k := by
  constructor
  · rintro rfl
    exact hw.1 hk.symm
  · intro c hc
    exact plain_of_toUpper (hw.2 _ (hk ▸ List.mem_map_of_mem hc))

namespace Keyword

variable {k : Keyword} {w x u : List Char} {n : Nat}

theorem isWord_of_words_eq (hk : k.spelling.words = [w]) : Spelling.IsWord w :=
  k.isWord_of_mem_words w (by rw [hk]; exact List.mem_cons_self)

/-- The walk answers where the word stands outside literals. -/
theorem answersAt_iff (hk : k.spelling.words = [w]) (hend : k.canEnd = true) :
    AnswersAt (·.keyword? k) x u n ↔ ∃ v, WordAt Skimmed w x u v ∧ n = v.length := by
  constructor
  · rintro ⟨c, r, rfl, ho, hf⟩
    obtain ⟨hb, v, y, e, hv, rfl, hy⟩ := (keyword?_site_iff hk hend).1 hf
    exact ⟨v, ⟨(isOutside_start_iff.1 ho).1, hb, hv, y, by rw [e], hy⟩, rfl⟩
  · rintro ⟨v, ⟨hu, hb, hv, y, rfl, hy⟩, rfl⟩
    obtain ⟨hne, hplain⟩ := (isWord_of_words_eq hk).plain hv
    obtain ⟨c, v, rfl⟩ := List.exists_cons_of_ne_nil hne
    refine ⟨c, v ++ y, rfl, isOutside_start_iff.2 ⟨hu, (hplain c List.mem_cons_self).1⟩, ?_⟩
    exact (keyword?_site_iff hk hend).2 ⟨hb, c :: v, y, rfl, hv, rfl, hy⟩

/-- The search for a word outside literals finds the first one. -/
theorem search_eq_some_iff_first {p : Piece} (hk : k.spelling.words = [w]) (hend : k.canEnd = true)
    {i j : Nat} :
    p.search p.outline (fun s => (s.keyword? k).map fun n => (s.index, s.index + n)) =
        .ok (some (i, j)) ↔
      ∃ u v, WordAt Skimmed w p.chars u v ∧
        (∀ u' v', WordAt Skimmed w p.chars u' v' → u.length ≤ u'.length) ∧
        i = u.length ∧ j = u.length + v.length := by
  have hword : ∀ u n, AnswersAt (·.keyword? k) p.chars u n ↔
      ∃ v, WordAt Skimmed w p.chars u v ∧ n = v.length :=
    fun u n => answersAt_iff hk hend
  rw [Piece.outline_eq, Piece.search_range_iff]
  simp only [Place.start, Nat.zero_add]
  constructor
  · rintro ⟨u, c, r, n, e, hf, rfl, rfl⟩
    obtain ⟨v, hv, rfl, hfirst⟩ := (exists_firstAt_iff_of hword).1 ⟨c, r, e, hf⟩
    exact ⟨u, v, hv, hfirst, rfl, rfl⟩
  · rintro ⟨u, v, hv, hfirst, rfl, rfl⟩
    obtain ⟨c, r, e, hf⟩ := (exists_firstAt_iff_of hword).2 ⟨v, hv, rfl, hfirst⟩
    exact ⟨u, c, r, _, e, hf, rfl, rfl⟩

/-- In a balanced text, the walk answers outside parentheses where the word stands behind a balanced
front. -/
theorem answersAt_top_iff (hk : k.spelling.words = [w]) (hend : k.canEnd = true) (hx : Balanced x) :
    AnswersAt (·.topKeyword? k) x u n ↔ ∃ v, WordAt (Scanned 0) w x u v ∧ n = v.length := by
  constructor
  · rintro ⟨c, r, rfl, ho, hf⟩
    obtain ⟨hd, hb, v, y, e, hv, rfl, hy⟩ := (topKeyword?_site_iff hk hend).1 hf
    have hu : Balanced u := hx.left (seam_of_isOutside ho hd)
    exact ⟨v, ⟨scanned_iff_balanced.2 hu, hb, hv, y, by rw [e], hy⟩, rfl⟩
  · rintro ⟨v, ⟨hu, hb, hv, y, rfl, hy⟩, rfl⟩
    obtain ⟨hne, hplain⟩ := (isWord_of_words_eq hk).plain hv
    obtain ⟨c, v, rfl⟩ := List.exists_cons_of_ne_nil hne
    obtain ⟨hclear, hd⟩ := (scanned_iff_balanced.1 hu).advance (Place.fresh_start 0 none u)
    refine ⟨c, v ++ y, rfl, Place.isOutside_of_clear hclear (hplain c List.mem_cons_self).1, ?_⟩
    exact (topKeyword?_site_iff hk hend).2 ⟨hd, hb, c :: v, y, rfl, hv, rfl, hy⟩

/-- A keyword that has to be followed by a blank is found where the text starts with it. -/
theorem match?_eq_some_iff_startsWith (hk : k.spelling.words = [w]) (hend : k.canEnd = false)
    (hvalues : k ≠ .values) : k.match? x = some n ↔ ∃ v, StartsWith w x v ∧ n = v.length := by
  rw [match?_eq_some_iff_spells, hk]
  simp only [allows_iff_blank hend hvalues, Spelling.spells_singleton_iff]
  constructor
  · rintro ⟨v, y, e, hv, hy, hn⟩
    exact ⟨v, ⟨hv, y, e, hy⟩, hn⟩
  · rintro ⟨v, ⟨hv, y, e, hy⟩, hn⟩
    exact ⟨v, y, e, hv, hy, hn⟩

/-- Whether such a keyword takes a given front of a text. -/
theorem match?_append_iff (hk : k.spelling.words = [w]) (hend : k.canEnd = false)
    (hvalues : k ≠ .values) {v y : List Char} :
    k.match? (v ++ y) = some v.length ↔
      v.map Char.toUpper = w ∧ ∃ c ∈ y.head?, isBlank c = true := by
  rw [match?_eq_some_iff_startsWith hk hend hvalues]
  constructor
  · rintro ⟨v', ⟨hv, y', e, hy⟩, hlength⟩
    obtain ⟨rfl, rfl⟩ := List.append_inj e hlength
    exact ⟨hv, hy⟩
  · rintro ⟨hv, hy⟩
    exact ⟨v, ⟨hv, y, rfl, hy⟩, rfl⟩

end Keyword

end TableQuery
