import Mathlib.Data.List.Basic
import TableQuery.Proofs.KeywordMatch

/-!
# Spellings of keywords

`Spells ws x` says that `x` is a way to write the words `ws`: each word in any case of its letters,
and one or more blanks between each two. Recognising words at the front of a text is finding such a
way (`dropWords_eq_some_iff`), so that a keyword is found exactly where it is spelled and may end
(`match?_eq_some_iff_spells`).

A keyword is a stretch of letters and blanks. Behind a blank inside it stands a blank or the first
letter of its second word (`Spells.head?_of_blank`), and no clause keyword starts with either, so
that no other clause keyword starts inside it (`detect?_eq_none_of_spells`). At most one clause
keyword is spelled at the front of a text (`detect?_eq_some_iff`).
-/

namespace TableQuery

open Text

namespace Spelling

/-- The text spells the words: the case of ASCII letters is free, and blanks stand between the
words. -/
inductive Spells : List (List Char) → List Char → Prop
  | nil : Spells [] []
  | word {w u : List Char} : u.map Char.toUpper = w → Spells [w] u
  | cons {w u g v x : List Char} {ws : List (List Char)} :
      u.map Char.toUpper = w → g ≠ [] → Blank g →
      Spells (v :: ws) x → Spells (w :: v :: ws) (u ++ (g ++ x))

theorem spells_singleton_iff {w x : List Char} : Spells [w] x ↔ x.map Char.toUpper = w := by
  constructor
  · intro h
    cases h with
    | word h => exact h
  · exact .word

/-- A word with a first letter that is no blank. -/
def Solid (w : List Char) : Prop :=
  ∃ c ∈ w.head?, isBlank c = false

theorem toUpper_of_isBlank {c : Char} (h : isBlank c = true) : c.toUpper = c := by
  apply toUpper_of_toNat
  simp only [isBlank, Bool.or_eq_true, Bool.and_eq_true, decide_eq_true_eq, beq_iff_eq] at h
  omega

/-- The first letter of a spelling is that of the first word. -/
theorem Spells.head? {w x : List Char} {ws : List (List Char)} (h : Spells (w :: ws) x)
    (hw : w ≠ []) :
    ∃ c ∈ x.head?, w.head? = some c.toUpper := by
  have key : ∀ {u y : List Char}, u.map Char.toUpper = w →
      ∃ c ∈ (u ++ y).head?, w.head? = some c.toUpper := by
    rintro u y rfl
    cases u with
    | nil => exact absurd rfl hw
    | cons c u => exact ⟨c, rfl, rfl⟩
  cases h with
  | word hu =>
    have := key (y := []) hu
    rwa [List.append_nil] at this
  | cons hu _ _ _ => exact key hu

theorem solid_head {w x : List Char} {ws : List (List Char)} (hw : Solid w) (h : Spells (w :: ws) x)
    (y : List Char) : ∀ c ∈ (x ++ y).head?, isBlank c = false := by
  obtain ⟨d, hd, hsolid⟩ := hw
  obtain ⟨c, hc, e⟩ := h.head? (by rintro rfl; cases hd)
  intro c' hc'
  rw [List.head?_append, hc, Option.some_or] at hc'
  cases hc'
  rw [Bool.eq_false_iff]
  intro hblank
  have hcd : c.toUpper = d := Option.some.inj (e.symm.trans hd)
  rw [← hcd, toUpper_of_isBlank hblank, hblank] at hsolid
  cases hsolid

/-- Words are found at the front of a text exactly if it starts with a spelling of them. -/
theorem dropWords_eq_some_iff {ws : List (List Char)} {cs after : List Char}
    (hw : ∀ w ∈ ws.tail, Solid w) :
    dropWords ws cs = some after ↔ ∃ x, Spells ws x ∧ cs = x ++ after := by
  induction ws generalizing cs with
  | nil =>
    constructor
    · intro h
      cases h
      exact ⟨[], .nil, rfl⟩
    · rintro ⟨x, h, rfl⟩
      cases h
      rfl
  | cons w ws ih =>
    cases ws with
    | nil =>
      rw [dropWords, dropWord_eq_some_iff]
      constructor
      · rintro ⟨u, rfl, hu⟩
        exact ⟨u, .word hu, rfl⟩
      · rintro ⟨x, h, rfl⟩
        cases h with
        | word hu => exact ⟨x, rfl, hu⟩
    | cons v ws =>
      obtain ⟨hv, hws⟩ := List.forall_mem_cons.1 hw
      simp only [dropWords_cons_cons, dropWord_eq_some_iff, dropGap_eq_some_iff, ih hws]
      constructor
      · rintro ⟨r₁, r₂, ⟨u, rfl, hu⟩, ⟨g, hne, hg, rfl, -⟩, x, hx, rfl⟩
        exact ⟨u ++ (g ++ x), .cons hu hne hg hx, by simp⟩
      · rintro ⟨y, hy, rfl⟩
        cases hy with
        | @cons _ u g _ x _ hu hne hg hx =>
          refine ⟨g ++ (x ++ after), x ++ after, ⟨u, by simp, hu⟩,
            ⟨g, hne, hg, rfl, ?_⟩, x, hx, rfl⟩
          exact solid_head hv hx after

/-- A text starts with one spelling of the words at most. -/
theorem Spells.unique {ws : List (List Char)} (hw : ∀ w ∈ ws.tail, Solid w) {x x' r r' : List Char}
    (hx : Spells ws x) (hx' : Spells ws x') (e : x ++ r = x' ++ r') : x = x' ∧ r = r' := by
  have h : dropWords ws (x ++ r) = some r := (dropWords_eq_some_iff hw).2 ⟨x, hx, rfl⟩
  have h' : dropWords ws (x ++ r) = some r' := (dropWords_eq_some_iff hw).2 ⟨x', hx', e⟩
  obtain rfl : r = r' := Option.some.inj (h.symm.trans h')
  exact ⟨List.append_cancel_right e, rfl⟩

/-- A spelling is found exactly where the words are spelled and may end. -/
theorem match?_eq_some_iff_spells {s : Spelling} (hw : ∀ w ∈ s.words.tail, Solid w) {x : List Char}
    {n : Nat} :
    s.match? x = some n ↔
      ∃ w r, x = w ++ r ∧ Spells s.words w ∧ s.allows r = true ∧ n = w.length := by
  simp only [match?_eq_some_iff, dropWords_eq_some_iff hw]
  constructor
  · rintro ⟨r, ⟨w, hw, rfl⟩, ha, rfl⟩
    exact ⟨w, r, rfl, hw, ha, by rw [List.length_append, Nat.add_sub_cancel_right]⟩
  · rintro ⟨w, r, rfl, hw, ha, rfl⟩
    exact ⟨r, ⟨w, hw, rfl⟩, ha, by rw [List.length_append, Nat.add_sub_cancel_right]⟩

/-- Nothing in the spelling of a word is a blank. -/
theorem not_isBlank_of_spelled {w u : List Char} (hw : IsWord w) (hu : u.map Char.toUpper = w) :
    ∀ c ∈ u, isBlank c = false := by
  subst hu
  exact fun c hc => not_isBlank_of_isUpper (hw.2 _ (List.mem_map.2 ⟨c, hc, rfl⟩))

/-- Behind a blank inside a spelling stands another blank or the first letter of a later word. -/
theorem Spells.head?_of_blank {ws : List (List Char)} {x : List Char} (h : Spells ws x)
    (hw : ∀ w ∈ ws, IsWord w) {a b : List Char} (e : x = a ++ b)
    (ha : ∃ c ∈ a.getLast?, isBlank c = true) (hb : b ≠ []) :
    ∃ d ∈ b.head?, isBlank d = true ∨ ∃ w ∈ ws.tail, w.head? = some d.toUpper := by
  obtain ⟨c, hc, hblank⟩ := ha
  induction h generalizing a with
  | nil =>
    obtain ⟨-, rfl⟩ := List.append_eq_nil_iff.1 e.symm
    exact absurd rfl hb
  | word hu =>
    subst e
    rw [not_isBlank_of_spelled (hw _ List.mem_cons_self) hu c
      (List.mem_append_left _ (List.mem_of_getLast? hc))] at hblank
    cases hblank
  | @cons w u g v x ws hu hne hg hx ih =>
    obtain ⟨hword, hws⟩ := List.forall_mem_cons.1 hw
    have hletters := not_isBlank_of_spelled hword hu
    -- the blank is not in the first word, so that it is in the gap or behind it
    obtain ⟨y, hyne, rfl, hy⟩ : ∃ y, y ≠ [] ∧ a = u ++ y ∧ g ++ x = y ++ b := by
      rcases List.append_eq_append_iff.1 e with ⟨y, rfl, hy⟩ | ⟨y, rfl, -⟩
      · refine ⟨y, ?_, rfl, hy⟩
        rintro rfl
        rw [List.append_nil] at hc
        rw [hletters c (List.mem_of_getLast? hc)] at hblank
        cases hblank
      · rw [hletters c (List.mem_append_left _ (List.mem_of_getLast? hc))] at hblank
        cases hblank
    rw [List.getLast?_append_of_ne_nil _ hyne] at hc
    have hfirst : ∃ d ∈ x.head?, v.head? = some d.toUpper :=
      hx.head? (hws v List.mem_cons_self).1
    rcases List.append_eq_append_iff.1 hy with ⟨z, rfl, hz⟩ | ⟨z, rfl, rfl⟩
    · by_cases hzne : z = []
      · subst hzne
        obtain ⟨d, hd, hv⟩ := hfirst
        rw [List.nil_append] at hz
        exact ⟨d, by rwa [← hz], .inr ⟨v, List.mem_cons_self, hv⟩⟩
      · rw [List.getLast?_append_of_ne_nil _ hzne] at hc
        obtain ⟨d, hd, hd'⟩ := ih hws hz hc
        refine ⟨d, hd, hd'.imp id ?_⟩
        rintro ⟨w', hw', e'⟩
        exact ⟨w', List.mem_of_mem_tail hw', e'⟩
    · cases z with
      | nil =>
        obtain ⟨d, hd, hv⟩ := hfirst
        exact ⟨d, hd, .inr ⟨v, List.mem_cons_self, hv⟩⟩
      | cons d z => exact ⟨d, rfl, .inl (hg d (List.mem_append_right _ List.mem_cons_self))⟩

end Spelling

namespace Keyword

theorem solid_of_mem_tail (k : Keyword) : ∀ w ∈ k.spelling.words.tail, Spelling.Solid w := by
  intro w hw
  obtain ⟨hne, hup⟩ := k.isWord_of_mem_words w (List.mem_of_mem_tail hw)
  obtain ⟨c, r, rfl⟩ := List.exists_cons_of_ne_nil hne
  refine ⟨c, rfl, ?_⟩
  rw [Bool.eq_false_iff]
  intro hblank
  have hletter := hup c List.mem_cons_self
  rw [← Spelling.toUpper_of_isBlank hblank, Spelling.isUpper_toUpper_of_isBlank hblank] at hletter
  cases hletter

/-- A keyword is found exactly where it is spelled and may end. -/
theorem match?_eq_some_iff_spells {k : Keyword} {x : List Char} {n : Nat} :
    k.match? x = some n ↔ ∃ w r, x = w ++ r ∧ Spelling.Spells k.spelling.words w ∧
      k.spelling.allows r = true ∧ n = w.length :=
  Spelling.match?_eq_some_iff_spells k.solid_of_mem_tail

/-- A keyword that may end a text stands in front of a blank or at the end. -/
theorem allows_iff {k : Keyword} (hk : k.canEnd = true) {r : List Char} :
    k.spelling.allows r = true ↔ ∀ c ∈ r.head?, isBlank c = true := by
  have hbefore : k.spelling.before = none := by
    refine if_neg ?_
    rintro rfl
    cases hk
  cases r with
  | nil => exact ⟨fun _ c hc => (by cases hc), fun _ => hk⟩
  | cons c r =>
    have hblank : k.spelling.beforeBlank = true := rfl
    simp [Spelling.allows, hbefore, hblank]

/-- A keyword that may not end a text stands in front of a blank, `VALUES` apart. -/
theorem allows_iff_blank {k : Keyword} (hk : k.canEnd = false) (hv : k ≠ .values) {r : List Char} :
    k.spelling.allows r = true ↔ ∃ c ∈ r.head?, isBlank c = true := by
  cases r with
  | nil => simp [Spelling.allows, spelling, hk]
  | cons c r => simp [Spelling.allows, spelling, hv]

/-- A keyword of one word at a site, said of the text in front of the site and the text from it
on. -/
theorem keyword?_site_iff {k : Keyword} {w : List Char} (hk : k.spelling.words = [w])
    (hend : k.canEnd = true) {u : List Char} {c : Char} {r : List Char} {n : Nat} :
    (((Place.start 0 none).advance u).site c r).keyword? k = some n ↔
      (∃ d ∈ u.getLast?, isBlank d = true) ∧
        ∃ v y, c :: r = v ++ y ∧ v.map Char.toUpper = w ∧ n = v.length ∧
          ∀ d ∈ y.head?, isBlank d = true := by
  rw [Site.keyword?, Option.ite_none_right_eq_some, Place.followsBlank_site,
    match?_eq_some_iff_spells, hk]
  simp only [allows_iff hend, Spelling.spells_singleton_iff]
  refine and_congr_right fun _ => exists₂_congr fun v y => ?_
  exact and_congr_right fun _ => and_congr_right fun _ => and_comm

theorem topKeyword?_site_iff {k : Keyword} {w : List Char} (hk : k.spelling.words = [w])
    (hend : k.canEnd = true) {u : List Char} {c : Char} {r : List Char} {n : Nat} :
    (((Place.start 0 none).advance u).site c r).topKeyword? k = some n ↔
      ((Place.start 0 none).advance u).depth = 0 ∧ (∃ d ∈ u.getLast?, isBlank d = true) ∧
        ∃ v y, c :: r = v ++ y ∧ v.map Char.toUpper = w ∧ n = v.length ∧
          ∀ d ∈ y.head?, isBlank d = true := by
  rw [Site.topKeyword?, Option.ite_none_right_eq_some, keyword?_site_iff hk hend]
  rfl

end Keyword

/-! ## Clause keywords -/

namespace ClauseKind

theorem canEnd_keyword (k : ClauseKind) : k.keyword.canEnd = true := by
  revert k; decide

theorem keyword_ne_values (k : ClauseKind) : k.keyword ≠ .values := by
  revert k; decide

/-- A clause keyword stands in front of a blank or at the end. -/
theorem allows_iff {k : ClauseKind} {r : List Char} :
    k.keyword.spelling.allows r = true ↔ ∀ c ∈ r.head?, isBlank c = true :=
  Keyword.allows_iff k.canEnd_keyword

/-- No clause keyword starts with the first word of another. -/
theorem eq_of_match? {k k' : ClauseKind} {x : List Char} {n n' : Nat}
    (h : k.keyword.match? x = some n) (h' : k'.keyword.match? x = some n') : k = k' := by
  have first : ∀ {k : ClauseKind} {n : Nat}, k.keyword.match? x = some n →
      ∃ w ∈ k.keyword.spelling.words.head?, w <+: x.map Char.toUpper := by
    intro k n h
    obtain ⟨w, r, rfl, hw, -, -⟩ := Keyword.match?_eq_some_iff_spells.1 h
    have hne := k.keyword.words_ne_nil
    generalize k.keyword.spelling.words = ws at hw hne
    cases hw with
    | nil => exact absurd rfl hne
    | @word w u hu => exact ⟨w, rfl, by rw [← hu, List.map_append]; exact List.prefix_append _ _⟩
    | @cons w u g v x ws hu _ _ _ =>
      refine ⟨w, rfl, ?_⟩
      rw [← hu, List.append_assoc, List.map_append]
      exact List.prefix_append _ _
  obtain ⟨w, hw, hp⟩ := first h
  obtain ⟨w', hw', hp'⟩ := first h'
  have hall : ∀ k ∈ all, ∀ k' ∈ all, ∀ w ∈ k.keyword.spelling.words.head?,
      ∀ w' ∈ k'.keyword.spelling.words.head?, w <+: w' ∨ w' <+: w → k = k' := by decide
  exact hall k (mem_all k) k' (mem_all k') w hw w' hw' (List.prefix_or_prefix_of_prefix hp hp')

theorem detect?_eq_some_iff {x : List Char} {k : ClauseKind} {n : Nat} :
    detect? x = some (k, n) ↔ k.keyword.match? x = some n := by
  constructor
  · intro h
    obtain ⟨k', -, hk⟩ := List.exists_of_findSome?_eq_some h
    obtain ⟨n', hn, e⟩ := Option.map_eq_some_iff.1 hk
    cases e
    exact hn
  · intro h
    cases hd : detect? x with
    | none =>
      rw [detect?, List.findSome?_eq_none_iff] at hd
      have := Option.map_eq_none_iff.1 (hd k (mem_all k))
      rw [h] at this
      cases this
    | some a =>
      obtain ⟨k', -, hk⟩ := List.exists_of_findSome?_eq_some hd
      obtain ⟨n', hn, rfl⟩ := Option.map_eq_some_iff.1 hk
      cases eq_of_match? h hn
      cases h.symm.trans hn
      rfl

theorem head?_ne_of_mem_words (k : ClauseKind) :
    ∀ w ∈ k.keyword.spelling.words.head?, w.head? ≠ some 'B' ∧ w.head? ≠ some 'J' := by
  revert k; decide

/-- A clause keyword starts with a letter that is not the first of a second word. -/
theorem exists_of_spells {k : ClauseKind} {x : List Char}
    (h : Spelling.Spells k.keyword.spelling.words x) :
    ∃ c r, x = c :: r ∧ c.toUpper.isUpper = true ∧ c.toUpper ≠ 'B' ∧ c.toUpper ≠ 'J' := by
  have hletter := k.head?_ne_of_mem_words
  have hword := k.keyword.isWord_of_mem_words
  obtain ⟨w, ws, e⟩ := List.exists_cons_of_ne_nil k.keyword.words_ne_nil
  rw [e] at h hword hletter
  obtain ⟨hne, hup⟩ := hword w List.mem_cons_self
  obtain ⟨hB, hJ⟩ := hletter w rfl
  obtain ⟨c, hc, hw⟩ := h.head? hne
  obtain ⟨r, rfl⟩ := List.head?_eq_some_iff.1 hc
  rw [hw] at hB hJ
  exact ⟨c, r, rfl, hup _ (List.mem_of_mem_head? hw), fun e => hB (by rw [e]),
    fun e => hJ (by rw [e])⟩

/-- No clause keyword starts with a blank, nor with the second word of one. -/
theorem detect?_eq_none_of_inner {c : Char} (r : List Char)
    (hc : isBlank c = true ∨ c.toUpper = 'B' ∨ c.toUpper = 'J') : detect? (c :: r) = none := by
  rw [detect?, List.findSome?_eq_none_iff]
  intro k _
  rw [Option.map_eq_none_iff]
  rcases hc with hc | hc
  · exact k.keyword.match?_cons_eq_none (Spelling.isUpper_toUpper_of_isBlank hc) r
  · rw [Keyword.match?_eq_none_iff]
    intro after ha
    have hletter := k.head?_ne_of_mem_words
    cases hw : k.keyword.spelling.words with
    | nil => exact absurd hw k.keyword.words_ne_nil
    | cons w ws =>
      have hne : w ≠ [] :=
        (k.keyword.isWord_of_mem_words w (by rw [hw]; exact List.mem_cons_self)).1
      rw [hw] at ha
      obtain ⟨d, hd, e⟩ := Spelling.head?_of_dropWords hne ha
      cases hd
      obtain ⟨hB, hJ⟩ := hletter w (by rw [hw]; rfl)
      rcases hc with hc | hc
      · exact absurd (hc ▸ e) hB
      · exact absurd (hc ▸ e) hJ

/-- No clause keyword starts behind a blank inside another. -/
theorem detect?_eq_none_of_spells {k : ClauseKind} {a b : List Char}
    (h : Spelling.Spells k.keyword.spelling.words (a ++ b))
    (ha : ∃ c ∈ a.getLast?, isBlank c = true) (hb : b ≠ []) (r : List Char) :
    detect? (b ++ r) = none := by
  obtain ⟨d, hd, hd'⟩ := h.head?_of_blank k.keyword.isWord_of_mem_words rfl ha hb
  obtain ⟨b, rfl⟩ := List.head?_eq_some_iff.1 hd
  refine detect?_eq_none_of_inner (b ++ r) (hd'.imp id ?_)
  rintro ⟨w, hw, e⟩
  rcases Keyword.head?_of_mem_tail k.canEnd_keyword w hw with e' | e'
  · exact .inl (Option.some.inj (e.symm.trans e'))
  · exact .inr (Option.some.inj (e.symm.trans e'))

end ClauseKind

end TableQuery
