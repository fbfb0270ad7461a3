import Mathlib.Data.List.Induction
import TableQuery.Proofs.Clauses
import TableQuery.Proofs.Outcome
import TableQuery.Proofs.Scan
import TableQuery.Proofs.Spelling

/-!
# Occurrences of clause keywords

Where a clause keyword occurs in a text can be said by cutting the text: what stands in front of it
is balanced and ends in a blank, the keyword is spelled in some way, and a blank or the end follows
(`ClauseStart.OccursIn`). In a balanced statement the marks at which it is divided are exactly these
occurrences, from left to right and without overlap (`mem_marks_iff`, `pairwise_marks`).

The division is then decided by the slots of the marks: marks of different slots fill these slots,
and otherwise the first mark whose slot is taken is refused (`split_of_repeated`).
-/

namespace TableQuery

open Text Outline

namespace ClauseStart

/-- The mark is an occurrence of its keyword in the text: outside literals and parentheses, behind a
blank, and in front of a blank or at the end. -/
def OccursIn (m : ClauseStart) (x : List Char) : Prop :=
  ∃ u w r, x = u ++ (w ++ r) ∧ m.first = u.length ∧ m.last = u.length + w.length ∧
    Scanned 0 u ∧ (∃ c ∈ u.getLast?, isBlank c = true) ∧
    Spelling.Spells m.kind.keyword.spelling.words w ∧ ∀ c ∈ r.head?, isBlank c = true

/-- The keyword at a site, said of the text in front of the site and the text from it on. -/
theorem ofSite?_site_iff {u : List Char} {c : Char} {r : List Char} {m : ClauseStart} :
    ofSite? (((Place.start 0 none).advance u).site c r) = some m ↔
      ((Place.start 0 none).advance u).depth = 0 ∧ (∃ d ∈ u.getLast?, isBlank d = true) ∧
        ∃ w r', c :: r = w ++ r' ∧ m.first = u.length ∧ m.last = u.length + w.length ∧
          Spelling.Spells m.kind.keyword.spelling.words w ∧ ∀ d ∈ r'.head?, isBlank d = true := by
  have hindex := Place.index_advance_start u
  rw [ofSite?, ← @Place.followsBlank_site u c r]
  constructor
  · intro h
    split at h
    · rename_i hd
      obtain ⟨⟨k, n⟩, hk, rfl⟩ := Option.map_eq_some_iff.1 h
      obtain ⟨w, r', e, hw, ha, rfl⟩ :=
        Keyword.match?_eq_some_iff_spells.1 (ClauseKind.detect?_eq_some_iff.1 hk)
      refine ⟨hd.1, hd.2, w, r', e, hindex, ?_, hw, ClauseKind.allows_iff.1 ha⟩
      exact congrArg (· + w.length) hindex
    · cases h
  · rintro ⟨hd, hb, w, r', e, hfirst, hlast, hw, hr⟩
    have hk : ClauseKind.detect? (c :: r) = some (m.kind, w.length) :=
      ClauseKind.detect?_eq_some_iff.2
        (Keyword.match?_eq_some_iff_spells.2 ⟨w, r', e, hw, ClauseKind.allows_iff.2 hr, rfl⟩)
    have hm : m = ⟨m.kind, u.length, u.length + w.length⟩ := by
      rw [← hlast, ← hfirst]
    rw [if_pos ⟨hd, hb⟩, Site.here]
    simp only [Place.site, hk, Option.map_some, hindex]
    rw [← hm]

/-- The marks of a balanced text are the occurrences of clause keywords. -/
theorem mem_marks_iff {x : List Char} (hx : Balanced x) {m : ClauseStart} :
    m ∈ (sitesFrom (.start 0 none) x).filterMap ofSite? ↔ m.OccursIn x := by
  rw [mem_filterMap_sites_iff]
  constructor
  · rintro ⟨u, c, r, rfl, ho, hm⟩
    obtain ⟨hd, hb, w, r', e, hfirst, hlast, hw, hr⟩ := ofSite?_site_iff.1 hm
    have hu : Balanced u := hx.left (seam_of_isOutside ho hd)
    exact ⟨u, w, r', by rw [e], hfirst, hlast, scanned_iff_balanced.2 hu, hb, hw, hr⟩
  · rintro ⟨u, w, r, rfl, hfirst, hlast, hu, hb, hw, hr⟩
    obtain ⟨hclear, hd⟩ := (scanned_iff_balanced.1 hu).advance (Place.fresh_start 0 none u)
    -- the keyword starts with a letter, which is a site of the text
    obtain ⟨c, t, rfl, hup, -⟩ := ClauseKind.exists_of_spells hw
    have hc := (Spelling.plain_of_toUpper hup).1
    refine ⟨u, c, t ++ r, by simp, Place.isOutside_of_clear hclear hc, ?_⟩
    exact ofSite?_site_iff.2 ⟨hd, hb, c :: t, r, rfl, hfirst, hlast, hw, hr⟩

theorem OccursIn.first_le {m : ClauseStart} {x : List Char} (h : m.OccursIn x) :
    m.first ≤ m.last := by
  obtain ⟨u, w, r, -, hfirst, hlast, -⟩ := h
  omega

/-- Occurrences do not overlap. -/
theorem OccursIn.last_le {m m' : ClauseStart} {x : List Char} (h : m.OccursIn x)
    (h' : m'.OccursIn x) (hlt : m.first < m'.first) : m.last ≤ m'.first := by
  obtain ⟨u, w, r, rfl, hfirst, hlast, -, -, hw, -⟩ := h
  obtain ⟨u', w', r', e, hfirst', -, -, hb', hw', hr'⟩ := h'
  by_contra hover
  -- the second keyword would start inside the first, behind a blank
  obtain ⟨a, rfl⟩ : ∃ a, u' = u ++ a := by
    rcases List.append_eq_append_iff.1 e with ⟨a, rfl, -⟩ | ⟨a, rfl, -⟩
    · exact ⟨a, rfl⟩
    · rw [List.length_append] at hfirst
      omega
  rw [List.append_assoc, List.append_cancel_left_eq] at e
  rw [List.length_append] at hfirst'
  obtain ⟨b, hwab, hb⟩ : ∃ b, w = a ++ b ∧ w' ++ r' = b ++ r := by
    rcases List.append_eq_append_iff.1 e with ⟨b, rfl, hb⟩ | ⟨b, rfl, hb⟩
    · rw [List.length_append] at hfirst'
      have hnil : b = [] := List.eq_nil_of_length_eq_zero (by omega)
      subst hnil
      exact ⟨[], by simp, by simpa using hb.symm⟩
    · exact ⟨b, rfl, hb⟩
  have hane : a ≠ [] := by
    rintro rfl
    rw [List.length_nil] at hfirst'
    omega
  have hbne : b ≠ [] := by
    rintro rfl
    rw [hwab, List.append_nil] at hlast
    omega
  rw [List.getLast?_append_of_ne_nil _ hane] at hb'
  rw [hwab] at hw
  have hnone := ClauseKind.detect?_eq_none_of_spells hw hb' hbne r
  rw [← hb, ClauseKind.detect?_eq_some_iff.2 (Keyword.match?_eq_some_iff_spells.2
    ⟨w', r', rfl, hw', ClauseKind.allows_iff.2 hr', rfl⟩)] at hnone
  cases hnone

/-- The marks of a balanced text stand from left to right, each behind the end of the one before
it. -/
theorem pairwise_marks {x : List Char} (hx : Balanced x) :
    ((sitesFrom (.start 0 none) x).filterMap ofSite?).Pairwise fun m m' => m.last ≤ m'.first := by
  have hfirst : ∀ {s : Site} {m : ClauseStart}, ofSite? s = some m → m.first = s.index := by
    intro s m h
    unfold ofSite? at h
    split at h
    · obtain ⟨a, -, rfl⟩ := Option.map_eq_some_iff.1 h
      rfl
    · cases h
  have hordered : ((sitesFrom (.start 0 none) x).filterMap ofSite?).Pairwise
      fun m m' => m.first < m'.first := by
    rw [List.pairwise_filterMap]
    refine (pairwise_sitesFrom _ x).imp fun hlt m hm m' hm' => ?_
    rw [hfirst hm, hfirst hm']
    exact hlt
  refine hordered.imp_of_mem fun hm hm' hlt => ?_
  exact ((mem_marks_iff hx).1 hm).last_le ((mem_marks_iff hx).1 hm') hlt

/-- In a list whose slots repeat there is a first mark whose slot is already taken. -/
theorem exists_first_repeated {marks : List ClauseStart} (h : ¬(marks.map slot).Nodup) :
    ∃ front m back, marks = front ++ m :: back ∧ (front.map slot).Nodup ∧
      m.slot ∈ front.map slot := by
  induction marks using List.reverseRecOn with
  | nil => exact absurd List.nodup_nil h
  | append_singleton marks m ih =>
    by_cases hn : (marks.map slot).Nodup
    · refine ⟨marks, m, [], rfl, hn, ?_⟩
      by_contra hm
      apply h
      rw [List.map_append, List.nodup_append]
      refine ⟨hn, by simp, ?_⟩
      rintro a ha b hb rfl
      rw [List.map_singleton, List.mem_singleton] at hb
      exact hm (hb ▸ ha)
    · obtain ⟨front, m', back, rfl, hfront, hm'⟩ := ih hn
      exact ⟨front, m', back ++ [m], by simp, hfront, hm'⟩

end ClauseStart

/-- Behind a blank no clause keyword stands in a text when none occurs in it. -/
theorem clauseFree_iff_not_occursIn {x : List Char} (hx : Balanced x) :
    ClauseFree x ↔ ∀ m : ClauseStart, ¬m.OccursIn (' ' :: x) := by
  let p := (Place.start 0 none).next ' '
  have hp : p.Fresh x := Place.fresh_of_outside rfl x
  have hblank : ClauseStart.ofSite? ((Place.start 0 none).site ' ' x) = none := rfl
  have hb : Balanced (' ' :: x) :=
    scanned_iff_balanced.1
      ((Scanned.other_iff rfl (by decide) (by decide)).2 (scanned_iff_balanced.2 hx))
  have hmarks : (∀ m : ClauseStart, ¬m.OccursIn (' ' :: x)) ↔
      ∀ s ∈ sitesFrom p x, ClauseStart.ofSite? s = none := by
    simp only [← ClauseStart.mem_marks_iff hb]
    rw [← List.eq_nil_iff_forall_not_mem, sitesFrom_cons_of_outside rfl,
      List.filterMap_cons_none hblank, List.filterMap_eq_nil_iff]
  rw [hmarks]
  constructor
  · intro h s hs
    have hquiet : Quiet ClauseStart.ofSite? p.before x := h
    have := hquiet.sites (ClauseStart.keyed_ofSite?.lasting _ stops_nil) hp rfl s hs
    rwa [Site.extend_nil] at this
  · intro h
    refine quiet_of_sites (p := p) (y := []) (fun s hs => ?_)
      (ClauseStart.keyed_ofSite?.persistent _ ?_) hp rfl
    · rw [Site.extend_nil]
      exact h s hs
    · rintro c hc
      cases hc

namespace Clauses

theorem split_of_not_balanced {statement : Piece} (h : ¬Balanced statement.chars) :
    ∃ e, split statement = .error e ∧ e.kind = .unbalancedDelimiter := by
  have hkind : Yields (·.kind = .unbalancedDelimiter) (fun _ => _)
      (statement.requireBalanced statement.outline) :=
    Piece.yields_requireBalanced (fun _ => rfl) (fun _ => rfl) fun _ => rfl
  cases hr : statement.requireBalanced statement.outline with
  | ok a => exact absurd (Piece.requireBalanced_eq_ok_iff.1 hr) h
  | error e =>
    refine ⟨e, ?_, hkind.of_error hr⟩
    rw [split, hr]
    rfl

theorem repeated_kind (statement : Piece) (m : ClauseStart) (stop : Nat) :
    (repeated statement m stop).kind =
      if m.slot = .join .inner then .malformedJoin else .duplicateClause := by
  unfold repeated ClauseStart.slot
  cases h : m.kind <;> rfl

theorem repeated_start (statement : Piece) (m : ClauseStart) (stop : Nat) :
    (repeated statement m stop).start = statement.byteOffset m.first := by
  unfold repeated
  split <;> rfl

/-- A balanced statement in which a slot repeats is refused at the first mark whose slot is
taken. -/
theorem split_of_repeated {statement : Piece} {marks : List ClauseStart}
    (hb : Balanced statement.chars)
    (e : (sitesFrom (.start 0 none) statement.chars).filterMap ClauseStart.ofSite? = marks)
    (hn : ¬(marks.map ClauseStart.slot).Nodup) :
    ∃ front m back, marks = front ++ m :: back ∧ (front.map ClauseStart.slot).Nodup ∧
      m.slot ∈ front.map ClauseStart.slot ∧
      split statement = .error (repeated statement m (reach statement back)) := by
  obtain ⟨front, m, back, rfl, hfront, hm⟩ := ClauseStart.exists_first_repeated hn
  refine ⟨front, m, back, rfl, hfront, hm, ?_⟩
  obtain ⟨c, hfill, -, hhas, -⟩ := fill_append (m :: back) hfront fun a _ => ofHead_has _ a.kind
  rw [split_of_balanced hb, e, hfill, fill, if_pos ((hhas m.kind).2 (.inl hm))]
  rfl

/-- How a statement is divided is decided by the occurrences of clause keywords in it: an unbalanced
statement is refused, otherwise the first occurrence whose slot is already taken is refused, and
otherwise the statement is divided at all occurrences. -/
theorem split_at_occurrences (statement : Piece) :
    (¬Scanned 0 statement.chars →
      ∃ e, split statement = .error e ∧ e.kind = .unbalancedDelimiter) ∧
    (Scanned 0 statement.chars → ∃ marks : List ClauseStart,
      marks.Pairwise (fun m m' => m.last ≤ m'.first) ∧
      (∀ m, m ∈ marks ↔ m.OccursIn statement.chars) ∧
      (¬(marks.map ClauseStart.slot).Nodup → ∃ front m back, marks = front ++ m :: back ∧
        (front.map ClauseStart.slot).Nodup ∧ m.slot ∈ front.map ClauseStart.slot ∧
        ∃ e, split statement = .error e ∧ e.start = statement.byteOffset m.first ∧
          e.kind = if m.slot = .join .inner then .malformedJoin else .duplicateClause) ∧
      ((marks.map ClauseStart.slot).Nodup →
        ∃ c, split statement = .ok c ∧ Divided statement marks c)) := by
  refine ⟨fun h => split_of_not_balanced (mt scanned_iff_balanced.2 h), fun h => ?_⟩
  have hb := scanned_iff_balanced.1 h
  refine ⟨_, ClauseStart.pairwise_marks hb, fun m => ClauseStart.mem_marks_iff hb, fun hn => ?_,
    split_of_nodup hb rfl⟩
  obtain ⟨front, m, back, e, hfront, hm, hsplit⟩ := split_of_repeated hb rfl hn
  exact ⟨front, m, back, e, hfront, hm, _, hsplit, repeated_start _ _ _, repeated_kind _ _ _⟩

end Clauses

end TableQuery
