import TableQuery.Proofs.Joints
import TableQuery.Proofs.Spelling

/-!
# Clauses of an assembled statement

A balanced statement is divided at its marks: if their slots differ, each fills its slot with what
reaches to the next mark (`split_of_nodup`).

A statement is assembled from a head and clauses, each a `Joint` with the keyword of the clause. If
no other clause keyword stands in it, it is divided into the head and the bodies it was assembled
from (`split_assemble`). Every keyword that is found fills a slot (`fill_count`), so that a
statement which comes apart into as many clauses as it was assembled from has no further keyword in
its parts. Whatever a statement is divided into is balanced (`balanced_of_split`).
-/

namespace TableQuery

open Text Outline

namespace ClauseKind

/-- The three joins share one slot. -/
def slot : ClauseKind → ClauseKind
  | join _ => join .inner
  | k => k

theorem match?_text (k : ClauseKind) :
    k.keyword.match? k.keyword.text = some k.keyword.text.length := by
  revert k; decide

theorem spells_text (k : ClauseKind) : Spelling.Spells k.keyword.spelling.words k.keyword.text := by
  obtain ⟨w, r, e, hw, -, hn⟩ := Keyword.match?_eq_some_iff_spells.1 k.match?_text
  rw [e, List.length_append] at hn
  obtain rfl : r = [] := List.eq_nil_of_length_eq_zero (by omega)
  rwa [e, List.append_nil]

theorem detect?_eq_none_iff {cs : List Char} :
    detect? cs = none ↔ ∀ k : ClauseKind, k.keyword.match? cs = none := by
  rw [detect?, List.findSome?_eq_none_iff]
  constructor
  · intro h k
    exact Option.map_eq_none_iff.1 (h k (mem_all k))
  · intro h k _
    rw [h k]
    rfl

end ClauseKind

namespace ClauseStart

/-- The slot that the clause fills. -/
def slot (m : ClauseStart) : ClauseKind :=
  m.kind.slot

theorem map_slot (marks : List ClauseStart) :
    marks.map slot = (marks.map kind).map ClauseKind.slot := by
  rw [List.map_map]
  rfl

theorem ofSite?_eq_none_iff {s : Site} :
    ofSite? s = none ↔ ∀ k : ClauseKind, s.topKeyword? k.keyword = none := by
  simp only [Site.topKeyword?_eq_none_iff]
  unfold ofSite?
  split
  · rename_i h
    rw [Option.map_eq_none_iff, ClauseKind.detect?_eq_none_iff]
    exact ⟨fun h' k _ _ => h' k, fun h' k => h' k h.1 h.2⟩
  · rename_i h
    simp only [true_iff]
    intro k hd hb
    exact absurd ⟨hd, hb⟩ h

theorem keyed_ofSite? : Keyed ofSite? := by
  constructor
  · intro y hy s i h
    rw [ofSite?_eq_none_iff] at h ⊢
    exact fun k => lasting_topKeyword? k.canEnd_keyword hy s i (h k)
  · intro y hy s i h
    rw [ofSite?_eq_none_iff] at h ⊢
    exact fun k => persistent_topKeyword? k.keyword hy s i (h k)

theorem ofSite?_eq_none_of_blank {s : Site} (h : isBlank s.char = true) : ofSite? s = none := by
  unfold ofSite?
  rw [Site.here, ClauseKind.detect?_eq_none_of_inner s.after (.inl h)]
  simp

end ClauseStart

/-- No clause keyword stands in the text when a blank is in front of it. -/
def ClauseFree (x : List Char) : Prop :=
  Quiet ClauseStart.ofSite? (some ' ') x

instance (x : List Char) : Decidable (ClauseFree x) :=
  inferInstanceAs (Decidable (Quiet _ _ x))

theorem quiet_ofSite?_iff {b : Option Char} {x : List Char} :
    Quiet ClauseStart.ofSite? b x ↔ ∀ k : ClauseKind, Quiet (·.topKeyword? k.keyword) b x := by
  constructor
  · intro h k s hs
    exact ClauseStart.ofSite?_eq_none_iff.1 (h s hs) k
  · intro h s hs
    exact ClauseStart.ofSite?_eq_none_iff.2 fun k => h k s hs

/-! ## In front of a clause -/

/-- What stands in front of the body of a clause: its keyword in some spelling, between blanks. -/
structure ClauseKind.Lead (k : ClauseKind) (before keyword gap : List Char) : Prop where
  before_blank : Blank before
  before_ne_nil : before ≠ []
  spells : Spelling.Spells k.keyword.spelling.words keyword
  gap_blank : Blank gap

namespace ClauseKind.Lead

variable {k : ClauseKind} {before keyword gap : List Char}

theorem match?_keyword (h : k.Lead before keyword gap) {z : List Char}
    (hz : ∀ c ∈ (gap ++ z).head?, isBlank c = true) :
    k.keyword.match? (keyword ++ (gap ++ z)) = some keyword.length :=
  Keyword.match?_eq_some_iff_spells.2 ⟨_, _, rfl, h.spells, ClauseKind.allows_iff.2 hz, rfl⟩

theorem plain (h : k.Lead before keyword gap) : Plain (before ++ (keyword ++ gap)) := by
  have hgap : ∀ c ∈ (gap ++ []).head?, isBlank c = true := by
    rw [List.append_nil]
    exact fun c hc => h.gap_blank c (List.mem_of_mem_head? hc)
  have hkeyword := (Keyword.plain_of_match? (h.match?_keyword hgap)).2.2
  rw [List.take_left] at hkeyword
  exact (plain_of_blank h.before_blank).append (hkeyword.append (plain_of_blank h.gap_blank))

/-- Behind the first letter of the keyword no clause keyword starts, up to the body. -/
theorem ofSite?_inside (h : k.Lead before keyword gap) {c : Char} {t : List Char}
    (e : keyword = c :: t) {p : Place} (hp : p.before = some c) (z : List Char) :
    ∀ s ∈ sitesFrom p (t ++ gap), ClauseStart.ofSite? (s.extend z) = none := by
  intro s hs
  obtain ⟨u, d, r, hu, -, rfl⟩ := mem_sitesFrom.1 hs
  cases hblank : isBlank d with
  | true => exact ClauseStart.ofSite?_eq_none_of_blank hblank
  | false =>
    -- the site stands in the keyword, since only blanks follow it
    obtain ⟨r', rfl, rfl⟩ : ∃ r', t = u ++ d :: r' ∧ r = r' ++ gap := by
      have hgap : ∀ x y, gap = x ++ d :: y → False := by
        intro x y hg
        have := h.gap_blank d (by rw [hg]; exact List.mem_append_right _ List.mem_cons_self)
        rw [hblank] at this
        cases this
      rcases List.append_eq_append_iff.1 hu with ⟨x, -, hx⟩ | ⟨x, rfl, hx⟩
      · exact (hgap x r hx).elim
      · cases x with
        | nil => exact (hgap [] r hx.symm).elim
        | cons d' x =>
          rw [List.cons_append, List.cons.injEq] at hx
          exact ⟨x, by rw [hx.1], hx.2⟩
    have hbefore : (p.advance u).before = (c :: u).getLast? := by
      rw [Place.advance_before, hp]
      cases u with
      | nil => rfl
      | cons d' u =>
        rw [List.getLast?_cons_cons]
        exact Option.or_of_isSome (List.getLast?_isSome.2 (List.cons_ne_nil d' u))
    unfold ClauseStart.ofSite?
    split
    · rename_i hsite
      have hlast : ∃ b ∈ (c :: u).getLast?, isBlank b = true := by
        rw [← hbefore]
        exact (Option.any_eq_true _ _).1 hsite.2
      have hspells : Spelling.Spells k.keyword.spelling.words ((c :: u) ++ (d :: r')) := by
        have := h.spells
        rwa [e] at this
      have hnone :=
        ClauseKind.detect?_eq_none_of_spells hspells hlast (List.cons_ne_nil d r') (gap ++ z)
      have hhere :
          (((p.advance u).site d (r' ++ gap)).extend z).here = (d :: r') ++ (gap ++ z) := by
        simp [Site.here, Site.extend, Place.site]
      rw [hhere, hnone]
      rfl
    · rfl

/-- The keyword of a clause is the only one in front of its body. -/
theorem filterMap_sites (h : k.Lead before keyword gap) {p : Place} (hp : p.Clear)
    (hd : p.depth = 0) {z : List Char} (hz : ∀ c ∈ (gap ++ z).head?, isBlank c = true) :
    ((sitesFrom p (before ++ (keyword ++ gap))).map (·.extend z)).filterMap ClauseStart.ofSite? =
      [⟨k, p.index + before.length, p.index + before.length + keyword.length⟩] := by
  obtain ⟨c, t, hc, hup, -⟩ := ClauseKind.exists_of_spells h.spells
  obtain ⟨hclear, hdepth, -⟩ := (plain_of_blank h.before_blank).advance hp
  have hlead : before ++ (keyword ++ gap) = before ++ (c :: (t ++ gap)) := by
    rw [hc, List.cons_append]
  have hbefore : ∀ s ∈ (sitesFrom p before).map (·.extend (c :: (t ++ gap))),
      ClauseStart.ofSite? (s.extend z) = none := by
    rw [List.forall_mem_map]
    intro s hs
    obtain ⟨u, d, r, e, -, rfl⟩ := mem_sitesFrom.1 hs
    refine ClauseStart.ofSite?_eq_none_of_blank (h.before_blank d ?_)
    rw [e]
    exact List.mem_append_right _ List.mem_cons_self
  have houtside : (p.advance before).isOutside c = true :=
    Place.isOutside_of_clear hclear (Spelling.plain_of_toUpper hup).1
  have hfound : ClauseStart.ofSite? (((p.advance before).site c (t ++ gap)).extend z) =
      some ⟨k, p.index + before.length, p.index + before.length + keyword.length⟩ := by
    have hblank : (((p.advance before).site c (t ++ gap)).extend z).followsBlank = true := by
      obtain ⟨b, hb⟩ := Option.isSome_iff_exists.1 (List.getLast?_isSome.2 h.before_ne_nil)
      simp only [Site.followsBlank, Site.extend_before, Place.site, Place.advance_before, hb,
        Option.some_or, Option.any_some]
      exact h.before_blank b (List.mem_of_getLast? hb)
    have hhere :
        (((p.advance before).site c (t ++ gap)).extend z).here = keyword ++ (gap ++ z) := by
      simp [Site.here, Site.extend, Place.site, hc]
    rw [ClauseStart.ofSite?, if_pos ⟨hdepth.trans hd, hblank⟩, hhere,
      ClauseKind.detect?_eq_some_iff.2 (h.match?_keyword hz)]
    simp [Place.site, Place.advance_index]
  rw [hlead, sitesFrom_append, sitesFrom_cons_of_outside houtside, List.map_append,
    List.filterMap_append, List.map_cons, List.filterMap_cons_some hfound]
  rw [List.filterMap_eq_nil_iff.2 (List.forall_mem_map.2 hbefore),
    List.filterMap_eq_nil_iff.2
      (List.forall_mem_map.2 (h.ofSite?_inside hc (Place.next_before _ _) z)),
    List.nil_append]

end ClauseKind.Lead

/-! ## Assembling -/

namespace Clauses

/-- What stands in front of the body of a clause: the keyword between blanks. -/
def lead (k : ClauseKind) (body : List Char) : List Char :=
  ' ' :: (k.keyword.text ++ if body = [] then [] else [' '])

theorem isLead_lead (k : ClauseKind) (body : List Char) :
    k.Lead [' '] k.keyword.text (if body = [] then [] else [' ']) :=
  ⟨by decide, List.cons_ne_nil _ _, k.spells_text, by split <;> decide⟩

theorem filterMap_lead {p : Place} (hp : p.Clear) (hd : p.depth = 0) (k : ClauseKind)
    (body : List Char) {z : List Char} (hz : ∀ c ∈ z.head?, c = ' ') :
    ((sitesFrom p (lead k body)).map (·.extend (body ++ z))).filterMap ClauseStart.ofSite? =
      [⟨k, p.index + 1, p.index + 1 + k.keyword.text.length⟩] := by
  refine (isLead_lead k body).filterMap_sites hp hd fun c hc => ?_
  split at hc
  · rename_i hb
    rw [hb] at hc
    rw [hz c hc]
    decide
  · cases hc
    decide

/-- A clause as a joint of a statement. -/
def joint (clause : ClauseKind × List Char) : Joint ClauseStart.ofSite? where
  lead := lead clause.1 clause.2
  body := clause.2
  mark i := ⟨clause.1, i + 1, i + 1 + clause.1.keyword.text.length⟩
  plain := (isLead_lead clause.1 clause.2).plain
  starts := by
    rw [lead]
    rcases clause.1 with _ | _ | _ | _ | (_ | _ | _) <;> exact ⟨_, _, rfl, by decide⟩
  ends hb := by rw [lead, if_neg hb, ← List.cons_append, List.getLast?_concat]
  found p z hp hd hz := filterMap_lead hp hd clause.1 clause.2 hz

/-- A statement with the given head and clauses. -/
def assemble (head : List Char) (clauses : List (ClauseKind × List Char)) : List Char :=
  Joint.assemble head (clauses.map joint)

theorem assemble_eq (head : List Char) (clauses : List (ClauseKind × List Char)) :
    assemble head clauses = head ++ (clauses.map joint).flatMap Joint.text := rfl

/-! ## Filling the slots -/

/-- The body of a clause of the given kind. -/
def body? (c : Clauses) : ClauseKind → Option Piece
  | .join k => c.join.bind fun j => if j.1 = k then some j.2 else none
  | .whereRows => c.whereRows
  | .groupBy => c.groupBy
  | .orderBy => c.orderBy
  | .limit => c.limit

/-- The number of clauses. -/
def count (c : Clauses) : Nat :=
  c.join.toList.length + c.whereRows.toList.length + c.groupBy.toList.length +
    c.orderBy.toList.length + c.limit.toList.length

@[simp] theorem put_head (c : Clauses) (k : ClauseKind) (body : Piece) :
    (c.put k body).head = c.head := by
  cases k <;> rfl

theorem has_put_of_slot_ne {k k' : ClauseKind} (h : k.slot ≠ k'.slot) (c : Clauses) (body : Piece) :
    (c.put k body).has k' = c.has k' := by
  cases k <;> cases k' <;> first | rfl | exact absurd rfl h

theorem body?_put {c : Clauses} {k : ClauseKind} (h : c.has k = false) (body : Piece)
    (k' : ClauseKind) : (c.put k body).body? k' = if k' = k then some body else c.body? k' := by
  rcases k with _ | _ | _ | _ | j <;> rcases k' with _ | _ | _ | _ | j' <;> try rfl
  have hn : c.join = none := Option.not_isSome_iff_eq_none.1 (by simpa [has] using h)
  simp only [put, body?, hn, Option.bind_some, Option.bind_none, ClauseKind.join.injEq, eq_comm]

theorem count_put {c : Clauses} {k : ClauseKind} (h : c.has k = false) (body : Piece) :
    (c.put k body).count = c.count + 1 := by
  cases k <;> simp only [has, Option.isSome_eq_false_iff, Option.isNone_iff_eq_none] at h <;>
    simp only [count, put, h, Option.toList_some, Option.toList_none, List.length_singleton,
      List.length_nil] <;> omega

/-- Every mark fills a slot. -/
theorem fill_count {statement : Piece} {c c' : Clauses} {marks : List ClauseStart}
    (h : fill statement c marks = .ok c') : c'.count = c.count + marks.length := by
  induction marks generalizing c with
  | nil =>
    cases h
    rfl
  | cons mark marks ih =>
    rw [fill] at h
    split at h
    · cases h
    · rename_i hn
      rw [ih h, count_put (by simpa using hn), List.length_cons]
      omega

/-- Where a part of the statement ends that reaches to the first of the given marks. -/
def reach (statement : Piece) (marks : List ClauseStart) : Nat :=
  (marks.head?.map ClauseStart.first).getD statement.length

theorem has_put_iff {c : Clauses} {k k' : ClauseKind} (body : Piece) :
    (c.put k body).has k' = true ↔ k'.slot = k.slot ∨ c.has k' = true := by
  by_cases h : k.slot = k'.slot
  · have hput : (c.put k body).has k' = true := by
      cases k <;> cases k' <;> first | rfl | cases h
    exact iff_of_true hput (.inl h.symm)
  · rw [has_put_of_slot_ne h]
    exact ⟨.inr, fun h' => h'.resolve_left fun e => h e.symm⟩

/-- Marks of different free slots fill these slots, each with what reaches to the next mark. -/
theorem fill_append {statement : Piece} {front : List ClauseStart} (back : List ClauseStart)
    {c : Clauses} (hn : (front.map ClauseStart.slot).Nodup)
    (hc : ∀ m ∈ front, c.has m.kind = false) :
    ∃ c', fill statement c (front ++ back) = fill statement c' back ∧ c'.head = c.head ∧
      (∀ k, c'.has k = true ↔ k.slot ∈ front.map ClauseStart.slot ∨ c.has k = true) ∧
      (∀ k, (∀ m ∈ front, k ≠ m.kind) → c'.body? k = c.body? k) ∧
      ∀ l m r, front = l ++ m :: r →
        c'.body? m.kind = some (statement.cut m.last (reach statement (r ++ back))) := by
  induction front generalizing c with
  | nil =>
    refine ⟨c, rfl, rfl, by simp, fun k _ => rfl, fun l m r e => ?_⟩
    simp at e
  | cons a front ih =>
    obtain ⟨ha, hfront⟩ := List.forall_mem_cons.1 hc
    rw [List.map_cons, List.nodup_cons] at hn
    let body := statement.cut a.last (reach statement (front ++ back))
    have hfree : ∀ m ∈ front, (c.put a.kind body).has m.kind = false := by
      intro m hm
      rw [has_put_of_slot_ne fun e => hn.1 (List.mem_map.2 ⟨m, hm, e.symm⟩)]
      exact hfront m hm
    obtain ⟨c', hfill, hhead, hhas, hkeep, hbody⟩ := ih hn.2 hfree
    refine ⟨c', ?_, by rw [hhead, put_head], fun k => ?_, fun k hk => ?_, fun l m r e => ?_⟩
    · rw [List.cons_append, fill, if_neg (by simp [ha]), ← hfill]
      rfl
    · rw [hhas, has_put_iff, List.map_cons, List.mem_cons, ← or_assoc]
      exact or_congr_left or_comm
    · obtain ⟨hne, hk⟩ := List.forall_mem_cons.1 hk
      rw [hkeep k hk, body?_put ha, if_neg hne]
    · cases l with
      | nil =>
        rw [List.nil_append, List.cons.injEq] at e
        obtain ⟨rfl, rfl⟩ := e
        rw [hkeep, body?_put ha, if_pos rfl]
        rintro m hm e
        exact hn.1 (List.mem_map.2 ⟨m, hm, by rw [ClauseStart.slot, ClauseStart.slot, e]⟩)
      | cons b l =>
        rw [List.cons_append, List.cons.injEq] at e
        exact hbody l m r e.2

/-- The clauses are those of the statement at the given marks: the head reaches to the first mark,
and each clause from the end of its keyword to the next mark. -/
structure Divided (statement : Piece) (marks : List ClauseStart) (c : Clauses) : Prop where
  head : c.head = statement.cut 0 (reach statement marks)
  body : ∀ front m back, marks = front ++ m :: back →
    c.body? m.kind = some (statement.cut m.last (reach statement back))
  /-- A slot that no mark fills is empty. -/
  absent : ∀ k : ClauseKind, k.slot ∉ marks.map ClauseStart.slot → c.has k = false

theorem join_eq_some_iff {c : Clauses} {k : JoinKind} {b : Piece} :
    c.join = some (k, b) ↔ c.body? (.join k) = some b := by
  simp only [body?, Option.bind_eq_some_iff]
  constructor
  · intro h
    exact ⟨(k, b), h, if_pos rfl⟩
  · rintro ⟨⟨k', b'⟩, h, e⟩
    split at e
    · rename_i hk
      cases e
      rw [h, ← hk]
    · cases e

/-- A kind that no mark has is not among the clauses. -/
theorem Divided.body?_eq_none {statement : Piece} {marks : List ClauseStart} {c : Clauses}
    (h : Divided statement marks c) {k : ClauseKind} (hk : k ∉ marks.map ClauseStart.kind) :
    c.body? k = none := by
  by_cases hs : k.slot ∈ marks.map ClauseStart.slot
  · -- a join of another kind fills the slot
    obtain ⟨m, hm, e⟩ := List.mem_map.1 hs
    obtain ⟨front, back, rfl⟩ := List.append_of_mem hm
    have hbody := h.body front m back rfl
    have hne : m.kind ≠ k := by
      rintro rfl
      exact hk (List.mem_map_of_mem hm)
    rw [ClauseStart.slot] at e
    cases hkind : m.kind with
    | join j =>
      cases k with
      | join j' =>
        rw [hkind] at hbody hne
        rw [body?, join_eq_some_iff.2 hbody, Option.bind_some,
          if_neg fun e : j = j' => hne (by rw [e])]
      | _ => rw [hkind] at e; cases e
    | _ =>
      rw [hkind] at e hne
      cases k <;> first | exact absurd rfl hne | cases e
  · have hnone := h.absent k hs
    cases k with
    | join j =>
      simp only [has, Option.isSome_eq_false_iff, Option.isNone_iff_eq_none] at hnone
      rw [body?, hnone]
      rfl
    | _ =>
      simp only [has, Option.isSome_eq_false_iff, Option.isNone_iff_eq_none] at hnone
      exact hnone

/-! ## Dividing a statement -/

theorem ofHead_has (head : Piece) (k : ClauseKind) : (ofHead head).has k = false := by
  cases k <;> rfl

/-- A balanced statement is divided at the marks that it has. -/
theorem split_of_balanced {statement : Piece} (h : Balanced statement.chars) :
    split statement = fill statement
      (ofHead (statement.cut 0 (reach statement
        ((sitesFrom (.start 0 none) statement.chars).filterMap ClauseStart.ofSite?))))
      ((sitesFrom (.start 0 none) statement.chars).filterMap ClauseStart.ofSite?) := by
  rw [split, Piece.requireBalanced_eq_ok_iff.2 h, Piece.sites_outline]
  rfl

/-- A balanced statement with marks of different slots is divided at them. -/
theorem split_of_nodup {statement : Piece} {marks : List ClauseStart}
    (hb : Balanced statement.chars)
    (e : (sitesFrom (.start 0 none) statement.chars).filterMap ClauseStart.ofSite? = marks)
    (hn : (marks.map ClauseStart.slot).Nodup) :
    ∃ c, split statement = .ok c ∧ Divided statement marks c := by
  obtain ⟨c, hfill, hhead, hhas, -, hbody⟩ :=
    fill_append (c := ofHead (statement.cut 0 (reach statement marks))) [] hn fun a _ =>
      ofHead_has _ a.kind
  simp only [List.append_nil] at hfill hbody
  refine ⟨c, by rw [split_of_balanced hb, e, hfill]; rfl, hhead, hbody, fun k hk => ?_⟩
  rw [Bool.eq_false_iff, Ne, hhas, ofHead_has]
  simpa using hk

/-- What stands in front of clauses reaches to the first keyword. -/
theorem cut_to_mark {statement : Piece} {u x : List Char} {l : List (ClauseKind × List Char)}
    (h : statement.chars = u ++ assemble x l) {i j : Nat} (hi : i = u.length)
    (hj : j = u.length + x.length) :
    (statement.cut i (reach statement (Joint.marksFrom j (l.map joint)))).chars = trim x := by
  cases l with
  | nil =>
    rw [assemble, List.map_nil, Joint.assemble_nil] at h
    exact Piece.rest_of_eq h hi
  | cons b l =>
    have hblank : Blank [' '] := by decide
    have h' : statement.chars = u ++ ((x ++ [' ']) ++ (b.1.keyword.text ++
        ((if b.2 = [] then [] else [' ']) ++ assemble b.2 l))) := by
      rw [h, assemble, List.map_cons, Joint.assemble_cons]
      simp [joint, lead, assemble]
    rw [← trim_append_blank hblank]
    apply Piece.cut_of_eq h' hi
    rw [List.length_append, List.length_singleton, hj]
    rfl

theorem map_kind_marksFrom (i : Nat) (l : List (ClauseKind × List Char)) :
    (Joint.marksFrom i (l.map joint)).map ClauseStart.kind = l.map Prod.fst := by
  induction l generalizing i with
  | nil => rfl
  | cons a l ih =>
    rw [List.map_cons, Joint.marksFrom, List.map_cons, ih, List.map_cons]
    rfl

/-- A statement is divided into what it was assembled from. -/
theorem split_assemble {statement : Piece} {head : List Char} {l : List (ClauseKind × List Char)}
    (h : statement.chars = assemble head l) (hh : Balanced head)
    (hq : Quiet ClauseStart.ofSite? none head) (hl : ∀ a ∈ l, Balanced a.2 ∧ ClauseFree a.2)
    (hn : (l.map fun a => a.1.slot).Nodup) :
    ∃ c, split statement = .ok c ∧ c.head.chars = trim head ∧
      ∀ k, (c.body? k).map Piece.chars = (l.lookup k).map trim := by
  have hmarks : (sitesFrom (.start 0 none) statement.chars).filterMap ClauseStart.ofSite? =
      Joint.marksFrom head.length (l.map joint) := by
    have hl' : ∀ j ∈ l.map joint, Balanced j.body ∧ Quiet ClauseStart.ofSite? (some ' ') j.body :=
      List.forall_mem_map.2 hl
    have :=
      Joint.filterMap_assemble ClauseStart.keyed_ofSite? hh (Place.fresh_start 0 none head) rfl
      hq hl'
    rw [h, assemble, this]
    simp [Place.start]
  have hbalanced : Balanced statement.chars := by
    rw [h]
    exact Joint.balanced_assemble hh (List.forall_mem_map.2 fun a ha => (hl a ha).1)
  have hslots : ((Joint.marksFrom head.length (l.map joint)).map ClauseStart.slot).Nodup := by
    rw [ClauseStart.map_slot, map_kind_marksFrom, List.map_map]
    exact hn
  obtain ⟨c, hsplit, hdivided⟩ := split_of_nodup hbalanced hmarks hslots
  refine ⟨c, hsplit, ?_, fun k => ?_⟩
  · rw [hdivided.head]
    exact cut_to_mark (u := []) h rfl (by simp)
  · cases hk : l.lookup k with
    | none =>
      have hkinds : k ∉ (Joint.marksFrom head.length (l.map joint)).map ClauseStart.kind := by
        rw [map_kind_marksFrom]
        intro hmem
        obtain ⟨a, ha, e⟩ := List.mem_map.1 hmem
        exact bne_iff_ne.1 (List.lookup_eq_none_iff.1 hk a ha) e.symm
      rw [hdivided.body?_eq_none hkinds]
      rfl
    | some x =>
      obtain ⟨l₁, l₂, rfl, -⟩ := List.lookup_eq_some_iff.1 hk
      have happend :=
        Joint.marksFrom_append head.length (l₁.map joint) ((l₂.map joint).cons (joint (k, x)))
      rw [← List.map_cons, ← List.map_append] at happend
      have hbody : c.body? k = _ := hdivided.body _ _ _ happend
      have hgap : Blank (if x = [] then [] else [' ']) := by
        split <;> decide
      have htext : statement.chars =
          (head ++ ((l₁.map joint).flatMap Joint.text ++ ' ' :: k.keyword.text)) ++
          assemble ((if x = [] then [] else [' ']) ++ x) l₂ := by
        rw [h, assemble_eq, assemble_eq]
        simp [Joint.text, joint, lead]
      rw [hbody, Option.map_some, Option.map_some, ← trim_blank_append hgap]
      refine congrArg some (cut_to_mark htext ?_ ?_)
      · simp only [joint, List.length_append, List.length_cons]
        omega
      · simp only [Joint.text, joint, lead, List.length_append, List.length_cons]
        omega

theorem seams_of_mark {x : List Char} {mark : ClauseStart}
    (h : mark ∈ (sitesFrom (.start 0 none) x).filterMap ClauseStart.ofSite?) :
    StopAt x mark.first ∧ SeamAt x mark.last := by
  obtain ⟨s, hs, e⟩ := List.mem_filterMap.1 h
  unfold ClauseStart.ofSite? at e
  split at e
  · rename_i hd
    obtain ⟨⟨k, n⟩, hk, rfl⟩ := Option.map_eq_some_iff.1 e
    obtain ⟨k', -, hm⟩ := List.exists_of_findSome?_eq_some hk
    obtain ⟨n', hn, e'⟩ := Option.map_eq_some_iff.1 hm
    cases e'
    obtain ⟨hpos, hle, hplain⟩ := Keyword.plain_of_match? hn
    exact ⟨stopAt_of_site hs hd.1, seamAt_of_site hs hd.1 hpos hplain hle⟩
  · cases e

/-- What holds of everything that is cut between marks holds of the bodies. -/
theorem fill_bodies {P : Piece → Prop} {statement : Piece} {c c' : Clauses}
    {marks : List ClauseStart}
    (hm : ∀ mark ∈ marks, ∀ stop, (stop = statement.length ∨ ∃ next ∈ marks, stop = next.first) →
      P (statement.cut mark.last stop))
    (hc : ∀ k b, c.body? k = some b → P b) (h : fill statement c marks = .ok c') :
    c'.head = c.head ∧ ∀ k b, c'.body? k = some b → P b := by
  induction marks generalizing c with
  | nil =>
    cases h
    exact ⟨rfl, hc⟩
  | cons mark marks ih =>
    rw [fill] at h
    split at h
    · cases h
    · rename_i hn
      have hstop : P (statement.cut mark.last
          ((marks.head?.map ClauseStart.first).getD statement.length)) := by
        refine hm mark List.mem_cons_self _ ?_
        cases marks with
        | nil => exact .inl rfl
        | cons next marks =>
          exact .inr ⟨next, List.mem_cons_of_mem _ List.mem_cons_self, rfl⟩
      obtain ⟨hhead, hbodies⟩ := ih
        (fun m hm' stop hs => hm m (List.mem_cons_of_mem _ hm') stop
          (hs.imp id fun ⟨next, hn, e⟩ => ⟨next, List.mem_cons_of_mem _ hn, e⟩))
        (fun k b hb => by
          rw [body?_put (by simpa using hn)] at hb
          split at hb
          · cases hb
            exact hstop
          · exact hc k b hb) h
      exact ⟨by rw [hhead, put_head], hbodies⟩

/-- A statement that can be divided is balanced, and so are the parts; there are as many clauses as
keywords. -/
theorem balanced_of_split {statement : Piece} {c : Clauses} (h : split statement = .ok c) :
    Balanced statement.chars ∧ Balanced c.head.chars ∧
      (∀ k b, c.body? k = some b → Balanced b.chars ∧ Tight b.chars) ∧
      c.count =
        ((sitesFrom (.start 0 none) statement.chars).filterMap ClauseStart.ofSite?).length := by
  obtain ⟨_, hb, h⟩ := bind_eq_ok_iff.1 h
  have hbal := Piece.requireBalanced_eq_ok_iff.1 hb
  rw [Piece.sites_outline] at h
  have hcut : ∀ {i j : Nat}, SeamAt statement.chars i → (j = statement.length ∨
      ∃ next ∈ (sitesFrom (.start 0 none) statement.chars).filterMap ClauseStart.ofSite?,
        j = next.first) → Balanced (statement.cut i j).chars ∧ Tight (statement.cut i j).chars := by
    intro i j hi hj
    refine ⟨balanced_cut hbal hi ?_, tight_cut _ _ _⟩
    rcases hj with rfl | ⟨next, hn, rfl⟩
    · exact stopAt_length hbal
    · exact (seams_of_mark hn).1
  have hcount := fill_count h
  obtain ⟨hhead, hbodies⟩ := fill_bodies (P := fun b => Balanced b.chars ∧ Tight b.chars)
    (fun mark hm stop hs => hcut (seams_of_mark hm).2 hs)
    (fun k b hk => by cases k <;> cases hk) h
  refine ⟨hbal, ?_, hbodies, ?_⟩
  · rw [hhead]
    refine (hcut (seamAt_zero _) ?_).1
    cases hmarks : (sitesFrom (.start 0 none) statement.chars).filterMap ClauseStart.ofSite? with
    | nil => exact .inl rfl
    | cons next marks => exact .inr ⟨next, List.mem_cons_self, rfl⟩
  · rw [hcount]
    simp [count, ofHead]

/-- A statement with no more keywords than it was assembled with is divided into what it was
assembled from. -/
theorem split_of_count {statement : Piece} {head : List Char} {l : List (ClauseKind × List Char)}
    {c : Clauses} (h : statement.chars = assemble head l) (hh : Balanced head)
    (hl : ∀ a ∈ l, Balanced a.2) (hn : (l.map fun a => a.1.slot).Nodup)
    (hs : split statement = .ok c) (hc : c.count = l.length) :
    Quiet ClauseStart.ofSite? none head ∧ (∀ a ∈ l, ClauseFree a.2) ∧ c.head.chars = trim head ∧
      ∀ k, (c.body? k).map Piece.chars = (l.lookup k).map trim := by
  obtain ⟨-, -, -, hcount⟩ := balanced_of_split hs
  rw [h, hc] at hcount
  have hbodies : ∀ j ∈ l.map joint, Balanced j.body := List.forall_mem_map.2 hl
  obtain ⟨hquiet, hfree⟩ := (Joint.quiet_of_count ClauseStart.keyed_ofSite? hh
    (Place.fresh_start 0 none head) rfl hbodies).2 (by rw [List.length_map, hcount]; rfl)
  have hfree' : ∀ a ∈ l, ClauseFree a.2 :=
    fun a ha => hfree (joint a) (List.mem_map.2 ⟨a, ha, rfl⟩)
  obtain ⟨c', hs', hhead, hbody⟩ :=
    split_assemble h hh hquiet (fun a ha => ⟨hl a ha, hfree' a ha⟩) hn
  rw [hs] at hs'
  cases hs'
  exact ⟨hquiet, hfree', hhead, hbody⟩

end Clauses

end TableQuery
