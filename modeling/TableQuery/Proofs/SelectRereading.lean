import TableQuery.Proofs.SelectRendering

/-!
# Rereadable `SELECT`s

A query is read back from its rendering only if it is `Rereadable` (`ofText_render_iff`). A
statement that is read has as many clause keywords as the query has clauses (`Reading.count`). If it
is the rendering of that query, these are the keywords that were rendered, and no other keyword
stands in the parts. If a semicolon was taken off the rendering, the table or the last grouping is
shorter than the query says (`false_of_semicolon`).
-/

namespace TableQuery

open Text Outline

/-- `DISTINCT` in front of a blank is found whatever follows the blank. -/
theorem match?_distinct_of_append {x y : List Char}
    (h : Keyword.distinct.match? (x ++ ' ' :: y) = none) :
    Keyword.distinct.match? (x ++ [' ']) = none := by
  cases hm : Keyword.distinct.match? (x ++ [' ']) with
  | none => rfl
  | some n =>
    have hlt : n < (x ++ [' ']).length := by
      obtain ⟨r, hr, hallows, rfl⟩ := Keyword.match?_eq_some_iff.1 hm
      cases r with
      | nil => cases hallows
      | cons c r =>
        rw [List.length_append, List.length_singleton, List.length_cons]
        omega
    have := Keyword.match?_append_eq_some (y := y) hm (.inl hlt)
    rw [List.append_assoc, List.singleton_append, h] at this
    cases this

namespace SelectQuery

/-! ## What is read off a statement -/

theorem Reading.formed {p : Piece} {c : Clauses} {h : SelectHead} {q : SelectQuery}
    (hr : Reading p c h q) : q.Formed := by
  obtain ⟨-, hhead, hbodies, -⟩ := Clauses.balanced_of_split hr.split
  refine ⟨?_, ?_, ?_, ?_, ?_, ?_, hr.aggregatesAll⟩
  · obtain ⟨hne, hitems⟩ := hr.fields.items
    exact ⟨by simpa using hne, List.forall_mem_map.1 hitems⟩
  · obtain ⟨hne, ht, hb⟩ := SelectHead.table_of_parse hr.head hhead
    rw [hr.table]
    exact ⟨hb, hne, ht⟩
  · intro j hj
    rcases joinOf_eq_ok_iff.1 hr.join with ⟨-, e⟩ | ⟨k, b, j', hc, e, hp⟩
    · rw [e] at hj
      cases hj
    · rw [e] at hj
      cases hj
      have hbody : c.body? (.join k) = some b := by simp [Clauses.body?, hc]
      obtain ⟨hb, ht⟩ := hbodies _ b hbody
      exact (Join.readable_of_parse hp ht hb).2
  · obtain ⟨cs, ho, e⟩ := hr.conditions
    rw [e]
    rcases optional_eq_ok_iff.1 ho with ⟨-, rfl⟩ | ⟨b, cs, hb, rfl, hp⟩
    · exact fun c hc => by cases hc
    · intro c hc
      obtain ⟨hne, ht, hs, -⟩ := (Where.conditions_of_parse hp (hbodies .whereRows b hb).1).2 c hc
      exact ⟨hs, hne, ht⟩
  · intro l hl
    rcases optional_eq_ok_iff.1 hr.groupBy with ⟨-, e⟩ | ⟨b, l', hb, e, hp⟩
    · rw [e] at hl
      cases hl
    · rw [e] at hl
      cases hl
      obtain ⟨hne, hitems⟩ := (ItemList.parse_eq_ok_iff.1 hp).items
      exact ⟨by simpa using hne, List.forall_mem_map.1 hitems⟩
  · intro ks hks
    rcases optional_eq_ok_iff.1 hr.orderBy with ⟨-, e⟩ | ⟨b, ks', hb, e, hp⟩
    · rw [e] at hks
      cases hks
    · rw [e] at hks
      cases hks
      exact SortKey.readable_of_parse hp

theorem length_of_optional {α : Type} {body : Option Piece} {read : Piece → Except ParseError α}
    {x : Option α} (h : optional body read = .ok x) : body.toList.length = x.toList.length := by
  rcases optional_eq_ok_iff.1 h with ⟨rfl, rfl⟩ | ⟨b, a, rfl, rfl, -⟩
  · rfl
  · rfl

/-- A query has as many clauses as keywords were found. -/
theorem Reading.count {p : Piece} {c : Clauses} {h : SelectHead} {q : SelectQuery}
    (hr : Reading p c h q) : c.count = q.clauses.length := by
  obtain ⟨-, hhead, hbodies, -⟩ := Clauses.balanced_of_split hr.split
  have hjoin : c.join.toList.length = q.join.toList.length := by
    rcases joinOf_eq_ok_iff.1 hr.join with ⟨hc, e⟩ | ⟨k, b, j, hc, e, -⟩
    · rw [hc, e]
      rfl
    · rw [hc, e]
      rfl
  have hwhere : c.whereRows.toList.length =
      (if q.conditions = [] then none
        else some (ClauseKind.whereRows, Where.chars q.conditions)).toList.length := by
    obtain ⟨cs, ho, e⟩ := hr.conditions
    rcases optional_eq_ok_iff.1 ho with ⟨hc, rfl⟩ | ⟨b, cs, hb, rfl, hp⟩
    · rw [hc, e]
      rfl
    · have hne : q.conditions ≠ [] := by
        rw [e]
        exact (Where.conditions_of_parse hp (hbodies .whereRows b hb).1).1
      rw [hb, if_neg hne]
      rfl
  have hgroup := length_of_optional hr.groupBy
  have horder := length_of_optional hr.orderBy
  have hlimit := length_of_optional hr.limit
  simp only [Clauses.count, clauses, List.length_append, hwhere, hjoin, hgroup, horder, hlimit]
  have hmap :
      ∀ {α β : Type} (f : α → β) (x : Option α), (x.map f).toList.length = x.toList.length := by
    intro α β f x
    cases x <;> rfl
  simp only [hmap]
  omega

/-- A query whose rendering is balanced leaves no parenthesis open in a condition. -/
theorem Formed.shaped {q : SelectQuery} (h : q.Formed) (hb : Balanced q.render.toList) :
    q.Shaped := by
  refine ⟨h, fun c hc => balanced_iff.2 ⟨(h.conditions c hc).toSound, ?_⟩⟩
  have hne : q.conditions ≠ [] := List.ne_nil_of_mem hc
  have htotal := (Clauses.chunk_assemble (part_iff.1 h.part_head).1 h.chunk_clause).2
  rw [← h.render_toList, hb.openDepth, h.part_head.openDepth, Nat.zero_add] at htotal
  have hzero := List.sum_eq_zero_iff_forall_eq_nat.1 htotal.symm
  have hmem : (ClauseKind.whereRows, Where.chars q.conditions) ∈ q.clauses := by
    simp [clauses, hne]
  have hwhere := hzero _ (List.mem_map.2 ⟨_, hmem, rfl⟩)
  rw [(chunk_where hne h.conditions).2] at hwhere
  exact List.sum_eq_zero_iff_forall_eq_nat.1 hwhere _ (List.mem_map.2 ⟨c, hc, rfl⟩)

/-! ## A rendering that is read back -/

/-- A statement that is the rendering of the query read off it. -/
theorem Reading.rereadable {p : Piece} {c : Clauses} {h : SelectHead} {q : SelectQuery}
    (hr : Reading p c h q) (e : p.chars = q.render.toList)
    (hl : q.render.toList.getLast? ≠ some ';') :
    q.Rereadable := by
  have hf := hr.formed
  have hb : Balanced q.render.toList := by
    rw [← e]
    exact (Clauses.balanced_of_split hr.split).1
  have hs := hf.shaped hb
  have hfields := part_listText hf.fields.1 hf.fields.2
  rw [hf.render_toList] at e
  obtain ⟨hquiet, hfree, hhead, hbodies⟩ := Clauses.split_of_count e hf.part_head.toBalanced
    (fun a ha => (hs.part_clause a ha).toBalanced) q.nodup_slots hr.split hr.count
  rw [trim_eq_self hf.part_head.tight] at hhead
  have hblank : ∀ c ∈ (" FROM ".toList ++ q.table.toList).head?, isBlank c = true := by
    intro c hc
    cases hc
    decide
  obtain ⟨hdistinct, hfrom, -⟩ :=
    SelectHead.quiet_of_parse hhead hfields.ne_nil hfields.tight hblank
    hr.head hr.distinct.symm hr.fields.solid_eq
  obtain ⟨hqf, hqt⟩ := (SelectHead.quiet_chars_iff q.distinct hfields.toBalanced).1 hquiet
  have hwhere : (∀ c ∈ q.conditions, c.Readable) ∧ Where.ConnectorFree q.conditions := by
    by_cases hne : q.conditions = []
    · rw [hne]
      exact ⟨fun c hc => (by cases hc), trivial⟩
    · obtain ⟨cs, ho, hcs⟩ := hr.conditions
      rcases optional_eq_ok_iff.1 ho with ⟨-, rfl⟩ | ⟨b, cs, hbody, rfl, hp⟩
      · exact absurd hcs hne
      · have hchars := hf.body_eq hbodies .whereRows
        rw [Clauses.body?, hbody, body?, if_neg hne, Option.map_some, Option.some.injEq] at hchars
        rw [Option.getD_some] at hcs
        subst hcs
        exact (Where.parse_chars_iff hchars hne hs.closed).1 hp
  exact ⟨hs, fun hd => match?_distinct_of_append (hdistinct hd), hfrom, ⟨hqf, hqt, hfree⟩, hwhere.1,
    hwhere.2, hl⟩

/-! ## A rendering that loses a semicolon -/

theorem solid_trimEnd (x : List Char) : solid (trimEnd x) = solid x := by
  obtain ⟨b, hb, e⟩ := exists_trimEnd_blank x
  have := congrArg solid e
  rw [solid_append, solid_eq_nil_iff.2 hb, List.append_nil] at this
  exact this.symm

theorem length_solid_semicolon (x : List Char) :
    (solid (x ++ [';'])).length = (solid x).length + 1 := by
  have hsemicolon : solid [';'] = [';'] := by decide
  rw [solid_append, hsemicolon, List.length_append, List.length_singleton]

/-- A table is not read off a head that has lost the end of it. -/
theorem Reading.table_ne {p : Piece} {c : Clauses} {h : SelectHead} {q : SelectQuery}
    (hr : Reading p c h q) (hnil : q.clauses = []) {t : List Char}
    (ht : q.table.toList = t ++ [';']) :
    p.chars ≠ trimEnd (SelectHead.chars q.distinct (listText q.fields) (" FROM ".toList ++ t)) := by
  intro e
  have hf := hr.formed
  have hfields := part_listText hf.fields.1 hf.fields.2
  have hsolid : ¬Blank (" FROM ".toList ++ t) := fun hb => by
    have := hb 'F' (by simp)
    revert this
    decide
  have hchars : p.chars =
      SelectHead.chars q.distinct (listText q.fields) (trimEnd (" FROM ".toList ++ t)) := by
    rw [e, SelectHead.chars_eq, SelectHead.chars_eq, ← List.append_assoc, ← List.append_assoc,
      trimEnd_append _ hsolid, List.append_assoc, List.append_assoc]
  have htight : Tight p.chars := by
    refine ⟨?_, ?_⟩
    · rw [hchars, SelectHead.chars_eq]
      cases q.distinct <;> exact fun c hc => by cases hc; decide
    · rw [e]
      exact getLast?_trimEnd _
  have hblank : ∀ c ∈ (trimEnd (" FROM ".toList ++ t)).head?, isBlank c = true := by
    intro c hc
    obtain ⟨b, -, ey⟩ := exists_trimEnd_blank (" FROM ".toList ++ t)
    obtain ⟨r, hz⟩ := List.head?_eq_some_iff.1 hc
    rw [hz] at ey
    have hhead : some ' ' = some c := congrArg List.head? ey
    cases hhead
    decide
  -- without clauses, the head is the whole statement
  have hcount := hr.count
  rw [hnil] at hcount
  obtain ⟨-, -, hhead, -⟩ := Clauses.split_of_count (l := []) (Joint.assemble_nil p.chars).symm
    (Clauses.balanced_of_split hr.split).1 (fun a ha => by cases ha) List.nodup_nil hr.split hcount
  rw [trim_eq_self htight, hchars] at hhead
  obtain ⟨-, -, hlength⟩ := SelectHead.quiet_of_parse hhead hfields.ne_nil hfields.tight hblank
    hr.head hr.distinct.symm hr.fields.solid_eq
  have hfrom : solid " FROM ".toList = "FROM".toList := by decide
  rw [← hr.table, ht, length_solid_semicolon, solid_trimEnd, solid_append, hfrom,
    List.length_append] at hlength
  have hfour : "FROM".toList.length = 4 := by decide
  omega

/-- A clause whose body has lost its end. -/
theorem trimEnd_clause (k : ClauseKind) (y : List Char) :
    trimEnd (' ' :: (k.keyword.text ++ ' ' :: y)) = Clauses.lead k (trimEnd y) ++ trimEnd y := by
  have hblank : Blank [' '] := by decide
  by_cases hy : Blank y
  · have htail : Blank (' ' :: y) := blank_append.2 ⟨hblank, hy⟩
    have hlast : ∀ c ∈ (' ' :: k.keyword.text).getLast?, isBlank c = false := by
      revert k; decide
    rw [trimEnd_eq_nil_iff.2 hy, ← List.cons_append, trimEnd_append_blank htail,
      trimEnd_eq_self hlast]
    simp [Clauses.lead]
  · have hne : trimEnd y ≠ [] := fun e => hy (trimEnd_eq_nil_iff.1 e)
    have htext : ' ' :: (k.keyword.text ++ ' ' :: y) = (' ' :: (k.keyword.text ++ [' '])) ++ y := by
      simp
    rw [htext, trimEnd_append _ hy, Clauses.lead, if_neg hne]

/-- A grouping is not read off a statement that has lost the end of it. -/
theorem Reading.groupBy_ne {p : Piece} {c : Clauses} {h : SelectHead} {q : SelectQuery}
    (hr : Reading p c h q) (hs : q.Shaped) {l : List (ClauseKind × List Char)} {g : List String}
    (hg : q.groupBy = some g) (hl : q.clauses = l ++ [(.groupBy, listText g)]) {y : List Char}
    (hy : listText g = y ++ [';']) :
    p.chars ≠ Clauses.assemble q.headText (l ++ [(.groupBy, trimEnd y)]) := by
  intro e
  have hpart : ∀ a ∈ l, Part a.2 := fun a ha =>
    hs.part_clause a (by rw [hl]; exact List.mem_append_left _ ha)
  have hlist : Part (listText g) :=
    hs.part_clause (.groupBy, listText g)
      (by rw [hl]; exact List.mem_append_right _ List.mem_cons_self)
  have hbalanced : Balanced (trimEnd y) := by
    obtain ⟨b, hb, ey⟩ := exists_trimEnd_blank y
    have hplain : Plain (b ++ [';']) := (plain_of_blank hb).append (by decide)
    have htext : listText g = trimEnd y ++ (b ++ [';']) := by
      rw [← List.append_assoc, ← ey, hy]
    have hwhole := hlist.toBalanced
    rw [htext] at hwhole
    exact hwhole.of_append_plain hplain
  have hnodup := q.nodup_slots
  have hcount := hr.count
  rw [hl] at hnodup hcount
  obtain ⟨-, -, -, hbodies⟩ := Clauses.split_of_count e hs.part_head.toBalanced
    (fun a ha => by
      rcases List.mem_append.1 ha with ha | ha
      · exact (hpart a ha).toBalanced
      · rw [List.mem_singleton.1 ha]
        exact hbalanced)
    (by simpa using hnodup) hr.split (by simpa using hcount)
  have hlookup : (l ++ [(ClauseKind.groupBy, trimEnd y)]).lookup .groupBy = some (trimEnd y) := by
    have hnone : l.lookup .groupBy = none := by
      rw [List.lookup_eq_none_iff]
      intro a ha
      rw [List.map_append, List.nodup_append] at hnodup
      have := hnodup.2.2 a.1.slot (List.mem_map.2 ⟨a, ha, rfl⟩) _ List.mem_cons_self
      rw [bne_iff_ne]
      intro e
      rw [← e] at this
      exact this rfl
    rw [List.lookup_append, hnone]
    simp
  have hbody := hbodies .groupBy
  rw [hlookup, Option.map_some, Clauses.body?] at hbody
  rcases optional_eq_ok_iff.1 hr.groupBy with ⟨-, hnone⟩ | ⟨b, g', hb, hsome, hp⟩
  · rw [hnone] at hg
    cases hg
  · rw [hsome, Option.some.injEq] at hg
    subst hg
    rw [hb, Option.map_some, Option.some.injEq] at hbody
    have hsolid := congrArg List.length (ItemList.parse_eq_ok_iff.1 hp).solid_eq
    have htext : [',', ' '].intercalate (g'.map String.toList) = y ++ [';'] := hy
    rw [hbody, solid_trim, solid_trimEnd, htext, length_solid_semicolon] at hsolid
    omega

theorem assemble_concat (head : List Char) (l : List (ClauseKind × List Char))
    (a : ClauseKind × List Char) :
    Clauses.assemble head (l ++ [a]) =
      Clauses.assemble head l ++ (Clauses.lead a.1 a.2 ++ a.2) := by
  simp [Clauses.assemble_eq, Joint.text, Clauses.joint]

/-- A query is not read off its rendering without a semicolon at the end. -/
theorem Reading.false_of_semicolon {p : Piece} {c : Clauses} {h : SelectHead} {q : SelectQuery}
    (hr : Reading p c h q) {x : List Char} (e : q.render.toList = x ++ [';'])
    (hp : p.chars = trimEnd x) : False := by
  have hf := hr.formed
  have hb : Balanced q.render.toList := by
    obtain ⟨b, hb, ex⟩ := exists_trimEnd_blank x
    have hplain : Plain (b ++ [';']) := (plain_of_blank hb).append (by decide)
    have := (Clauses.balanced_of_split hr.split).1.append_plain hplain (by simp)
      (plain_of_blank blank_nil).balanced
    rwa [List.append_nil, hp, ← List.append_assoc, ← ex, ← e] at this
  have hs := hf.shaped hb
  rw [hf.render_toList] at e
  rcases List.eq_nil_or_concat q.clauses with hnil | ⟨l, a, hl⟩
  · obtain ⟨t, d, ht⟩ := (List.eq_nil_or_concat q.table.toList).resolve_left hf.table.ne_nil
    rw [List.concat_eq_append] at ht
    rw [hnil, Clauses.assemble, List.map_nil, Joint.assemble_nil, headText, SelectHead.chars_eq, ht,
      ← List.append_assoc, ← List.append_assoc, ← List.append_assoc, ← List.append_assoc] at e
    obtain ⟨hx, hd⟩ := List.append_inj' e rfl
    cases hd
    refine hr.table_ne hnil ht ?_
    rw [hp, ← hx, SelectHead.chars_eq]
    simp only [List.append_assoc]
  · rw [List.concat_eq_append] at hl
    have ha : a ∈ q.clauses := by
      rw [hl]
      exact List.mem_append_right _ List.mem_cons_self
    obtain ⟨y, d, hy⟩ := (List.eq_nil_or_concat a.2).resolve_left (hf.chunk_clause a ha).ne_nil
    rw [List.concat_eq_append] at hy
    have hne : a.2 ≠ [] := (hf.chunk_clause a ha).ne_nil
    have htext : Clauses.assemble q.headText q.clauses =
        (Clauses.assemble q.headText l ++ ' ' :: (a.1.keyword.text ++ ' ' :: y)) ++ [d] := by
      rw [hl, assemble_concat, Clauses.lead, if_neg hne, hy]
      simp
    rw [htext] at e
    obtain ⟨hx, hd⟩ := List.append_inj' e rfl
    cases hd
    rcases hf.getLast?_clause a ha with hlast | ⟨g, hg, rfl⟩
    · rw [hy, List.getLast?_concat] at hlast
      exact hlast rfl
    · refine hr.groupBy_ne hs hg hl hy ?_
      have hsolid : ¬Blank (' ' :: (ClauseKind.groupBy.keyword.text ++ ' ' :: y)) := by
        intro hblank
        have hmem : 'G' ∈ ClauseKind.groupBy.keyword.text := by decide
        have hG := hblank 'G' (List.mem_cons_of_mem _ (List.mem_append_left _ hmem))
        revert hG
        decide
      rw [hp, ← hx, trimEnd_append _ hsolid, trimEnd_clause, assemble_concat]

/-- A query is read back from its rendering exactly if the rendering is within the limit and the
query is rereadable. -/
theorem ofText_render_iff {settings : Settings} {q : SelectQuery} :
    ofText settings q.render = .ok q ↔
      byteLength q.render.toList ≤ settings.maxLength ∧ q.Rereadable := by
  constructor
  · intro h
    obtain ⟨p, hp, hparse⟩ := bind_eq_ok_iff.1 h
    obtain ⟨c, head, hr⟩ := parse_eq_ok_iff.1 hparse
    have ht := hr.formed.chunk_render.tight
    refine ⟨(Statement.isolate_eq_ok_iff.1 hp).1, ?_⟩
    by_cases hl : q.render.toList.getLast? = some ';'
    · obtain ⟨x, e⟩ := List.getLast?_eq_some_iff.1 hl
      exact (hr.false_of_semicolon e (Statement.isolate_of_semicolon ht e hp)).elim
    · exact hr.rereadable (Statement.isolate_of_tight ht hl hp) hl
  · rintro ⟨hl, hq⟩
    exact ofText_render hq hl

end SelectQuery

end TableQuery
