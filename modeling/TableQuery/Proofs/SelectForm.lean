import TableQuery.Proofs.ErrorRange
import TableQuery.Proofs.SelectRereading

/-!
# The form of a query

A query that has been read is `WellFormed`: its lists are not empty and their entries are trimmed,
closed and undivided, its names are trimmed and its join compares two references. It is also
`TakenFrom` its text: each of its strings is a stretch of the text, except that a value of a
condition has lost one layer of quotes.

That an entry is undivided is said of the entry alone, with no word about the list in which it
stood: no comma in it has a text in front of it that is closed on its own (`TopLevel`).
-/

namespace TableQuery

open Text Outline

/-! ## Undivided texts -/

/-- A character of the class stands in the text outside literals and parentheses: the text in front
of it is closed on its own. -/
def TopLevel (P : Char → Bool) (x : List Char) : Prop :=
  ∃ u c v, x = u ++ c :: v ∧ P c = true ∧ Scanned 0 u

/-- In a closed text these are the sites outside all parentheses. -/
theorem topLevel_iff {P : Char → Bool} {x : List Char} (hx : Balanced x)
    (hP : ∀ c, P c = true → Literal.isQuote c = false) :
    TopLevel P x ↔ ∃ s ∈ sitesFrom (.start 0 none) x, s.depth = 0 ∧ P s.char = true := by
  constructor
  · rintro ⟨u, c, v, rfl, hc, hu⟩
    obtain ⟨hclear, hd⟩ := (scanned_iff_balanced.1 hu).advance (Place.fresh_start 0 none u)
    exact ⟨((Place.start 0 none).advance u).site c v,
      mem_sitesFrom.2 ⟨u, c, v, rfl, Place.isOutside_of_clear hclear (hP c hc), rfl⟩, hd, hc⟩
  · rintro ⟨s, hs, hd, hc⟩
    obtain ⟨u, c, v, rfl, ho, rfl⟩ := mem_sitesFrom.1 hs
    exact ⟨u, c, v, rfl, hc, scanned_iff_balanced.2 (hx.left (seam_of_isOutside ho hd))⟩

/-- A trimmed text, not empty, that closes its delimiters and is divided by no comma. -/
structure Entry (x : List Char) : Prop where
  ne_nil : x ≠ []
  tight : Tight x
  closed : Scanned 0 x
  undivided : ¬TopLevel (· == ',') x

/-- A text, not empty, that closes its delimiters and is divided by no comma and no blank. -/
structure SortField (x : List Char) : Prop where
  ne_nil : x ≠ []
  closed : Scanned 0 x
  undivided : ¬TopLevel (fun c => c == ',' || isBlank c) x

theorem Item.entry {x : List Char} (h : Item x) : Entry x := by
  refine ⟨h.ne_nil, h.tight, scanned_iff_balanced.2 h.toBalanced, ?_⟩
  rw [topLevel_iff h.toBalanced fun c hc => by rw [beq_iff_eq.1 hc]; rfl]
  rintro ⟨s, hs, hd, hc⟩
  have hfree := h.commaFree s hs
  rw [Site.isTop, hd, hc] at hfree
  cases hfree

theorem SortKey.Readable.sortField {k : SortKey} (h : k.Readable) : SortField k.field.toList := by
  have hquote : ∀ c, (c == ',' || isBlank c) = true → Literal.isQuote c = false := by
    intro c hc
    rcases Bool.or_eq_true_iff.1 hc with hc | hc
    · rw [beq_iff_eq.1 hc]
      rfl
    · exact (plain_of_blank (List.forall_mem_singleton.2 hc) c List.mem_cons_self).1
  refine ⟨h.item.ne_nil, scanned_iff_balanced.2 h.item.toBalanced, ?_⟩
  rw [topLevel_iff h.item.toBalanced hquote]
  rintro ⟨s, hs, hd, hc⟩
  rcases Bool.or_eq_true_iff.1 hc with hc | hc
  · have hfree := h.item.commaFree s hs
    rw [Site.isTop, hd, hc] at hfree
    cases hfree
  · have hfree := h.blankFree s hs
    rw [SortKey.topBlank?, if_pos ⟨hd, hc⟩] at hfree
    cases hfree

/-! ## Stretches of a text -/

theorem isInfix_trim (x : List Char) : trim x <:+: x := by
  obtain ⟨b, b', -, -, e⟩ := exists_blank_trim_blank x
  exact ⟨b, b', by rw [List.append_assoc, ← e]⟩

theorem Piece.Within.isInfix {t : List Char} {p : Piece} (h : p.Within t) : p.chars <:+: t := by
  obtain ⟨u, v, rfl, -⟩ := h
  exact ⟨u, v, List.append_assoc _ _ _⟩

theorem Listed.isInfix {cs : List Char} {xs : List (List Char)} (h : Listed cs xs) :
    ∀ x ∈ xs, x <:+: cs := by
  obtain ⟨z, zs, rfl, -, rfl⟩ := h
  intro x hx
  obtain ⟨y, hy, rfl⟩ := List.mem_map.1 hx
  refine (isInfix_trim y).trans ?_
  rcases List.mem_cons.1 hy with rfl | hy
  · exact (List.prefix_append _ _).isInfix
  · obtain ⟨front, back, rfl⟩ := List.append_of_mem hy
    exact ⟨z ++ front.flatMap (',' :: ·) ++ [','], back.flatMap (',' :: ·), by simp⟩

theorem SelectHead.isInfix_table {head : Piece} {h : SelectHead} (hp : parse head = .ok h) :
    h.table.toList <:+: head.chars := by
  obtain ⟨u, v, c, r, n, e, -, -, -, -, htable, -⟩ := exists_of_parse hp
  rw [htable, e, ← List.append_assoc]
  exact (isInfix_trim _).trans ((List.drop_suffix n _).trans (List.suffix_append _ _)).isInfix

theorem Join.isInfix_of_parse {kind : JoinKind} {body : Piece} {j : Join} {t : List Char}
    (hb : body.Within t) (h : parse kind body = .ok j) :
    j.table.toList <:+: t ∧ j.left.toList <:+: t ∧ j.right.toList <:+: t := by
  obtain ⟨-, i, k, -, -, htable, heq⟩ := parse_eq_ok_iff.1 h
  obtain ⟨-, -, w₁, w₂, w₃, w₄, -, e⟩ := equality_eq_ok_iff.1 heq
  have hrest : (Cursor.mk body k).rest <:+: t :=
    (List.drop_suffix k body.chars).isInfix.trans hb.isInfix
  rw [e] at hrest
  refine ⟨by rw [htable]; exact (hb.cut 0 i).isInfix, ?_, ?_⟩
  · exact List.IsInfix.trans ⟨w₁, _, by rw [List.append_assoc]⟩ hrest
  · exact List.IsInfix.trans ⟨w₁ ++ (j.left.toList ++ (w₂ ++ '=' :: w₃)), w₄, by simp⟩ hrest

theorem Condition.isInfix_of_parse {fragment : Piece} {c : Condition} {t : List Char}
    (hf : fragment.Within t) (h : parse fragment = .ok c) :
    c.field.toList <:+: t ∧ ∃ v, v ≠ [] ∧ v <:+: t ∧ c.value.toList = Literal.unquote v := by
  obtain ⟨o, i, j, hparts⟩ : ∃ o i j, ofParts fragment o i j = .ok c := by
    rcases parse_eq_ok_iff.1 h with ⟨i, j, -, hparts⟩ | ⟨-, o, i, j, -, hparts⟩
    · exact ⟨_, i, j, hparts⟩
    · exact ⟨o, i, j, hparts⟩
  obtain ⟨hfield, -, hvalue, -, hne⟩ := ofParts_eq_ok_iff.1 hparts
  rw [hfield]
  exact ⟨(hf.cut 0 i).isInfix, _, hne, (hf.rest j).isInfix, hvalue⟩

theorem Where.isInfix_of_parse {body : Piece} {cs : List Condition} {t : List Char}
    (hb : body.Within t) (h : parse body = .ok cs) :
    ∀ c ∈ cs, c.field.toList <:+: t ∧
      ∃ v, v ≠ [] ∧ v <:+: t ∧ c.value.toList = Literal.unquote v := by
  intro c hc
  obtain ⟨fs, hs, hfs⟩ := parse_eq_ok_iff.1 h
  obtain ⟨f, hf, hparse⟩ := exists_of_forall₂ hfs c hc
  exact Condition.isInfix_of_parse ((yields_split hb).of_ok hs f hf) hparse

theorem SortKey.isInfix_of_parse {body : Piece} {ks : List SortKey} {t : List Char}
    (hb : body.Within t) (h : parse body = .ok ks) : ∀ k ∈ ks, k.field.toList <:+: t := by
  intro k hk
  obtain ⟨items, hs, hf⟩ := parse_eq_ok_iff.1 h
  obtain ⟨item, hi, hparse⟩ := exists_of_forall₂ hf k hk
  have hitem := ((ItemList.yields_split hb .orderBy).of_ok hs item hi).isInfix
  obtain ⟨hfield, -⟩ := parseItem_eq_ok_iff.1 hparse
  rw [hfield]
  rcases divide_cases item.chars with e | ⟨g, w, -, -, -, e, -⟩
  · rwa [e]
  · rw [e] at hitem
    exact (List.prefix_append _ _).isInfix.trans hitem

/-! ## Queries -/

namespace SelectQuery

/-- The lists of the query are not empty and hold entries or sort fields, its other names are
trimmed and not empty, the sides of its join are references, and it aggregates all rows exactly if
its fields call an aggregate function and it has no grouping. -/
structure WellFormed (q : SelectQuery) : Prop where
  fields : q.fields ≠ [] ∧ ∀ f ∈ q.fields, Entry f.toList
  table : q.table ≠ "" ∧ Tight q.table.toList
  join : ∀ j ∈ q.join, (j.table ≠ "" ∧ Tight j.table.toList) ∧
    Join.IsReference j.left.toList ∧ Join.IsReference j.right.toList
  conditions : ∀ c ∈ q.conditions, c.field ≠ "" ∧ Tight c.field.toList
  groupBy : ∀ l ∈ q.groupBy, l ≠ [] ∧ ∀ f ∈ l, Entry f.toList
  orderBy : ∀ ks ∈ q.orderBy, ks ≠ [] ∧ ∀ k ∈ ks, SortField k.field.toList
  aggregatesAll : q.aggregatesAll = (q.groupBy.isNone && Aggregate.called q.fields)

/-- The strings of the query stand in the text. -/
structure TakenFrom (text : List Char) (q : SelectQuery) : Prop where
  fields : ∀ f ∈ q.fields, f.toList <:+: text
  table : q.table.toList <:+: text
  join : ∀ j ∈ q.join, j.table.toList <:+: text ∧ j.left.toList <:+: text ∧ j.right.toList <:+: text
  conditions : ∀ c ∈ q.conditions, c.field.toList <:+: text ∧
    ∃ v, v ≠ [] ∧ v <:+: text ∧ c.value.toList = Literal.unquote v
  groupBy : ∀ l ∈ q.groupBy, ∀ f ∈ l, f.toList <:+: text
  orderBy : ∀ ks ∈ q.orderBy, ∀ k ∈ ks, k.field.toList <:+: text

theorem Formed.wellFormed {q : SelectQuery} (h : q.Formed) : q.WellFormed where
  fields := ⟨h.fields.1, fun f hf => (h.fields.2 f hf).entry⟩
  table := ⟨by simpa using h.table.ne_nil, h.table.tight⟩
  join j hj := ⟨⟨by simpa using (h.join j hj).ne_nil, (h.join j hj).tight⟩, (h.join j hj).left,
    (h.join j hj).right⟩
  conditions c hc := ⟨by simpa using (h.conditions c hc).ne_nil, (h.conditions c hc).tight⟩
  groupBy l hl := ⟨(h.groupBy l hl).1, fun f hf => ((h.groupBy l hl).2 f hf).entry⟩
  orderBy ks hks := ⟨(h.orderBy ks hks).1, fun k hk => ((h.orderBy ks hks).2 k hk).sortField⟩
  aggregatesAll := h.aggregatesAll

theorem Reading.takenFrom {p : Piece} {c : Clauses} {h : SelectHead} {q : SelectQuery}
    {t : List Char} (hp : p.Within t) (hr : Reading p c h q) : q.TakenFrom t := by
  have hc : c.Within t := (Clauses.yields_split hp).of_ok hr.split
  have hfields : h.fields.Within t := (SelectHead.yields_parse hc.head).of_ok hr.head
  refine ⟨?_, ?_, ?_, ?_, ?_, ?_⟩
  · exact fun f hf => (hr.fields.isInfix _ (List.mem_map_of_mem hf)).trans hfields.isInfix
  · rw [hr.table]
    exact (SelectHead.isInfix_table hr.head).trans hc.head.isInfix
  · intro j hj
    rcases joinOf_eq_ok_iff.1 hr.join with ⟨-, e⟩ | ⟨k, b, j', hjoin, e, hparse⟩
    · rw [e] at hj
      cases hj
    · rw [e] at hj
      cases hj
      exact Join.isInfix_of_parse (hc.body (.join k) b (by simp [Clauses.body?, hjoin])) hparse
  · obtain ⟨cs, ho, e⟩ := hr.conditions
    rw [e]
    rcases optional_eq_ok_iff.1 ho with ⟨-, rfl⟩ | ⟨b, cs, hb, rfl, hparse⟩
    · exact fun c hc => by cases hc
    · exact Where.isInfix_of_parse (hc.body .whereRows b hb) hparse
  · intro l hl f hf
    rcases optional_eq_ok_iff.1 hr.groupBy with ⟨-, e⟩ | ⟨b, l', hb, e, hparse⟩
    · rw [e] at hl
      cases hl
    · rw [e] at hl
      cases hl
      have hlisted := (ItemList.parse_eq_ok_iff.1 hparse).isInfix _ (List.mem_map_of_mem hf)
      exact hlisted.trans (hc.body .groupBy b hb).isInfix
  · intro ks hks
    rcases optional_eq_ok_iff.1 hr.orderBy with ⟨-, e⟩ | ⟨b, ks', hb, e, hparse⟩
    · rw [e] at hks
      cases hks
    · rw [e] at hks
      cases hks
      exact SortKey.isInfix_of_parse (hc.body .orderBy b hb) hparse

/-- Whatever is read as a `SELECT` is well formed and made of stretches of the text. -/
theorem wellFormed_of_ofText (settings : Settings) (text : String) (q : SelectQuery)
    (h : ofText settings text = .ok q) : q.WellFormed ∧ q.TakenFrom text.toList := by
  obtain ⟨p, hp, hq⟩ := bind_eq_ok_iff.1 h
  obtain ⟨c, head, hr⟩ := parse_eq_ok_iff.1 hq
  exact ⟨hr.formed.wellFormed, hr.takenFrom (Statement.within_of_isolate hp)⟩

/-- A query whose entries hold commas and blanks inside literals and parentheses. -/
def nestedSample : SelectQuery where
  fields := ["count(a, b)", "'x, ''y'"]
  table := "t u"
  join := some ⟨.left, "v w", "t.a", "v.b"⟩
  conditions := [⟨"f(x)", .ge, "it's"⟩]
  groupBy := some ["g( a , b )"]
  aggregatesAll := false
  orderBy := some [⟨"max( a , b )", .desc⟩]
  limit := none
  distinct := true

def nestedText : String :=
  "select distinct count(a, b), 'x, ''y' from t u left join v w on t.a = v.b " ++
    "where f(x) >= 'it''s' group by g( a , b ) order by max( a , b ) desc"

theorem wellFormed_of_ofText_nested : ofText {} nestedText = .ok nestedSample ∧
    nestedSample.WellFormed ∧ nestedSample.TakenFrom nestedText.toList := by
  have h : ofText {} nestedText = .ok nestedSample := by decide +kernel
  exact ⟨h, wellFormed_of_ofText {} nestedText nestedSample h⟩

end SelectQuery

end TableQuery
