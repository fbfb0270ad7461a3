import TableQuery.Proofs.InsertParts
import TableQuery.Proofs.Isolation
import TableQuery.Proofs.LiteralScan
import TableQuery.Proofs.QualifiedName

/-!
# Rendered `INSERT`s

A query is read back from its rendering if its table is one unbroken name and its columns are items
that lose nothing when they are read (`InsertQuery.Rereadable`, `ofText_render`). Its values are any
texts, because they are quoted.
-/

namespace TableQuery

open Text Outline

theorem item_quote (v : List Char) : Item (Literal.quote v) := by
  obtain ⟨hsites, -⟩ := advance_quote (Place.fresh_start 0 none (Literal.quote v))
  refine ⟨⟨balanced_quote v, ?_⟩, Literal.quote_ne_nil v, ?_, ?_⟩
  · rw [hsites]
    exact fun s hs => by cases hs
  · intro c hc
    cases hc
    decide
  · intro c hc
    rw [Literal.getLast?_quote] at hc
    cases hc
    decide

theorem Unbroken.head {w : List Char} (h : Unbroken w) : ∀ c ∈ w.head?, endsTable c = false := by
  intro c hc
  obtain ⟨r, rfl⟩ := List.head?_eq_some_iff.1 hc
  by_cases hq : Literal.isQuote c = true
  · rcases Literal.isQuote_iff.1 hq with rfl | rfl <;> decide
  · have ho : (Place.start 0 none).isOutside c = true :=
      Place.isOutside_of_clear (Place.clear_start 0 none) (by simpa using hq)
    refine h.whole ((Place.start 0 none).site c r) ?_
    rw [sitesFrom_cons_of_outside ho]
    exact List.mem_cons_self

theorem isBlank_of_isQuote {c : Char} (h : Literal.isQuote c = true) : isBlank c = false := by
  rcases Literal.isQuote_iff.1 h with rfl | rfl <;> decide

/-- A literal is left only at a quote. -/
theorem Place.isQuote_of_terminated_next {p : Place} {c : Char}
    (hp : ∀ q b, p.quoting.mode = some (q, b) → Literal.isQuote q = true)
    (ho : p.isOutside c = false) (ht : (p.next c).unterminated? = none) :
    Literal.isQuote c = true := by
  cases hm : p.quoting with
  | outside => simpa [Place.isOutside, hm] using ho
  | closed q i => simpa [Place.isOutside, hm] using ho
  | inside q i =>
    have hq := hp q true (by rw [hm]; rfl)
    by_cases hc : c = q
    · rwa [hc]
    · simp [Place.next, hm, hc, Place.stay, Place.unterminated?] at ht

theorem Unbroken.last {w : List Char} (h : Unbroken w) : ∀ c ∈ w.getLast?, isBlank c = false := by
  intro c hc
  obtain ⟨u, rfl⟩ := List.getLast?_eq_some_iff.1 hc
  by_cases ho : ((Place.start 0 none).advance u).isOutside c = true
  · have hends := h.whole (((Place.start 0 none).advance u).site c [])
      (mem_sitesFrom.2 ⟨u, c, [], rfl, ho, rfl⟩)
    exact (endsTable_eq_false_iff.1 hends).1
  · refine isBlank_of_isQuote
      (Place.isQuote_of_terminated_next (p := (Place.start 0 none).advance u) ?_ ?_ ?_)
    · exact Place.proper_advance (Place.clear_start 0 none).proper u
    · simpa using ho
    · have := h.terminated
      rwa [Place.advance_append] at this

namespace InsertQuery

/-! ## The text of a query -/

/-- The values as they are rendered. -/
def valueText (vs : List String) : List Char :=
  [',', ' '].intercalate (vs.map fun v => Literal.quote v.toList)

/-- The `RETURNING` clause as it is rendered. -/
def tailText (rs : List String) : List Char :=
  if rs = [] then [] else ' ' :: (Keyword.returning.text ++ ' ' :: listText rs)

/-- An `INSERT` with these parts. -/
def chars (table cols vals tail : List Char) : List Char :=
  Keyword.insertInto.text ++ ' ' :: (table ++ ' ' :: '(' :: (cols ++ ')' :: ' ' ::
    (Keyword.values.text ++ ' ' :: '(' :: (vals ++ ')' :: tail))))

theorem toList_append_seven (a b c d e f g : String) : (a ++ b ++ c ++ d ++ e ++ f ++ g).toList =
    a.toList ++ (b.toList ++ (c.toList ++ (d.toList ++ (e.toList ++ (f.toList ++ g.toList))))) := by
  simp only [String.toList_append, List.append_assoc]

theorem render_toList (q : InsertQuery) : q.render.toList =
    chars q.table.toList (listText q.columns) (valueText q.values) (tailText q.returning) := by
  have hinto : "INSERT INTO ".toList = Keyword.insertInto.text ++ [' '] := by decide
  have hopen : " (".toList = [' ', '('] := by decide
  have hvalues : ") VALUES (".toList = ')' :: ' ' :: (Keyword.values.text ++ [' ', '(']) := by
    decide
  have hclose : ")".toList = [')'] := by decide
  have hcomma : ", ".toList = [',', ' '] := by decide
  have hreturning : " RETURNING ".toList = ' ' :: (Keyword.returning.text ++ [' ']) := by decide
  have htail :
      (if q.returning.isEmpty then "" else " RETURNING " ++ ", ".intercalate q.returning).toList =
      tailText q.returning := by
    rw [tailText]
    by_cases h : q.returning = []
    · rw [if_pos h, if_pos (List.isEmpty_iff.2 h)]
      rfl
    · rw [if_neg h, if_neg (fun h' => h (List.isEmpty_iff.1 h')), String.toList_append, hreturning,
        String.toList_intercalate, hcomma]
      simp only [listText, List.append_assoc, List.cons_append, List.nil_append]
  have hquoted : (q.values.map fun v => String.ofList (Literal.quote v.toList)).map String.toList =
      q.values.map fun v => Literal.quote v.toList := by
    simp only [List.map_map, Function.comp_def, String.toList_ofList]
  unfold render
  rw [toList_append_seven, String.toList_append, htail, String.toList_intercalate,
    String.toList_intercalate, hinto, hopen, hvalues, hclose, hcomma, hquoted, chars,
    listText, valueText]
  simp only [List.append_assoc, List.cons_append, List.nil_append]

theorem laidOut_chars {t cols vals tail : List Char} (hne : t ≠ []) (ht : Unbroken t)
    (hcols : Balanced cols) (hvals : Balanced vals) :
    LaidOut (chars t cols vals tail) t cols vals tail := by
  have hblank : Blank [' '] := by decide
  have hskip :
      ∀ {x : List Char}, (∀ c ∈ x.head?, isBlank c = false) → trimStart (' ' :: x) = x := by
    intro x hx
    have := trimStart_blank_append hblank x
    rw [List.singleton_append] at this
    rw [this, trimStart_eq_self hx]
  have hopen : ∀ x : List Char, ∀ c ∈ ('(' :: x).head?, isBlank c = false := by
    intro x c hc
    cases hc
    decide
  refine ⟨_, _, _, _, ⟨_, rfl, ?_⟩, ⟨hskip ?_, hne, ht, ?_⟩, ⟨hskip (hopen _), hcols⟩, ?_,
    ⟨hskip (hopen _), hvals⟩⟩
  · have hm : Keyword.insertInto.match? (Keyword.insertInto.text ++ [' ']) =
        some Keyword.insertInto.text.length := by
      decide
    have := Keyword.match?_append_eq_some (y := t ++ ' ' :: '(' :: (cols ++ ')' :: ' ' ::
      (Keyword.values.text ++ ' ' :: '(' :: (vals ++ ')' :: tail)))) hm (.inl (by decide))
    rwa [List.append_assoc, List.singleton_append] at this
  · intro c hc
    obtain ⟨d, t, rfl⟩ := List.exists_cons_of_ne_nil hne
    exact (endsTable_eq_false_iff.1 (ht.head c hc)).1
  · intro d hd
    cases hd
    exact .inl (by decide)
  · have hm : Keyword.values.match? (Keyword.values.text ++ [' ']) =
        some Keyword.values.text.length := by decide
    have := Keyword.match?_append_eq_some (y := '(' :: (vals ++ ')' :: tail)) hm (.inl (by decide))
    rw [List.append_assoc, List.singleton_append] at this
    refine ⟨_, hskip ?_, ?_⟩
    · intro c hc
      cases hc
      decide
    · rw [hskip]
      · exact this
      · intro c hc
        cases hc
        decide

/-! ## Reading it back -/

/-- The name is an item of a list, and reading it changes nothing. -/
def IsColumn (c : List Char) : Prop :=
  Item c ∧ columnName c = c

instance (c : List Char) : Decidable (IsColumn c) :=
  inferInstanceAs (Decidable (_ ∧ _))

/-- The table is one unbroken text that is its own name. There are columns and values, and every
column, returned or not, is an item of a list that is its own name. -/
structure Rereadable (q : InsertQuery) : Prop where
  table : q.table.toList ≠ [] ∧ Unbroken q.table.toList ∧ tableName q.table.toList = q.table.toList
  columns : q.columns ≠ [] ∧ ∀ c ∈ q.columns, IsColumn c.toList
  values : q.values ≠ []
  returning : ∀ c ∈ q.returning, IsColumn c.toList
  /-- A semicolon at the end would be taken off. -/
  last : q.render.toList.getLast? ≠ some ';'

theorem map_columnName {l : List String} (h : ∀ c ∈ l, IsColumn c.toList) :
    (l.map String.toList).map (fun x => String.ofList (columnName x)) = l := by
  rw [List.map_map]
  calc l.map ((fun x => String.ofList (columnName x)) ∘ String.toList)
      = l.map id := List.map_congr_left fun c hc => by simp [(h c hc).2]
    _ = l := List.map_id l

theorem listed_valueText {vs : List String} (h : vs ≠ []) :
    Listed (valueText vs) (vs.map fun v => Literal.quote v.toList) := by
  refine listed_intercalate (by simpa using h) ?_
  rw [List.forall_mem_map]
  exact fun v _ => item_quote _

theorem tight_valueText {vs : List String} (h : vs ≠ []) : Tight (valueText vs) := by
  refine (part_intercalate (by decide) (by decide) (by simpa using h) ?_).tight
  rw [List.forall_mem_map]
  exact fun v _ => (item_quote _).part

theorem returns_tailText {rs : List String} (h : ∀ c ∈ rs, IsColumn c.toList) :
    Returns (trimStart (tailText rs)) rs := by
  by_cases hne : rs = []
  · left
    rw [tailText, if_pos hne]
    exact ⟨rfl, hne⟩
  · right
    have hpart := part_listText hne fun c hc => (h c hc).1
    have hblank : Blank [' '] := by decide
    have hm : Keyword.returning.match? (Keyword.returning.text ++ [' ']) =
        some Keyword.returning.text.length := by decide
    have hmatch := Keyword.match?_append_eq_some (y := listText rs) hm (.inl (by decide))
    rw [List.append_assoc, List.singleton_append] at hmatch
    have hstart : trimStart (tailText rs) = Keyword.returning.text ++ ' ' :: listText rs := by
      rw [tailText, if_neg hne, ← List.singleton_append, trimStart_blank_append hblank]
      refine trimStart_eq_self fun c hc => ?_
      cases hc
      decide
    have htrim : trim (' ' :: listText rs) = listText rs := by
      rw [← List.singleton_append, trim_blank_append hblank, trim_eq_self hpart.tight]
    refine ⟨' ' :: listText rs, rs.map String.toList, ?_, ?_, (map_columnName h).symm⟩
    · rw [hstart]
      exact ⟨_, rfl, hmatch⟩
    · rw [htrim]
      exact listed_listText hne fun c hc => (h c hc).1

theorem parse_render {arity : Bool} {p : Piece} {q : InsertQuery} (h : p.chars = q.render.toList)
    (hq : q.Rereadable) (ha : arity = true → q.columns.length = q.values.length) :
    parse arity p = .ok q := by
  have hcols := part_listText hq.columns.1 fun c hc => (hq.columns.2 c hc).1
  have hvals := listed_valueText hq.values
  refine parse_eq_ok_iff.2 ⟨q.table.toList, listText q.columns, valueText q.values,
    tailText q.returning,
    q.columns.map String.toList, q.values.map fun v => Literal.quote v.toList, ?_,
    returns_tailText hq.returning, ⟨?_, ?_⟩, ⟨?_, ?_⟩, hq.table.2.2.symm, ?_⟩
  · rw [h, render_toList]
    exact laidOut_chars hq.table.1 hq.table.2.1 hcols.toBalanced hvals.balanced
  · rw [trim_eq_self hcols.tight]
    exact listed_listText hq.columns.1 fun c hc => (hq.columns.2 c hc).1
  · exact (map_columnName hq.columns.2).symm
  · rw [trim_eq_self (tight_valueText hq.values)]
    exact hvals
  · rw [List.map_map]
    have hunquote :
        ((fun y => String.ofList (Literal.unquote y)) ∘ fun v : String => Literal.quote v.toList) =
        id := by
      funext v
      simp [Literal.unquote_quote]
    rw [hunquote, List.map_id]
  · simpa using ha

theorem head?_chars (t cols vals tail : List Char) :
    (chars t cols vals tail).head? = some 'I' := rfl

theorem exists_chars_eq (t cols vals tail : List Char) :
    ∃ x, chars t cols vals tail = x ++ ')' :: tail :=
  ⟨Keyword.insertInto.text ++ ' ' :: (t ++ ' ' :: '(' :: (cols ++ ')' :: ' ' ::
    (Keyword.values.text ++ ' ' :: '(' :: vals))), by simp [chars]⟩

theorem Rereadable.tight_render {q : InsertQuery} (hq : q.Rereadable) : Tight q.render.toList := by
  rw [render_toList]
  refine ⟨fun c hc => ?_, fun c hc => ?_⟩
  · rw [head?_chars] at hc
    cases hc
    decide
  · obtain ⟨x, e⟩ := exists_chars_eq q.table.toList (listText q.columns) (valueText q.values)
      (tailText q.returning)
    rw [e] at hc
    by_cases hne : q.returning = []
    · rw [tailText, if_pos hne, List.getLast?_concat] at hc
      cases hc
      decide
    · have hpart := part_listText hne fun c hc => (hq.returning c hc).1
      obtain ⟨l, hl⟩ := Option.isSome_iff_exists.1 (List.getLast?_isSome.2 hpart.ne_nil)
      have htail : x ++ ')' :: tailText q.returning =
          (x ++ ')' :: ' ' :: (Keyword.returning.text ++ [' '])) ++ listText q.returning := by
        rw [tailText, if_neg hne]
        simp only [List.append_assoc, List.cons_append, List.nil_append]
      rw [htail, List.getLast?_append, hl, Option.some_or, ← hl] at hc
      exact hpart.tight.last c hc

theorem ofText_render {settings : Settings} {q : InsertQuery} (hq : q.Rereadable)
    (hl : byteLength q.render.toList ≤ settings.maxLength)
    (ha : settings.matchArity = true → q.columns.length = q.values.length) :
    ofText settings q.render = .ok q := by
  obtain ⟨p, hp⟩ := Statement.exists_isolate hl
  have hchars := Statement.isolate_of_tight hq.tight_render hq.last hp
  exact bind_eq_ok_iff.2 ⟨p, hp, parse_render hchars hq ha⟩

/-! ## Canonical queries -/

/-- A query with a plain table name, and columns that stand for themselves. Nothing is asked of its
values. -/
structure Canonical (q : InsertQuery) : Prop where
  table : q.table.toList ≠ [] ∧ ∀ c ∈ q.table.toList,
    isBlank c = false ∧ Literal.isQuote c = false ∧ c ≠ '(' ∧ c ≠ ')'
  columns : q.columns ≠ [] ∧ ∀ c ∈ q.columns, IsColumn c.toList ∧ c.toList.getLast? ≠ some ';'
  values : q.values ≠ []
  returning : ∀ c ∈ q.returning, IsColumn c.toList ∧ c.toList.getLast? ≠ some ';'

theorem unbroken_of_plain {w : List Char}
    (h : ∀ c ∈ w, isBlank c = false ∧ Literal.isQuote c = false ∧ c ≠ '(' ∧ c ≠ ')') :
    Unbroken w := by
  have hplain : Plain w := fun c hc => ⟨(h c hc).2.1, (h c hc).2.2⟩
  refine ⟨hplain.balanced.terminated, fun s hs => ?_⟩
  obtain ⟨u, c, r, e, -, rfl⟩ := mem_sitesFrom.1 hs
  obtain ⟨hb, -, hparens⟩ := h c (by rw [e]; exact List.mem_append_right _ List.mem_cons_self)
  exact endsTable_eq_false_iff.2 ⟨hb, hparens⟩

theorem Canonical.last {q : InsertQuery} (h : q.Canonical) :
    q.render.toList.getLast? ≠ some ';' := by
  obtain ⟨x, e⟩ := exists_chars_eq q.table.toList (listText q.columns) (valueText q.values)
    (tailText q.returning)
  rw [render_toList, e]
  refine getLast?_append_ne (List.cons_ne_nil _ _) ?_
  by_cases hne : q.returning = []
  · rw [tailText, if_pos hne]
    decide
  · have hitems : ∀ x ∈ q.returning.map String.toList, x ≠ [] ∧ x.getLast? ≠ some ';' :=
      List.forall_mem_map.2 fun c hc => ⟨(h.returning c hc).1.1.ne_nil, (h.returning c hc).2⟩
    obtain ⟨hlist, hlast⟩ := getLast?_intercalate_ne (t := [',', ' ']) (by simpa using hne) hitems
    have htail : ')' :: tailText q.returning =
        (')' :: ' ' :: (Keyword.returning.text ++ [' '])) ++ listText q.returning := by
      rw [tailText, if_neg hne]
      simp only [List.append_assoc, List.cons_append, List.nil_append]
    rw [htail]
    exact getLast?_append_ne hlist hlast

theorem Canonical.rereadable {q : InsertQuery} (h : q.Canonical) : q.Rereadable where
  table := ⟨h.table.1, unbroken_of_plain h.table.2,
    tableName_eq_self fun c hc => ⟨(h.table.2 c hc).1, (h.table.2 c hc).2.1⟩⟩
  columns := ⟨h.columns.1, fun c hc => (h.columns.2 c hc).1⟩
  values := h.values
  returning c hc := (h.returning c hc).1
  last := h.last

/-- Every canonical query is read back from its rendering. -/
theorem ofText_render_of_canonical_insert (settings : Settings) (q : InsertQuery) (h : q.Canonical)
    (hl : byteLength q.render.toList ≤ settings.maxLength)
    (ha : settings.matchArity = false ∨ q.columns.length = q.values.length) :
    InsertQuery.ofText settings q.render = .ok q := by
  refine ofText_render h.rereadable hl fun hm => ?_
  rcases ha with ha | ha
  · rw [hm] at ha
    cases ha
  · exact ha

/-- A query whose values hold quotes, parentheses, commas and a semicolon. -/
def sample : InsertQuery where
  table := "public.people"
  columns := ["name", "age"]
  values := ["O'Hara); --", "(1, 'a"]
  returning := ["id"]

theorem ofText_render_insert_sample :
    sample.Canonical ∧ ofText {} sample.render = .ok sample := by
  have hc : sample.Canonical := by
    refine ⟨?_, ?_, ?_, ?_⟩ <;> decide
  exact ⟨hc, ofText_render_of_canonical_insert {} sample hc (by decide +kernel) (.inr rfl)⟩

end InsertQuery

end TableQuery
