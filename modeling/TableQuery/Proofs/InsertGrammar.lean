import TableQuery.Proofs.InsertRereading
import TableQuery.Proofs.Scan
import TableQuery.Proofs.Spelling

/-!
# The grammar of `INSERT`s

An `INSERT` is read by a cursor that goes from part to part. What it accepts is a grammar: a text
that can be put together from a spelling of `INSERT INTO`, a table name, two lists in parentheses
with `VALUES` between them, and a `RETURNING` clause or nothing (`Layout`, `Layout.Grammatical`). A
text is read exactly if it can be put together in this way, it can be in one way only, and the query
is read off the parts (`parse_iff_grammatical`).

That the way is unique rests on what may follow a part. A keyword is as long as its words, blanks
end at the first character that is none, a table name ends in front of a blank or a parenthesis, and
a closed text in front of a parenthesis that closes it cannot be prolonged.
-/

namespace TableQuery

open Text Outline

/-! ## Table names -/

/-- Quoted literals, and characters that are no blanks, quotes or parentheses. -/
inductive TableText : List Char → Prop
  | nil : TableText []
  | literal {q : Char} {v r : List Char} : Literal.isQuote q = true → TableText r →
      TableText (q :: (Literal.double q v ++ q :: r))
  | other {c : Char} {r : List Char} :
      Literal.isQuote c = false → isBlank c = false → c ≠ '(' → c ≠ ')' →
      TableText r → TableText (c :: r)

namespace Literal

theorem double_append (q : Char) (v w : List Char) :
    double q (v ++ w) = double q v ++ double q w := by
  induction v with
  | nil => rfl
  | cons c v ih =>
    rw [List.cons_append, double, double, ih]
    split <;> rfl

/-- What is passed up to the closing quote is a text with its quotes doubled. -/
theorem exists_double_of_closing? {q : Char} {r : List Char} {n : Nat} (h : closing? q r = some n) :
    ∃ v, r = double q v ++ q :: r.drop n := by
  fun_induction closing? q r generalizing n with
  | case1 => cases h
  | case2 c hc =>
    cases h
    exact ⟨[], by rw [hc.1]; rfl⟩
  | case3 => cases h
  | case4 r ih =>
    obtain ⟨m, hm, rfl⟩ := Option.map_eq_some_iff.1 h
    obtain ⟨v, hv⟩ := ih hm
    refine ⟨q :: v, ?_⟩
    rw [double, if_pos rfl, List.cons_append, List.cons_append, List.drop_succ_cons,
      List.drop_succ_cons, ← hv]
  | case5 d r hd =>
    cases h
    exact ⟨[], rfl⟩
  | case6 c d r hc ih =>
    obtain ⟨m, hm, rfl⟩ := Option.map_eq_some_iff.1 h
    obtain ⟨v, hv⟩ := ih hm
    refine ⟨c :: v, ?_⟩
    rw [double, if_neg hc, List.cons_append, List.drop_succ_cons, ← hv]

end Literal

/-- Outside literals, the first character has to be one of a table name. -/
theorem unbroken_cons_iff {c : Char} {r : List Char} (hc : Literal.isQuote c = false) :
    Unbroken (c :: r) ↔ endsTable c = false ∧ Unbroken r := by
  have hp : (Place.start 0 none).Fresh (c :: r) := Place.fresh_start 0 none _
  have ho : Place.isOutside (.start 0 none) c = true := by rw [hp.isOutside, hc]; rfl
  have hf : ((Place.start 0 none).next c).Fresh r := by
    rw [hp.next]
    exact Place.fresh_of_outside (Place.pass_quoting _ hc) r
  have hr : endsTable c = false →
      (Unbroken r ↔ (((Place.start 0 none).next c).advance r).unterminated? = none ∧
      ∀ s ∈ sitesFrom ((Place.start 0 none).next c) r, endsTable s.char = false) := by
    intro hends
    refine unbroken_iff_of_fresh hf ?_
    obtain ⟨-, hl, hr⟩ := endsTable_eq_false_iff.1 hends
    rw [hp.next]
    simp only [Place.pass, if_neg hl, if_neg hr]
    rfl
  rw [unbroken_iff_of_fresh hp rfl, sitesFrom_cons_of_outside ho, List.forall_mem_cons,
    Place.advance_cons]
  constructor
  · rintro ⟨ht, hends, hs⟩
    exact ⟨hends, (hr hends).2 ⟨ht, hs⟩⟩
  · rintro ⟨hends, h⟩
    obtain ⟨ht, hs⟩ := (hr hends).1 h
    exact ⟨ht, hends, hs⟩

/-- A literal is passed as a whole. -/
theorem unbroken_literal_iff {q : Char} {r : List Char} {n : Nat} (hq : Literal.isQuote q = true)
    (h : Literal.closing? q r = some n) : Unbroken (q :: r) ↔ Unbroken (r.drop n) := by
  have hp : (Place.start 0 none).Fresh (q :: r) := Place.fresh_start 0 none _
  obtain ⟨p', hf, hd, hr, hs⟩ := hp.jump hq h
  rw [unbroken_iff_of_fresh hp rfl, unbroken_iff_of_fresh hf hd, hr, hs]

theorem unbroken_double {q : Char} (hq : Literal.isQuote q = true) (v : List Char) {r : List Char}
    (hr : ∀ c ∈ r.head?, c ≠ q) : Unbroken (q :: (Literal.double q v ++ q :: r)) ↔ Unbroken r := by
  rw [unbroken_literal_iff hq (Literal.closing?_double hq v hr)]
  have hdrop : (Literal.double q v ++ q :: r).drop ((Literal.double q v).length + 1) = r := by
    rw [List.drop_length_add_append]
    rfl
  rw [hdrop]

theorem TableText.unbroken {w : List Char} (h : TableText w) : Unbroken w := by
  -- a literal in front of the same quote is prolonged, so that its contents are generalized
  have key : Unbroken w ∧ ∀ q v, Literal.isQuote q = true →
      Unbroken (q :: (Literal.double q v ++ q :: w)) := by
    induction h with
    | nil =>
      exact ⟨by decide, fun q v hq => (unbroken_double hq v fun c hc => by cases hc).2 (by decide)⟩
    | @literal q' v' r hq' _ ih =>
      refine ⟨ih.2 q' v' hq', fun q v hq => ?_⟩
      by_cases hqq : q' = q
      · subst hqq
        have e : Literal.double q' v ++ q' :: q' :: (Literal.double q' v' ++ q' :: r) =
            Literal.double q' (v ++ q' :: v') ++ q' :: r := by
          rw [Literal.double_append, Literal.double, if_pos rfl]
          simp
        rw [e]
        exact ih.2 q' _ hq'
      · refine (unbroken_double hq v fun c hc => ?_).2 (ih.2 q' v' hq')
        cases hc
        exact hqq
    | @other c r hc hb hl hr _ ih =>
      have hcons : Unbroken (c :: r) :=
        (unbroken_cons_iff hc).2 ⟨endsTable_eq_false_iff.2 ⟨hb, hl, hr⟩, ih.1⟩
      refine ⟨hcons, fun q v hq => (unbroken_double hq v fun d hd => ?_).2 hcons⟩
      cases hd
      rintro rfl
      rw [hq] at hc
      cases hc
  exact key.1

/-- The texts that are read as one table name. -/
theorem tableText_iff {w : List Char} : TableText w ↔ Unbroken w := by
  refine ⟨TableText.unbroken, fun h => ?_⟩
  induction hn : w.length using Nat.strongRecOn generalizing w with
  | _ n ih =>
    cases w with
    | nil => exact .nil
    | cons c r =>
      rw [List.length_cons] at hn
      cases hc : Literal.isQuote c with
      | false =>
        obtain ⟨hends, hr⟩ := (unbroken_cons_iff hc).1 h
        obtain ⟨hb, hl, hr'⟩ := endsTable_eq_false_iff.1 hends
        exact .other hc hb hl hr' (ih r.length (by omega) hr rfl)
      | true =>
        cases hcl : Literal.closing? c r with
        | none => exact absurd h.terminated ((Place.fresh_start 0 none _).unterminated hc hcl)
        | some m =>
          have hrest := ih (r.drop m).length (by rw [List.length_drop]; omega)
            ((unbroken_literal_iff hc hcl).1 h) rfl
          obtain ⟨v, hv⟩ := Literal.exists_double_of_closing? hcl
          rw [hv]
          exact .literal hc hrest

/-- A table name starts with no blank. -/
theorem Unbroken.head_append {w : List Char} (h : Unbroken w) (hne : w ≠ []) (y : List Char) :
    ∀ c ∈ (w ++ y).head?, isBlank c = false := by
  intro c hc
  rw [List.head?_append_of_ne_nil _ hne] at hc
  exact (endsTable_eq_false_iff.1 (h.head c hc)).1

/-! ## What follows a part -/

/-- A table name in front of a blank or a parenthesis cannot be prolonged. -/
theorem tableText_unique {w w' y y' : List Char} (hw : TableText w) (hw' : TableText w')
    (hy : ∃ c ∈ y.head?, endsTable c = true) (hy' : ∃ c ∈ y'.head?, endsTable c = true)
    (e : w ++ y = w' ++ y') : w = w' ∧ y = y' := by
  have key : ∀ {w y z : List Char}, TableText w → (∃ c ∈ y.head?, endsTable c = true) →
      TableText (w ++ z) → z <+: y → z = [] := by
    rintro w y z hw ⟨c, hc, hends⟩ hwz ⟨t, rfl⟩
    cases z with
    | nil => rfl
    | cons d z =>
      obtain rfl : d = c := Option.some.inj hc
      have hclear := Place.clear_advance (Place.clear_start 0 none) hw.unbroken.terminated
      have hsite := hwz.unbroken.whole (((Place.start 0 none).advance w).site d z)
        (mem_sitesFrom.2 ⟨w, d, z, rfl,
          Place.isOutside_of_clear hclear (isQuote_of_endsTable hends), rfl⟩)
      rw [Place.site, hends] at hsite
      cases hsite
  rcases List.append_eq_append_iff.1 e with ⟨z, rfl, rfl⟩ | ⟨z, rfl, rfl⟩
  · rw [key hw hy hw' (List.prefix_append z y')]
    exact ⟨(List.append_nil w).symm, rfl⟩
  · rw [key hw' hy' hw (List.prefix_append z y)]
    exact ⟨List.append_nil w', rfl⟩

namespace InsertQuery

theorem follows_iff {k : Keyword} {x y : List Char} : Follows k x y ↔
    ∃ m, x = m ++ y ∧ Spelling.Spells k.spelling.words m ∧ k.spelling.allows y = true := by
  constructor
  · rintro ⟨m, rfl, hm⟩
    obtain ⟨w, r, e, hw, ha, hlength⟩ := Keyword.match?_eq_some_iff_spells.1 hm
    obtain ⟨rfl, rfl⟩ := List.append_inj e hlength
    exact ⟨m, rfl, hw, ha⟩
  · rintro ⟨m, rfl, hm, ha⟩
    exact ⟨m, rfl, Keyword.match?_eq_some_iff_spells.2 ⟨m, y, rfl, hm, ha, rfl⟩⟩

theorem allows_insertInto_iff {y : List Char} :
    Keyword.insertInto.spelling.allows y = true ↔ ∃ c ∈ y.head?, isBlank c = true :=
  Keyword.allows_iff_blank rfl (by decide)

theorem allows_values_iff {y : List Char} :
    Keyword.values.spelling.allows y = true ↔ ∃ c ∈ y.head?, isBlank c = true ∨ c = '(' := by
  cases y with
  | nil => simp [Spelling.allows, Keyword.spelling, Keyword.canEnd]
  | cons c y => simp [Spelling.allows, Keyword.spelling, @eq_comm Char '(' c]

/-! ## The grammar -/

/-- The parts of an `INSERT`, from left to right. -/
structure Layout where
  lead : List Char
  gap₁ : List Char
  table : List Char
  gap₂ : List Char
  columns : List Char
  gap₃ : List Char
  keyword : List Char
  gap₄ : List Char
  values : List Char
  gap₅ : List Char
  tail : List Char

/-- What stands behind the values, when it returns the columns of the list `zs`: nothing, or a
`RETURNING` clause. -/
def ReturningText (tail : List Char) (zs : List String) : Prop :=
  (tail = [] ∧ zs = []) ∨ ∃ k r, tail = k ++ r ∧ Spelling.Spells ["RETURNING".toList] k ∧
    (∃ c ∈ r.head?, isBlank c = true) ∧ ItemList.parse ⟨trim r, 0⟩ .returning = .ok zs

namespace Layout

/-- The text that the parts make. -/
def chars (t : Layout) : List Char :=
  t.lead ++ (t.gap₁ ++ (t.table ++ (t.gap₂ ++ '(' :: (t.columns ++ ')' :: (t.gap₃ ++
    (t.keyword ++ (t.gap₄ ++ '(' :: (t.values ++ ')' :: (t.gap₅ ++ t.tail)))))))))

/-- The parts are those of an `INSERT` with the given columns, values and returned columns. -/
structure Grammatical (arity : Bool) (t : Layout) (xs ys zs : List String) : Prop where
  lead : Spelling.Spells ["INSERT".toList, "INTO".toList] t.lead
  gap₁ : t.gap₁ ≠ [] ∧ Blank t.gap₁
  table : t.table ≠ [] ∧ TableText t.table
  gap₂ : Blank t.gap₂
  columns : Scanned 0 t.columns ∧ ItemList.parse ⟨t.columns, 0⟩ .insertColumns = .ok xs
  gap₃ : Blank t.gap₃
  keyword : Spelling.Spells ["VALUES".toList] t.keyword
  gap₄ : Blank t.gap₄
  values : Scanned 0 t.values ∧ ItemList.parse ⟨t.values, 0⟩ .insertValues = .ok ys
  gap₅ : Blank t.gap₅
  tail : ReturningText t.tail zs
  arity : arity = true → xs.length = ys.length

/-- The query that is read off the parts. -/
def query (t : Layout) (xs ys zs : List String) : InsertQuery where
  table := String.ofList (tableName t.table)
  columns := xs.map fun x => String.ofList (columnName x.toList)
  values := ys.map fun y => String.ofList (Literal.unquote y.toList)
  returning := zs.map fun z => String.ofList (columnName z.toList)

end Layout

theorem ReturningText.head {tail : List Char} {zs : List String} (h : ReturningText tail zs) :
    ∀ c ∈ tail.head?, isBlank c = false := by
  rcases h with ⟨rfl, -⟩ | ⟨k, r, rfl, hk, -⟩
  · intro c hc
    cases hc
  · exact Spelling.solid_head ⟨'R', rfl, by decide⟩ hk r

/-- What a text returns is said by its `RETURNING` clause. -/
theorem returns_iff {x : List Char} {rs : List String} : Returns x rs ↔
    ∃ zs, ReturningText x zs ∧ rs = zs.map fun z => String.ofList (columnName z.toList) := by
  constructor
  · rintro (⟨rfl, rfl⟩ | ⟨y, xs, hf, hl, rfl⟩)
    · exact ⟨[], .inl ⟨rfl, rfl⟩, rfl⟩
    · obtain ⟨m, rfl, hm, ha⟩ := follows_iff.1 hf
      have hitems : (xs.map String.ofList).map String.toList = xs := by simp [Function.comp_def]
      refine ⟨xs.map String.ofList, .inr ⟨m, y, rfl, hm, ?_, ?_⟩, ?_⟩
      · cases y with
        | nil =>
          obtain ⟨z, zs, e, hs, -⟩ := hl
          obtain ⟨rfl, -⟩ := List.append_eq_nil_iff.1 e.symm
          exact absurd rfl (hs [] List.mem_cons_self).2
        | cons c y => exact ⟨c, rfl, (Keyword.allows_iff rfl).1 ha c rfl⟩
      · rw [ItemList.parse_eq_ok_iff, hitems]
        exact hl
      · simp [Function.comp_def]
  · rintro ⟨zs, ⟨rfl, rfl⟩ | ⟨k, r, rfl, hk, ⟨c, hc, hb⟩, hp⟩, rfl⟩
    · exact .inl ⟨rfl, rfl⟩
    · refine .inr ⟨r, zs.map String.toList, follows_iff.2 ⟨k, rfl, hk, ?_⟩,
        ItemList.parse_eq_ok_iff.1 hp, ?_⟩
      · refine (Keyword.allows_iff rfl).2 fun d hd => ?_
        cases hc.symm.trans hd
        exact hb
      · simp [Function.comp_def]

namespace Layout.Grammatical

variable {arity : Bool} {t t' : Layout} {xs ys zs xs' ys' zs' : List String}

/-! Each part but the last starts with a character that ends the part in front of it. -/

theorem head_table (h : t.Grammatical arity xs ys zs) (y : List Char) :
    ∀ c ∈ (t.table ++ y).head?, isBlank c = false :=
  h.table.2.unbroken.head_append h.table.1 y

theorem head_keyword (h : t.Grammatical arity xs ys zs) (y : List Char) :
    ∀ c ∈ (t.keyword ++ y).head?, isBlank c = false :=
  Spelling.solid_head ⟨'V', rfl, by decide⟩ h.keyword y

theorem head_opening (y : List Char) : ∀ c ∈ ('(' :: y).head?, isBlank c = false := by
  intro c hc
  cases hc
  decide

theorem allows_lead (h : t.Grammatical arity xs ys zs) (y : List Char) :
    Keyword.insertInto.spelling.allows (t.gap₁ ++ y) = true := by
  obtain ⟨c, g, hg⟩ := List.exists_cons_of_ne_nil h.gap₁.1
  rw [allows_insertInto_iff, hg]
  exact ⟨c, rfl, h.gap₁.2 c (by rw [hg]; exact List.mem_cons_self)⟩

/-- A blank or the parenthesis stands at the front of the gap in front of a parenthesis. -/
theorem head_gap {g : List Char} (hg : Blank g) (y : List Char) :
    ∃ c ∈ (g ++ '(' :: y).head?, isBlank c = true ∨ c = '(' := by
  cases g with
  | nil => exact ⟨'(', rfl, .inr rfl⟩
  | cons c g => exact ⟨c, rfl, .inl (hg c List.mem_cons_self)⟩

theorem endsTable_gap {g : List Char} (hg : Blank g) (y : List Char) :
    ∃ c ∈ (g ++ '(' :: y).head?, endsTable c = true := by
  obtain ⟨c, hc, hb | rfl⟩ := head_gap hg y
  · exact ⟨c, hc, by simp [endsTable, hb]⟩
  · exact ⟨'(', hc, rfl⟩

/-- A text is put together in one way only. -/
theorem unique (h : t.Grammatical arity xs ys zs) (h' : t'.Grammatical arity xs' ys' zs')
    (e : t.chars = t'.chars) : t = t' := by
  obtain ⟨e₀, e⟩ := Spelling.Spells.unique (Keyword.solid_of_mem_tail .insertInto) h.lead h'.lead e
  obtain ⟨e₁, e⟩ := gap_unique h.gap₁.2 h'.gap₁.2 (h.head_table _) (h'.head_table _) e
  obtain ⟨e₂, e⟩ :=
    tableText_unique h.table.2 h'.table.2 (endsTable_gap h.gap₂ _) (endsTable_gap h'.gap₂ _) e
  obtain ⟨e₃, e⟩ := gap_unique h.gap₂ h'.gap₂ (head_opening _) (head_opening _) e
  obtain ⟨e₄, e⟩ :=
    balanced_unique (scanned_iff_balanced.1 h.columns.1) (scanned_iff_balanced.1 h'.columns.1)
    (List.cons_eq_cons.1 e).2
  obtain ⟨e₅, e⟩ := gap_unique h.gap₃ h'.gap₃ (h.head_keyword _) (h'.head_keyword _) e
  obtain ⟨e₆, e⟩ :=
    Spelling.Spells.unique (Keyword.solid_of_mem_tail .values) h.keyword h'.keyword e
  obtain ⟨e₇, e⟩ := gap_unique h.gap₄ h'.gap₄ (head_opening _) (head_opening _) e
  obtain ⟨e₈, e⟩ :=
    balanced_unique (scanned_iff_balanced.1 h.values.1) (scanned_iff_balanced.1 h'.values.1)
    (List.cons_eq_cons.1 e).2
  obtain ⟨e₉, e⟩ := gap_unique h.gap₅ h'.gap₅ h.tail.head h'.tail.head e
  cases t
  cases t'
  simp only at e₀ e₁ e₂ e₃ e₄ e₅ e₆ e₇ e₈ e₉ e
  rw [e₀, e₁, e₂, e₃, e₄, e₅, e₆, e₇, e₈, e₉, e]

/-- A text that is put together from the parts of an `INSERT` is laid out as one. -/
theorem laidOut (h : t.Grammatical arity xs ys zs) :
    LaidOut t.chars t.table t.columns t.values (t.gap₅ ++ t.tail) := by
  refine ⟨_, _, _, _, follows_iff.2 ⟨t.lead, rfl, h.lead, h.allows_lead _⟩,
    ⟨(trimStart_eq_iff (h.head_table _)).2 ⟨t.gap₁, h.gap₁.2, rfl⟩, h.table.1,
      h.table.2.unbroken, ?_⟩,
    ⟨(trimStart_eq_iff (head_opening _)).2 ⟨t.gap₂, h.gap₂, rfl⟩,
      scanned_iff_balanced.1 h.columns.1⟩, ?_,
    ⟨(trimStart_eq_iff (head_opening _)).2 ⟨t.gap₄, h.gap₄, rfl⟩,
      scanned_iff_balanced.1 h.values.1⟩⟩
  · intro d hd
    obtain ⟨c, hc, hends⟩ := head_gap h.gap₂ (t.columns ++ ')' :: (t.gap₃ ++ (t.keyword ++
      (t.gap₄ ++ '(' :: (t.values ++ ')' :: (t.gap₅ ++ t.tail))))))
    cases hc.symm.trans hd
    exact hends
  · rw [(trimStart_eq_iff (h.head_keyword _)).2 ⟨t.gap₃, h.gap₃, rfl⟩]
    exact follows_iff.2 ⟨t.keyword, rfl, h.keyword, allows_values_iff.2 (head_gap h.gap₄ _)⟩

/-- The parts are read as those of the query. -/
theorem reading (h : t.Grammatical arity xs ys zs) :
    Reading arity t.chars (t.query xs ys zs) t.table t.columns
    t.values (t.gap₅ ++ t.tail) (xs.map String.toList) (ys.map String.toList) := by
  constructor
  case laidOut => exact h.laidOut
  case returning =>
    rw [(trimStart_eq_iff h.tail.head).2 ⟨t.gap₅, h.gap₅, rfl⟩]
    exact returns_iff.2 ⟨zs, h.tail, rfl⟩
  case columns =>
    refine ⟨listed_trim_iff.2 (ItemList.parse_eq_ok_iff.1 h.columns.2), ?_⟩
    rw [List.map_map]
    rfl
  case values =>
    refine ⟨listed_trim_iff.2 (ItemList.parse_eq_ok_iff.1 h.values.2), ?_⟩
    rw [List.map_map]
    rfl
  case table => exact String.toList_ofList
  case arity => simpa using h.arity

/-- The query is read off the parts. -/
theorem parse_eq (h : t.Grammatical arity xs ys zs) {s : Piece} (e : t.chars = s.chars) :
    parse arity s = .ok (t.query xs ys zs) :=
  parse_eq_ok_iff.2 ⟨_, _, _, _, _, _, e ▸ h.reading⟩

end Layout.Grammatical

theorem exists_strings (xs : List (List Char)) : ∃ l : List String, l.map String.toList = xs :=
  ⟨xs.map String.ofList, by simp [Function.comp_def]⟩

/-- A text that is laid out as an `INSERT` is put together from the parts of one. -/
theorem Reading.exists_layout {arity : Bool} {cs : List Char} {q : InsertQuery}
    {w cols vals tail : List Char} {xs ys : List (List Char)}
    (h : Reading arity cs q w cols vals tail xs ys) :
    ∃ (t : Layout) (xs ys zs : List String), t.chars = cs ∧ t.Grammatical arity xs ys zs := by
  obtain ⟨y₀, y₁, y₂, y₃, h₀, ⟨ht, hne, hw, -⟩, ⟨hc, hcols⟩, h₃, ⟨hv, hvals⟩⟩ := h.laidOut
  obtain ⟨lead, rfl, hlead, ha⟩ := follows_iff.1 h₀
  obtain ⟨k, hk, hkeyword, -⟩ := follows_iff.1 h₃
  obtain ⟨xs, rfl⟩ := exists_strings xs
  obtain ⟨ys, rfl⟩ := exists_strings ys
  obtain ⟨zs, htail, -⟩ := returns_iff.1 h.returning
  have hwhead := hw.head_append hne y₁
  obtain ⟨g₁, hg₁, rfl⟩ := (trimStart_eq_iff hwhead).1 ht
  obtain ⟨g₂, hg₂, rfl⟩ := (trimStart_eq_iff (Layout.Grammatical.head_opening _)).1 hc
  obtain ⟨g₃, hg₃, rfl⟩ :=
    (trimStart_eq_iff (Spelling.solid_head ⟨'V', rfl, by decide⟩ hkeyword _)).1 hk
  obtain ⟨g₄, hg₄, rfl⟩ := (trimStart_eq_iff (Layout.Grammatical.head_opening _)).1 hv
  obtain ⟨g₅, hg₅, htailtext⟩ := (trimStart_eq_iff htail.head).1 rfl
  refine ⟨⟨lead, g₁, w, g₂, cols, g₃, k, g₄, vals, g₅, trimStart tail⟩, xs, ys, zs, ?_, ?_⟩
  · simp only [Layout.chars]
    rw [← htailtext]
  · constructor
    case lead => exact hlead
    case gap₁ =>
      refine ⟨?_, hg₁⟩
      rintro rfl
      obtain ⟨c, hc, hb⟩ := allows_insertInto_iff.1 ha
      rw [hwhead c hc] at hb
      cases hb
    case table => exact ⟨hne, tableText_iff.2 hw⟩
    case gap₂ => exact hg₂
    case columns =>
      exact ⟨scanned_iff_balanced.2 hcols,
        ItemList.parse_eq_ok_iff.2 (listed_trim_iff.1 h.columns.1)⟩
    case gap₃ => exact hg₃
    case keyword => exact hkeyword
    case gap₄ => exact hg₄
    case values =>
      exact ⟨scanned_iff_balanced.2 hvals,
        ItemList.parse_eq_ok_iff.2 (listed_trim_iff.1 h.values.1)⟩
    case gap₅ => exact hg₅
    case tail => exact htail
    case arity => simpa using h.arity

/-- Whatever is read as an `INSERT` is read off the parts of one. -/
theorem exists_layout_of_ofText {settings : Settings} {text : String} {q : InsertQuery}
    (h : ofText settings text = .ok q) :
    ∃ (p : Piece) (t : Layout) (xs ys zs : List String), Statement.isolate settings text = .ok p ∧
      t.chars = p.chars ∧ t.Grammatical settings.matchArity xs ys zs ∧ q = t.query xs ys zs := by
  obtain ⟨p, hp, h⟩ := bind_eq_ok_iff.1 h
  obtain ⟨w, cols, vals, tail, xs, ys, hr⟩ := parse_eq_ok_iff.1 h
  obtain ⟨t, xs, ys, zs, e, ht⟩ := hr.exists_layout
  rw [ht.parse_eq e] at h
  cases h
  exact ⟨p, t, xs, ys, zs, hp, e, ht, rfl⟩

/-- A statement is read as an `INSERT` exactly if it can be put together from the parts of one. It
can be in one way only, and the query is read off these parts. -/
theorem parse_iff_grammatical (arity : Bool) (s : Piece) :
    ((∃ q, parse arity s = .ok q) ↔
      ∃ (t : Layout) (xs ys zs : List String), t.chars = s.chars ∧ t.Grammatical arity xs ys zs) ∧
    ∀ (t : Layout) (xs ys zs : List String), t.chars = s.chars → t.Grammatical arity xs ys zs →
      parse arity s = .ok (t.query xs ys zs) ∧
      ∀ (t' : Layout) (xs' ys' zs' : List String), t'.chars = s.chars →
        t'.Grammatical arity xs' ys' zs' → t' = t := by
  refine ⟨⟨?_, ?_⟩, fun t xs ys zs e h => ⟨h.parse_eq e, fun t' xs' ys' zs' e' h' => ?_⟩⟩
  · rintro ⟨q, hq⟩
    obtain ⟨w, cols, vals, tail, xs, ys, hr⟩ := parse_eq_ok_iff.1 hq
    exact hr.exists_layout
  · rintro ⟨t, xs, ys, zs, e, h⟩
    exact ⟨_, h.parse_eq e⟩
  · exact h'.unique h (e'.trans e.symm)

end InsertQuery

end TableQuery
