import TableQuery.Proofs.QuoteLayers

/-!
# Quoted names of columns

A column in double quotes is one name, whatever stands between them. The form of a qualified name
does not ask for quotes in pairs, though, and takes the first quote of such a column for one in
front of a qualifier and the last for one behind a name. So a quoted column that holds two names
with a point between them (`Dotted`) is read as a qualified name and keeps only what stands behind
the point; every other quoted column keeps its whole name (`quoted_column_names`).
-/

namespace TableQuery

open Text

namespace Literal

theorem double_eq_self {q : Char} {x : List Char} (h : q ∉ x) : double q x = x := by
  induction x with
  | nil => rfl
  | cons c x ih =>
    rw [List.mem_cons, not_or] at h
    rw [double, if_neg (Ne.symm h.1), ih h.2]

theorem quoted_inj {q : Char} (hq : isQuote q = true) {v w : List Char}
    (h : quoted q v = quoted q w) :
    v = w := by
  rw [← unquote_quoted hq v, h, unquote_quoted hq]

/-- A literal ends at the first of its quotes that is not doubled. -/
theorem IsLiteral.eq_nil {q : Char} {x y : List Char} (h : IsLiteral (q :: (x ++ q :: y)))
    (hx : q ∉ x) (hy : ∀ c ∈ y.head?, c ≠ q) : y = [] := by
  obtain ⟨hq, hclosing⟩ := isLiteral_cons_iff.1 h
  rw [← double_eq_self hx, closing?_double hq x hy, Option.some.injEq, List.length_append,
    List.length_cons] at hclosing
  exact List.length_eq_zero_iff.1 (by omega)

end Literal

namespace QualifiedName

open Literal

/-- The text is a qualified name without quotes. -/
def Dotted (n : QualifiedName) (v : List Char) : Prop :=
  IsIdentifier n.qualifier ∧ IsName n.name ∧
    ∃ g g', Blank g ∧ Blank g' ∧ v = n.qualifier ++ (g ++ '.' :: (g' ++ n.name))

theorem IsName.quote_notMem {x : List Char} (h : IsName x) : '"' ∉ x := by
  obtain ⟨c, r, rfl, hx⟩ := h.exists_cons
  exact fun hmem => (hx _ hmem).2 rfl

theorem quote_notMem_of_blank {g : List Char} (hg : Blank g) : '"' ∉ g :=
  fun hmem => absurd (hg _ hmem) (by decide)

theorem Dotted.quote_notMem {n : QualifiedName} {v : List Char} (h : Dotted n v) : '"' ∉ v := by
  obtain ⟨hx, hy, g, g', hg, hg', rfl⟩ := h
  simp only [List.mem_append, List.mem_cons, not_or]
  exact ⟨IsName.quote_notMem (.inr hx), quote_notMem_of_blank hg, by decide,
    quote_notMem_of_blank hg', hy.quote_notMem⟩

/-- A literal is a writing of a qualified name only with the first and the last of the four
quotes. -/
theorem Writing.Valid.dotted {w : Writing} (hw : w.Valid) {v : List Char}
    (e : w.text = quoted '"' v) :
    Dotted w.toQualifiedName v := by
  have hliteral : IsLiteral w.text := isLiteral_iff.2 ⟨'"', v, by decide, e⟩
  obtain ⟨⟨x, y⟩, q₁, q₂, g₁, g₂, q₃, q₄⟩ := w
  obtain ⟨hq₁, hx, hq₂, hg₁, hg₂, hq₃, hy, hq₄⟩ := hw
  dsimp only [text] at *
  have hxq : '"' ∉ x := IsName.quote_notMem (.inr hx)
  obtain ⟨d, y', rfl, hys⟩ := hy.exists_cons
  obtain rfl : q₁ = ['"'] := by
    refine hq₁.resolve_left ?_
    rintro rfl
    obtain ⟨c, x', rfl, hxs⟩ := IsName.exists_cons (.inr hx)
    exact (hxs c List.mem_cons_self).2 (List.cons.inj e).1
  -- the literal would end at a quote between the two names
  obtain rfl : q₂ = [] := by
    refine hq₂.resolve_right ?_
    rintro rfl
    have hnil := hliteral.eq_nil hxq fun c hc => (head_gap hg₁ c hc).2
    simp at hnil
  obtain rfl : q₃ = [] := by
    refine hq₃.resolve_right ?_
    rintro rfl
    have htext : ['"'] ++ (x ++ ([] ++ (g₁ ++ '.' :: (g₂ ++ (['"'] ++ (d :: y' ++ q₄)))))) =
        '"' :: ((x ++ (g₁ ++ '.' :: g₂)) ++ '"' :: (d :: y' ++ q₄)) := by simp
    have hfront : '"' ∉ x ++ (g₁ ++ '.' :: g₂) := by
      simp only [List.mem_append, List.mem_cons, not_or]
      exact ⟨hxq, quote_notMem_of_blank hg₁, by decide, quote_notMem_of_blank hg₂⟩
    rw [htext] at hliteral
    cases hliteral.eq_nil hfront fun c hc => by cases hc; exact (hys d List.mem_cons_self).2
  obtain rfl : q₄ = ['"'] := by
    refine hq₄.resolve_left ?_
    rintro rfl
    have hlast := congrArg List.getLast? e
    have htext : ['"'] ++ (x ++ ([] ++ (g₁ ++ '.' :: (g₂ ++ ([] ++ (d :: y' ++ [])))))) =
        ('"' :: (x ++ (g₁ ++ '.' :: g₂))) ++ d :: y' := by simp
    rw [htext, List.getLast?_append_of_ne_nil _ (List.cons_ne_nil d y'), getLast?_quoted] at hlast
    exact (hys _ (List.mem_of_getLast? hlast)).2 rfl
  have hdotted : Dotted ⟨x, d :: y'⟩ (x ++ (g₁ ++ '.' :: (g₂ ++ d :: y'))) :=
    ⟨hx, hy, g₁, g₂, hg₁, hg₂, rfl⟩
  have hinside : quoted '"' v = quoted '"' (x ++ (g₁ ++ '.' :: (g₂ ++ d :: y'))) := by
    rw [← e, quoted, double_eq_self hdotted.quote_notMem]
    simp
  rw [quoted_inj (by decide) hinside]
  exact hdotted

/-- A literal is read as a qualified name exactly if it holds one. -/
theorem parse?_quoted_iff {v : List Char} {n : QualifiedName} :
    parse? (quoted '"' v) = some n ↔ Dotted n v := by
  rw [parse?_eq_some_iff]
  constructor
  · rintro ⟨w, hw, rfl, e⟩
    exact hw.dotted e
  · intro h
    have hquote := h.quote_notMem
    obtain ⟨hx, hy, g, g', hg, hg', rfl⟩ := h
    refine ⟨⟨n, ['"'], [], g, g', [], ['"']⟩,
      ⟨.inr rfl, hx, .inl rfl, hg, hg', .inl rfl, hy, .inr rfl⟩, rfl, ?_⟩
    rw [quoted, double_eq_self hquote]
    simp [Writing.text]

/-- What is left of a name in quotes: the name behind the point of a qualified name, or the whole of
any other. -/
inductive Kept : List Char → List Char → Prop
  | whole {v : List Char} : (∀ n, ¬Dotted n v) → Kept v v
  | last {n : QualifiedName} {v : List Char} : Dotted n v → Kept v n.name

theorem kept_iff {v x : List Char} : Kept v x ↔ x = columnName (quoted '"' v) := by
  have hq : isQuote '"' = true := by decide
  constructor
  · intro h
    cases h with
    | whole hnone =>
      have hparse : parse? (quoted '"' v) = none :=
        Option.eq_none_iff_forall_ne_some.2 fun n hn => hnone n (parse?_quoted_iff.1 hn)
      rw [columnName, hparse]
      exact (unquote_quoted hq v).symm
    | last hn => rw [columnName, parse?_quoted_iff.2 hn]
  · rintro rfl
    rw [columnName]
    split
    · rename_i n hn
      exact .last (parse?_quoted_iff.1 hn)
    · rename_i hnone
      rw [unquote_quoted hq]
      refine .whole fun n hn => ?_
      rw [parse?_quoted_iff.2 hn] at hnone
      cases hnone

theorem Dotted.name_ne {n : QualifiedName} {v : List Char} (h : Dotted n v) : n.name ≠ v := by
  obtain ⟨-, -, g, g', -, -, e⟩ := h
  intro hname
  have hlength := congrArg List.length e
  rw [← hname] at hlength
  simp only [List.length_append, List.length_cons] at hlength
  omega

theorem columnName_quoted_eq_iff {v : List Char} :
    columnName (quoted '"' v) = v ↔ ∀ n, ¬Dotted n v := by
  constructor
  · intro h n hn
    exact hn.name_ne ((kept_iff.1 (.last hn)).trans h)
  · exact fun h => (kept_iff.1 (.whole h)).symm

end QualifiedName

/-! ## Columns of an `INSERT` -/

open QualifiedName

/-- The text is one literal in double quotes. -/
def Literal.IsQuotedName (c : List Char) : Prop :=
  IsLiteral c ∧ c.head? = some '"'

theorem Literal.IsQuotedName.exists_quoted {c : List Char} (h : IsQuotedName c) :
    ∃ v, c = quoted '"' v ∧ unquote c = v := by
  obtain ⟨hc, hhead⟩ := h
  obtain ⟨q, v, hq, rfl⟩ := isLiteral_iff.1 hc
  cases hhead
  exact ⟨v, rfl, unquote_quoted hq v⟩

/-- If the column `x` is one literal in double quotes, the name is what is left of it. -/
def NameKept (x name : String) : Prop :=
  Literal.IsQuotedName x.toList → Kept (Literal.unquote x.toList) name.toList

/-- A column that is one literal in double quotes keeps its whole name, unless the name is two names
with a point between them; then the part behind the point is kept. This is so in every list of
columns of an `INSERT`. -/
theorem quoted_column_names (settings : Settings) (text : String) :
    (∀ c, Literal.IsQuotedName c →
      (columnName c = Literal.unquote c ↔ ∀ n, ¬Dotted n (Literal.unquote c)) ∧
      ∀ x, Kept (Literal.unquote c) x ↔ x = columnName c) ∧
    ∀ q, InsertQuery.ofText settings text = .ok q →
      ∃ (p : Piece) (t : InsertQuery.Layout) (xs ys zs : List String),
        Statement.isolate settings text = .ok p ∧ t.chars = p.chars ∧
        t.Grammatical settings.matchArity xs ys zs ∧
        List.Forall₂ NameKept xs q.columns ∧ List.Forall₂ NameKept zs q.returning := by
  have hkept : ∀ c x, Literal.IsQuotedName c → (Kept (Literal.unquote c) x ↔ x = columnName c) := by
    intro c x hc
    obtain ⟨v, rfl, hv⟩ := hc.exists_quoted
    rw [hv, kept_iff]
  have hlist : ∀ xs : List String,
      List.Forall₂ NameKept xs (xs.map fun x => String.ofList (columnName x.toList)) := by
    intro xs
    rw [List.forall₂_map_right_iff, List.forall₂_same]
    exact fun x _ hx => (hkept _ _ hx).2 String.toList_ofList
  refine ⟨fun c hc => ⟨?_, fun x => hkept c x hc⟩, fun q hq => ?_⟩
  · obtain ⟨v, rfl, hv⟩ := hc.exists_quoted
    rw [hv, columnName_quoted_eq_iff]
  · obtain ⟨p, t, xs, ys, zs, hp, e, ht, rfl⟩ := InsertQuery.exists_layout_of_ofText hq
    exact ⟨p, t, xs, ys, zs, hp, e, ht, hlist xs, hlist zs⟩

theorem quoted_column_names_dotted :
    InsertQuery.ofText {} "INSERT INTO t (\"a.b\") VALUES (1)" = .ok ⟨"t", ["b"], ["1"], []⟩ ∧
      (∃ xs, List.Forall₂ NameKept xs ["b"]) ∧
      Literal.IsQuotedName "\"a.b\"".toList ∧ ∃ n, Dotted n "a.b".toList := by
  have h :
      InsertQuery.ofText {} "INSERT INTO t (\"a.b\") VALUES (1)" = .ok ⟨"t", ["b"], ["1"], []⟩ := by
    decide +kernel
  have hname : Literal.IsQuotedName "\"a.b\"".toList :=
    ⟨Literal.isLiteral_cons_iff.2 ⟨by decide, by decide⟩, rfl⟩
  obtain ⟨hcolumn, hinsert⟩ := quoted_column_names {} "INSERT INTO t (\"a.b\") VALUES (1)"
  obtain ⟨-, -, xs, -, -, -, -, -, hxs, -⟩ := hinsert _ h
  refine ⟨h, ⟨xs, hxs⟩, hname, ?_⟩
  by_contra hnone
  exact absurd ((hcolumn _ hname).1.2 fun n hn => hnone ⟨n, hn⟩) (by decide)

end TableQuery
