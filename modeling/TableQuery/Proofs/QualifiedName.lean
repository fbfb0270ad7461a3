import TableQuery.Proofs.Join
import TableQuery.QualifiedName

/-!
# What is left of a name

A text is a qualified name if it can be written as one (`QualifiedName.Writing`): an identifier, a
point, and another identifier or `*`, with blanks around the point and a quote on either side of
each part, or none. It can be written as one in one way at most, and reading a name that has been
read changes nothing (`qualified_names_unambiguous`).

Reading a name takes away quotes, blanks and a qualifier, and nothing else. Counted without blanks
and quotes (`ink`), a table name keeps every character (`ink_tableName`), and a column name does
unless it is qualified; a text with a comma or a parenthesis in it is not (`ink_columnName_of_mem`).
-/

namespace TableQuery

open Text

/-- The characters of a text that are neither blanks nor quotes. -/
def ink (cs : List Char) : List Char :=
  cs.filter fun c => !isBlank c && !Literal.isQuote c

theorem ink_append (cs ds : List Char) : ink (cs ++ ds) = ink cs ++ ink ds :=
  List.filter_append ..

theorem ink_of_blank {cs : List Char} (h : Blank cs) : ink cs = [] := by
  rw [ink, List.filter_eq_nil_iff]
  intro c hc
  simp [h c hc]

theorem ink_trimStart (cs : List Char) : ink (trimStart cs) = ink cs := by
  conv_rhs => rw [← List.takeWhile_append_dropWhile (p := isBlank) (l := cs), ink_append,
    ink_of_blank (blank_takeWhile cs), List.nil_append]
  rfl

theorem ink_of_quotes {cs : List Char} (h : ∀ c ∈ cs, Literal.isQuote c = true) : ink cs = [] := by
  rw [ink, List.filter_eq_nil_iff]
  intro c hc
  simp [h c hc]

theorem ink_trim (cs : List Char) : ink (trim cs) = ink cs := by
  obtain ⟨b, b', hb, hb', e⟩ := exists_blank_trim_blank cs
  have := congrArg ink e
  rw [ink_append, ink_append, ink_of_blank hb, ink_of_blank hb', List.nil_append,
    List.append_nil] at this
  exact this.symm

/-! ## Quotes -/

namespace Literal

theorem ink_undouble {q : Char} (hq : isQuote q = true) (cs : List Char) :
    ink (undouble q cs) = ink cs := by
  fun_induction undouble q cs with
  | case1 => rfl
  | case2 c => rfl
  | case3 c d r h ih =>
    obtain ⟨rfl, rfl⟩ := h
    simp only [ink] at ih ⊢
    simp [hq, ih]
  | case4 c d r h ih =>
    rw [← List.singleton_append, ink_append, ih, ← ink_append, List.singleton_append]

theorem length_undouble_le (q : Char) (cs : List Char) : (undouble q cs).length ≤ cs.length := by
  fun_induction undouble q cs with
  | case1 => exact Nat.le_refl _
  | case2 c => exact Nat.le_refl _
  | case3 c d r h ih =>
    simp only [List.length_cons]
    omega
  | case4 c d r h ih =>
    simp only [List.length_cons] at ih ⊢
    omega

/-- Either a text has no quotes around it, or it loses two of them at least. -/
theorem unquote_cases (cs : List Char) :
    unquote cs = cs ∨ ∃ q r, isQuote q = true ∧ cs = q :: (r ++ [q]) ∧
      unquote cs = undouble q r := by
  cases cs with
  | nil => exact .inl rfl
  | cons q r =>
    rw [unquote]
    by_cases h : isQuote q = true ∧ r.getLast? = some q
    · obtain ⟨r, rfl⟩ := List.getLast?_eq_some_iff.1 h.2
      right
      rw [if_pos h, List.dropLast_concat]
      exact ⟨q, r, h.1, rfl, rfl⟩
    · rw [if_neg h]
      exact .inl rfl

theorem unquote_eq_self {cs : List Char} (h : ∀ c ∈ cs.head?, isQuote c = false) :
    unquote cs = cs := by
  cases cs with
  | nil => rfl
  | cons c r => rw [unquote, if_neg (by simp [h c rfl])]

theorem ink_unquote (cs : List Char) : ink (unquote cs) = ink cs := by
  rcases unquote_cases cs with h | ⟨q, r, hq, rfl, h⟩
  · rw [h]
  · have hone : ink [q] = [] := ink_of_quotes fun c hc => by rw [List.mem_singleton.1 hc]; exact hq
    have htext : q :: (r ++ [q]) = [q] ++ (r ++ [q]) := rfl
    rw [h, ink_undouble hq, htext, ink_append, ink_append, hone, List.nil_append, List.append_nil]

theorem length_unquote_le (cs : List Char) : (unquote cs).length ≤ cs.length := by
  rcases unquote_cases cs with h | ⟨q, r, -, rfl, h⟩
  · rw [h]
  · have := length_undouble_le q r
    rw [h, List.length_cons, List.length_append]
    omega

end Literal

/-! ## Qualified names -/

namespace QualifiedName

/-- The text is an ASCII identifier. -/
structure IsIdentifier (x : List Char) : Prop where
  head : ∃ c ∈ x.head?, isAsciiNameStart c = true
  chars : ∀ c ∈ x, isAsciiNameChar c = true

/-- The text is what may stand behind the point of a qualified name. -/
def IsName (x : List Char) : Prop :=
  x = ['*'] ∨ IsIdentifier x

/-- A qualified name with what is written around its parts. -/
structure Writing extends QualifiedName where
  quote₁ : List Char
  quote₂ : List Char
  gap₁ : List Char
  gap₂ : List Char
  quote₃ : List Char
  quote₄ : List Char

namespace Writing

def text (w : Writing) : List Char :=
  w.quote₁ ++
    (w.qualifier ++ (w.quote₂ ++ (w.gap₁ ++ '.' :: (w.gap₂ ++ (w.quote₃ ++ (w.name ++ w.quote₄))))))

/-- Each of the quotes may be missing, and the gaps are blank. -/
structure Valid (w : Writing) : Prop where
  quote₁ : w.quote₁ = [] ∨ w.quote₁ = ['"']
  qualifier : IsIdentifier w.qualifier
  quote₂ : w.quote₂ = [] ∨ w.quote₂ = ['"']
  gap₁ : Blank w.gap₁
  gap₂ : Blank w.gap₂
  quote₃ : w.quote₃ = [] ∨ w.quote₃ = ['"']
  name : IsName w.name
  quote₄ : w.quote₄ = [] ∨ w.quote₄ = ['"']

end Writing

theorem isBlank_of_isAsciiNameChar {c : Char} (h : isAsciiNameChar c = true) :
    isBlank c = false := by
  refine Join.isBlank_of_inReference ?_
  rw [isAsciiNameChar] at h
  rw [Join.inReference, h, Bool.true_or]

theorem IsName.exists_cons {x : List Char} (h : IsName x) : ∃ c r, x = c :: r ∧
    ∀ d ∈ c :: r, isBlank d = false ∧ d ≠ '"' := by
  rcases h with rfl | ⟨⟨c, hc, -⟩, hchars⟩
  · exact ⟨'*', [], rfl, by decide⟩
  · obtain ⟨r, rfl⟩ := List.head?_eq_some_iff.1 hc
    refine ⟨c, r, rfl, fun d hd => ⟨isBlank_of_isAsciiNameChar (hchars d hd), ?_⟩⟩
    rintro rfl
    exact absurd (hchars _ hd) (by decide)

/-! One step of the reader for each part of a writing. -/

theorem exists_dropQuote (cs : List Char) : ∃ q, cs = q ++ dropQuote cs ∧ (q = [] ∨ q = ['"']) := by
  unfold dropQuote
  split
  · exact ⟨['"'], rfl, .inr rfl⟩
  · exact ⟨[], rfl, .inl rfl⟩

theorem dropQuote_append {q x : List Char} (hq : q = [] ∨ q = ['"']) (hx : x.head? ≠ some '"') :
    dropQuote (q ++ x) = x := by
  rcases hq with rfl | rfl
  · rw [List.nil_append]
    unfold dropQuote
    split
    · exact absurd rfl hx
    · rfl
  · rfl

theorem identifier?_eq_some {cs x r : List Char} (h : identifier? cs = some (x, r)) :
    IsIdentifier x ∧ cs = x ++ r := by
  unfold identifier? at h
  split at h
  · cases h
  · rename_i c cs
    split at h
    · rename_i hc
      have hname : isAsciiNameChar c = true := isAsciiNameChar_of_isAsciiNameStart hc
      cases h
      refine ⟨⟨⟨c, ?_, hc⟩, fun d hd => List.mem_takeWhile_imp hd⟩,
        List.takeWhile_append_dropWhile.symm⟩
      rw [List.takeWhile_cons_of_pos hname]
      rfl
    · cases h

theorem identifier?_append {x r : List Char} (hx : IsIdentifier x)
    (hr : ∀ c ∈ r.head?, isAsciiNameChar c = false) : identifier? (x ++ r) = some (x, r) := by
  obtain ⟨c, hc, hstart⟩ := hx.head
  obtain ⟨y, rfl⟩ := List.head?_eq_some_iff.1 hc
  rw [List.cons_append, identifier?, if_pos hstart, ← List.cons_append,
    List.takeWhile_append_of_pos hx.chars, List.dropWhile_append_of_pos hx.chars]
  cases r with
  | nil => rw [List.takeWhile_nil, List.dropWhile_nil, List.append_nil]
  | cons d r =>
    have hd : ¬isAsciiNameChar d = true := by rw [hr d rfl]; decide
    rw [List.takeWhile_cons_of_neg hd, List.dropWhile_cons_of_neg hd, List.append_nil]

theorem name?_eq_some {cs x r : List Char} (h : name? cs = some (x, r)) :
    IsName x ∧ cs = x ++ r := by
  unfold name? at h
  split at h
  · cases h
    exact ⟨.inl rfl, rfl⟩
  · obtain ⟨hx, e⟩ := identifier?_eq_some h
    exact ⟨.inr hx, e⟩

theorem name?_append {x r : List Char} (hx : IsName x)
    (hr : ∀ c ∈ r.head?, isAsciiNameChar c = false) :
    name? (x ++ r) = some (x, r) := by
  rcases hx with rfl | hx
  · rfl
  · obtain ⟨c, hc, hstart⟩ := hx.head
    obtain ⟨y, rfl⟩ := List.head?_eq_some_iff.1 hc
    have hne : c ≠ '*' := by
      rintro rfl
      exact absurd hstart (by decide)
    unfold name?
    split
    · rename_i e
      exact absurd (List.cons.inj e).1 hne
    · exact identifier?_append hx hr

theorem head_gap {g y : List Char} (hg : Blank g) :
    ∀ c ∈ (g ++ '.' :: y).head?, isAsciiNameChar c = false ∧ c ≠ '"' := by
  have hblank : ∀ c, isBlank c = true → isAsciiNameChar c = false ∧ c ≠ '"' := by
    intro c hc
    refine ⟨Bool.eq_false_iff.2 fun hname => ?_, ?_⟩
    · rw [isBlank_of_isAsciiNameChar hname] at hc
      cases hc
    · rintro rfl
      exact absurd hc (by decide)
  intro c hc
  cases g with
  | nil =>
    cases hc
    decide
  | cons d g =>
    cases hc
    exact hblank c (hg c List.mem_cons_self)

/-- A quote ends a part, if it is there. -/
theorem head_quote {q x : List Char} (hq : q = [] ∨ q = ['"'])
    (hx : ∀ c ∈ x.head?, isAsciiNameChar c = false) :
    ∀ c ∈ (q ++ x).head?, isAsciiNameChar c = false := by
  rcases hq with rfl | rfl
  · exact hx
  · intro c hc
    cases hc
    decide

theorem head_last_quote {q : List Char} (hq : q = [] ∨ q = ['"']) :
    ∀ c ∈ q.head?, isAsciiNameChar c = false := by
  have h := head_quote hq (x := []) fun c hc => by cases hc
  rwa [List.append_nil] at h

theorem IsName.head_append {x : List Char} (h : IsName x) (y : List Char) :
    ∀ c ∈ (x ++ y).head?, isBlank c = false ∧ c ≠ '"' := by
  obtain ⟨c, r, rfl, hx⟩ := h.exists_cons
  intro d hd
  cases hd
  exact hx c List.mem_cons_self

theorem head_quote_name {q x : List Char} (hq : q = [] ∨ q = ['"']) (hx : IsName x)
    (y : List Char) :
    ∀ c ∈ (q ++ (x ++ y)).head?, isBlank c = false := by
  rcases hq with rfl | rfl
  · exact fun c hc => (hx.head_append y c hc).1
  · intro c hc
    cases hc
    decide

/-- A text is read as a qualified name exactly if it is a writing of it. -/
theorem parse?_eq_some_iff {cs : List Char} {n : QualifiedName} :
    parse? cs = some n ↔ ∃ w : Writing, w.Valid ∧ w.toQualifiedName = n ∧ w.text = cs := by
  constructor
  · intro h
    obtain ⟨⟨x, r⟩, hx, h⟩ := Option.bind_eq_some_iff.1 h
    obtain ⟨q₁, e₁, hq₁⟩ := exists_dropQuote cs
    obtain ⟨hxs, ex⟩ := identifier?_eq_some hx
    obtain ⟨q₂, e₂, hq₂⟩ := exists_dropQuote r
    dsimp only at h
    split at h
    · rename_i r' hpoint
      obtain ⟨⟨y, r''⟩, hy, h⟩ := Option.bind_eq_some_iff.1 h
      obtain ⟨q₃, e₃, hq₃⟩ := exists_dropQuote (trimStart r')
      obtain ⟨hys, ey⟩ := name?_eq_some hy
      obtain ⟨q₄, e₄, hq₄⟩ := exists_dropQuote r''
      dsimp only at h
      split at h
      · rename_i hend
        cases h
        rw [List.isEmpty_iff.1 hend, List.append_nil] at e₄
        refine ⟨⟨⟨x, y⟩, q₁, q₂, (dropQuote r).takeWhile isBlank, r'.takeWhile isBlank, q₃, q₄⟩,
          ⟨hq₁, hxs, hq₂, blank_takeWhile _, blank_takeWhile _, hq₃, hys, hq₄⟩, rfl, ?_⟩
        have hr : r = q₂ ++ ((dropQuote r).takeWhile isBlank ++ '.' :: r') := by
          rw [← hpoint, trimStart, List.takeWhile_append_dropWhile]
          exact e₂
        have hr' : r' = r'.takeWhile isBlank ++ (q₃ ++ (y ++ q₄)) := by
          rw [← e₄, ← ey, ← e₃, trimStart, List.takeWhile_append_dropWhile]
        dsimp only [Writing.text]
        rw [← hr', ← hr, ← ex]
        exact e₁.symm
      · cases h
    · cases h
  · rintro ⟨⟨⟨x, y⟩, q₁, q₂, g₁, g₂, q₃, q₄⟩, ⟨hq₁, hx, hq₂, hg₁, hg₂, hq₃, hy, hq₄⟩, rfl, rfl⟩
    have hfirst : dropQuote (q₁ ++ (x ++ (q₂ ++ (g₁ ++ '.' :: (g₂ ++ (q₃ ++ (y ++ q₄))))))) =
        x ++ (q₂ ++ (g₁ ++ '.' :: (g₂ ++ (q₃ ++ (y ++ q₄))))) :=
      dropQuote_append hq₁ fun e => (IsName.head_append (.inr hx) _ _ e).2 rfl
    have hpoint : trimStart (dropQuote (q₂ ++ (g₁ ++ '.' :: (g₂ ++ (q₃ ++ (y ++ q₄)))))) =
        '.' :: (g₂ ++ (q₃ ++ (y ++ q₄))) := by
      rw [dropQuote_append hq₂ fun e => (head_gap hg₁ _ e).2 rfl, trimStart_blank_append hg₁]
      exact trimStart_eq_self fun e he => by cases he; decide
    have hname : dropQuote (trimStart (g₂ ++ (q₃ ++ (y ++ q₄)))) = y ++ q₄ := by
      rw [trimStart_blank_append hg₂, trimStart_eq_self (head_quote_name hq₃ hy q₄)]
      exact dropQuote_append hq₃ fun e => (hy.head_append q₄ _ e).2 rfl
    have hlast : dropQuote q₄ = [] := by
      rw [← List.append_nil q₄]
      exact dropQuote_append hq₄ (by decide)
    dsimp only [Writing.text]
    rw [parse?, hfirst, identifier?_append hx (head_quote hq₂ fun e he => (head_gap hg₁ e he).1)]
    simp only [Option.bind_eq_bind, Option.bind_some, hpoint, hname,
      name?_append hy (head_last_quote hq₄), hlast]
    rfl

/-! What ends a part of a writing is seen from the text, so that there is one writing of a text at
most. -/

theorem quote_unique {q q' x x' : List Char} (hq : q = [] ∨ q = ['"']) (hq' : q' = [] ∨ q' = ['"'])
    (hx : ∀ c ∈ x.head?, c ≠ '"') (hx' : ∀ c ∈ x'.head?, c ≠ '"') (e : q ++ x = q' ++ x') :
    q = q' ∧ x = x' := by
  obtain rfl : x = x' := by
    rw [← dropQuote_append hq fun h => hx _ h rfl, e, dropQuote_append hq' fun h => hx' _ h rfl]
  exact ⟨List.append_cancel_right e, rfl⟩

theorem name_unique {x x' r r' : List Char} (hx : IsName x) (hx' : IsName x')
    (hr : ∀ c ∈ r.head?, isAsciiNameChar c = false)
    (hr' : ∀ c ∈ r'.head?, isAsciiNameChar c = false) (e : x ++ r = x' ++ r') :
    x = x' ∧ r = r' := by
  have h : name? (x ++ r) = some (x, r) := name?_append hx hr
  rw [e, name?_append hx' hr', Option.some.injEq, Prod.mk.injEq] at h
  exact ⟨h.1.symm, h.2.symm⟩

theorem Writing.Valid.unique {w w' : Writing} (h : w.Valid) (h' : w'.Valid) (e : w.text = w'.text) :
    w = w' := by
  have hpoint : ∀ (y : List Char), ∀ c ∈ ('.' :: y).head?, isBlank c = false := by
    intro y c hc
    cases hc
    decide
  obtain ⟨e₁, e⟩ :=
    quote_unique h.quote₁ h'.quote₁ (fun c hc => (IsName.head_append (.inr h.qualifier) _ c hc).2)
    (fun c hc => (IsName.head_append (.inr h'.qualifier) _ c hc).2) e
  obtain ⟨e₂, e⟩ := name_unique (.inr h.qualifier) (.inr h'.qualifier)
    (head_quote h.quote₂ fun c hc => (head_gap h.gap₁ c hc).1)
    (head_quote h'.quote₂ fun c hc => (head_gap h'.gap₁ c hc).1) e
  obtain ⟨e₃, e⟩ := quote_unique h.quote₂ h'.quote₂ (fun c hc => (head_gap h.gap₁ c hc).2)
    (fun c hc => (head_gap h'.gap₁ c hc).2) e
  obtain ⟨e₄, e⟩ := gap_unique h.gap₁ h'.gap₁ (hpoint _) (hpoint _) e
  obtain ⟨e₅, e⟩ := gap_unique h.gap₂ h'.gap₂ (head_quote_name h.quote₃ h.name _)
    (head_quote_name h'.quote₃ h'.name _) (List.cons.inj e).2
  obtain ⟨e₆, e⟩ := quote_unique h.quote₃ h'.quote₃ (fun c hc => (h.name.head_append _ c hc).2)
    (fun c hc => (h'.name.head_append _ c hc).2) e
  obtain ⟨e₇, e₈⟩ :=
    name_unique h.name h'.name (head_last_quote h.quote₄) (head_last_quote h'.quote₄) e
  obtain ⟨⟨x, y⟩, q₁, q₂, g₁, g₂, q₃, q₄⟩ := w
  obtain ⟨⟨x', y'⟩, q₁', q₂', g₁', g₂', q₃', q₄'⟩ := w'
  simp only at e₁ e₂ e₃ e₄ e₅ e₆ e₇ e₈
  rw [e₁, e₂, e₃, e₄, e₅, e₆, e₇, e₈]

/-- The parts of a qualified name, with the quotes and the blanks between them. -/
theorem parse?_eq_some {cs : List Char} {n : QualifiedName} (h : parse? cs = some n) :
    ∃ q₁ q₂ q₃ q₄ b b', (∀ c ∈ q₁ ++ (q₂ ++ (q₃ ++ q₄)), c = '"') ∧ Blank b ∧ Blank b' ∧
      (∀ c ∈ n.chars, isAsciiNameChar c = true ∨ c = '*' ∨ c = '.') ∧
      cs = q₁ ++ (n.qualifier ++ (q₂ ++ (b ++ '.' :: (b' ++ (q₃ ++ (n.name ++ q₄)))))) := by
  obtain ⟨w, hw, rfl, rfl⟩ := parse?_eq_some_iff.1 h
  have hquote : ∀ {q : List Char}, q = [] ∨ q = ['"'] → ∀ c ∈ q, c = '"' := by
    rintro q (rfl | rfl) c hc
    · cases hc
    · exact List.mem_singleton.1 hc
  refine ⟨w.quote₁, w.quote₂, w.quote₃, w.quote₄, w.gap₁, w.gap₂, ?_, hw.gap₁, hw.gap₂, ?_, rfl⟩
  · simp only [List.mem_append]
    rintro c (hc | hc | hc | hc)
    · exact hquote hw.quote₁ c hc
    · exact hquote hw.quote₂ c hc
    · exact hquote hw.quote₃ c hc
    · exact hquote hw.quote₄ c hc
  · simp only [chars, List.mem_append, List.mem_cons]
    rintro c (hc | rfl | hc)
    · exact .inl (hw.qualifier.chars c hc)
    · exact .inr (.inr rfl)
    · rcases hw.name with e | hname
      · rw [e] at hc
        exact .inr (.inl (List.mem_singleton.1 hc))
      · exact .inl (hname.chars c hc)

/-- No comma and no parenthesis stands in a qualified name. -/
theorem notMem_of_parse? {cs : List Char} {n : QualifiedName} (h : parse? cs = some n) {d : Char}
    (hd : d = ',' ∨ d = '(' ∨ d = ')') : d ∉ cs := by
  obtain ⟨q₁, q₂, q₃, q₄, b, b', hq, hb, hb', hn, rfl⟩ := parse?_eq_some h
  have hname : d ∉ n.chars := by
    intro hmem
    have := hn d hmem
    rcases hd with rfl | rfl | rfl <;> revert this <;> decide
  have hquote : d ∉ q₁ ++ (q₂ ++ (q₃ ++ q₄)) := by
    intro hmem
    have := hq d hmem
    rcases hd with rfl | rfl | rfl <;> revert this <;> decide
  have hblank : ∀ {w : List Char}, Blank w → d ∉ w := by
    intro w hw hmem
    have := hw d hmem
    rcases hd with rfl | rfl | rfl <;> revert this <;> decide
  simp only [chars, List.mem_append, List.mem_cons, not_or] at hname hquote ⊢
  exact ⟨hquote.1, hname.1, hquote.2.1, hblank hb, hname.2.1, hblank hb', hquote.2.2.1, hname.2.2,
    hquote.2.2.2⟩

theorem ink_chars {cs : List Char} {n : QualifiedName} (h : parse? cs = some n) :
    ink n.chars = ink cs ∧ n.chars.length ≤ cs.length ∧ n.name.length < cs.length := by
  obtain ⟨q₁, q₂, q₃, q₄, b, b', hq, hb, hb', -, rfl⟩ := parse?_eq_some h
  have hquotes : ∀ c ∈ q₁ ++ (q₂ ++ (q₃ ++ q₄)), Literal.isQuote c = true := by
    intro c hc
    rw [hq c hc]
    decide
  have hink := ink_of_quotes hquotes
  simp only [ink_append, List.append_eq_nil_iff] at hink
  obtain ⟨h₁, h₂, h₃, h₄⟩ := hink
  refine ⟨?_, ?_, ?_⟩
  · have hpoint : ∀ y : List Char, '.' :: y = ['.'] ++ y := fun _ => rfl
    rw [chars, hpoint, hpoint (b' ++ _)]
    simp only [ink_append, ink_of_blank hb, ink_of_blank hb', h₁, h₂, h₃, h₄, List.nil_append,
      List.append_nil]
  · simp only [chars, List.length_append, List.length_cons]
    omega
  · simp only [List.length_append, List.length_cons]
    omega

/-- A qualified name without quotes and blanks is written as it is. -/
theorem chars_eq_of_plain {cs : List Char} {n : QualifiedName} (h : parse? cs = some n)
    (hc : ∀ c ∈ cs, isBlank c = false ∧ Literal.isQuote c = false) : n.chars = cs := by
  obtain ⟨hink, -⟩ := ink_chars h
  have hself : ∀ {ds : List Char}, (∀ c ∈ ds, isBlank c = false ∧ Literal.isQuote c = false) →
      ink ds = ds := by
    intro ds hds
    rw [ink, List.filter_eq_self]
    intro c hc'
    simp [hds c hc']
  obtain ⟨q₁, q₂, q₃, q₄, b, b', -, -, -, -, rfl⟩ := parse?_eq_some h
  rw [hself hc] at hink
  rw [← hink, hself]
  intro c hmem
  apply hc
  simp only [chars, List.mem_append, List.mem_cons] at hmem ⊢
  rcases hmem with hmem | rfl | hmem
  · exact .inr (.inl hmem)
  · exact .inr (.inr (.inr (.inr (.inl rfl))))
  · exact .inr (.inr (.inr (.inr (.inr (.inr (.inr (.inl hmem)))))))

end QualifiedName

/-! ## Names of tables and columns -/

theorem ink_tableName (cs : List Char) : ink (tableName cs) = ink cs := by
  rw [tableName]
  split
  · exact (QualifiedName.ink_chars ‹_›).1
  · exact Literal.ink_unquote cs

theorem length_tableName_le (cs : List Char) : (tableName cs).length ≤ cs.length := by
  rw [tableName]
  split
  · exact (QualifiedName.ink_chars ‹_›).2.1
  · exact Literal.length_unquote_le cs

/-- A table name without blanks and quotes is kept as it is. -/
theorem tableName_eq_self {cs : List Char}
    (h : ∀ c ∈ cs, isBlank c = false ∧ Literal.isQuote c = false) : tableName cs = cs := by
  rw [tableName]
  split
  · exact QualifiedName.chars_eq_of_plain ‹_› h
  · exact Literal.unquote_eq_self fun c hc => (h c (List.mem_of_mem_head? hc)).2

theorem length_columnName_le (cs : List Char) : (columnName cs).length ≤ cs.length := by
  rw [columnName]
  split
  · exact Nat.le_of_lt (QualifiedName.ink_chars ‹_›).2.2
  · exact Literal.length_unquote_le cs

theorem length_ink_columnName_le (cs : List Char) :
    (ink (columnName cs)).length ≤ (ink cs).length := by
  rw [columnName]
  split
  · rename_i n hn
    obtain ⟨hink, -⟩ := QualifiedName.ink_chars hn
    rw [← hink, QualifiedName.chars, ink_append, List.length_append, ← List.singleton_append,
      ink_append, List.length_append]
    omega
  · rw [Literal.ink_unquote]

theorem ink_columnName_of_mem {cs : List Char} {d : Char} (hd : d = ',' ∨ d = '(' ∨ d = ')')
    (h : d ∈ cs) : ink (columnName cs) = ink cs := by
  rw [columnName]
  split
  · exact absurd h (QualifiedName.notMem_of_parse? ‹_› hd)
  · exact Literal.ink_unquote cs

/-! ## Names that have been read -/

namespace QualifiedName

theorem Writing.Valid.columnName_text {w : Writing} (h : w.Valid) : columnName w.text = w.name := by
  rw [columnName, parse?_eq_some_iff.2 ⟨w, h, rfl, rfl⟩]

theorem Writing.Valid.tableName_text {w : Writing} (h : w.Valid) : tableName w.text = w.chars := by
  rw [tableName, parse?_eq_some_iff.2 ⟨w, h, rfl, rfl⟩]

/-- The two parts of a qualified name around a point are a writing of it. -/
theorem Writing.Valid.exists_plain {w : Writing} (h : w.Valid) :
    ∃ v : Writing, v.Valid ∧ v.toQualifiedName = w.toQualifiedName ∧ v.text = w.chars :=
  ⟨⟨w.toQualifiedName, [], [], [], [], [], []⟩,
    ⟨.inl rfl, h.qualifier, .inl rfl, blank_nil, blank_nil, .inl rfl, h.name, .inl rfl⟩, rfl, by
      simp [text, chars]⟩

theorem Writing.point_mem_text (w : Writing) : '.' ∈ w.text := by
  simp [text]

/-- A single name is no qualified name, since there is no point in it, and has no quotes to lose. -/
theorem IsName.columnName_eq {x : List Char} (h : IsName x) : columnName x = x := by
  have hchars : ∀ c ∈ x, isAsciiNameChar c = true ∨ c = '*' := by
    rcases h with rfl | hx
    · exact fun c hc => .inr (List.mem_singleton.1 hc)
    · exact fun c hc => .inl (hx.chars c hc)
  have hnone : parse? x = none := by
    rw [Option.eq_none_iff_forall_ne_some]
    intro n hn
    obtain ⟨w, -, -, rfl⟩ := parse?_eq_some_iff.1 hn
    exact absurd (hchars _ w.point_mem_text) (by decide)
  have hquote : ∀ c ∈ x.head?, Literal.isQuote c = false := fun c hc =>
    Literal.isQuote_eq_false_of (fun d => isAsciiNameChar d = true ∨ d = '*')
      (hchars c (List.mem_of_mem_head? hc)) (by decide) (by decide)
  rw [columnName, hnone]
  exact Literal.unquote_eq_self hquote

end QualifiedName

open QualifiedName

/-- A text is a writing of a qualified name in one way at most. If it is one, the name of a column
is its last part and the name of a table both parts around a point, and reading either of them again
changes nothing: a table name stays, its column name is that of the text, and a column name stays.
If it is none, a layer of quotes is taken off. -/
theorem qualified_names_unambiguous (cs : List Char) :
    (∀ w w' : Writing, w.Valid → w'.Valid → w.text = cs → w'.text = cs → w = w') ∧
    (∀ w : Writing, w.Valid → w.text = cs →
      columnName cs = w.name ∧ tableName cs = w.qualifier ++ '.' :: w.name ∧
      tableName (tableName cs) = tableName cs ∧ columnName (tableName cs) = columnName cs ∧
      columnName (columnName cs) = columnName cs) ∧
    ((∀ w : Writing, w.Valid → w.text ≠ cs) →
      columnName cs = Literal.unquote cs ∧ tableName cs = Literal.unquote cs) := by
  refine ⟨fun w w' h h' e e' => h.unique h' (e.trans e'.symm), ?_, fun hnone => ?_⟩
  · rintro w h rfl
    obtain ⟨v, hv, hname, hchars⟩ := h.exists_plain
    rw [h.columnName_text, h.tableName_text, ← hchars, hv.columnName_text, hv.tableName_text, hname,
      h.name.columnName_eq]
    exact ⟨rfl, hchars, hchars.symm, rfl, rfl⟩
  · have hparse : parse? cs = none := by
      rw [Option.eq_none_iff_forall_ne_some]
      intro n hn
      obtain ⟨w, hw, -, e⟩ := parse?_eq_some_iff.1 hn
      exact hnone w hw e
    rw [columnName, tableName, hparse]
    exact ⟨rfl, rfl⟩

/-- A qualified name with three of its four quotes, and a quoted name without a point. -/
theorem qualified_names_unambiguous_quotes :
    columnName "\"public\" .\t*\"".toList = ['*'] ∧
      tableName "\"public\" .\t*\"".toList = "public.*".toList ∧
      columnName "public.*".toList = ['*'] ∧ columnName "\"name\"".toList = "name".toList := by
  let w : Writing := ⟨⟨"public".toList, ['*']⟩, ['"'], ['"'], [' '], ['\t'], [], ['"']⟩
  have hw : w.Valid :=
    ⟨.inr rfl, ⟨⟨'p', rfl, by decide⟩, by decide⟩, .inr rfl, by decide, by decide, .inl rfl,
      .inl rfl, .inr rfl⟩
  obtain ⟨-, hqualified, -⟩ := qualified_names_unambiguous "\"public\" .\t*\"".toList
  obtain ⟨hcolumn, htable, -, hagain, -⟩ := hqualified w hw rfl
  obtain ⟨-, -, hother⟩ := qualified_names_unambiguous "\"name\"".toList
  have hname := (hother fun v _ e => absurd (e ▸ v.point_mem_text) (by decide)).1
  rw [htable, hcolumn] at hagain
  exact ⟨hcolumn, htable, hagain, hname⟩

end TableQuery
