import TableQuery.Proofs.ErrorKinds
import TableQuery.Proofs.WordPlaces

/-!
# Where a condition is divided

A condition is split at one operator: the first `LIKE` outside literals and between blanks, whatever
stands in front of it, and only in a text without one the first operator in symbols outside
literals, in its longest spelling (`SplitAt`). These places are described by the text in front of
them: its literals end (`Skimmed`), and it is shorter than that of any other such place.

A text whose literals end is read exactly if it has an operator and neither side of the operator is
blank. Otherwise the whole of it is refused (`Condition.parse_at_operator`).
-/

namespace TableQuery.Condition

open Text Outline

/-! ## Operators in a text -/

/-- `LIKE` stands in the text `x` right behind `u`, in the spelling `k`: outside literals, behind a
blank, and in front of a blank or at the end. -/
def LikeAt (x u k : List Char) : Prop :=
  Skimmed u ∧ (∃ c ∈ u.getLast?, isBlank c = true) ∧ k.map Char.toUpper = ['L', 'I', 'K', 'E'] ∧
    ∃ y, x = u ++ (k ++ y) ∧ ∀ c ∈ y.head?, isBlank c = true

/-- An operator in symbols stands in the text `x` right behind `u`, outside literals, and `k` is its
longest spelling there. -/
def SymbolAt (x u k : List Char) (o : Operator) : Prop :=
  Skimmed u ∧ ∃ y, x = u ++ y ∧ Operator.Spelled y k o

/-- The text `x` is split right behind `u`, at the operator `o` in the spelling `k`: the first
`LIKE`, or the first operator in symbols if there is no `LIKE`. -/
inductive SplitAt (x u k : List Char) : Operator → Prop
  | like : LikeAt x u k → (∀ u' k', LikeAt x u' k' → u.length ≤ u'.length) → SplitAt x u k .like
  | symbol {o : Operator} : (∀ u' k', ¬LikeAt x u' k') → SymbolAt x u k o →
      (∀ u' k' o', SymbolAt x u' k' o' → u.length ≤ u'.length) → SplitAt x u k o

theorem plain_of_like {k : List Char} (hk : k.map Char.toUpper = ['L', 'I', 'K', 'E']) :
    k ≠ [] ∧ Plain k :=
  Spelling.IsWord.plain (by decide) hk

theorem answersAt_like_iff {x u : List Char} {n : Nat} :
    AnswersAt (·.keyword? .like) x u n ↔ ∃ k, LikeAt x u k ∧ n = k.length :=
  Keyword.answersAt_iff rfl rfl

theorem answersAt_symbol_iff {x u : List Char} {a : Operator × Nat} :
    AnswersAt Site.symbol? x u a ↔
      ∃ s : List Char × Operator, SymbolAt x u s.1 s.2 ∧ a = (s.2, s.1.length) := by
  constructor
  · rintro ⟨c, r, rfl, ho, hf⟩
    obtain ⟨k, hk, hn⟩ := Operator.detect?_eq_some_iff.1 hf
    exact ⟨(k, a.1), ⟨(isOutside_start_iff.1 ho).1, c :: r, rfl, hk⟩, Prod.ext rfl hn⟩
  · rintro ⟨⟨k, o⟩, ⟨hu, y, rfl, hk⟩, rfl⟩
    obtain ⟨hne, -, hsigns⟩ := hk.signs
    obtain ⟨c, k, rfl⟩ := List.exists_cons_of_ne_nil hne
    obtain ⟨r, rfl⟩ := hk.front
    refine ⟨c, k ++ r, rfl, isOutside_start_iff.2 ⟨hu, (hsigns c List.mem_cons_self).1⟩, ?_⟩
    exact Operator.detect?_eq_some_iff.2 ⟨c :: k, hk, rfl⟩

/-! ## The operator of a text -/

/-- A text with an operator is split at one. -/
theorem exists_splitAt_iff {x : List Char} :
    (∃ u k o, SplitAt x u k o) ↔ (∃ u k, LikeAt x u k) ∨ ∃ u k o, SymbolAt x u k o := by
  constructor
  · rintro ⟨u, k, o, h⟩
    cases h with
    | like hk _ => exact .inl ⟨u, k, hk⟩
    | symbol _ hk _ => exact .inr ⟨u, k, o, hk⟩
  · intro h
    by_cases hlike : ∃ u k, LikeAt x u k
    · obtain ⟨u, k, hk, hfirst⟩ := exists_least_front hlike
      exact ⟨u, k, .like, .like hk hfirst⟩
    · obtain ⟨u, k, o, hk⟩ := h.resolve_left hlike
      have hsymbol : ∃ u, ∃ s : List Char × Operator, SymbolAt x u s.1 s.2 := ⟨u, (k, o), hk⟩
      obtain ⟨u, s, hs, hfirst⟩ := exists_least_front hsymbol
      exact ⟨u, s.1, s.2, .symbol (fun u' k' hk' => hlike ⟨u', k', hk'⟩) hs fun u' k' o' =>
        hfirst u' (k', o')⟩

/-- A text is split at one operator at most. -/
theorem SplitAt.unique {x u k u' k' : List Char} {o o' : Operator} (h : SplitAt x u k o)
    (h' : SplitAt x u' k' o') : u = u' ∧ k = k' ∧ o = o' := by
  have hfront :
      ∀ {v v' : List Char}, v <+: x → v' <+: x → v.length ≤ v'.length → v'.length ≤ v.length →
      v = v' := fun hv hv' hle hge =>
    (List.prefix_of_prefix_length_le hv hv' hle).eq_of_length (Nat.le_antisymm hle hge)
  cases h with
  | like hk hfirst =>
    cases h' with
    | like hk' hfirst' =>
      have hle := hfirst _ _ hk'
      have hge := hfirst' _ _ hk
      obtain ⟨-, -, hw, y, e, -⟩ := hk
      obtain ⟨-, -, hw', y', e', -⟩ := hk'
      obtain rfl := hfront (e ▸ List.prefix_append u _) (e' ▸ List.prefix_append u' _) hle hge
      have hlength : k.length = k'.length := by
        rw [← List.length_map (f := Char.toUpper), hw, ← hw', List.length_map]
      exact ⟨rfl, (List.append_inj (List.append_cancel_left (e.symm.trans e')) hlength).1, rfl⟩
    | symbol hnone => exact absurd hk (hnone u k)
  | symbol hnone hk hfirst =>
    cases h' with
    | like hk' => exact absurd hk' (hnone u' k')
    | symbol _ hk' hfirst' =>
      have hle := hfirst _ _ _ hk'
      have hge := hfirst' _ _ _ hk
      obtain ⟨-, y, e, hs⟩ := hk
      obtain ⟨-, y', e', hs'⟩ := hk'
      obtain rfl := hfront (e ▸ List.prefix_append u y) (e' ▸ List.prefix_append u' y') hle hge
      obtain rfl := List.append_cancel_left (e.symm.trans e')
      exact ⟨rfl, hs.unique hs'⟩

theorem SplitAt.exists_append {x u k : List Char} {o : Operator} (h : SplitAt x u k o) :
    ∃ y, x = u ++ (k ++ y) := by
  cases h with
  | like hk _ =>
    obtain ⟨-, -, -, y, e, -⟩ := hk
    exact ⟨y, e⟩
  | symbol _ hk _ =>
    obtain ⟨-, y, rfl, hs⟩ := hk
    obtain ⟨r, rfl⟩ := hs.front
    exact ⟨r, rfl⟩

/-- The literals behind the operator end if those of the text do. -/
theorem SplitAt.skimmed {x u k y : List Char} {o : Operator} (h : SplitAt x u k o)
    (e : x = u ++ (k ++ y)) (hx : Skimmed x) : Skimmed y := by
  obtain ⟨hu, hne, hk⟩ : Skimmed u ∧ k ≠ [] ∧ ∀ c ∈ k, Literal.isQuote c = false := by
    cases h with
    | like hlike _ =>
      obtain ⟨hne, hplain⟩ := plain_of_like hlike.2.2.1
      exact ⟨hlike.1, hne, fun c hc => (hplain c hc).1⟩
    | symbol _ hsymbol _ =>
      obtain ⟨hu, z, -, hs⟩ := hsymbol
      obtain ⟨hne, -, hsigns⟩ := hs.signs
      exact ⟨hu, hne, fun c hc => (hsigns c hc).1⟩
  rw [e, hu.append_iff, skimmed_append_iff hk] at hx
  · exact hx
  · intro c hc
    rw [List.head?_append_of_ne_nil _ hne] at hc
    exact hk c (List.mem_of_mem_head? hc)

/-! ## Reading a condition -/

theorem likeRange_eq_some_iff_first {fragment : Piece} {i j : Nat} :
    likeRange fragment fragment.outline = .ok (some (i, j)) ↔
      ∃ u k, LikeAt fragment.chars u k ∧
        (∀ u' k', LikeAt fragment.chars u' k' → u.length ≤ u'.length) ∧
        i = u.length ∧ j = u.length + k.length :=
  Keyword.search_eq_some_iff_first rfl rfl

theorem likeRange_eq_none_iff_forall {fragment : Piece} (h : Skimmed fragment.chars) :
    likeRange fragment fragment.outline = .ok none ↔ ∀ u k, ¬LikeAt fragment.chars u k := by
  rw [likeRange_eq_none_iff, ← skimmed_iff, and_iff_left h, Quiet, forall_sites_eq_none_iff]
  simp only [answersAt_like_iff]
  constructor
  · exact fun hnone u k hk => hnone u k.length ⟨k, hk, rfl⟩
  · rintro hnone u n ⟨k, hk, -⟩
    exact hnone u k hk

theorem comparisonRange_eq_some_iff_first {fragment : Piece} {o : Operator} {i j : Nat} :
    comparisonRange fragment fragment.outline = .ok (some (o, i, j)) ↔
      ∃ u k, SymbolAt fragment.chars u k o ∧
        (∀ u' k' o', SymbolAt fragment.chars u' k' o' → u.length ≤ u'.length) ∧
        i = u.length ∧ j = u.length + k.length := by
  rw [comparisonRange_eq_some_iff]
  constructor
  · rintro ⟨u, c, r, n, e, hf, rfl, rfl⟩
    obtain ⟨⟨k, o⟩, hk, e, hfirst⟩ :=
      (exists_firstAt_iff_of fun u n => answersAt_symbol_iff).1 ⟨c, r, e, hf⟩
    cases e
    exact ⟨u, k, hk, fun u' k' o' => hfirst u' (k', o'), rfl, rfl⟩
  · rintro ⟨u, k, hk, hfirst, rfl, rfl⟩
    obtain ⟨c, r, e, hf⟩ := (exists_firstAt_iff_of fun u n => answersAt_symbol_iff).2
      ⟨(k, o), hk, rfl, fun u' s => hfirst u' s.1 s.2⟩
    exact ⟨u, c, r, _, e, hf, rfl, rfl⟩

/-- The two sides of an operator, trimmed, are the field and the value. -/
theorem ofParts_of_append {fragment : Piece} {u k y : List Char}
    (e : fragment.chars = u ++ (k ++ y)) (o : Operator) {c : Condition} :
    ofParts fragment o u.length (u.length + k.length) = .ok c ↔
      c.field.toList = trim u ∧ c.operator = o ∧ c.value.toList = Literal.unquote (trim y) ∧
        trim u ≠ [] ∧ trim y ≠ [] := by
  have hrest : (fragment.rest (u.length + k.length)).chars = trim y :=
    Piece.rest_of_eq (by rw [e, List.append_assoc]) List.length_append.symm
  rw [ofParts_eq_ok_iff, Piece.cut_front_of_eq e rfl, hrest]

/-- A text is read as a condition exactly if neither side of the operator at which it is split is
blank. -/
theorem parse_eq_ok_iff_splitAt {fragment : Piece} (h : Skimmed fragment.chars) {c : Condition} :
    parse fragment = .ok c ↔ ∃ u k y, SplitAt fragment.chars u k c.operator ∧
      fragment.chars = u ++ (k ++ y) ∧ c.field.toList = trim u ∧
      c.value.toList = Literal.unquote (trim y) ∧
        trim u ≠ [] ∧ trim y ≠ [] := by
  rw [parse_eq_ok_iff, likeRange_eq_none_iff_forall h]
  simp only [likeRange_eq_some_iff_first, comparisonRange_eq_some_iff_first]
  constructor
  · rintro (⟨i, j, ⟨u, k, hk, hfirst, rfl, rfl⟩, hp⟩ |
      ⟨hnone, o, i, j, ⟨u, k, hk, hfirst, rfl, rfl⟩, hp⟩)
    · obtain ⟨y, e⟩ := (SplitAt.like hk hfirst).exists_append
      obtain ⟨hf, ho, hv⟩ := (ofParts_of_append e .like).1 hp
      exact ⟨u, k, y, ho ▸ .like hk hfirst, e, hf, hv⟩
    · obtain ⟨y, e⟩ := (SplitAt.symbol hnone hk hfirst).exists_append
      obtain ⟨hf, ho, hv⟩ := (ofParts_of_append e o).1 hp
      exact ⟨u, k, y, ho ▸ .symbol hnone hk hfirst, e, hf, hv⟩
  · rintro ⟨u, k, y, hs, e, hf, hv⟩
    have hp := (ofParts_of_append e c.operator).2 ⟨hf, rfl, hv⟩
    generalize c.operator = o at hs hp
    cases hs with
    | like hk hfirst => exact .inl ⟨_, _, ⟨u, k, hk, hfirst, rfl, rfl⟩, hp⟩
    | symbol hnone hk hfirst => exact .inr ⟨hnone, _, _, _, ⟨u, k, hk, hfirst, rfl, rfl⟩, hp⟩

/-- The sides of the operator are read if neither is blank. -/
theorem parse_of_splitAt {fragment : Piece} (h : Skimmed fragment.chars) {u k y : List Char}
    {o : Operator} (hs : SplitAt fragment.chars u k o) (e : fragment.chars = u ++ (k ++ y))
    (hu : ¬Blank u) (hy : ¬Blank y) :
    parse fragment = .ok ⟨String.ofList (trim u), o, String.ofList (Literal.unquote (trim y))⟩ :=
  (parse_eq_ok_iff_splitAt h).2 ⟨u, k, y, hs, e, String.toList_ofList, String.toList_ofList,
    mt trim_eq_nil_iff.1 hu, mt trim_eq_nil_iff.1 hy⟩

/-- A text is refused exactly if it has no operator, or if a side of the operator is blank. -/
theorem exists_error_iff {fragment : Piece} (h : Skimmed fragment.chars) :
    (∃ e, parse fragment = .error e) ↔ (¬∃ u k o, SplitAt fragment.chars u k o) ∨
      ∃ u k y o, SplitAt fragment.chars u k o ∧ fragment.chars = u ++ (k ++ y) ∧
        (Blank u ∨ Blank y) := by
  constructor
  · rintro ⟨e, he⟩
    by_cases hsplit : ∃ u k o, SplitAt fragment.chars u k o
    · obtain ⟨u, k, o, hs⟩ := hsplit
      obtain ⟨y, hy⟩ := hs.exists_append
      refine .inr ⟨u, k, y, o, hs, hy, ?_⟩
      by_contra hblank
      rw [not_or] at hblank
      cases he.symm.trans (parse_of_splitAt h hs hy hblank.1 hblank.2)
    · exact .inl hsplit
  · intro hrefused
    cases hp : parse fragment with
    | error e => exact ⟨e, rfl⟩
    | ok c =>
      obtain ⟨u, k, y, hs, e, -, -, hu, hy⟩ := (parse_eq_ok_iff_splitAt h).1 hp
      rcases hrefused with hnone | ⟨u', k', y', o', hs', e', hblank⟩
      · exact absurd ⟨u, k, _, hs⟩ hnone
      · obtain ⟨rfl, rfl, -⟩ := hs.unique hs'
        obtain rfl := List.append_cancel_left (List.append_cancel_left (e.symm.trans e'))
        rcases hblank with hblank | hblank
        · exact absurd (trim_eq_nil_iff.2 hblank) hu
        · exact absurd (trim_eq_nil_iff.2 hblank) hy

/-- A text whose literals end is split at one operator at most: at the first `LIKE`, or else at the
first operator in symbols. If neither side of it is blank, the sides are the field and the value.
The text is refused exactly if it has no operator, or if a side of the operator is blank, and always
as a whole. -/
theorem parse_at_operator (fragment : Piece) (h : Skimmed fragment.chars) :
    (∀ u k o u' k' o', SplitAt fragment.chars u k o → SplitAt fragment.chars u' k' o' →
      u = u' ∧ k = k' ∧ o = o') ∧
    (∀ u k y o, SplitAt fragment.chars u k o → fragment.chars = u ++ (k ++ y) →
      ¬Blank u → ¬Blank y →
      parse fragment = .ok ⟨String.ofList (trim u), o, String.ofList (Literal.unquote (trim y))⟩) ∧
    ((∃ e, parse fragment = .error e) ↔
      ((∀ u k, ¬LikeAt fragment.chars u k) ∧ ∀ u k o, ¬SymbolAt fragment.chars u k o) ∨
      ∃ u k y o, SplitAt fragment.chars u k o ∧ fragment.chars = u ++ (k ++ y) ∧
        (Blank u ∨ Blank y)) ∧
    ∀ e, parse fragment = .error e → e.kind = .malformedCondition ∧ e.text = fragment.text ∧
      e.start = fragment.start ∧ e.stop = fragment.start + byteLength fragment.chars := by
  refine ⟨fun u k o u' k' o' => SplitAt.unique, fun u k y o => parse_of_splitAt h, ?_,
    fun e he => ?_⟩
  · rw [exists_error_iff h, exists_splitAt_iff]
    simp only [not_or, not_exists]
  · have hterm : fragment.outline.unterminated? = none := by
      rw [Piece.outline_eq]
      exact skimmed_iff.1 h
    obtain ⟨f, hf, rfl⟩ := (refusals_parse hterm).of_error he
    exact ⟨hf, fragment.faultWhole_text f, fragment.faultWhole_start f, fragment.faultWhole_stop f⟩

/-- A condition with a comparison in front of its `LIKE`, and a `LIKE` inside a literal. -/
def likeSample : Piece :=
  .ofString "a.b<'x LIKE y' Like '=é'" 22

theorem parse_at_operator_like : Skimmed likeSample.chars ∧
    parse likeSample = .ok ⟨"a.b<'x LIKE y'", .like, "=é"⟩ := by
  have h : Skimmed likeSample.chars := skimmed_iff.2 (by decide +kernel)
  have hrange : likeRange likeSample likeSample.outline = .ok (some (15, 19)) := by decide +kernel
  obtain ⟨u, k, hk, hfirst, hu, hlength⟩ := likeRange_eq_some_iff_first.1 hrange
  obtain ⟨y, e⟩ := (SplitAt.like hk hfirst).exists_append
  obtain rfl : u = "a.b<'x LIKE y' ".toList := by
    have hfront : likeSample.chars.take 15 = u := by rw [e, hu, List.take_left]
    rw [← hfront]
    decide
  obtain rfl : y = " '=é'".toList := by
    have htail : likeSample.chars.drop 19 = y := by
      rw [e, ← List.append_assoc, hlength, ← List.length_append, List.drop_left]
    rw [← htail]
    decide
  exact ⟨h, (parse_at_operator likeSample h).2.1 _ k _ .like (.like hk hfirst) e (by decide)
    (by decide)⟩

end TableQuery.Condition
