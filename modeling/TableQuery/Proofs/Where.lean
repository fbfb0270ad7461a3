import TableQuery.Select.Where
import TableQuery.Proofs.Joints
import TableQuery.Proofs.LiteralScan

/-!
# Conditions and their connectors

A condition is split at the first `LIKE`, or else at the first operator in symbols. Rendered, it
comes apart as it was put together exactly if its field has no `LIKE` in it, and no operator in
symbols unless the operator is `LIKE` (`Condition.Readable`, `Condition.parse_chars`); its value may
be any text. The conditions of a `WHERE` come apart at the rendered connectors exactly if no field
holds a connector (`Where.parse_chars_iff`).
-/

namespace TableQuery

open Text Outline

/-! ## Operators in symbols -/

/-- The operator in symbols that starts at a site. -/
def Site.symbol? (s : Site) : Option (Operator × Nat) :=
  Operator.detect? s.here

namespace Operator

theorem detect?_cons_eq_none_iff {c : Char} {r : List Char} :
    detect? (c :: r) = none ↔ c ≠ '=' ∧ c ≠ '<' ∧ c ≠ '>' ∧ (c = '!' → r.head? ≠ some '=') := by
  rw [detect?_cons]
  grind

theorem detect?_symbol {o : Operator} (ho : o ≠ like) (y : List Char) :
    detect? (o.symbol.toList ++ ' ' :: y) = some (o, o.symbol.toList.length) := by
  cases o <;> first | rfl | exact absurd rfl ho

/-- The operators in symbols and how they are spelled. -/
def spellings : List (List Char × Operator) :=
  [(['!', '='], ne), (['<', '>'], ne), (['>', '='], ge), (['<', '='], le), (['='], eq), (['>'], gt),
    (['<'], lt)]

/-- The text starts with the spelling `k` of the operator, and with no longer spelling. -/
structure Spelled (x k : List Char) (o : Operator) : Prop where
  mem : (k, o) ∈ spellings
  front : k <+: x
  longest : ∀ s ∈ spellings, s.1 <+: x → s.1.length ≤ k.length

theorem Spelled.unique {x k k' : List Char} {o o' : Operator} (h : Spelled x k o)
    (h' : Spelled x k' o') :
    k = k' ∧ o = o' := by
  have hfun : ∀ s ∈ spellings, ∀ s' ∈ spellings, s.1 = s'.1 → s.2 = s'.2 := by decide
  have hlength : k.length = k'.length :=
    Nat.le_antisymm (h'.longest _ h.mem h.front) (h.longest _ h'.mem h'.front)
  have e : k = k' :=
    (List.prefix_of_prefix_length_le h.front h'.front hlength.le).eq_of_length hlength
  exact ⟨e, hfun _ h.mem _ h'.mem e⟩

theorem Spelled.signs {x k : List Char} {o : Operator} (h : Spelled x k o) :
    k ≠ [] ∧ o ≠ like ∧ ∀ c ∈ k, Literal.isQuote c = false ∧ c.toUpper.isUpper = false := by
  have hall : ∀ s ∈ spellings, s.1 ≠ [] ∧ s.2 ≠ like ∧
      ∀ c ∈ s.1, Literal.isQuote c = false ∧ c.toUpper.isUpper = false := by decide
  exact hall _ h.mem

theorem exists_spelled_of_detect? {x : List Char} {o : Operator} {n : Nat}
    (h : detect? x = some (o, n)) :
    ∃ k, Spelled x k o ∧ n = k.length := by
  have htwo : ∀ s ∈ spellings, s.1.length ≤ 2 := by decide
  have hfront : ∀ (c : Char) (y : List Char), (∀ t, y = c :: t → False) → ¬[c] <+: y := by
    rintro c y hy ⟨t, rfl⟩
    exact hy t rfl
  unfold detect? at h
  split at h <;> cases h
  case h_1 y => exact ⟨['!', '='], ⟨by decide, ⟨y, rfl⟩, fun s hs _ => htwo s hs⟩, rfl⟩
  case h_2 y => exact ⟨['<', '>'], ⟨by decide, ⟨y, rfl⟩, fun s hs _ => htwo s hs⟩, rfl⟩
  case h_3 y => exact ⟨['>', '='], ⟨by decide, ⟨y, rfl⟩, fun s hs _ => htwo s hs⟩, rfl⟩
  case h_4 y => exact ⟨['<', '='], ⟨by decide, ⟨y, rfl⟩, fun s hs _ => htwo s hs⟩, rfl⟩
  -- one character was taken because the next one makes no longer spelling
  case h_5 y =>
    refine ⟨['='], ⟨by decide, ⟨y, rfl⟩, ?_⟩, rfl⟩
    simp [spellings, List.cons_prefix_cons]
  case h_6 y hge =>
    refine ⟨['>'], ⟨by decide, ⟨y, rfl⟩, ?_⟩, rfl⟩
    simpa [spellings, List.cons_prefix_cons] using hfront '=' y (by simpa using hge)
  case h_7 y hne hle =>
    refine ⟨['<'], ⟨by decide, ⟨y, rfl⟩, ?_⟩, rfl⟩
    simpa [spellings, List.cons_prefix_cons] using
      ⟨hfront '>' y (by simpa using hne), hfront '=' y (by simpa using hle)⟩

theorem detect?_ne_none {x k : List Char} {o : Operator} (h : Spelled x k o) :
    detect? x ≠ none := by
  obtain ⟨hk, ⟨y, rfl⟩, -⟩ := h
  simp only [spellings, List.mem_cons, Prod.mk.injEq, List.not_mem_nil, or_false] at hk
  rcases hk with ⟨rfl, -⟩ | ⟨rfl, -⟩ | ⟨rfl, -⟩ | ⟨rfl, -⟩ | ⟨rfl, -⟩ | ⟨rfl, -⟩ | ⟨rfl, -⟩ <;>
    simp [detect?_cons]

/-- The operator with the longest spelling is found. -/
theorem detect?_eq_some_iff {x : List Char} {o : Operator} {n : Nat} :
    detect? x = some (o, n) ↔ ∃ k, Spelled x k o ∧ n = k.length := by
  refine ⟨exists_spelled_of_detect?, ?_⟩
  rintro ⟨k, hk, rfl⟩
  obtain ⟨⟨o', n'⟩, hd⟩ := Option.ne_none_iff_exists'.1 (detect?_ne_none hk)
  obtain ⟨k', hk', rfl⟩ := exists_spelled_of_detect? hd
  obtain ⟨rfl, rfl⟩ := hk.unique hk'
  exact hd

theorem ne_like_of_detect? {x : List Char} {o : Operator} {n : Nat} (h : detect? x = some (o, n)) :
    o ≠ like := by
  obtain ⟨k, hk, -⟩ := detect?_eq_some_iff.1 h
  exact hk.signs.2.1

/-- The operator is told by two characters. -/
theorem detect?_cons_cons (c d : Char) (r r' : List Char) :
    detect? (c :: d :: r) = detect? (c :: d :: r') := by
  rw [detect?_cons, detect?_cons, List.head?_cons, List.head?_cons]

/-- An operator in symbols has no quotes. -/
theorem plain_of_detect? {x : List Char} {o : Operator} {n : Nat} (h : detect? x = some (o, n)) :
    ∃ m r, x = m ++ r ∧ n = m.length ∧ ∀ c ∈ m, Literal.isQuote c = false := by
  obtain ⟨k, hk, rfl⟩ := detect?_eq_some_iff.1 h
  obtain ⟨r, rfl⟩ := hk.front
  exact ⟨k, r, rfl, rfl, fun c hc => (hk.signs.2.2 c hc).1⟩

/-- The rendered operators: letters of `LIKE`, or signs. -/
theorem symbol_toList (o : Operator) : Plain o.symbol.toList ∧ ∃ c r, o.symbol.toList = c :: r ∧
    (c ≠ 'B' ∧ c ≠ 'J' ∧ c.toUpper = c ∧ isBlank c = false) := by
  cases o <;> exact ⟨by decide, _, _, rfl, by decide⟩

theorem separator_symbol {o : Operator} (ho : o ≠ like) :
    Separator (' ' :: (o.symbol.toList ++ [' '])) := by
  revert ho
  cases o <;> decide

end Operator

theorem lasting_symbol? (y : List Char) : Lasting Site.symbol? (' ' :: y) := by
  intro s i h
  obtain ⟨h₁, h₂, h₃, h₄⟩ := Operator.detect?_cons_eq_none_iff.1 h
  refine Operator.detect?_cons_eq_none_iff.2 ⟨h₁, h₂, h₃, fun hc => ?_⟩
  have hr := h₄ hc
  have e : ((s.shift i 0).extend (' ' :: y)).after = s.after ++ ' ' :: y := rfl
  rw [e, List.head?_append]
  cases hs : s.after.head? with
  | none => simp
  | some d =>
    rw [hs] at hr
    simpa using hr

theorem persistent_symbol? (y : List Char) : Persistent Site.symbol? y := by
  intro s i h
  obtain ⟨h₁, h₂, h₃, h₄⟩ := Operator.detect?_cons_eq_none_iff.1 h
  refine Operator.detect?_cons_eq_none_iff.2 ⟨h₁, h₂, h₃, fun hc he => h₄ hc ?_⟩
  have e : ((s.shift i 0).extend y).after = s.after ++ y := rfl
  rw [e, List.head?_append, he, Option.some_or]

namespace Condition

/-! ## One condition -/

/-- The field is a trimmed text, not empty, that ends its literals and closes no parenthesis that it
has not opened. It holds no `LIKE`, and no operator in symbols in front of one. -/
structure Readable (c : Condition) : Prop where
  ne_nil : c.field.toList ≠ []
  tight : Tight c.field.toList
  sound : Sound c.field.toList
  likeFree : Quiet (·.keyword? .like) none c.field.toList
  symbolFree : c.operator ≠ .like → Quiet Site.symbol? none c.field.toList

theorem ofParts_eq_ok_iff {fragment : Piece} {operator : Operator} {i j : Nat} {c : Condition} :
    ofParts fragment operator i j = .ok c ↔
      c.field.toList = (fragment.cut 0 i).chars ∧ c.operator = operator ∧
        c.value.toList = Literal.unquote (fragment.rest j).chars ∧
        (fragment.cut 0 i).chars ≠ [] ∧ (fragment.rest j).chars ≠ [] := by
  rw [ofParts]
  by_cases hf : (fragment.cut 0 i).chars = []
  · rw [if_pos (Piece.isEmpty_iff.2 hf)]
    constructor
    · intro h
      cases h
    · rintro ⟨-, -, -, h, -⟩
      exact absurd hf h
  · rw [if_neg (fun h => hf (Piece.isEmpty_iff.1 h))]
    dsimp only
    by_cases hv : (fragment.rest j).chars = []
    · rw [if_pos (Piece.isEmpty_iff.2 hv)]
      constructor
      · intro h
        cases h
      · rintro ⟨-, -, -, -, h⟩
        exact absurd hv h
    · rw [if_neg (fun h => hv (Piece.isEmpty_iff.1 h))]
      constructor
      · intro h
        cases h
        exact ⟨String.toList_ofList, rfl, String.toList_ofList, hf, hv⟩
      · rintro ⟨h₁, rfl, h₂, -, -⟩
        rw [Piece.text, ← h₁, ← h₂, String.ofList_toList, String.ofList_toList]
        rfl

theorem parse_eq_ok_iff {fragment : Piece} {c : Condition} :
    parse fragment = .ok c ↔
      (∃ i j, likeRange fragment fragment.outline = .ok (some (i, j)) ∧
        ofParts fragment .like i j = .ok c) ∨
      (likeRange fragment fragment.outline = .ok none ∧
        ∃ o i j, comparisonRange fragment fragment.outline = .ok (some (o, i, j)) ∧
          ofParts fragment o i j = .ok c) := by
  rw [parse, bind_eq_ok_iff]
  constructor
  · rintro ⟨r, hr, h⟩
    cases r with
    | some range => exact .inl ⟨range.1, range.2, hr, h⟩
    | none =>
      obtain ⟨r, hr', h⟩ := bind_eq_ok_iff.1 h
      cases r with
      | none => cases h
      | some range => exact .inr ⟨hr, range.1, range.2.1, range.2.2, hr', h⟩
  · rintro (⟨i, j, hr, h⟩ | ⟨hr, o, i, j, hr', h⟩)
    · exact ⟨_, hr, h⟩
    · exact ⟨_, hr, bind_eq_ok_iff.2 ⟨_, hr', h⟩⟩

theorem likeRange_eq_some_iff {fragment : Piece} {i j : Nat} :
    likeRange fragment fragment.outline = .ok (some (i, j)) ↔
      ∃ u c r n, fragment.chars = u ++ c :: r ∧ FirstAt (·.keyword? .like) (.start 0 none) u c r n ∧
        i = u.length ∧ j = u.length + n := by
  rw [likeRange, Piece.outline_eq, Piece.search_range_iff]
  simp only [Place.start, Nat.zero_add]

theorem likeRange_eq_none_iff {fragment : Piece} :
    likeRange fragment fragment.outline = .ok none ↔
      Quiet (·.keyword? .like) none fragment.chars ∧
        ((Place.start 0 none).advance fragment.chars).unterminated? = none := by
  rw [likeRange, Piece.outline_eq, Piece.search_eq_none_iff]
  simp only [Option.map_eq_none_iff]
  rfl

theorem comparisonRange_eq_some_iff {fragment : Piece} {o : Operator} {i j : Nat} :
    comparisonRange fragment fragment.outline = .ok (some (o, i, j)) ↔
      ∃ u c r n, fragment.chars = u ++ c :: r ∧
        FirstAt Site.symbol? (.start 0 none) u c r (o, n) ∧ i = u.length ∧ j = u.length + n := by
  rw [comparisonRange, Piece.outline_eq, Piece.search_eq_some_iff]
  constructor
  · rintro ⟨u, c, r, e, ho, hf, hq⟩
    obtain ⟨⟨o', n⟩, hn, he⟩ := Option.map_eq_some_iff.1 hf
    simp only [Place.site, Place.advance_index, Place.start, Nat.zero_add, Prod.mk.injEq] at he
    obtain ⟨rfl, hi, hj⟩ := he
    refine ⟨u, c, r, n, e, ⟨ho, hn, fun s hs => ?_⟩, hi.symm, hj.symm⟩
    exact Option.map_eq_none_iff.1 (hq s hs)
  · rintro ⟨u, c, r, n, e, ⟨ho, hf, hq⟩, rfl, rfl⟩
    refine ⟨u, c, r, e, ho, ?_, fun s hs => ?_⟩
    · refine Option.map_eq_some_iff.2 ⟨(o, n), hf, ?_⟩
      simp only [Place.site, Place.advance_index, Place.start, Nat.zero_add]
    · exact Option.map_eq_none_iff.2 (hq s hs)

/-- The condition in canonical form. -/
def chars (c : Condition) : List Char :=
  c.field.toList ++ ((' ' :: (c.operator.symbol.toList ++ [' '])) ++ Literal.quote c.value.toList)

theorem render_toList (c : Condition) : c.render.toList = c.chars := by
  simp [render, chars]

theorem plain_middle (o : Operator) : Plain (' ' :: (o.symbol.toList ++ [' '])) := by
  cases o <;> decide

theorem stops_behind_field (c : Condition) :
    Stops ((' ' :: (c.operator.symbol.toList ++ [' '])) ++ Literal.quote c.value.toList) := by
  obtain ⟨-, d, r, e, hd⟩ := c.operator.symbol_toList
  rw [e]
  exact stops_blank hd _

/-- Behind the operator, the value is one literal without sites. -/
theorem quote_behind_field {c : Condition} {p : Place} (hp : p.Clear) :
    sitesFrom (p.advance (' ' :: (c.operator.symbol.toList ++ [' '])))
        (Literal.quote c.value.toList) = [] ∧
      (p.advance ((' ' :: (c.operator.symbol.toList ++ [' '])) ++
        Literal.quote c.value.toList)).unterminated? = none := by
  obtain ⟨-, -, hq⟩ := (plain_middle c.operator).advance hp
  obtain ⟨h₁, h₂, -⟩ := advance_quote
    (Place.fresh_of_outside (hq (List.cons_ne_nil _ _)) (Literal.quote c.value.toList))
  refine ⟨h₁, ?_⟩
  rw [Place.advance_append, Place.unterminated?, h₂]

theorem tight_quote (v : List Char) : Tight (Literal.quote v) := by
  refine ⟨fun c hc => ?_, fun c hc => ?_⟩
  · cases hc
    decide
  · rw [Literal.getLast?_quote] at hc
    cases hc
    decide

/-- The two sides of the operator are the field and the quoted value. -/
theorem ofParts_chars {fragment : Piece} {c : Condition} (h : fragment.chars = c.chars)
    (hne : c.field.toList ≠ []) (ht : Tight c.field.toList) :
    ofParts fragment c.operator (c.field.toList ++ [' ']).length
      ((c.field.toList ++ [' ']).length + c.operator.symbol.toList.length) = .ok c := by
  have hblank : Blank [' '] := by decide
  have hfield : (fragment.cut 0 (c.field.toList ++ [' ']).length).chars = c.field.toList := by
    have e : fragment.chars = (c.field.toList ++ [' ']) ++
        (c.operator.symbol.toList ++ ([' '] ++ Literal.quote c.value.toList)) := by
      rw [h, chars]
      simp
    rw [Piece.cut_front_of_eq e rfl, trim_append_blank hblank, trim_eq_self ht]
  have hvalue : (fragment.rest ((c.field.toList ++ [' ']).length +
      c.operator.symbol.toList.length)).chars = Literal.quote c.value.toList := by
    have e : fragment.chars = ((c.field.toList ++ [' ']) ++ c.operator.symbol.toList) ++
        ([' '] ++ Literal.quote c.value.toList) := by
      rw [h, chars]
      simp
    have hi : (c.field.toList ++ [' ']).length + c.operator.symbol.toList.length =
        ((c.field.toList ++ [' ']) ++ c.operator.symbol.toList).length := List.length_append.symm
    rw [Piece.rest_of_eq e hi, trim_blank_append hblank, trim_eq_self (tight_quote _)]
  rw [ofParts_eq_ok_iff, hfield, hvalue, Literal.unquote_quote]
  exact ⟨rfl, rfl, rfl, hne, Literal.quote_ne_nil _⟩

/-- In front of the operator stands a blank, outside literals. -/
theorem place_operator {c : Condition} (hc : c.Readable) :
    ((Place.start 0 none).advance (c.field.toList ++ [' '])).Clear ∧
      ((Place.start 0 none).advance (c.field.toList ++ [' '])).before = some ' ' := by
  have hblank : Plain [' '] := by decide
  have hclear := (hc.sound.advance (Place.fresh_start 0 none _)).1
  constructor
  · rw [Place.advance_append]
    exact (hblank.advance hclear).1
  · rw [Place.advance_before, List.getLast?_concat, Option.some_or]

theorem likeRange_chars {fragment : Piece} {c : Condition} (h : fragment.chars = c.chars)
    (hc : c.Readable) (ho : c.operator = .like) :
    likeRange fragment fragment.outline =
      .ok (some ((c.field.toList ++ [' ']).length, (c.field.toList ++ [' ']).length + 4)) := by
  obtain ⟨hclear, hbefore⟩ := place_operator hc
  have hlike : c.operator.symbol.toList = ['L', 'I', 'K', 'E'] := by
    rw [ho]
    rfl
  have hstops := c.stops_behind_field
  have htext : fragment.chars = (c.field.toList ++ [' ']) ++
      'L' :: (['I', 'K', 'E', ' '] ++ Literal.quote c.value.toList) := by
    rw [h, chars, hlike]
    simp
  rw [hlike] at hstops
  rw [likeRange_eq_some_iff]
  refine ⟨_, _, _, 4, htext, ⟨?_, ?_, ?_⟩, rfl, rfl⟩
  · exact Place.isOutside_of_clear hclear (by decide)
  · rw [Site.keyword?, if_pos (by rw [Site.followsBlank, Place.site, hbefore]; rfl)]
    have hm : Keyword.like.match? ['L', 'I', 'K', 'E', ' '] = some 4 := by decide
    exact Keyword.match?_append_eq_some hm (.inl (by decide))
  · exact quiet_to_keyword (lasting_keyword? rfl hstops) hc.likeFree
      fun s hs => keyword?_eq_none_of_blank hs _

theorem likeRange_chars_eq_none {fragment : Piece} {c : Condition} (h : fragment.chars = c.chars)
    (hc : c.Readable) (ho : c.operator ≠ .like) :
    likeRange fragment fragment.outline = .ok none := by
  have hclear := (hc.sound.advance (Place.fresh_start 0 none _)).1
  have hsep := Operator.separator_symbol ho
  rw [likeRange_eq_none_iff, h, chars, Place.advance_append]
  refine ⟨forall_sitesFrom_append.2 ⟨?_, forall_sitesFrom_append.2 ⟨fun s hs => ?_, ?_⟩⟩, ?_⟩
  · exact hc.likeFree.sites (lasting_keyword? rfl c.stops_behind_field)
      (Place.fresh_start 0 none _) rfl
  · obtain ⟨u, d, t, e, -, rfl⟩ := mem_sitesFrom.1 hs
    rw [Site.keyword?_eq_none_iff]
    intro _
    refine Keyword.match?_cons_eq_none _ (hsep.sign d ?_) _
    rw [e]
    exact List.mem_append_right _ List.mem_cons_self
  · rw [(quote_behind_field hclear).1]
    exact fun s hs => by cases hs
  · exact (quote_behind_field hclear).2

theorem comparisonRange_chars {fragment : Piece} {c : Condition} (h : fragment.chars = c.chars)
    (hc : c.Readable) (ho : c.operator ≠ .like) :
    comparisonRange fragment fragment.outline =
      .ok (some (c.operator, (c.field.toList ++ [' ']).length,
        (c.field.toList ++ [' ']).length + c.operator.symbol.toList.length)) := by
  obtain ⟨hclear, -⟩ := place_operator hc
  obtain ⟨hplain, d, r, hd, -⟩ := c.operator.symbol_toList
  have hdetect := Operator.detect?_symbol ho (Literal.quote c.value.toList)
  have htext : fragment.chars = (c.field.toList ++ [' ']) ++
      d :: (r ++ ' ' :: Literal.quote c.value.toList) := by
    rw [h, chars, hd]
    simp
  rw [comparisonRange_eq_some_iff]
  refine ⟨_, _, _, _, htext, ⟨?_, ?_, ?_⟩, rfl, rfl⟩
  · refine Place.isOutside_of_clear hclear (hplain d ?_).1
    rw [hd]
    exact List.mem_cons_self
  · rw [hd] at hdetect ⊢
    exact hdetect
  · refine quiet_to_keyword (lasting_symbol? _) (hc.symbolFree ho) fun s hs => ?_
    rw [Site.symbol?, Site.here, hs]
    exact Operator.detect?_cons_eq_none_iff.2
      ⟨by decide, by decide, by decide, fun h => absurd h (by decide)⟩

/-- A rendered condition with a readable field is read back. -/
theorem parse_chars {fragment : Piece} {c : Condition} (h : fragment.chars = c.chars)
    (hc : c.Readable) : parse fragment = .ok c := by
  have hparts := ofParts_chars h hc.ne_nil hc.tight
  rw [parse_eq_ok_iff]
  by_cases ho : c.operator = .like
  · rw [ho] at hparts
    exact .inl ⟨_, _, likeRange_chars h hc ho, hparts⟩
  · exact .inr ⟨likeRange_chars_eq_none h hc ho, _, _, _, comparisonRange_chars h hc ho, hparts⟩

theorem quiet_quote {α : Type} (f : Site → Option α) (b : Option Char) (v : List Char) :
    Quiet f b (Literal.quote v) := by
  rw [Quiet, (advance_quote (Place.fresh_start 0 b (Literal.quote v))).1]
  exact fun s hs => by cases hs

/-- A condition holds a keyword only if its field does. -/
theorem quiet_chars {k : Keyword} (hk : k.canEnd = true) (hlike : Foreign k ['L', 'I', 'K', 'E'])
    {b : Option Char} {c : Condition} (hb : Balanced c.field.toList)
    (hq : Quiet (·.topKeyword? k) b c.field.toList) : Quiet (·.topKeyword? k) b c.chars := by
  by_cases ho : c.operator = .like
  · have hchars : c.chars = c.field.toList ++
        ([' '] ++ (['L', 'I', 'K', 'E'] ++ ' ' :: Literal.quote c.value.toList)) := by
      have hsymbol : c.operator.symbol.toList = ['L', 'I', 'K', 'E'] := by
        rw [ho]
        rfl
      rw [chars, hsymbol]
      simp
    rw [hchars]
    refine quiet_append hk hq hb (by decide) (stops_blank (by decide) _) ?_
    exact quiet_word hk hlike (.inr ⟨_, rfl, quiet_quote _ _ _⟩)
  · exact quiet_append hk hq hb (Operator.separator_symbol ho) c.stops_behind_field
      (quiet_quote _ _ _)

theorem balanced_chars {c : Condition} (hb : Balanced c.field.toList) : Balanced c.chars :=
  hb.append_plain (plain_middle c.operator) (List.cons_ne_nil _ _) (balanced_quote _)

theorem tight_chars {c : Condition} (hne : c.field.toList ≠ []) (ht : Tight c.field.toList) :
    Tight c.chars := by
  refine tight_append hne (by simp) ht.head fun d hd => ?_
  rw [List.getLast?_append, Literal.getLast?_quote, Option.some_or] at hd
  cases hd
  decide

/-! ## What a condition is read from -/

/-- The field of a condition is what stands in front of the operator. -/
theorem field_of_firstAt {α : Type} {f : Site → Option α} {fragment : Piece} {u : List Char}
    {d : Char} {r : List Char} {a : α} {c : Condition} (e : fragment.chars = u ++ d :: r)
    (hf : FirstAt f (.start 0 none) u d r a) (hc : c.field.toList = (fragment.cut 0 u.length).chars)
    (ht : Tight fragment.chars) (hs : Sound fragment.chars) :
    Sound c.field.toList ∧ ∃ b, Blank b ∧ u = c.field.toList ++ b := by
  have hcut : (fragment.cut 0 u.length).chars = trim u := Piece.cut_front_of_eq e rfl
  have hu : Sound u := by
    rw [e] at hs
    exact hs.left (Place.terminated_of_isOutside hf.outside)
  rw [hc, hcut]
  exact ⟨hu.trim.1, exists_trim_blank ht e⟩

/-- What is known of a condition that was read. -/
theorem field_of_parse {fragment : Piece} {c : Condition} (h : parse fragment = .ok c)
    (ht : Tight fragment.chars) (hs : Sound fragment.chars) :
    c.field.toList ≠ [] ∧ Tight c.field.toList ∧ Sound c.field.toList ∧
      (c.operator = .like → Quiet (·.keyword? .like) none c.field.toList) ∧
      (c.operator ≠ .like → Quiet Site.symbol? none c.field.toList) := by
  rcases parse_eq_ok_iff.1 h with ⟨i, j, hr, hp⟩ | ⟨-, o, i, j, hr, hp⟩
  · obtain ⟨hfield, hop, -, hne, -⟩ := ofParts_eq_ok_iff.1 hp
    obtain ⟨u, d, r, n, e, hf, rfl, -⟩ := likeRange_eq_some_iff.1 hr
    obtain ⟨hsound, b, hb, hu⟩ := field_of_firstAt e hf hfield ht hs
    have htight : Tight c.field.toList := by
      rw [hfield]
      exact tight_cut _ _ _
    refine ⟨by rwa [hfield], htight, hsound, fun _ => ?_, fun h' => absurd hop h'⟩
    have hquiet := quiet_front ht e hf
    rwa [hfield, Piece.cut_front_of_eq e rfl]
  · obtain ⟨hfield, hop, -, hne, -⟩ := ofParts_eq_ok_iff.1 hp
    obtain ⟨u, d, r, n, e, hf, rfl, -⟩ := comparisonRange_eq_some_iff.1 hr
    obtain ⟨hsound, b, hb, hu⟩ := field_of_firstAt e hf hfield ht hs
    refine ⟨by rwa [hfield], ?_, hsound, fun h' => ?_, fun _ => ?_⟩
    · rw [hfield]
      exact tight_cut _ _ _
    · exact absurd (hop.symm.trans h') (Operator.ne_like_of_detect? hf.found)
    · exact quiet_of_firstAt hf hu (persistent_symbol? _)

/-- A rendered condition that is read back has a readable field. -/
theorem readable_of_parse_chars {fragment : Piece} {c : Condition} (h : parse fragment = .ok c)
    (e : fragment.chars = c.chars) (ht : Tight fragment.chars) (hs : Sound fragment.chars) :
    c.Readable := by
  obtain ⟨hne, htight, hsound, hlike, hsymbol⟩ := field_of_parse h ht hs
  refine ⟨hne, htight, hsound, ?_, hsymbol⟩
  by_cases ho : c.operator = .like
  · exact hlike ho
  · rcases parse_eq_ok_iff.1 h with ⟨i, j, -, hp⟩ | ⟨hr, -⟩
    · exact absurd (ofParts_eq_ok_iff.1 hp).2.1 ho
    · have hq := (likeRange_eq_none_iff.1 hr).1
      rw [e] at hq
      refine quiet_of_sites (forall_sitesFrom_append.1 hq).1 (persistent_keyword? .like ?_)
        (Place.fresh_start 0 none _) rfl
      intro d hd
      cases hd
      decide

end Condition

namespace Where

/-! ## Connectors -/

/-- The range of a connector at a site. -/
def connection? (s : Site) : Option (Nat × Nat) :=
  (connector? s).map fun n => (s.index, s.index + n)

theorem connection?_eq_none_iff {s : Site} :
    connection? s = none ↔ s.topKeyword? .and = none ∧ s.topKeyword? .or = none := by
  rw [connection?, Option.map_eq_none_iff, connector?]
  cases h : s.topKeyword? .and with
  | none => simp
  | some n => simp

theorem keyed_connection? : Keyed connection? := by
  constructor
  · intro y hy s i h
    rw [connection?_eq_none_iff] at h ⊢
    exact ⟨lasting_topKeyword? rfl hy s i h.1, lasting_topKeyword? rfl hy s i h.2⟩
  · intro y hy s i h
    rw [connection?_eq_none_iff] at h ⊢
    exact ⟨persistent_topKeyword? .and hy s i h.1, persistent_topKeyword? .or hy s i h.2⟩

theorem connection?_eq_none_of_before {s : Site} (h : s.followsBlank = false) :
    connection? s = none := by
  rw [connection?_eq_none_iff, Site.topKeyword?_eq_none_iff, Site.topKeyword?_eq_none_iff, h]
  constructor
  · intro _ h'
    cases h'
  · intro _ h'
    cases h'

theorem connection?_eq_none_of_blank {s : Site} (h : s.char = ' ') : connection? s = none := by
  rw [connection?_eq_none_iff, Site.topKeyword?_eq_none_iff, Site.topKeyword?_eq_none_iff,
    Site.here, h]
  constructor <;> exact fun _ _ => Keyword.match?_cons_eq_none _ (by decide) _

/-- `AND` between blanks is one connector. -/
theorem filterMap_and {p : Place} (hp : p.Clear) (hd : p.depth = 0) (y : List Char) :
    ((sitesFrom p [' ', 'A', 'N', 'D', ' ']).map (·.extend y)).filterMap connection? =
      [(p.index + 1, p.index + 4)] := by
  have hblank : Plain [' '] := by decide
  obtain ⟨-, hd', hq⟩ := hblank.advance hp
  rw [Place.advance_cons, Place.advance_nil] at hd' hq
  have hf : (p.next ' ').Fresh ['A', 'N', 'D', ' '] :=
    Place.fresh_of_outside (hq (List.cons_ne_nil _ _)) _
  have hword : sitesFrom (.start 0 (some ' ')) ['A', 'N', 'D', ' '] =
      [⟨0, 0, some ' ', 'A', ['N', 'D', ' ']⟩, ⟨1, 0, some 'A', 'N', ['D', ' ']⟩,
        ⟨2, 0, some 'N', 'D', [' ']⟩, ⟨3, 0, some 'D', ' ', []⟩] := by decide
  have hmatch : Keyword.and.match? (['A', 'N', 'D', ' '] ++ y) = some 3 :=
    Keyword.match?_append_eq_some (by decide) (.inl (by decide))
  have hfound : connection? ((Site.shift (p.index + 1) 0
      ⟨0, 0, some ' ', 'A', ['N', 'D', ' ']⟩).extend y) = some (p.index + 1, p.index + 4) := by
    have htop : ((Site.shift (p.index + 1) 0
        ⟨0, 0, some ' ', 'A', ['N', 'D', ' ']⟩).extend y).topKeyword? .and = some 3 :=
      hmatch
    rw [connection?, connector?, htop]
    simp [Site.shift]
  rw [sitesFrom_cons_of_outside (Place.isOutside_of_clear hp (by decide)),
    (sitesFrom_of_fresh hf (.inl (hd'.trans hd))).1, Place.next_before, hword, hd', hd,
    Place.next_index]
  simp only [List.map_cons, List.map_nil]
  rw [List.filterMap_cons_none (connection?_eq_none_of_blank rfl), List.filterMap_cons_some hfound,
    List.filterMap_cons_none (connection?_eq_none_of_before rfl),
    List.filterMap_cons_none (connection?_eq_none_of_before rfl),
    List.filterMap_cons_none (connection?_eq_none_of_blank rfl), List.filterMap_nil]

/-- A condition behind `AND` as a joint of the body. -/
def joint (condition : List Char) : Joint connection? where
  lead := [' ', 'A', 'N', 'D', ' ']
  body := condition
  mark i := (i + 1, i + 4)
  plain := by decide
  starts := ⟨_, _, rfl, by decide⟩
  ends _ := rfl
  found _ _ hp hd _ := filterMap_and hp hd _

/-! ## Fragments -/

theorem conditionIn_eq_ok_iff {body : Piece} {i j k : Nat} {piece : Piece} :
    conditionIn body i j k = .ok piece ↔ piece = body.cut i j ∧ piece.chars ≠ [] :=
  Piece.nonblank_eq_ok_iff

/-- The fragments are the ranges between the connectors, and none of them may be blank. -/
theorem fragmentsFrom_eq_ok_iff {body : Piece} {first : Nat} {sites : List Site} {fs : List Piece} :
    (∃ front last, fragmentsFrom body first sites = .ok (front, last) ∧
      ∃ piece, conditionIn body last body.length body.length = .ok piece ∧ fs = front ++ [piece]) ↔
      fs = body.cutsFrom first (sites.filterMap connection?) ∧ ∀ f ∈ fs, f.chars ≠ [] := by
  induction sites generalizing first fs with
  | nil =>
    rw [List.filterMap_nil, Piece.cutsFrom]
    simp only [conditionIn_eq_ok_iff]
    constructor
    · rintro ⟨front, last, h, piece, ⟨rfl, hne⟩, rfl⟩
      cases h
      exact ⟨rfl, List.forall_mem_singleton.2 hne⟩
    · rintro ⟨rfl, hne⟩
      exact ⟨[], first, rfl, _, ⟨rfl, hne _ List.mem_cons_self⟩, rfl⟩
  | cons s sites ih =>
    rw [fragmentsFrom]
    cases hc : connector? s with
    | none =>
      rw [List.filterMap_cons_none (by rw [connection?, hc]; rfl)]
      exact ih
    | some n =>
      have hs : connection? s = some (s.index, s.index + n) := by
        rw [connection?, hc]
        rfl
      rw [List.filterMap_cons_some hs, Piece.cutsFrom]
      constructor
      · rintro ⟨front, last, h, piece, hp, rfl⟩
        obtain ⟨head, hh, h⟩ := bind_eq_ok_iff.1 h
        obtain ⟨⟨front', last'⟩, hf, h⟩ := bind_eq_ok_iff.1 h
        cases h
        obtain ⟨rfl, hne⟩ := conditionIn_eq_ok_iff.1 hh
        obtain ⟨hcuts, hrest⟩ := ih.1 ⟨front', _, hf, piece, hp, rfl⟩
        exact ⟨congrArg _ hcuts, List.forall_mem_cons.2 ⟨hne, hrest⟩⟩
      · rintro ⟨rfl, hne⟩
        obtain ⟨hne, hrest⟩ := List.forall_mem_cons.1 hne
        obtain ⟨front, last, hf, piece, hp, hfs⟩ := ih.2 ⟨rfl, hrest⟩
        refine ⟨body.cut first s.index :: front, last, ?_, piece, hp, congrArg _ hfs⟩
        exact bind_eq_ok_iff.2 ⟨_, conditionIn_eq_ok_iff.2 ⟨rfl, hne⟩,
          bind_eq_ok_iff.2 ⟨(front, last), hf, rfl⟩⟩

theorem split_eq_ok_iff {body : Piece} {fs : List Piece} :
    split body = .ok fs ↔ body.chars ≠ [] ∧
      ((Place.start 0 none).advance body.chars).unterminated? = none ∧
      fs = body.cutsFrom 0 ((sitesFrom (.start 0 none) body.chars).filterMap connection?) ∧
      ∀ f ∈ fs, f.chars ≠ [] := by
  rw [← fragmentsFrom_eq_ok_iff, split]
  by_cases h : body.chars = []
  · rw [if_pos (Piece.isEmpty_iff.2 h)]
    exact iff_of_false nofun fun h' => h'.1 h
  · rw [if_neg (fun h' => h (Piece.isEmpty_iff.1 h')), Piece.outline_eq]
    constructor
    · intro h'
      obtain ⟨⟨front, last⟩, hf, h'⟩ := bind_eq_ok_iff.1 h'
      obtain ⟨_, ht, h'⟩ := bind_eq_ok_iff.1 h'
      obtain ⟨piece, hp, h'⟩ := bind_eq_ok_iff.1 h'
      cases h'
      exact ⟨h, Piece.requireTerminated_eq_ok_iff.1 ht, front, last, hf, piece, hp, rfl⟩
    · rintro ⟨-, ht, front, last, hf, piece, hp, rfl⟩
      refine bind_eq_ok_iff.2 ⟨(front, last), hf, bind_eq_ok_iff.2 ⟨(), ?_, ?_⟩⟩
      · exact Piece.requireTerminated_eq_ok_iff.2 ht
      · exact bind_eq_ok_iff.2 ⟨piece, hp, rfl⟩

theorem length_of_split {body : Piece} {fs : List Piece} (h : split body = .ok fs) :
    fs.length = ((sitesFrom (.start 0 none) body.chars).filterMap connection?).length + 1 := by
  rw [(split_eq_ok_iff.1 h).2.2.1, Piece.length_cutsFrom]

/-- What stands between the connectors of a body is what the body was assembled from. -/
theorem chars_cutsFrom {body : Piece} {u x : List Char} {l : List (List Char)}
    (h : body.chars = u ++ Joint.assemble x (l.map joint)) :
    (body.cutsFrom u.length (Joint.marksFrom (u.length + x.length) (l.map joint))).map Piece.chars =
      (x :: l).map trim := by
  induction l generalizing u x with
  | nil =>
    rw [List.map_nil, Joint.assemble_nil] at h
    have hcut : (body.cut u.length body.length).chars = trim x := Piece.rest_of_eq h rfl
    rw [List.map_nil, Joint.marksFrom, Piece.cutsFrom, List.map_singleton, hcut, List.map_singleton]
  | cons y l ih =>
    have hblank : Blank [' '] := by decide
    have htext : body.chars = u ++ ((x ++ [' ']) ++
        (['A', 'N', 'D', ' '] ++ Joint.assemble y (l.map joint))) := by
      rw [h, List.map_cons, Joint.assemble_cons]
      simp [joint]
    have htext' : body.chars = (u ++ (x ++ [' ', 'A', 'N', 'D'])) ++
        Joint.assemble (' ' :: y) (l.map joint) := by
      rw [h, List.map_cons, Joint.assemble_cons]
      simp [joint, Joint.assemble]
    have hcut : (body.cut u.length (u.length + x.length + 1)).chars = trim x := by
      rw [← trim_append_blank hblank]
      exact Piece.cut_of_eq htext rfl (by simp [Nat.add_assoc])
    have hfirst : (u ++ (x ++ [' ', 'A', 'N', 'D'])).length = u.length + x.length + 4 := by
      simp [Nat.add_assoc]
    have hnext : u.length + x.length + 4 + (' ' :: y).length =
        u.length + x.length + (joint y).text.length := by
      simp only [joint, Joint.text, List.length_append, List.length_cons, List.length_nil]
      omega
    have hy : trim (' ' :: y) = trim y := trim_blank_append hblank y
    have hrest := ih htext'
    rw [hfirst, hnext, List.map_cons (a := ' ' :: y), hy] at hrest
    rw [List.map_cons (f := joint), Joint.marksFrom, Piece.cutsFrom, List.map_cons]
    exact congrArg₂ List.cons hcut hrest

theorem exists_of_connector? {s : Site} {n : Nat} (h : connector? s = some n) :
    ∃ k : Keyword, s.topKeyword? k = some n := by
  rw [connector?] at h
  cases ha : s.topKeyword? .and with
  | some m => exact ⟨.and, by rw [ha] at h ⊢; exact h⟩
  | none => exact ⟨.or, by rw [ha] at h; exact h⟩

theorem seams_of_connection {x : List Char} {m : Nat × Nat}
    (h : m ∈ (sitesFrom (.start 0 none) x).filterMap connection?) :
    StopAt x m.1 ∧ SeamAt x m.2 := by
  obtain ⟨s, hs, e⟩ := List.mem_filterMap.1 h
  obtain ⟨n, hn, rfl⟩ := Option.map_eq_some_iff.1 e
  obtain ⟨k, hk⟩ := exists_of_connector? hn
  obtain ⟨hd, -, hk⟩ := Site.topKeyword?_eq_some_iff.1 hk
  obtain ⟨hpos, hle, hplain⟩ := Keyword.plain_of_match? hk
  exact ⟨stopAt_of_site hs hd, seamAt_of_site hs hd hpos hplain hle⟩

/-- The fragments of a balanced body are balanced. -/
theorem balanced_of_split {body : Piece} {fs : List Piece} (h : split body = .ok fs)
    (hb : Balanced body.chars) : ∀ f ∈ fs, Balanced f.chars ∧ Tight f.chars := by
  obtain ⟨-, -, rfl, -⟩ := split_eq_ok_iff.1 h
  intro f hf
  obtain ⟨i, j, hi, hj, rfl⟩ := Piece.exists_of_mem_cutsFrom hf
  refine ⟨balanced_cut hb ?_ ?_, tight_cut _ _ _⟩
  · rcases hi with rfl | ⟨m, hm, rfl⟩
    · exact seamAt_zero _
    · exact (seams_of_connection hm).2
  · rcases hj with rfl | ⟨m, hm, rfl⟩
    · exact stopAt_length hb
    · exact (seams_of_connection hm).1

/-! ## Rendered bodies -/

theorem quiet_connection?_iff {b : Option Char} {x : List Char} :
    Quiet connection? b x ↔ Quiet (·.topKeyword? .and) b x ∧ Quiet (·.topKeyword? .or) b x := by
  constructor
  · intro h
    exact ⟨fun s hs => (connection?_eq_none_iff.1 (h s hs)).1,
      fun s hs => (connection?_eq_none_iff.1 (h s hs)).2⟩
  · rintro ⟨h₁, h₂⟩ s hs
    exact connection?_eq_none_iff.2 ⟨h₁ s hs, h₂ s hs⟩

theorem quiet_chars_iff {b : Option Char} {c : Condition} (hb : Balanced c.field.toList) :
    Quiet connection? b c.chars ↔ Quiet connection? b c.field.toList := by
  constructor
  · intro h
    refine quiet_of_sites (forall_sitesFrom_append.1 h).1 (keyed_connection?.persistent _ ?_)
      (Place.fresh_start 0 b _) rfl
    intro d hd
    cases hd
    decide
  · intro h
    rw [quiet_connection?_iff] at h ⊢
    exact ⟨Condition.quiet_chars rfl (by decide) hb h.1,
      Condition.quiet_chars rfl (by decide) hb h.2⟩

theorem intercalate_and (x : List Char) (xs : List (List Char)) :
    [' ', 'A', 'N', 'D', ' '].intercalate (x :: xs) = Joint.assemble x (xs.map joint) := by
  induction xs generalizing x with
  | nil => simp [Joint.assemble]
  | cons y ys ih =>
    rw [List.intercalate_cons_cons, ih, List.map_cons, Joint.assemble_cons, List.append_assoc]
    rfl

/-- The body of a `WHERE` with the given conditions. -/
def chars (cs : List Condition) : List Char :=
  [' ', 'A', 'N', 'D', ' '].intercalate (cs.map Condition.chars)

/-- The fields of conditions hold no connector: the first where it starts the body, the others
behind a blank. -/
def ConnectorFree : List Condition → Prop
  | [] => True
  | c :: cs => Quiet connection? none c.field.toList ∧
      ∀ d ∈ cs, Quiet connection? (some ' ') d.field.toList

theorem balanced_where {cs : List Condition} (hb : ∀ c ∈ cs, Balanced c.field.toList)
    (hne : cs ≠ []) :
    Balanced (chars cs) := by
  obtain ⟨c, cs, rfl⟩ := List.exists_cons_of_ne_nil hne
  obtain ⟨hc, hcs⟩ := List.forall_mem_cons.1 hb
  rw [chars, List.map_cons, intercalate_and]
  refine Joint.balanced_assemble (Condition.balanced_chars hc) ?_
  rw [List.map_map, List.forall_mem_map]
  exact fun d hd => Condition.balanced_chars (hcs d hd)

/-- Without connectors in the fields, the body comes apart into the rendered conditions. -/
theorem split_chars {body : Piece} {cs : List Condition} (h : body.chars = chars cs) (hne : cs ≠ [])
    (hb : ∀ c ∈ cs, Balanced c.field.toList)
    (ht : ∀ c ∈ cs, c.field.toList ≠ [] ∧ Tight c.field.toList) (hq : ConnectorFree cs) :
    ∃ fs, split body = .ok fs ∧ fs.map Piece.chars = cs.map Condition.chars := by
  have hbal := balanced_where hb hne
  have htrim : ∀ c ∈ cs, trim c.chars = c.chars := fun c hc =>
    trim_eq_self (Condition.tight_chars (ht c hc).1 (ht c hc).2)
  have hnonempty : ∀ c ∈ cs, c.chars ≠ [] :=
    fun c hc e => (ht c hc).1 (List.append_eq_nil_iff.1 e).1
  obtain ⟨c, cs, rfl⟩ := List.exists_cons_of_ne_nil hne
  obtain ⟨hc, hcs⟩ := List.forall_mem_cons.1 hb
  have htext : body.chars = Joint.assemble c.chars ((cs.map Condition.chars).map joint) := by
    rw [h, chars, List.map_cons, intercalate_and]
  have hjoints : ∀ j ∈ (cs.map Condition.chars).map joint,
      Balanced j.body ∧ Quiet connection? (some ' ') j.body := by
    rw [List.map_map, List.forall_mem_map]
    intro d hd
    exact ⟨Condition.balanced_chars (hcs d hd), (quiet_chars_iff (hcs d hd)).2 (hq.2 d hd)⟩
  have hmarks := Joint.filterMap_assemble keyed_connection? (Condition.balanced_chars hc)
    (Place.fresh_start 0 none c.chars) rfl ((quiet_chars_iff hc).2 hq.1) hjoints
  have htrims : (c.chars :: cs.map Condition.chars).map trim = (c :: cs).map Condition.chars := by
    rw [← List.map_cons, List.map_map]
    exact List.map_congr_left htrim
  have hcuts := chars_cutsFrom (u := []) (l := cs.map Condition.chars) htext
  rw [htrims] at hcuts
  refine ⟨_, split_eq_ok_iff.2 ⟨?_, ?_, rfl, ?_⟩, ?_⟩
  · rw [htext]
    intro e
    exact hnonempty c List.mem_cons_self (List.append_eq_nil_iff.1 e).1
  · rw [h]
    exact hbal.terminated
  · rw [htext, hmarks]
    have hall : ∀ x ∈ (c :: cs).map Condition.chars, x ≠ [] := List.forall_mem_map.2 hnonempty
    rw [← hcuts, List.forall_mem_map] at hall
    exact hall
  · rw [htext, hmarks]
    exact hcuts

theorem forall₂_parse_of_chars {fs : List Piece} {cs : List Condition}
    (h : fs.map Piece.chars = cs.map Condition.chars) (hc : ∀ c ∈ cs, c.Readable) :
    List.Forall₂ (fun f c => Condition.parse f = .ok c) fs cs := by
  induction cs generalizing fs with
  | nil =>
    rw [List.map_nil, List.map_eq_nil_iff] at h
    rw [h]
    exact .nil
  | cons c cs ih =>
    obtain ⟨f, fs, rfl, hf, hfs⟩ := List.map_eq_cons_iff.1 h
    obtain ⟨h₁, h₂⟩ := List.forall_mem_cons.1 hc
    exact .cons (Condition.parse_chars hf h₁) (ih hfs h₂)

theorem readable_of_forall₂ {fs : List Piece} {cs : List Condition}
    (h : List.Forall₂ (fun f c => Condition.parse f = .ok c) fs cs)
    (hchars : fs.map Piece.chars = cs.map Condition.chars)
    (hf : ∀ f ∈ fs, Balanced f.chars ∧ Tight f.chars) : ∀ c ∈ cs, c.Readable := by
  induction h with
  | nil => exact fun c hc => by cases hc
  | cons hparse _ ih =>
    rw [List.map_cons, List.map_cons, List.cons.injEq] at hchars
    obtain ⟨⟨hbal, htight⟩, hf⟩ := List.forall_mem_cons.1 hf
    refine List.forall_mem_cons.2 ⟨?_, ih hchars.2 hf⟩
    exact Condition.readable_of_parse_chars hparse hchars.1 htight hbal.toSound

theorem parse_eq_ok_iff {body : Piece} {cs : List Condition} :
    parse body = .ok cs ↔ ∃ fs, split body = .ok fs ∧
      List.Forall₂ (fun f c => Condition.parse f = .ok c) fs cs := by
  rw [parse, bind_eq_ok_iff]
  simp only [mapM_eq_ok_iff]

/-- What is known of the conditions of a body that was read. -/
theorem conditions_of_parse {body : Piece} {cs : List Condition} (h : parse body = .ok cs)
    (hb : Balanced body.chars) :
    cs ≠ [] ∧ ∀ c ∈ cs, c.field.toList ≠ [] ∧ Tight c.field.toList ∧ Sound c.field.toList ∧
      (c.operator = .like → Quiet (·.keyword? .like) none c.field.toList) ∧
      (c.operator ≠ .like → Quiet Site.symbol? none c.field.toList) := by
  obtain ⟨fs, hs, hfs⟩ := parse_eq_ok_iff.1 h
  have hlen := length_of_split hs
  refine ⟨?_, fun c hc => ?_⟩
  · rintro rfl
    rw [List.forall₂_nil_right_iff.1 hfs] at hlen
    cases hlen
  · obtain ⟨f, hf, hparse⟩ := exists_of_forall₂ hfs c hc
    obtain ⟨hbal, htight⟩ := balanced_of_split hs hb f hf
    exact Condition.field_of_parse hparse htight hbal.toSound

/-- A body that comes apart into as many fragments as it was assembled from has no connector in its
fields. -/
theorem connectorFree_of_split {body : Piece} {cs : List Condition} {fs : List Piece}
    (h : body.chars = chars cs) (hne : cs ≠ []) (hb : ∀ c ∈ cs, Balanced c.field.toList)
    (hs : split body = .ok fs) (hlength : fs.length = cs.length) : ConnectorFree cs := by
  have hmarks := length_of_split hs
  obtain ⟨c, cs, rfl⟩ := List.exists_cons_of_ne_nil hne
  obtain ⟨hc, hcs⟩ := List.forall_mem_cons.1 hb
  have htext : body.chars = Joint.assemble c.chars ((cs.map Condition.chars).map joint) := by
    rw [h, chars, List.map_cons, intercalate_and]
  have hjoints : ∀ j ∈ (cs.map Condition.chars).map joint, Balanced j.body := by
    rw [List.map_map, List.forall_mem_map]
    exact fun d hd => Condition.balanced_chars (hcs d hd)
  obtain ⟨-, hquiet⟩ := Joint.quiet_of_count keyed_connection? (Condition.balanced_chars hc)
    (Place.fresh_start 0 none c.chars) rfl hjoints
  rw [← htext] at hquiet
  rw [List.length_cons] at hlength
  obtain ⟨hq, hql⟩ := hquiet (by rw [List.length_map, List.length_map]; omega)
  refine ⟨(quiet_chars_iff hc).1 hq, fun d hd => ?_⟩
  rw [List.map_map, List.forall_mem_map] at hql
  exact (quiet_chars_iff (hcs d hd)).1 (hql d hd)

/-- Rendered conditions are read back exactly if their fields can be told from operators and
connectors. -/
theorem parse_chars_iff {body : Piece} {cs : List Condition} (h : body.chars = chars cs)
    (hne : cs ≠ []) (hb : ∀ c ∈ cs, Balanced c.field.toList) :
    parse body = .ok cs ↔ (∀ c ∈ cs, c.Readable) ∧ ConnectorFree cs := by
  constructor
  · intro hparse
    have hbal : Balanced body.chars := by
      rw [h]
      exact balanced_where hb hne
    obtain ⟨-, hfields⟩ := conditions_of_parse hparse hbal
    have ht : ∀ c ∈ cs, c.field.toList ≠ [] ∧ Tight c.field.toList := fun c hc =>
      ⟨(hfields c hc).1, (hfields c hc).2.1⟩
    obtain ⟨fs, hs, hfs⟩ := parse_eq_ok_iff.1 hparse
    have hfree : ConnectorFree cs := connectorFree_of_split h hne hb hs hfs.length_eq
    obtain ⟨fs', hs', hchars⟩ := split_chars h hne hb ht hfree
    rw [hs] at hs'
    cases hs'
    exact ⟨readable_of_forall₂ hfs hchars (balanced_of_split hs hbal), hfree⟩
  · rintro ⟨hread, hfree⟩
    obtain ⟨fs, hs, hchars⟩ :=
      split_chars h hne hb (fun c hc => ⟨(hread c hc).ne_nil, (hread c hc).tight⟩) hfree
    exact parse_eq_ok_iff.2 ⟨fs, hs, forall₂_parse_of_chars hchars hread⟩

end Where

end TableQuery
