import TableQuery.Proofs.Condition
import TableQuery.Proofs.InsertGrammar
import TableQuery.Proofs.SelectRendering

/-!
# Layers of quotes

Two parts of the reader say what a quoted text is. The scanner goes from an opening quote to the
quote that closes it. Taking off a layer of quotes looks at the first and at the last character
only. They agree on a text that is one literal (`IsLiteral`), and differ on a text that starts with
one literal and ends with another in the same quotes, as `'a' || 'b'` does: it is no literal, and it
loses its two outer quotes all the same. In a text whose literals end there is nothing else
(`Unquoted`), and the values of conditions and of `INSERT`s are read from such texts
(`outer_quotes_taken_off`).
-/

namespace TableQuery

open Text Outline

namespace Literal

/-- The text as a literal in the quotes `q`. -/
def quoted (q : Char) (v : List Char) : List Char :=
  q :: (double q v ++ [q])

/-- The text is one literal: jumping over the literal at its front leads to its end. -/
def IsLiteral (t : List Char) : Prop :=
  (∃ q ∈ t.head?, isQuote q = true) ∧ (Cursor.ofPiece ⟨t, 0⟩).literalLength? = some t.length

theorem isLiteral_cons_iff {q : Char} {r : List Char} :
    IsLiteral (q :: r) ↔ isQuote q = true ∧ closing? q r = some r.length := by
  have hlength : (Cursor.ofPiece ⟨q :: r, 0⟩).literalLength? = (closing? q r).map (· + 1) := rfl
  rw [IsLiteral, hlength, List.length_cons, List.head?_cons]
  simp

/-- The literals are the quoted texts. -/
theorem isLiteral_iff {t : List Char} : IsLiteral t ↔ ∃ q v, isQuote q = true ∧ t = quoted q v := by
  constructor
  · intro h
    cases t with
    | nil =>
      obtain ⟨⟨q, hq, -⟩, -⟩ := h
      cases hq
    | cons q r =>
      obtain ⟨hq, hr⟩ := isLiteral_cons_iff.1 h
      obtain ⟨v, e⟩ := exists_double_of_closing? hr
      rw [List.drop_length] at e
      exact ⟨q, v, hq, by rw [quoted, ← e]⟩
  · rintro ⟨q, v, hq, rfl⟩
    refine isLiteral_cons_iff.2 ⟨hq, ?_⟩
    rw [closing?_double hq v (fun c hc => by cases hc), List.length_append, List.length_singleton]

/-! ## Taking off a layer -/

theorem unquote_enclosed {q : Char} (hq : isQuote q = true) (m : List Char) :
    unquote (q :: (m ++ [q])) = undouble q m := by
  rw [unquote, if_pos ⟨hq, List.getLast?_concat⟩, List.dropLast_concat]

theorem unquote_quoted {q : Char} (hq : isQuote q = true) (v : List Char) :
    unquote (quoted q v) = v := by
  rw [quoted, unquote_enclosed hq, undouble_double]

/-- A layer is taken off exactly if the same quote stands at both ends. -/
theorem unquote_ne_self_iff {t : List Char} :
    unquote t ≠ t ↔ ∃ q m, isQuote q = true ∧ t = q :: (m ++ [q]) := by
  constructor
  · intro h
    rcases unquote_cases t with e | ⟨q, m, hq, e, -⟩
    · exact absurd e h
    · exact ⟨q, m, hq, e⟩
  · rintro ⟨q, m, hq, rfl⟩ e
    rw [unquote_enclosed hq] at e
    have hle := length_undouble_le q m
    rw [e, List.length_cons, List.length_append] at hle
    omega

/-! What becomes of a text with several literals is told from left to right. -/

theorem undouble_cons_of_ne {q c : Char} (hc : c ≠ q) (r : List Char) :
    undouble q (c :: r) = c :: undouble q r := by
  cases r with
  | nil => rfl
  | cons d r => rw [undouble, if_neg fun h => hc h.1]

theorem undouble_double_append (q : Char) (v x : List Char) :
    undouble q (double q v ++ x) = v ++ undouble q x := by
  induction v with
  | nil => rfl
  | cons c v ih =>
    rw [double]
    split
    · rename_i hc
      rw [List.cons_append, List.cons_append, undouble, if_pos ⟨rfl, rfl⟩, ih, hc, List.cons_append]
    · rename_i hc
      rw [List.cons_append, undouble_cons_of_ne hc, ih, List.cons_append]

/-- A single quote stays. -/
theorem undouble_quote_cons {q : Char} {x : List Char} (hx : ∀ c ∈ x.head?, c ≠ q) :
    undouble q (q :: x) = q :: undouble q x := by
  cases x with
  | nil => rfl
  | cons c x => rw [undouble, if_neg fun h => hx c rfl h.2]

/-- The first of an odd number of quotes stays in the end. -/
theorem undouble_quote_double (q : Char) (w : List Char) :
    undouble q (q :: double q w) = q :: w := by
  induction w with
  | nil => rfl
  | cons c w ih =>
    rw [double]
    split
    · rename_i hc
      rw [undouble, if_pos ⟨rfl, rfl⟩, ih, hc]
    · rename_i hc
      rw [undouble_quote_cons (fun d hd => by cases hd; exact hc), undouble_cons_of_ne hc,
        undouble_double]

theorem undouble_append {q : Char} {m : List Char} (hm : m.getLast? ≠ some q) (x : List Char) :
    undouble q (m ++ x) = undouble q m ++ undouble q x := by
  fun_induction undouble q m with
  | case1 => rfl
  | case2 c =>
    have hc : c ≠ q := fun e => hm (by rw [e]; rfl)
    rw [List.singleton_append, undouble_cons_of_ne hc, List.singleton_append]
  | case3 c d r h ih =>
    obtain ⟨rfl, rfl⟩ := h
    cases r with
    | nil => exact absurd rfl hm
    | cons d r =>
      rw [List.cons_append, List.cons_append, undouble, if_pos ⟨rfl, rfl⟩, ih hm, List.cons_append]
  | case4 c d r h ih =>
    rw [List.cons_append, List.cons_append, undouble, if_neg h, ← List.cons_append, ih hm,
      List.cons_append]

/-- A text between two literals in the quotes `q` has other characters at its ends. -/
structure Between (q : Char) (m : List Char) : Prop where
  head : ∃ c ∈ m.head?, c ≠ q
  last : ∃ c ∈ m.getLast?, c ≠ q

theorem Between.head_append {q : Char} {m : List Char} (hm : Between q m) (y : List Char) :
    ∀ c ∈ (m ++ y).head?, c ≠ q := by
  obtain ⟨c, hc, hne⟩ := hm.head
  intro d hd
  rw [List.head?_append, hc] at hd
  cases hd
  exact hne

/-- Of a text that starts with a literal and ends with another, the outer quotes go and the inner
ones stay. -/
theorem unquote_between {q : Char} (hq : isQuote q = true) {m : List Char} (hm : Between q m)
    (v w : List Char) :
    unquote (quoted q v ++ (m ++ quoted q w)) = v ++ q :: (undouble q m ++ q :: w) := by
  have htext : quoted q v ++ (m ++ quoted q w) =
      q :: ((double q v ++ q :: (m ++ q :: double q w)) ++ [q]) := by
    simp [quoted]
  have hlast : m.getLast? ≠ some q := by
    obtain ⟨c, hc, hne⟩ := hm.last
    rw [hc]
    exact fun e => hne (Option.some.inj e)
  rw [htext, unquote_enclosed hq, undouble_double_append, undouble_quote_cons (hm.head_append _),
    undouble_append hlast, undouble_quote_double]

theorem not_isLiteral_between {q : Char} (hq : isQuote q = true) {m : List Char} (hm : Between q m)
    (v w : List Char) : ¬IsLiteral (quoted q v ++ (m ++ quoted q w)) := by
  have hclosing := closing?_double hq v (hm.head_append (quoted q w))
  rw [quoted, List.cons_append, List.append_assoc, isLiteral_cons_iff]
  rintro ⟨-, h⟩
  rw [List.singleton_append, hclosing, Option.some.injEq] at h
  simp [quoted] at h

/-! ## Texts whose literals end -/

/-- What is left of a text without a layer of quotes: all of it, if it has none; the inside of a
literal; and the inside of two literals with what stands between them, quotes and all. -/
inductive Unquoted : List Char → List Char → Prop
  | bare {t : List Char} : (∀ q m, isQuote q = true → t ≠ q :: (m ++ [q])) → Unquoted t t
  | literal {q : Char} {v : List Char} : isQuote q = true → Unquoted (quoted q v) v
  | outer {q : Char} {v m w : List Char} : isQuote q = true → Between q m →
      Unquoted (quoted q v ++ (m ++ quoted q w)) (v ++ q :: (undouble q m ++ q :: w))

theorem Unquoted.eq_unquote {t x : List Char} (h : Unquoted t x) : x = unquote t := by
  cases h with
  | bare hbare =>
    by_contra hne
    obtain ⟨q, m, hq, e⟩ := unquote_ne_self_iff.1 (Ne.symm hne)
    exact hbare q m hq e
  | literal hq => exact (unquote_quoted hq x).symm
  | outer hq hm => exact (unquote_between hq hm _ _).symm

/-- What the scanner jumps over is a literal, and its quote does not follow. -/
theorem exists_quoted_append {q : Char} (hq : isQuote q = true) {r : List Char} {n : Nat}
    (hn : closing? q r = some n) :
    ∃ v, q :: r = quoted q v ++ r.drop n ∧ ∀ c ∈ (r.drop n).head?, c ≠ q := by
  obtain ⟨v, e⟩ := exists_double_of_closing? hn
  have hinside : { Place.start 0 none with quoting := .inside q 0 : Place }.quoting = .inside q 0 :=
    rfl
  obtain ⟨-, -, -, hhead⟩ := Place.advance_closing hq hn hinside
  refine ⟨v, ?_, hhead⟩
  rw [quoted, List.cons_append, List.append_assoc, List.singleton_append, ← e]

theorem getLast?_quoted (q : Char) (v : List Char) : (quoted q v).getLast? = some q :=
  List.getLast?_concat (l := q :: double q v)

/-- What ends in a quote and outside literals ends in a literal. -/
theorem exists_last_literal {q : Char} (hq : isQuote q = true) {y : List Char} (hy : Skimmed y)
    (hlast : y.getLast? = some q) : ∃ m w, y = m ++ quoted q w ∧ m.getLast? ≠ some q := by
  induction hy with
  | nil => cases hlast
  | @plain c r hc _ ih =>
    have hcq : c ≠ q := by
      rintro rfl
      rw [hq] at hc
      cases hc
    cases r with
    | nil => exact absurd (Option.some.inj hlast) hcq
    | cons d r =>
      obtain ⟨m, w, e, hm⟩ := ih hlast
      refine ⟨c :: m, w, by rw [e]; rfl, ?_⟩
      cases m with
      | nil => exact fun e => hcq (Option.some.inj e)
      | cons d m => exact hm
  | @literal q' r n hq' hn _ ih =>
    obtain ⟨v, htext, hbehind⟩ := exists_quoted_append hq' hn
    rw [htext] at hlast ⊢
    generalize r.drop n = y at *
    cases y with
    | nil =>
      rw [List.append_nil, getLast?_quoted] at hlast
      cases hlast
      exact ⟨[], v, List.append_nil _, by simp⟩
    | cons d y =>
      rw [List.getLast?_append_of_ne_nil _ (List.cons_ne_nil d y)] at hlast
      obtain ⟨m, w, e, hm⟩ := ih hlast
      refine ⟨quoted q' v ++ m, w, by rw [e, List.append_assoc], ?_⟩
      cases m with
      | nil =>
        -- a literal in the same quotes does not follow at once
        obtain ⟨rfl, -⟩ := List.cons.inj e
        rw [List.append_nil, getLast?_quoted]
        exact fun e => hbehind d rfl (Option.some.inj e).symm
      | cons c m => rwa [List.getLast?_append_of_ne_nil _ (List.cons_ne_nil c m)]

/-- A text whose literals end loses a layer of quotes in one of three ways. -/
theorem unquoted_of_skimmed {t : List Char} (h : Skimmed t) : Unquoted t (unquote t) := by
  by_cases hself : unquote t = t
  · rw [hself]
    exact .bare fun q m hq e => unquote_ne_self_iff.2 ⟨q, m, hq, e⟩ hself
  · obtain ⟨q, m, hq, rfl⟩ := unquote_ne_self_iff.1 hself
    have hlast : (q :: (m ++ [q])).getLast? = some q := List.getLast?_concat (l := q :: m)
    cases h with
    | plain hc _ =>
      rw [hq] at hc
      cases hc
    | @literal _ _ n _ hn hrest =>
      obtain ⟨v, htext, hbehind⟩ := exists_quoted_append hq hn
      rw [htext] at hlast ⊢
      generalize (m ++ [q]).drop n = y at *
      cases y with
      | nil =>
        rw [List.append_nil, unquote_quoted hq]
        exact .literal hq
      | cons c y =>
        rw [List.getLast?_append_of_ne_nil _ (List.cons_ne_nil c y)] at hlast
        obtain ⟨m, w, e, hm⟩ := exists_last_literal hq hrest hlast
        cases m with
        | nil =>
          obtain ⟨rfl, -⟩ := List.cons.inj e
          exact absurd rfl (hbehind c rfl)
        | cons d m =>
          obtain ⟨rfl, -⟩ := List.cons.inj e
          have hlast' := List.getLast?_eq_getLast_of_ne_nil (List.cons_ne_nil c m)
          have hm' : Between q (c :: m) :=
            ⟨⟨c, rfl, hbehind c rfl⟩, _, hlast', fun e => hm (hlast'.trans (congrArg some e))⟩
          rw [e, unquote_between hq hm']
          exact .outer hq hm'

end Literal

/-! ## The values of a statement -/

theorem Skimmed.trim {x : List Char} (h : Skimmed x) : Skimmed (trim x) := by
  obtain ⟨b, b', hb, hb', e⟩ := exists_blank_trim_blank x
  rw [e, skimmed_append_iff fun c hc => (plain_of_blank hb c hc).1, skimmed_iff,
    Place.advance_append] at h
  exact skimmed_iff.2 ((plain_of_blank hb').terminated_of_advance
    (Place.proper_advance (Place.clear_start 0 none).proper _) h)

/-- The value of the condition is what is left of the text behind the operator, whose literals
end. -/
def Condition.ValueFrom (fragment : Piece) (c : Condition) : Prop :=
  ∃ u k y, SplitAt fragment.chars u k c.operator ∧ fragment.chars = u ++ (k ++ y) ∧
    Skimmed (trim y) ∧
    Literal.Unquoted (trim y) c.value.toList

theorem Condition.valueFrom_of_parse {fragment : Piece} {c : Condition}
    (hs : Skimmed fragment.chars) (h : parse fragment = .ok c) : ValueFrom fragment c := by
  obtain ⟨u, k, y, hsplit, e, -, hvalue, -⟩ := (parse_eq_ok_iff_splitAt hs).1 h
  have hy : Skimmed (trim y) := (hsplit.skimmed e hs).trim
  exact ⟨u, k, y, hsplit, e, hy, hvalue ▸ Literal.unquoted_of_skimmed hy⟩

theorem Where.valueFrom_of_parse {body : Piece} {cs : List Condition} (hb : Balanced body.chars)
    (h : parse body = .ok cs) :
    ∃ fs, split body = .ok fs ∧ List.Forall₂ Condition.ValueFrom fs cs := by
  obtain ⟨fs, hs, hfs⟩ := parse_eq_ok_iff.1 h
  have hskim : ∀ f ∈ fs, Skimmed f.chars :=
    fun f hf => skimmed_iff.2 (balanced_of_split hs hb f hf).1.terminated
  refine ⟨fs, hs, ((List.forall₂_and_left fs cs).2 ⟨hskim, hfs⟩).imp ?_⟩
  rintro f c ⟨hf, hc⟩
  exact Condition.valueFrom_of_parse hf hc

/-- The value is what is left of an item, whose literals end. -/
def InsertQuery.ValueFrom (item value : String) : Prop :=
  Skimmed item.toList ∧ Literal.Unquoted item.toList value.toList

theorem InsertQuery.Layout.Grammatical.valueFrom {arity : Bool} {t : Layout}
    {xs ys zs : List String} (h : t.Grammatical arity xs ys zs) :
    List.Forall₂ ValueFrom ys (t.query xs ys zs).values := by
  have hitems := (ItemList.parse_eq_ok_iff.1 h.values.2).items.2
  rw [List.forall_mem_map] at hitems
  rw [Layout.query, List.forall₂_map_right_iff, List.forall₂_same]
  intro y hy
  have hskim : Skimmed y.toList := skimmed_iff.2 (hitems y hy).terminated
  rw [ValueFrom, String.toList_ofList]
  exact ⟨hskim, Literal.unquoted_of_skimmed hskim⟩

/-- A layer of quotes is taken off a text exactly if the same quote stands at both of its ends. So
it is taken off every literal, which gives the text that was quoted, and also off a text between two
literals in the same quotes, which is none. Every value of a condition or of an `INSERT` is read
from a text whose literals end, and such a text loses its quotes in one of these ways or keeps all
of them. -/
theorem outer_quotes_taken_off (settings : Settings) (text : String) :
    (∀ t, Literal.unquote t ≠ t ↔ ∃ q m, Literal.isQuote q = true ∧ t = q :: (m ++ [q])) ∧
    (∀ t, Literal.IsLiteral t ↔ ∃ q v, Literal.isQuote q = true ∧ t = Literal.quoted q v) ∧
    (∀ q v m w, Literal.isQuote q = true → Literal.Between q m →
      ¬Literal.IsLiteral (Literal.quoted q v ++ (m ++ Literal.quoted q w))) ∧
    (∀ t x, Skimmed t → (Literal.Unquoted t x ↔ x = Literal.unquote t)) ∧
    (∀ q, SelectQuery.ofText settings text = .ok q →
      (SelectQuery.whereBody? settings text = .ok none ∧ q.conditions = []) ∨
      ∃ body fs, SelectQuery.whereBody? settings text = .ok (some body) ∧
        Where.split body = .ok fs ∧
        List.Forall₂ Condition.ValueFrom fs q.conditions) ∧
    ∀ q, InsertQuery.ofText settings text = .ok q →
      ∃ (p : Piece) (t : InsertQuery.Layout) (xs ys zs : List String),
        Statement.isolate settings text = .ok p ∧ t.chars = p.chars ∧
        t.Grammatical settings.matchArity xs ys zs ∧
        List.Forall₂ InsertQuery.ValueFrom ys q.values := by
  refine ⟨fun t => Literal.unquote_ne_self_iff, fun t => Literal.isLiteral_iff,
    fun q v m w hq hm => Literal.not_isLiteral_between hq hm v w, fun t x ht => ?_, fun q hq => ?_,
    fun q hq => ?_⟩
  · refine ⟨Literal.Unquoted.eq_unquote, ?_⟩
    rintro rfl
    exact Literal.unquoted_of_skimmed ht
  · rcases SelectQuery.conditions_of_ofText hq with hnone | ⟨body, hbody, hbal, -, hparse⟩
    · exact .inl hnone
    · obtain ⟨fs, hs, hfs⟩ := Where.valueFrom_of_parse hbal hparse
      exact .inr ⟨body, fs, hbody, hs, hfs⟩
  · obtain ⟨p, t, xs, ys, zs, hp, e, ht, rfl⟩ := InsertQuery.exists_layout_of_ofText hq
    exact ⟨p, t, xs, ys, zs, hp, e, ht, ht.valueFrom⟩

/-- What is read from a `SELECT` that compares a field with two literals joined by an operator. -/
def joinedSample : SelectQuery where
  fields := ["a"]
  table := "t"
  join := none
  conditions := [⟨"x", .eq, "a' || 'b"⟩]
  groupBy := none
  aggregatesAll := false
  orderBy := none
  limit := none
  distinct := false

theorem outer_quotes_taken_off_joined :
    SelectQuery.ofText {} "SELECT a FROM t WHERE x = 'a' || 'b'" = .ok joinedSample ∧
      (∃ fs, List.Forall₂ Condition.ValueFrom fs joinedSample.conditions) ∧
      ¬Literal.IsLiteral "'a' || 'b'".toList ∧
      Literal.Unquoted "'a' || 'b'".toList "a' || 'b".toList := by
  have h : SelectQuery.ofText {} "SELECT a FROM t WHERE x = 'a' || 'b'" = .ok joinedSample := by
    decide +kernel
  have hq : Literal.isQuote '\'' = true := by decide
  have hskim : Skimmed "'a' || 'b'".toList := skimmed_iff.2 (by decide +kernel)
  have hm : Literal.Between '\'' " || ".toList := ⟨⟨' ', rfl, by decide⟩, ' ', rfl, by decide⟩
  obtain ⟨-, -, hnot, hunquoted, hselect, -⟩ :=
    outer_quotes_taken_off {} "SELECT a FROM t WHERE x = 'a' || 'b'"
  refine ⟨h, ?_, hnot '\'' ['a'] " || ".toList ['b'] hq hm, (hunquoted _ _ hskim).2 (by decide)⟩
  rcases hselect joinedSample h with ⟨-, hnone⟩ | ⟨body, fs, -, -, hfs⟩
  · cases hnone
  · exact ⟨fs, hfs⟩

end TableQuery
