import TableQuery.Proofs.Cursor
import TableQuery.Proofs.ItemList
import TableQuery.Insert

/-!
# Parts of `INSERT`s

What each step of reading an `INSERT` accepts, as texts: a table name ends at the first blank or
parenthesis outside literals (`tableAt_eq_ok_iff`), what stands between parentheses is balanced
(`enclosed_eq_ok_iff`), and the list behind `RETURNING` fills the text
(`returningColumns_eq_ok_iff`). `parse_eq_ok_iff` puts the steps together.
-/

namespace TableQuery

open Text Outline

/-- A table name ends in front of this character. -/
def endsTable (c : Char) : Bool :=
  isBlank c || c == '(' || c == ')'

theorem endsTable_eq_false_iff {c : Char} :
    endsTable c = false ↔ isBlank c = false ∧ c ≠ '(' ∧ c ≠ ')' := by
  simp [endsTable, and_assoc]

/-- Of the characters that end a table name, only the closing parenthesis is refused. -/
theorem endsTable_and_ne_iff {c : Char} :
    (endsTable c = true ∧ c ≠ ')') ↔ isBlank c = true ∨ c = '(' := by
  have hblank : isBlank ')' = false := by decide
  simp only [endsTable, Bool.or_eq_true, beq_iff_eq]
  constructor
  · rintro ⟨h | h, hc⟩
    · exact h
    · exact absurd h hc
  · rintro h
    refine ⟨.inl h, ?_⟩
    rintro rfl
    simp [hblank] at h

theorem isQuote_of_endsTable {c : Char} (h : endsTable c = true) : Literal.isQuote c = false :=
  Literal.isQuote_eq_false_of (endsTable · = true) h (by decide) (by decide)

/-- A text whose literals are terminated, with no blanks and parentheses outside them. -/
structure Unbroken (w : List Char) : Prop where
  terminated : ((Place.start 0 none).advance w).unterminated? = none
  whole : ∀ s ∈ sitesFrom (.start 0 none) w, endsTable s.char = false

instance (w : List Char) : Decidable (Unbroken w) :=
  decidable_of_iff (((Place.start 0 none).advance w).unterminated? = none ∧
      ∀ s ∈ sitesFrom (.start 0 none) w, endsTable s.char = false)
    ⟨fun h => ⟨h.1, h.2⟩, fun h => ⟨h.terminated, h.whole⟩⟩

/-- Whether a text is unbroken can be seen from any place where it is read afresh. -/
theorem unbroken_iff_of_fresh {p : Place} {w : List Char} (hp : p.Fresh w) (hd : p.depth = 0) :
    Unbroken w ↔
    (p.advance w).unterminated? = none ∧ ∀ s ∈ sitesFrom p w, endsTable s.char = false := by
  obtain ⟨hsites, -, hterminated⟩ := sitesFrom_of_fresh hp (.inl hd)
  have hwhole : (∀ s ∈ sitesFrom p w, endsTable s.char = false) ↔
      ∀ s ∈ sitesFrom (.start 0 none) w, endsTable s.char = false := by
    rw [hsites, List.forall_mem_map]
    constructor
    · exact fun h => forall_sites_withBefore (fun _ _ h => h) h
    · exact fun h => forall_sites_withBefore (fun _ _ h => h) h
  rw [hterminated, hwhole]
  exact ⟨fun h => ⟨h.terminated, h.whole⟩, fun h => ⟨h.1, h.2⟩⟩

theorem unbroken_iff {w : List Char} (i : Nat) (b : Option Char) : Unbroken w ↔
    ((Place.start i b).advance w).unterminated? = none ∧
      ∀ s ∈ sitesFrom (.start i b) w, endsTable s.char = false :=
  unbroken_iff_of_fresh (Place.fresh_start i b w) rfl

namespace InsertQuery

/-- The site of a character in front of which a table name ends. -/
def ending? : Site → Option Site :=
  Option.guard fun s => endsTable s.char

theorem ending?_eq_none_iff {s : Site} : ending? s = none ↔ endsTable s.char = false :=
  Option.guard_eq_none_iff

theorem ending?_eq_some_iff {s t : Site} : ending? s = some t ↔ s = t ∧ endsTable s.char = true :=
  Option.guard_eq_some_iff

theorem search_ending?_eq_none_iff {p : Piece} {i : Nat} {b : Option Char} {x : List Char} :
    p.search (.ofPlace (.start i b) x) ending? = .ok none ↔ Unbroken x := by
  rw [Piece.search_eq_none_iff, unbroken_iff i b, and_comm]
  simp only [ending?_eq_none_iff]

/-- In front of the first character that ends a table name, the text is unbroken. -/
theorem firstAt_ending?_iff {i : Nat} {b : Option Char} {w r : List Char} {d : Char} {s : Site} :
    FirstAt ending? (.start i b) w d r s ↔
      Unbroken w ∧ endsTable d = true ∧ s = ((Place.start i b).advance w).site d r := by
  have hquiet : (∀ s ∈ sitesFrom (.start i b) w, ending? (s.extend (d :: r)) = none) ↔
      ∀ s ∈ sitesFrom (.start i b) w, endsTable s.char = false := by
    simp only [ending?_eq_none_iff, Site.extend_char]
  rw [unbroken_iff i b]
  constructor
  · intro hf
    obtain ⟨rfl, hends⟩ := ending?_eq_some_iff.1 hf.found
    exact ⟨⟨Place.terminated_of_isOutside hf.outside, hquiet.1 hf.quiet⟩, hends, rfl⟩
  · rintro ⟨⟨ht, hwhole⟩, hends, rfl⟩
    have hclear := Place.clear_advance (Place.clear_start i b) ht
    exact ⟨Place.isOutside_of_clear hclear (isQuote_of_endsTable hends),
      ending?_eq_some_iff.2 ⟨rfl, hends⟩, hquiet.2 hwhole⟩

/-- What a table name that ends at a position is read as. -/
def tableTo (c : Cursor) (stop : Nat) : Except ParseError (List Char × Cursor) :=
  if stop = c.position then .error (c.piece.faultAt .missingInsertTable c.position)
  else .ok (tableName (c.piece.slice c.position stop), c.seek stop)

theorem tableAt_eq (c : Cursor) : tableAt c =
    c.piece.search (c.piece.outlineFrom c.position) ending? >>= fun ending =>
      match ending with
      | none => tableTo c c.piece.length
      | some s => if s.char = ')' then .error (c.piece.faultAt .unexpectedClose s.index)
          else tableTo c s.index := by
  rw [tableAt]
  rfl

theorem tableAt_of_end {c : Cursor} {u w : List Char} (hc : c.Between u w) (hw : Unbroken w) :
    tableAt c = tableTo c (u ++ w).length := by
  have hs : c.piece.search (.ofPlace (.start u.length u.getLast?) w) ending? = .ok none :=
    search_ending?_eq_none_iff.2 hw
  have hlength : c.piece.length = (u ++ w).length := congrArg List.length hc.chars
  rw [tableAt_eq, hc.position, Piece.outlineFrom_of_eq hc.chars rfl, bind_of_ok hs]
  dsimp only
  rw [hlength]

theorem tableAt_of_endsTable {c : Cursor} {u w r : List Char} {d : Char}
    (hc : c.Between u (w ++ d :: r)) (hw : Unbroken w) (hd : endsTable d = true) :
    tableAt c =
      if d = ')' then .error (c.piece.faultAt .unexpectedClose (u ++ w).length)
      else tableTo c (u ++ w).length := by
  have hs := Piece.search_eq_some_iff (p := c.piece).2
    ⟨w, d, r, rfl, (firstAt_ending?_iff (i := u.length) (b := u.getLast?)).2 ⟨hw, hd, rfl⟩⟩
  have hindex : ((Place.start u.length u.getLast?).advance w).index = (u ++ w).length := by
    rw [Place.advance_index, List.length_append]
    rfl
  rw [tableAt_eq, hc.position, Piece.outlineFrom_of_eq hc.chars rfl, bind_of_ok hs]
  dsimp only [Place.site]
  rw [hindex]

theorem tableTo_eq_ok_iff {c c' : Cursor} {u w y name : List Char} (hc : c.Between u (w ++ y)) :
    tableTo c (u ++ w).length = .ok (name, c') ↔
      w ≠ [] ∧ name = tableName w ∧ c' = c.seek (u ++ w).length := by
  have hslice : c.piece.slice c.position (u ++ w).length = w :=
    Piece.slice_of_eq hc.chars hc.position List.length_append
  rw [tableTo, hslice, hc.position]
  by_cases hw : w = []
  · rw [if_pos (by simp [hw])]
    constructor
    · intro h
      cases h
    · intro h
      exact absurd hw h.1
  · have hlen : (u ++ w).length ≠ u.length := by
      have := List.length_pos_iff.2 hw
      rw [List.length_append]
      omega
    rw [if_neg hlen, Except.ok.injEq, Prod.mk.injEq]
    constructor
    · rintro ⟨rfl, rfl⟩
      exact ⟨hw, rfl, rfl⟩
    · rintro ⟨-, rfl, rfl⟩
      exact ⟨rfl, rfl⟩

/-- A table name reaches to the first blank or opening parenthesis outside literals. -/
theorem tableAt_eq_ok_iff {c c' : Cursor} {u x name : List Char} (hc : c.Between u x) :
    tableAt c = .ok (name, c') ↔ ∃ w y, x = w ++ y ∧ w ≠ [] ∧ Unbroken w ∧
      (∀ d ∈ y.head?, isBlank d = true ∨ d = '(') ∧ name = tableName w ∧
      c' = c.seek (u ++ w).length := by
  constructor
  · intro h
    obtain ⟨ending, hs, -⟩ := bind_eq_ok_iff.1 ((tableAt_eq c).symm.trans h)
    rw [hc.position, Piece.outlineFrom_of_eq hc.chars rfl] at hs
    cases ending with
    | none =>
      have hw := search_ending?_eq_none_iff.1 hs
      rw [tableAt_of_end hc hw] at h
      have hc' : c.Between u (x ++ []) := by rwa [List.append_nil]
      obtain ⟨hne, hname, hcursor⟩ := (tableTo_eq_ok_iff hc').1 h
      exact ⟨x, [], (List.append_nil x).symm, hne, hw, nofun, hname, hcursor⟩
    | some s =>
      obtain ⟨w, d, r, rfl, hf⟩ := Piece.search_eq_some_iff.1 hs
      obtain ⟨hw, hends, -⟩ := firstAt_ending?_iff.1 hf
      rw [tableAt_of_endsTable hc hw hends] at h
      split at h
      · cases h
      · rename_i hclose
        obtain ⟨hne, hname, hcursor⟩ := (tableTo_eq_ok_iff hc).1 h
        refine ⟨w, d :: r, rfl, hne, hw, fun d' hd' => ?_, hname, hcursor⟩
        cases hd'
        exact endsTable_and_ne_iff.1 ⟨hends, hclose⟩
  · rintro ⟨w, y, rfl, hne, hw, hy, rfl, rfl⟩
    have hto : tableTo c (u ++ w).length = .ok (tableName w, c.seek (u ++ w).length) :=
      (tableTo_eq_ok_iff hc).2 ⟨hne, rfl, rfl⟩
    cases y with
    | nil =>
      rw [List.append_nil] at hc
      rw [tableAt_of_end hc hw, hto]
    | cons d r =>
      obtain ⟨hends, hclose⟩ := endsTable_and_ne_iff.2 (hy d rfl)
      rw [tableAt_of_endsTable hc hw hends, if_neg hclose, hto]

/-! ## Parentheses -/

/-- The parenthesis that closes the one in front of the text. -/
def closing? (s : Site) : Option Nat :=
  if s.char = ')' ∧ s.depth = 1 then some s.index else none

theorem closing?_eq_none_iff {s : Site} : closing? s = none ↔ ¬(s.char = ')' ∧ s.depth = 1) := by
  simp [closing?]

theorem closing?_eq_some_iff {s : Site} {n : Nat} :
    closing? s = some n ↔ (s.char = ')' ∧ s.depth = 1) ∧ n = s.index := by
  rw [closing?, Option.ite_none_right_eq_some, Option.some.injEq, eq_comm (a := n)]

/-- At depth one, a text in which nothing closes that depth closes no parenthesis too many. -/
theorem opened_of_quiet {p : Place} {w : List Char} (hout : p.quoting = .outside)
    (hdepth : p.depth = 1) (h : ∀ s ∈ sitesFrom p w, ¬(s.char = ')' ∧ s.depth = 1)) :
    ∀ s ∈ sitesFrom (.start 0 none) w, s.isTop ')' = false := by
  have opened : ∀ {s : Site}, Option.guard (·.isTop ')') s = none → s.isTop ')' = false := by
    intro s h
    rwa [Option.guard_eq_none_iff] at h
  cases hs : (sitesFrom (.start 0 none) w).findSome? (Option.guard (·.isTop ')')) with
  | none => exact fun s hmem => opened (List.findSome?_eq_none_iff.1 hs s hmem)
  | some s =>
    exfalso
    -- in front of the first such parenthesis, the depth is that of the text alone and one more
    obtain ⟨u, c, r, rfl, hfirst⟩ := findSome?_eq_some_iff.1 hs
    have htop := (Option.guard_eq_some_iff.1 hfirst.found).2
    simp only [Site.isTop, Place.site, Bool.and_eq_true, beq_iff_eq] at htop
    obtain ⟨hzero, rfl⟩ := htop
    have hopened : ∀ s ∈ sitesFrom (.start 0 none) u, s.isTop ')' = false :=
      fun s hmem => opened (s := s.extend (')' :: r)) (hfirst.quiet s hmem)
    have hsound : Sound u := ⟨Place.terminated_of_isOutside hfirst.outside, hopened⟩
    obtain ⟨hclear, hd⟩ := hsound.advance (Place.fresh_of_outside hout u)
    have hzero' : openDepth u = 0 := hzero
    refine h ((p.advance u).site ')' r) ?_ ⟨rfl, ?_⟩
    · exact mem_sitesFrom.2 ⟨u, ')', r, rfl, Place.isOutside_of_clear hclear (by decide), rfl⟩
    · rw [Place.site, hd, hdepth, hzero']

/-- The parenthesis in front of a text is closed in it exactly if the text, on its own, closes one
too many. -/
theorem quiet_behind_open_iff {i : Nat} {b : Option Char} {w z : List Char} :
    (∀ s ∈ sitesFrom (.start i b) ('(' :: w), closing? (s.extend z) = none) ↔
      ∀ s ∈ sitesFrom (.start 0 none) w, s.isTop ')' = false := by
  have hout : ((Place.start i b).next '(').quoting = .outside := rfl
  have hdepth : ((Place.start i b).next '(').depth = 1 := rfl
  have hne : '(' ≠ ')' := by decide
  rw [sitesFrom_cons_of_outside (c := '(') rfl, List.forall_mem_cons]
  constructor
  · rintro ⟨-, h⟩
    exact opened_of_quiet hout hdepth fun s hs => closing?_eq_none_iff.1 (h s hs)
  · intro h
    obtain ⟨hshift, -, -⟩ := sitesFrom_of_fresh (Place.fresh_of_outside hout w) (.inr h)
    refine ⟨closing?_eq_none_iff.2 fun hc => hne hc.1, ?_⟩
    rw [hshift, List.forall_mem_map]
    intro s hs
    rw [closing?_eq_none_iff]
    rintro ⟨hc, hd⟩
    have hc' : s.char = ')' := hc
    have hd' : s.depth = 0 := Nat.succ.inj hd
    have htop := forall_sites_withBefore (fun _ _ h => h) h s hs
    simp [Site.isTop, hc', hd'] at htop

/-- What stands between an opening parenthesis and the one that closes it is balanced. -/
theorem firstAt_closing?_iff {i n : Nat} {b : Option Char} {w y : List Char} {d : Char} :
    FirstAt closing? (.start i b) ('(' :: w) d y n ↔
      d = ')' ∧ Balanced w ∧ n = i + (1 + w.length) := by
  let p := (Place.start i b).next '('
  have hdepth : p.depth = 1 := rfl
  have hfresh : p.Fresh w := Place.fresh_of_outside rfl w
  have hindex : (p.advance w).index = i + (1 + w.length) := by
    rw [Place.advance_index, ← Nat.add_assoc]
    rfl
  constructor
  · intro hf
    obtain ⟨⟨hclose, hone⟩, hn⟩ := closing?_eq_some_iff.1 hf.found
    have hopened := quiet_behind_open_iff.1 hf.quiet
    obtain ⟨-, hdepth', ht⟩ := sitesFrom_of_fresh hfresh (.inr hopened)
    have hzero : p.depth + openDepth w = 1 := hdepth'.symm.trans hone
    rw [hdepth] at hzero
    exact ⟨hclose,
      ⟨⟨ht.1 (Place.terminated_of_isOutside hf.outside), hopened⟩, Nat.add_left_cancel hzero⟩,
      hn.trans hindex⟩
  · rintro ⟨rfl, hb, rfl⟩
    obtain ⟨hclear, hdepth'⟩ := hb.advance hfresh
    exact ⟨Place.isOutside_of_clear hclear (by decide),
      closing?_eq_some_iff.2 ⟨⟨rfl, hdepth'.trans hdepth⟩, hindex.symm⟩,
      quiet_behind_open_iff.2 hb.opened⟩

/-- The search for the parenthesis that closes the one in front of a text. -/
theorem search_closing?_eq_some_iff {p : Piece} {i n : Nat} {b : Option Char} {z : List Char} :
    p.search (.ofPlace (.start i b) ('(' :: z)) closing? = .ok (some n) ↔
      ∃ w y, z = w ++ ')' :: y ∧ Balanced w ∧ n = i + (1 + w.length) := by
  rw [Piece.search_eq_some_iff]
  constructor
  · rintro ⟨v, d, y, e, hf⟩
    cases v with
    | nil =>
      -- the parenthesis in front does not close itself
      obtain ⟨rfl, -⟩ := List.cons.inj e
      have hclose : '(' = ')' := (closing?_eq_some_iff.1 hf.found).1.1
      exact absurd hclose (by decide)
    | cons _ w =>
      obtain ⟨rfl, rfl⟩ := List.cons.inj e
      obtain ⟨rfl, hb, hn⟩ := firstAt_closing?_iff.1 hf
      exact ⟨w, y, rfl, hb, hn⟩
  · rintro ⟨w, y, rfl, hb, hn⟩
    exact ⟨'(' :: w, ')', y, rfl, firstAt_closing?_iff.2 ⟨rfl, hb, hn⟩⟩

theorem enclosed_eq (c : Cursor) (role : ListRole) : enclosed c role =
    if c.current ≠ '(' then .error (c.piece.faultFrom (.missingOpen role) c.position)
    else c.piece.search (c.piece.outlineFrom c.position) closing? >>= fun close =>
      match close with
      | none => .error (c.piece.faultFrom .unclosedOpen c.position)
      | some i => .ok (c.piece.cut (c.position + 1) i, c.seek (i + 1)) := by
  rw [enclosed]
  rfl

/-- The inside of a parenthesis is what is balanced in it. -/
theorem enclosed_eq_ok_iff {c c' : Cursor} {role : ListRole} {inner : Piece} {u x : List Char}
    (hc : c.Between u x) : enclosed c role = .ok (inner, c') ↔
      ∃ w y, x = '(' :: (w ++ ')' :: y) ∧ Balanced w ∧
        inner = c.piece.cut (u.length + 1) (u.length + (1 + w.length)) ∧
        c' = c.seek (u.length + (1 + w.length) + 1) := by
  rw [enclosed_eq]
  by_cases hopen : c.current = '('
  · rw [if_neg (not_not_intro hopen), bind_eq_ok_iff, hc.position,
      Piece.outlineFrom_of_eq hc.chars rfl]
    rw [Cursor.current_eq_iff (by decide), hc.rest] at hopen
    obtain ⟨z, rfl⟩ := List.head?_eq_some_iff.1 hopen
    constructor
    · rintro ⟨close, hs, h⟩
      cases close with
      | none => cases h
      | some n =>
        cases h
        obtain ⟨w, y, rfl, hb, rfl⟩ := search_closing?_eq_some_iff.1 hs
        exact ⟨w, y, rfl, hb, rfl, rfl⟩
    · rintro ⟨w, y, e, hb, rfl, rfl⟩
      exact ⟨_, search_closing?_eq_some_iff.2 ⟨w, y, (List.cons.inj e).2, hb, rfl⟩, rfl⟩
  · rw [if_pos hopen]
    refine iff_of_false nofun ?_
    rintro ⟨w, y, e, -⟩
    rw [Cursor.current_eq_iff (by decide), hc.rest, e] at hopen
    exact hopen rfl

theorem chars_inside {c : Cursor} {u w y : List Char} (hc : c.Between u ('(' :: (w ++ ')' :: y))) :
    (c.piece.cut (u.length + 1) (u.length + (1 + w.length))).chars = trim w ∧
      (c.seek (u.length + (1 + w.length) + 1)).Between (u ++ '(' :: (w ++ [')'])) y := by
  have hchars : c.piece.chars = (u ++ ['(']) ++ (w ++ ')' :: y) := by
    rw [hc.chars]
    simp
  refine ⟨Piece.cut_of_eq hchars (by simp) (by simp; omega), ?_⟩
  refine Cursor.Between.seek (by rw [hc.chars]; simp) ?_
  simp only [List.length_append, List.length_cons, List.length_nil]
  omega

theorem between_of_enclosed {c c' : Cursor} {role : ListRole} {inner : Piece} {u x : List Char}
    (hc : c.Between u x) (h : enclosed c role = .ok (inner, c')) :
    ∃ w y, x = '(' :: (w ++ ')' :: y) ∧ Balanced w ∧ inner.chars = trim w ∧
      c'.Between (u ++ '(' :: (w ++ [')'])) y := by
  obtain ⟨w, y, rfl, hb, rfl, rfl⟩ := (enclosed_eq_ok_iff hc).1 h
  exact ⟨w, y, rfl, hb, chars_inside hc⟩

theorem enclosed_of_balanced {c : Cursor} (role : ListRole) {u w y : List Char}
    (hc : c.Between u ('(' :: (w ++ ')' :: y))) (hb : Balanced w) :
    ∃ inner c', enclosed c role = .ok (inner, c') ∧ inner.chars = trim w ∧
      c'.Between (u ++ '(' :: (w ++ [')'])) y :=
  ⟨_, _, (enclosed_eq_ok_iff hc).2 ⟨w, y, rfl, hb, rfl, rfl⟩, chars_inside hc⟩

/-! ## `RETURNING` -/

theorem exists_split {list : Piece} (role : ListRole) {xs : List (List Char)}
    (h : Listed list.chars xs) :
    ∃ items, ItemList.split list role = .ok items ∧ items.map Piece.chars = xs :=
  ItemList.split_eq_ok_iff.2 h

theorem split_eq_ok {list : Piece} {role : ListRole} {items : List Piece}
    (h : ItemList.split list role = .ok items) : Listed list.chars (items.map Piece.chars) :=
  ItemList.split_eq_ok_iff.1 ⟨items, h, rfl⟩

/-- A keyword stands at the front of the text, and `y` behind it. -/
def Follows (k : Keyword) (x y : List Char) : Prop :=
  ∃ m, x = m ++ y ∧ k.match? x = some m.length

/-- The columns that a text with a `RETURNING` clause, or an empty one, returns. -/
def Returns (x : List Char) (rs : List String) : Prop :=
  (x = [] ∧ rs = []) ∨ ∃ y xs, Follows .returning x y ∧ Listed (trim y) xs ∧
    rs = xs.map fun z => String.ofList (columnName z)

theorem Returns.of_match? {x : List Char} {rs : List String} (h : Returns x rs) (hx : x ≠ []) :
    Keyword.returning.match? x ≠ none := by
  rcases h with ⟨e, -⟩ | ⟨y, xs, ⟨m, -, hm⟩, -⟩
  · exact absurd e hx
  · rw [hm]
    nofun

theorem match?_returning_nil : Keyword.returning.match? [] = none := by
  decide

theorem returns_nil_iff {rs : List String} : Returns [] rs ↔ rs = [] := by
  constructor
  · rintro (⟨-, h⟩ | ⟨y, xs, ⟨m, -, hm⟩, -⟩)
    · exact h
    · rw [match?_returning_nil] at hm
      cases hm
  · exact fun h => .inl ⟨rfl, h⟩

/-- Behind the keyword, the whole text is the list. -/
theorem returns_append_iff {m y : List Char} {rs : List String}
    (hm : Keyword.returning.match? (m ++ y) = some m.length) :
    Returns (m ++ y) rs ↔
      ∃ xs, Listed (trim y) xs ∧ rs = xs.map fun z => String.ofList (columnName z) := by
  constructor
  · rintro (⟨e, -⟩ | ⟨y', xs, ⟨m', e, hm'⟩, hl, hrs⟩)
    · rw [e, match?_returning_nil] at hm
      cases hm
    · rw [hm, Option.some.injEq] at hm'
      obtain ⟨rfl, rfl⟩ := List.append_inj e hm'
      exact ⟨xs, hl, hrs⟩
  · rintro ⟨xs, hl, hrs⟩
    exact .inr ⟨y, xs, ⟨m, rfl, hm⟩, hl, hrs⟩

/-- The columns behind `RETURNING` fill the text. -/
theorem returningColumns_eq_ok_iff {c : Cursor} {u x : List Char} {rs : List String}
    (hc : c.Between u x) : returningColumns c = .ok rs ↔ Returns x rs := by
  rw [returningColumns]
  by_cases hend : c.atEnd = true
  · rw [if_pos hend]
    rw [Cursor.atEnd_iff, hc.rest] at hend
    rw [hend, returns_nil_iff]
    constructor
    · rintro ⟨⟩
      rfl
    · rintro rfl
      rfl
  · rw [if_neg hend]
    rw [Cursor.atEnd_iff, hc.rest] at hend
    dsimp only
    by_cases hclose : c.current = ')'
    · rw [if_pos hclose]
      rw [Cursor.current_eq_iff (by decide), hc.rest] at hclose
      obtain ⟨z, rfl⟩ := List.head?_eq_some_iff.1 hclose
      exact iff_of_false nofun fun h => h.of_match? hend
        (Keyword.match?_cons_eq_none _ (by decide) z)
    · rw [if_neg hclose]
      cases hr : c.consume? .returning with
      | none =>
        have hnone : Keyword.returning.match? x = none := by
          rw [← hc.rest]
          exact Option.map_eq_none_iff.1 hr
        exact iff_of_false nofun fun h => h.of_match? hend hnone
      | some c' =>
        obtain ⟨m, y, rfl, hm, -, -, hb⟩ := Cursor.consume?_eq_some hc hr
        have hrest : (c.piece.rest c'.position).chars = trim y := by
          have hpiece : c.piece.chars = (u ++ m) ++ y := by
            rw [hc.chars, List.append_assoc]
          exact Piece.rest_of_eq hpiece hb.position
        dsimp only
        rw [returns_append_iff hm, ← hrest, bind_eq_ok_iff]
        constructor
        · rintro ⟨items, hs, h⟩
          cases h
          refine ⟨_, split_eq_ok hs, ?_⟩
          rw [List.map_map]
          rfl
        · rintro ⟨xs, hl, rfl⟩
          obtain ⟨items, hs, rfl⟩ := exists_split .returning hl
          refine ⟨items, hs, ?_⟩
          rw [List.map_map]
          rfl

/-! ## The whole statement -/

/-- A table name stands in the text, behind blanks, and `y` behind it. -/
def Named (x w y : List Char) : Prop :=
  trimStart x = w ++ y ∧ w ≠ [] ∧ Unbroken w ∧ ∀ d ∈ y.head?, isBlank d = true ∨ d = '('

/-- A parenthesis stands in the text, behind blanks, and `y` behind it. -/
def Enclosed (x w y : List Char) : Prop :=
  trimStart x = '(' :: (w ++ ')' :: y) ∧ Balanced w

/-- The text is a table name, its columns and its values, with what the query returns behind
them. -/
def LaidOut (cs w cols vals tail : List Char) : Prop :=
  ∃ y₀ y₁ y₂ y₃, Follows .insertInto cs y₀ ∧ Named y₀ w y₁ ∧ Enclosed y₁ cols y₂ ∧
    Follows .values (trimStart y₂) y₃ ∧ Enclosed y₃ vals tail

/-- The query is read off a text with these parts. -/
structure Reading (arity : Bool) (cs : List Char) (q : InsertQuery) (w cols vals tail : List Char)
    (xs ys : List (List Char)) : Prop where
  laidOut : LaidOut cs w cols vals tail
  returning : Returns (trimStart tail) q.returning
  columns : Listed (trim cols) xs ∧ q.columns = xs.map fun x => String.ofList (columnName x)
  values : Listed (trim vals) ys ∧ q.values = ys.map fun y => String.ofList (Literal.unquote y)
  table : q.table.toList = tableName w
  arity : arity = true → xs.length = ys.length

theorem between_of_tableAt {c c' : Cursor} {u x name : List Char}
    (hc : c.Between u x) (h : tableAt c.skipBlanks = .ok (name, c')) :
    ∃ u' w y, Named x w y ∧ name = tableName w ∧ c'.Between u' y := by
  obtain ⟨w, y, e, hne, hw, hy, rfl, rfl⟩ := (tableAt_eq_ok_iff hc.skipBlanks).1 h
  refine ⟨_, w, y, ⟨e, hne, hw, hy⟩, rfl, Cursor.Between.seek ?_ rfl⟩
  rw [hc.skipBlanks.chars, e, ← List.append_assoc]

theorem tableAt_of_named {c : Cursor} {u x w y : List Char} (hc : c.Between u x) (h : Named x w y) :
    ∃ c' u', tableAt c.skipBlanks = .ok (tableName w, c') ∧ c'.Between u' y := by
  obtain ⟨e, hne, hw, hy⟩ := h
  refine ⟨_, _, (tableAt_eq_ok_iff hc.skipBlanks).2 ⟨w, y, e, hne, hw, hy, rfl, rfl⟩,
    Cursor.Between.seek ?_ rfl⟩
  rw [hc.skipBlanks.chars, e, ← List.append_assoc]

theorem consume?_of_follows {c : Cursor} {k : Keyword} {u x y : List Char} (hc : c.Between u x)
    (h : Follows k x y) : ∃ c' u', c.consume? k = some c' ∧ c'.Between u' y := by
  obtain ⟨m, rfl, hm⟩ := h
  exact ⟨_, _, Cursor.consume?_of_match? hc hm, hc.jump⟩

/-- A text with these parts is read as the query, unless its columns and its values are counted and
differ: then the list of values is refused. -/
theorem Reading.parse_eq {p : Piece} {q : InsertQuery} {w cols vals tail : List Char}
    {xs ys : List (List Char)} (h : Reading false p.chars q w cols vals tail xs ys) (arity : Bool) :
    ∃ values : Piece, values.chars = trim vals ∧
      parse arity p = if arity && q.columns.length != q.values.length then
          .error (values.faultWhole (.arity q.columns.length q.values.length))
        else .ok q := by
  obtain ⟨⟨y₀, y₁, y₂, y₃, h₀, h₁, ⟨e₂, hcols⟩, h₃, ⟨e₄, hvals⟩⟩, hret, ⟨hlx, hcolumns⟩,
    ⟨hly, hvalues⟩, htable, -⟩ := h
  obtain ⟨c₀, u₀, hc₀, hb₀⟩ := consume?_of_follows (Cursor.between_ofPiece p) h₀
  obtain ⟨c₁, u₁, hc₁, hb₁⟩ := tableAt_of_named hb₀ h₁
  have hs₁ := hb₁.skipBlanks
  rw [e₂] at hs₁
  obtain ⟨columnList, c₂, hc₂, hcolumnList, hb₂⟩ := enclosed_of_balanced .insertColumns hs₁ hcols
  obtain ⟨c₃, u₃, hc₃, hb₃⟩ := consume?_of_follows hb₂.skipBlanks h₃
  have hs₃ := hb₃.skipBlanks
  rw [e₄] at hs₃
  obtain ⟨valueList, c₄, hc₄, hvalueList, hb₄⟩ := enclosed_of_balanced .insertValues hs₃ hvals
  refine ⟨valueList, hvalueList, ?_⟩
  rw [← hcolumnList] at hlx
  rw [← hvalueList] at hly
  obtain ⟨items, hitems, rfl⟩ := exists_split .insertColumns hlx
  obtain ⟨items', hitems', rfl⟩ := exists_split .insertValues hly
  have hreturning := (returningColumns_eq_ok_iff hb₄.skipBlanks).2 hret
  rw [parse, hc₀]
  dsimp only
  rw [bind_of_ok hc₁, bind_of_ok hc₂]
  dsimp only
  rw [hc₃]
  dsimp only
  rw [bind_of_ok hc₄, bind_of_ok hreturning, bind_of_ok hitems, bind_of_ok hitems']
  obtain ⟨table, columns, values, returning⟩ := q
  dsimp only at htable hcolumns hvalues ⊢
  rw [← htable, String.ofList_toList, hcolumns, hvalues]
  simp only [List.length_map, List.map_map]
  rfl

/-- Whether the columns and the values are counted does not matter to the parts. -/
theorem Reading.relaxed {arity : Bool} {cs : List Char} {q : InsertQuery}
    {w cols vals tail : List Char} {xs ys : List (List Char)}
    (h : Reading arity cs q w cols vals tail xs ys) :
    Reading false cs q w cols vals tail xs ys :=
  { h with arity := nofun }

/-- An `INSERT` is read exactly if it is laid out as one. -/
theorem parse_eq_ok_iff {arity : Bool} {p : Piece} {q : InsertQuery} : parse arity p = .ok q ↔
    ∃ w cols vals tail xs ys, Reading arity p.chars q w cols vals tail xs ys := by
  constructor
  · intro h
    rw [parse] at h
    cases h₀ : (Cursor.ofPiece p).consume? .insertInto with
    | none =>
      rw [h₀] at h
      cases h
    | some c₀ =>
      rw [h₀] at h
      dsimp only at h
      obtain ⟨m₀, y₀, e₀, hm₀, -, -, hb₀⟩ := Cursor.consume?_eq_some (Cursor.between_ofPiece p) h₀
      obtain ⟨⟨name, c₁⟩, h₁, h⟩ := bind_eq_ok_iff.1 h
      obtain ⟨u₁, w, y₁, hnamed, rfl, hb₁⟩ := between_of_tableAt hb₀ h₁
      obtain ⟨⟨columnList, c₂⟩, h₂, h⟩ := bind_eq_ok_iff.1 h
      obtain ⟨cols, y₂, e₂, hcols, hcolumns, hb₂⟩ := between_of_enclosed hb₁.skipBlanks h₂
      dsimp only at h
      cases h₃ : c₂.skipBlanks.consume? .values with
      | none =>
        rw [h₃] at h
        cases h
      | some c₃ =>
        rw [h₃] at h
        dsimp only at h
        obtain ⟨m₃, y₃, e₃, hm₃, -, -, hb₃⟩ := Cursor.consume?_eq_some hb₂.skipBlanks h₃
        obtain ⟨⟨valueList, c₄⟩, h₄, h⟩ := bind_eq_ok_iff.1 h
        obtain ⟨vals, tail, e₄, hvals, hvalues, hb₄⟩ := between_of_enclosed hb₃.skipBlanks h₄
        obtain ⟨rs, h₅, h⟩ := bind_eq_ok_iff.1 h
        obtain ⟨xs, hxs, h⟩ := bind_eq_ok_iff.1 h
        obtain ⟨ys, hys, h⟩ := bind_eq_ok_iff.1 h
        have hlx := split_eq_ok hxs
        have hly := split_eq_ok hys
        rw [hcolumns] at hlx
        rw [hvalues] at hly
        split at h
        · cases h
        · rename_i harity
          cases h
          refine ⟨w, cols, vals, tail, xs.map Piece.chars, ys.map Piece.chars,
            ⟨y₀, y₁, y₂, y₃, ⟨m₀, e₀, hm₀⟩, hnamed, ⟨e₂, hcols⟩, ⟨m₃, e₃, hm₃⟩, ⟨e₄, hvals⟩⟩,
            (returningColumns_eq_ok_iff hb₄.skipBlanks).1 h₅, ⟨hlx, ?_⟩, ⟨hly, ?_⟩,
            String.toList_ofList, ?_⟩
          · rw [List.map_map]
            rfl
          · rw [List.map_map]
            rfl
          · intro ha
            simpa [ha] using harity
  · rintro ⟨w, cols, vals, tail, xs, ys, h⟩
    have hlengths : (arity && q.columns.length != q.values.length) = false := by
      cases arity with
      | false => rfl
      | true => simpa [h.columns.2, h.values.2] using h.arity rfl
    obtain ⟨values, -, hparse⟩ := h.relaxed.parse_eq arity
    rw [hparse, hlengths, if_neg (by decide)]

end InsertQuery

end TableQuery
