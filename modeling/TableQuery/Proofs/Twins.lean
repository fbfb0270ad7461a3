import TableQuery.Proofs.Frame
import TableQuery.Proofs.Clauses
import TableQuery.Proofs.Cursor
import TableQuery.Proofs.ItemList
import TableQuery.Proofs.Where

/-!
# Twins

Two pieces that fill one frame are read alike: either both are refused, for mistakes of the same
kind, or both are read with results of the same shape (`Agree`). What a search, a list, the division
into clauses and a cursor do with twins is said here once, and the readers of statements are put
together from it.
-/

namespace TableQuery

open Text Outline

/-! ## Agreement -/

/-- Two readings that are both refused, for mistakes of the same kind, or both succeed with related
results. -/
inductive Agree {α β : Type} (R : α → β → Prop) : Except ParseError α → Except ParseError β → Prop
  | error {e e' : ParseError} : e.kind = e'.kind → Agree R (.error e) (.error e')
  | ok {a : α} {b : β} : R a b → Agree R (.ok a) (.ok b)

namespace Agree

variable {α β γ δ : Type} {R : α → β → Prop} {S : γ → δ → Prop}

theorem bind {x : Except ParseError α} {y : Except ParseError β} {f : α → Except ParseError γ}
    {g : β → Except ParseError δ} (h : Agree R x y) (hf : ∀ a b, R a b → Agree S (f a) (g b)) :
    Agree S (x >>= f) (y >>= g) := by
  cases h with
  | error h => exact .error h
  | ok h => exact hf _ _ h

theorem map {x : Except ParseError α} {y : Except ParseError β} {f : α → γ} {g : β → δ}
    (h : Agree R x y) (hf : ∀ a b, R a b → S (f a) (g b)) : Agree S (f <$> x) (g <$> y) := by
  cases h with
  | error h => exact .error h
  | ok h => exact .ok (hf _ _ h)

theorem mapM {xs : List α} {ys : List β} {f : α → Except ParseError γ} {g : β → Except ParseError δ}
    (h : List.Forall₂ R xs ys) (hf : ∀ a b, R a b → Agree S (f a) (g b)) :
    Agree (List.Forall₂ S) (xs.mapM f) (ys.mapM g) := by
  induction h with
  | nil => exact .ok .nil
  | cons hab _ ih =>
    rw [List.mapM_cons, List.mapM_cons]
    refine (hf _ _ hab).bind fun c d hcd => ih.bind fun cs ds hcds => ?_
    exact .ok (.cons hcd hcds)

end Agree

/-! ## Texts that are the same up to a quote -/

namespace Frame.Upto

variable {r r' : List Char}

theorem head? (h : Upto r r') : r.head? = r'.head? := by
  rcases h with rfl | ⟨z, y, y', rfl, rfl⟩
  · rfl
  · cases z <;> rfl

theorem takeWhile {P : Char → Bool} (hP : P '\'' = false) (h : Upto r r') :
    r.takeWhile P = r'.takeWhile P := by
  rcases h with rfl | ⟨z, y, y', rfl, rfl⟩
  · rfl
  · rw [List.takeWhile_append, List.takeWhile_append, List.takeWhile_cons_of_neg (by simp [hP]),
      List.takeWhile_cons_of_neg (by simp [hP])]

theorem match? (h : Upto r r') (k : Keyword) : k.match? r = k.match? r' := by
  have key : ∀ {z y y' : List Char} {n : Nat}, k.match? (z ++ '\'' :: y) = some n →
      k.match? (z ++ '\'' :: y') = some n := by
    intro z y y' n hm
    obtain ⟨s, hs, ha, rfl⟩ := Keyword.match?_eq_some_iff.1 hm
    have hquote : ∀ c ∈ ('\'' :: y).head?, c.toUpper.isUpper = false := by
      intro c hc
      cases hc
      decide
    have hwords : ∀ w ∈ k.spelling.words.tail, ∀ c ∈ (trimStart ('\'' :: y)).head?,
        w.head? ≠ some c.toUpper := by
      intro w hw c hc hhead
      have hletter :=
        (k.isWord_of_mem_words w (List.mem_of_mem_tail hw)).2 _ (List.mem_of_mem_head? hhead)
      rw [trimStart_eq_self (by intro d hd; cases hd; decide)] at hc
      rw [hquote c hc] at hletter
      cases hletter
    obtain ⟨s, rfl, hz⟩ := Spelling.dropWords_append k.isWord_of_mem_words hquote hwords hs
    refine Keyword.match?_eq_some_iff.2 ⟨s ++ '\'' :: y', ?_, ?_, ?_⟩
    · exact Spelling.dropWords_extend k.isWord_of_mem_words _ hz
    · cases s with
      | nil => exact ha
      | cons c s => exact ha
    · simp only [List.length_append, List.length_cons]
      omega
  rcases h with rfl | ⟨z, y, y', rfl, rfl⟩
  · rfl
  · exact Option.ext fun n => ⟨fun hm => key hm, fun hm => key hm⟩

theorem detect? (h : Upto r r') : Operator.detect? r = Operator.detect? r' := by
  rcases h with rfl | ⟨z, y, y', rfl, rfl⟩
  · rfl
  · match z with
    | [] => rfl
    | [c] => exact Operator.detect?_cons_cons c '\'' y y'
    | c :: d :: z => exact Operator.detect?_cons_cons c d _ _

end Frame.Upto

namespace Frame.Alike

variable {f : Frame} {v w : List Char} {s s' : Site}

theorem upto (h : f.Alike v w s s') : Upto s.here s'.here := by
  rw [h.left, h.right]
  exact h.meets.upto

theorem isTop (h : f.Alike v w s s') (c : Char) : s.isTop c = s'.isTop c := by
  rw [Site.isTop, Site.isTop, h.depth, h.char]

theorem keyword? (h : f.Alike v w s s') (k : Keyword) : s.keyword? k = s'.keyword? k := by
  rw [Site.keyword?, Site.keyword?, Site.followsBlank, Site.followsBlank, h.before, h.upto.match?]

theorem topKeyword? (h : f.Alike v w s s') (k : Keyword) : s.topKeyword? k = s'.topKeyword? k := by
  rw [Site.topKeyword?, Site.topKeyword?, h.depth, h.keyword?]

/-- Behind what is read at the two sites, the positions meet again. -/
theorem meets_add (h : f.Alike v w s s') {m r : List Char} (e : s.here = m ++ r)
    (hm : ∀ c ∈ m, Literal.isQuote c = false) :
    f.Meets v w (s.index + m.length) (s'.index + m.length) :=
  h.meets.plain (h.left.symm.trans e) hm

theorem meets_match (h : f.Alike v w s s') {k : Keyword} {n : Nat} (hk : k.match? s.here = some n) :
    f.Meets v w (s.index + n) (s'.index + n) := by
  obtain ⟨-, hle, hplain⟩ := Keyword.plain_of_match? hk
  have := h.meets_add (List.take_append_drop n s.here).symm fun c hc => (hplain c hc).1
  rwa [List.length_take, Nat.min_eq_left hle] at this

theorem meets_keyword? (h : f.Alike v w s s') {k : Keyword} {n : Nat} (hk : s.keyword? k = some n) :
    f.Meets v w (s.index + n) (s'.index + n) := by
  rw [Site.keyword?] at hk
  split at hk
  · exact h.meets_match hk
  · cases hk

theorem meets_topKeyword? (h : f.Alike v w s s') {k : Keyword} {n : Nat}
    (hk : s.topKeyword? k = some n) :
    f.Meets v w (s.index + n) (s'.index + n) := by
  rw [Site.topKeyword?] at hk
  split at hk
  · exact h.meets_keyword? hk
  · cases hk

end Frame.Alike

/-! ## Searches -/

namespace Frame

variable {f : Frame} {v w : List Char}

/-- Two ranges of positions. -/
def Ranges (f : Frame) (v w : List Char) (a b : Nat × Nat) : Prop :=
  f.Meets v w a.1 b.1 ∧ f.Meets v w a.2 b.2

theorem ranges_keyword? {s s' : Site} (h : f.Alike v w s s') (k : Keyword) :
    Option.Rel (f.Ranges v w) ((s.keyword? k).map fun n => (s.index, s.index + n))
      ((s'.keyword? k).map fun n => (s'.index, s'.index + n)) := by
  rw [← h.keyword? k]
  cases hk : s.keyword? k with
  | none => exact .none
  | some n => exact .some ⟨h.meets, h.meets_keyword? hk⟩

theorem ranges_topKeyword? {s s' : Site} (h : f.Alike v w s s') (k : Keyword) :
    Option.Rel (f.Ranges v w) ((s.topKeyword? k).map fun n => (s.index, s.index + n))
      ((s'.topKeyword? k).map fun n => (s'.index, s'.index + n)) := by
  rw [← h.topKeyword? k]
  cases hk : s.topKeyword? k with
  | none => exact .none
  | some n => exact .some ⟨h.meets, h.meets_topKeyword? hk⟩

variable {o o' : Outline} {α β : Type} {R : α → β → Prop}

theorem findSome?_alike {ss ss' : List Site} (h : List.Forall₂ (f.Alike v w) ss ss')
    {g : Site → Option α} {g' : Site → Option β}
    (hg : ∀ s s', f.Alike v w s s' → Option.Rel R (g s) (g' s')) :
    Option.Rel R (ss.findSome? g) (ss'.findSome? g') := by
  induction h with
  | nil => exact .none
  | @cons s s' _ _ hss _ ih =>
    rw [List.findSome?_cons, List.findSome?_cons]
    have hrel := hg s s' hss
    generalize g s = a, g' s' = b at hrel
    cases hrel with
    | none => exact ih
    | some h => exact .some h

theorem Outlined.requireTerminated (h : f.Outlined v w o o') (p p' : Piece) :
    Agree (fun _ _ => True) (p.requireTerminated o) (p'.requireTerminated o') := by
  have ht := h.terminated
  rw [Piece.requireTerminated, Piece.requireTerminated]
  cases hi : o.unterminated? with
  | none =>
    rw [ht.1 hi]
    exact .ok trivial
  | some i =>
    cases hj : o'.unterminated? with
    | none =>
      rw [ht.2 hj] at hi
      cases hi
    | some j => exact .error rfl

theorem Outlined.requireClosed (h : f.Outlined v w o o') (p p' : Piece) :
    Agree (fun _ _ => True) (p.requireClosed o) (p'.requireClosed o') := by
  have ht := h.closed
  rw [Piece.requireClosed, Piece.requireClosed]
  cases hi : o.unclosed? with
  | none =>
    rw [ht.1 hi]
    exact .ok trivial
  | some i =>
    cases hj : o'.unclosed? with
    | none =>
      rw [ht.2 hj] at hi
      cases hi
    | some j => exact .error rfl

/-- A search finds related answers, or none, in both outlines. -/
theorem Outlined.search (h : f.Outlined v w o o') (p p' : Piece) {g : Site → Option α}
    {g' : Site → Option β} (hg : ∀ s s', f.Alike v w s s' → Option.Rel R (g s) (g' s')) :
    Agree (Option.Rel R) (p.search o g) (p'.search o' g') := by
  have hrel := findSome?_alike h.sites hg
  rw [Piece.search, Piece.search]
  generalize o.sites.findSome? g = a, o'.sites.findSome? g' = b at hrel
  cases hrel with
  | none => exact (h.requireTerminated p p').bind fun _ _ _ => .ok .none
  | some h => exact .ok (.some h)

end Frame

/-! ## Lists -/

section

variable {f : Frame} {v w : List Char} {p p' : Piece}

theorem ItemList.agree_itemIn (h : f.Pair v w p p') (role : ListRole) {i j i' j' : Nat}
    (hi : f.Meets v w i j) (hj : f.Meets v w i' j') :
    Agree (Twins v w) (itemIn p role i i') (itemIn p' role j j') := by
  have ht := h.cut hi hj
  rw [itemIn, itemIn, ht.isEmpty]
  split
  · exact .error rfl
  · exact .ok ht

theorem ItemList.agree_itemsFrom (h : f.Pair v w p p') (role : ListRole) {ss ss' : List Site}
    (hs : List.Forall₂ (f.Alike v w) ss ss') {i j : Nat} (hi : f.Meets v w i j) :
    Agree (fun a b => List.Forall₂ (Twins v w) a.1 b.1 ∧ f.Meets v w a.2 b.2)
      (itemsFrom p role i ss) (itemsFrom p' role j ss') := by
  induction hs generalizing i j with
  | nil => exact .ok ⟨.nil, hi⟩
  | @cons s s' _ _ hss _ ih =>
    rw [itemsFrom, itemsFrom, hss.isTop, hss.isTop]
    split
    · exact .error rfl
    · split
      · rename_i hcomma
        have hchar : s.char = ',' := by
          simp only [Site.isTop, Bool.and_eq_true, beq_iff_eq] at hcomma
          rw [hss.char, hcomma.2]
        have hnext : f.Meets v w (s.index + 1) (s'.index + 1) := by
          refine hss.meets_add (m := [s.char]) rfl fun c hc => ?_
          rw [List.mem_singleton.1 hc, hchar]
          decide
        refine (agree_itemIn h role hi hss.meets).bind fun a b hab => ?_
        refine (ih hnext).bind fun as bs habs => ?_
        exact .ok ⟨.cons hab habs.1, habs.2⟩
      · exact ih hi

/-- Twin lists have twin items. -/
theorem ItemList.agree_split (h : Twins v w p p') (role : ListRole) :
    Agree (List.Forall₂ (Twins v w)) (split p role) (split p' role) := by
  obtain ⟨f, h⟩ := h
  have ho : f.Outlined v w p.outline p'.outline := h.outlineFrom (f.meets_zero v w)
  rw [split, split, h.isEmpty]
  by_cases hempty : p'.isEmpty = true
  · rw [if_pos hempty, if_pos hempty]
    exact .error rfl
  · rw [if_neg hempty, if_neg hempty]
    dsimp only
    refine (agree_itemsFrom h role ho.sites (f.meets_zero v w)).bind fun a b hab => ?_
    refine (ho.requireTerminated p p').bind fun _ _ _ => ?_
    refine (ho.requireClosed p p').bind fun _ _ _ => ?_
    refine (agree_itemIn h role hab.2 h.meets_length).bind fun c d hcd => ?_
    exact .ok (List.rel_append hab.1 (.cons hcd .nil))

theorem ItemList.agree_parse (h : Twins v w p p') (role : ListRole) :
    Agree (fun a b => a.length = b.length) (parse p role) (parse p' role) := by
  refine (agree_split h role).bind fun a b hab => .ok ?_
  rw [List.length_map, List.length_map, hab.length_eq]

/-! ## Clauses -/

/-- Two statements with the same clauses, and twin bodies. -/
structure Clauses.Alike (v w : List Char) (c c' : Clauses) : Prop where
  head : Twins v w c.head c'.head
  join : Option.Rel (fun a b => a.1 = b.1 ∧ Twins v w a.2 b.2) c.join c'.join
  whereRows : Option.Rel (Twins v w) c.whereRows c'.whereRows
  groupBy : Option.Rel (Twins v w) c.groupBy c'.groupBy
  orderBy : Option.Rel (Twins v w) c.orderBy c'.orderBy
  limit : Option.Rel (Twins v w) c.limit c'.limit

theorem isSome_of_rel {α β : Type} {R : α → β → Prop} {a : Option α} {b : Option β}
    (h : Option.Rel R a b) :
    a.isSome = b.isSome := by
  cases h with
  | none => rfl
  | some _ => rfl

theorem Clauses.Alike.has {c c' : Clauses} (h : c.Alike v w c') (k : ClauseKind) :
    c.has k = c'.has k := by
  cases k with
  | orderBy => exact isSome_of_rel h.orderBy
  | groupBy => exact isSome_of_rel h.groupBy
  | limit => exact isSome_of_rel h.limit
  | whereRows => exact isSome_of_rel h.whereRows
  | join _ => exact isSome_of_rel h.join

namespace Clauses

theorem Alike.put {c c' : Clauses} (h : c.Alike v w c') (k : ClauseKind) (hb : Twins v w p p') :
    (c.put k p).Alike v w (c'.put k p') := by
  cases k with
  | orderBy => exact { h with orderBy := .some hb }
  | groupBy => exact { h with groupBy := .some hb }
  | limit => exact { h with limit := .some hb }
  | whereRows => exact { h with whereRows := .some hb }
  | join _ => exact { h with join := .some ⟨rfl, hb⟩ }

/-- Two occurrences of one clause keyword. -/
structure Marks (f : Frame) (v w : List Char) (m m' : ClauseStart) : Prop where
  kind : m.kind = m'.kind
  first : f.Meets v w m.first m'.first
  last : f.Meets v w m.last m'.last

theorem marks_ofSite? {s s' : Site} (h : f.Alike v w s s') :
    Option.Rel (Marks f v w) (ClauseStart.ofSite? s) (ClauseStart.ofSite? s') := by
  have hdetect : ClauseKind.detect? s.here = ClauseKind.detect? s'.here := by
    simp only [ClauseKind.detect?, h.upto.match?]
  rw [ClauseStart.ofSite?, ClauseStart.ofSite?, Site.followsBlank, Site.followsBlank, h.depth,
    h.before, ← hdetect]
  split
  · cases hk : ClauseKind.detect? s.here with
    | none => exact .none
    | some a =>
      obtain ⟨k, -, hn⟩ := List.exists_of_findSome?_eq_some hk
      obtain ⟨n, hmatch, rfl⟩ := Option.map_eq_some_iff.1 hn
      exact .some ⟨rfl, h.meets, h.meets_match hmatch⟩
  · exact .none

/-- A clause, or the head, ends at the next mark. -/
theorem meets_stop (h : f.Pair v w p p') {ms ms' : List ClauseStart}
    (hm : List.Forall₂ (Marks f v w) ms ms') :
    f.Meets v w ((ms.head?.map ClauseStart.first).getD p.length)
      ((ms'.head?.map ClauseStart.first).getD p'.length) := by
  cases hm with
  | nil => exact h.meets_length
  | cons hmm _ => exact hmm.first

theorem agree_fill (h : f.Pair v w p p') {ms ms' : List ClauseStart}
    (hm : List.Forall₂ (Marks f v w) ms ms') {c c' : Clauses} (hc : c.Alike v w c') :
    Agree (Alike v w) (fill p c ms) (fill p' c' ms') := by
  induction hm generalizing c c' with
  | nil => exact .ok hc
  | @cons m m' ms ms' hmm hms ih =>
    rw [fill, fill, hmm.kind, hc.has]
    split
    · refine .error ?_
      rw [repeated, repeated, hmm.kind]
      split <;> rfl
    · exact ih (hc.put _ (h.cut hmm.last (meets_stop h hms)))

theorem filterMap_alike {α β : Type} {R : α → β → Prop} {ss ss' : List Site}
    (h : List.Forall₂ (f.Alike v w) ss ss') {g : Site → Option α} {g' : Site → Option β}
    (hg : ∀ s s', f.Alike v w s s' → Option.Rel R (g s) (g' s')) :
    List.Forall₂ R (ss.filterMap g) (ss'.filterMap g') := by
  induction h with
  | nil => exact .nil
  | @cons s s' _ _ hss _ ih =>
    rw [List.filterMap_cons, List.filterMap_cons]
    have hrel := hg s s' hss
    generalize g s = a, g' s' = b at hrel
    cases hrel with
    | none => exact ih
    | some h => exact .cons h ih

theorem agree_requireBalanced {o o' : Outline} (h : f.Outlined v w o o') (p p' : Piece) :
    Agree (fun _ _ => True) (p.requireBalanced o) (p'.requireBalanced o') := by
  have hopened : Agree (fun _ _ => True) (p.requireOpened o) (p'.requireOpened o') := by
    have hrel : Option.Rel (fun _ _ => True) o.unexpectedClose? o'.unexpectedClose? := by
      rw [Outline.unexpectedClose?, Outline.unexpectedClose?, List.find?_eq_findSome?_guard,
        List.find?_eq_findSome?_guard]
      refine Frame.findSome?_alike h.sites fun s s' hs => ?_
      rw [Option.guard, Option.guard, hs.isTop]
      split
      · exact .some trivial
      · exact .none
    rw [Piece.requireOpened, Piece.requireOpened]
    generalize o.unexpectedClose? = a, o'.unexpectedClose? = b at hrel
    cases hrel with
    | none => exact .ok trivial
    | some _ => exact .error rfl
  refine hopened.bind fun _ _ _ => ?_
  exact (h.requireTerminated p p').bind fun _ _ _ => h.requireClosed p p'

/-- Twin statements have the same clauses. -/
theorem agree_split (h : Twins v w p p') : Agree (Alike v w) (split p) (split p') := by
  obtain ⟨f, h⟩ := h
  have ho : f.Outlined v w p.outline p'.outline := h.outlineFrom (f.meets_zero v w)
  have hmarks := filterMap_alike ho.sites fun s s' hs => marks_ofSite? hs
  refine (agree_requireBalanced ho p p').bind fun _ _ _ => ?_
  exact agree_fill h hmarks ⟨h.cut (f.meets_zero v w) (meets_stop h hmarks), .none, .none, .none,
    .none, .none⟩

end Clauses

end

/-! ## Cursors -/

namespace Frame

/-- Two cursors at the same place of a frame. -/
structure Cursors (f : Frame) (v w : List Char) (c c' : Cursor) : Prop where
  pair : f.Pair v w c.piece c'.piece
  meets : f.Meets v w c.position c'.position

namespace Cursors

variable {f : Frame} {v w : List Char} {c c' : Cursor}

theorem rest_eq (h : f.Cursors v w c c') : c.rest = (f.fill v).drop c.position := by
  rw [Cursor.rest, h.pair.left]

theorem upto (h : f.Cursors v w c c') : Upto c.rest c'.rest := by
  rw [h.rest_eq, Cursor.rest, h.pair.right]
  exact h.meets.upto

theorem current (h : f.Cursors v w c c') : c.current = c'.current := by
  rw [Cursor.current_eq, Cursor.current_eq, h.upto.head?]

theorem atEnd (h : f.Cursors v w c c') : c.atEnd = c'.atEnd := by
  rw [Bool.eq_iff_iff, Cursor.atEnd_iff, Cursor.atEnd_iff, ← List.head?_eq_none_iff,
    ← List.head?_eq_none_iff, h.upto.head?]

/-- Cursors that are set to a pair of positions. -/
theorem seek (h : f.Cursors v w c c') {i j : Nat} (hi : f.Meets v w i j) :
    f.Cursors v w (c.seek i) (c'.seek j) := by
  obtain ⟨hle, hle'⟩ := hi.le
  refine ⟨h.pair, ?_⟩
  rw [Cursor.seek, Cursor.seek, Cursor.length, Cursor.length, Piece.length, Piece.length,
    h.pair.left, h.pair.right]
  dsimp only
  rwa [Nat.min_eq_left hle, Nat.min_eq_left hle']

/-- Cursors move on together over characters that are no quotes. -/
theorem jump (h : f.Cursors v w c c') {m r : List Char} (e : c.rest = m ++ r)
    (hm : ∀ d ∈ m, Literal.isQuote d = false) :
    f.Cursors v w (c.jump m.length) (c'.jump m.length) :=
  h.seek (h.meets.plain (h.rest_eq.symm.trans e) hm)

theorem skipBlanks (h : f.Cursors v w c c') : f.Cursors v w c.skipBlanks c'.skipBlanks := by
  refine ⟨h.pair, ?_⟩
  rw [Cursor.skipBlanks, Cursor.skipBlanks, ← h.upto.takeWhile (P := isBlank) (by decide)]
  refine h.meets.plain (r := c.rest.dropWhile isBlank) ?_ fun d hd => ?_
  · rw [← h.rest_eq, List.takeWhile_append_dropWhile]
  · exact (plain_of_blank (blank_takeWhile c.rest) d hd).1

theorem consume? (h : f.Cursors v w c c') (k : Keyword) :
    Option.Rel (f.Cursors v w) (c.consume? k) (c'.consume? k) := by
  rw [Cursor.consume?, Cursor.consume?, ← h.upto.match? k]
  cases hk : k.match? c.rest with
  | none => exact .none
  | some n =>
    obtain ⟨-, hle, hplain⟩ := Keyword.plain_of_match? hk
    have := h.jump (List.take_append_drop n c.rest).symm fun d hd => (hplain d hd).1
    rw [List.length_take, Nat.min_eq_left hle] at this
    exact .some this

theorem next (h : f.Cursors v w c c') (hc : Literal.isQuote c.current = false) :
    f.Cursors v w c.next c'.next := by
  rw [Cursor.next, Cursor.next, h.atEnd]
  split
  · exact h
  · rename_i hend
    rw [← h.atEnd, Cursor.atEnd_iff] at hend
    obtain ⟨d, r, e⟩ := List.exists_cons_of_ne_nil hend
    refine ⟨h.pair, h.meets.plain (m := [d]) (h.rest_eq.symm.trans e) fun d' hd => ?_⟩
    rw [Cursor.current_eq, e] at hc
    rw [List.mem_singleton.1 hd]
    exact hc

end Cursors

theorem Pair.cursors {f : Frame} {v w : List Char} {p p' : Piece} (h : f.Pair v w p p') :
    f.Cursors v w (Cursor.ofPiece p) (Cursor.ofPiece p') :=
  ⟨h, f.meets_zero v w⟩

end Frame

end TableQuery
