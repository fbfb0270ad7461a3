import TableQuery.Proofs.InsertParts
import TableQuery.Proofs.Isolation
import TableQuery.Proofs.Join
import TableQuery.Proofs.SortKey
import TableQuery.Proofs.Twins
import TableQuery.Select

/-!
# The content of literals

No reader of a statement looks into a single-quoted literal. So two texts that differ only in the
content of one are refused alike, or read as statements of the same shape
(`Statement.agree_ofText_literal`): no content opens a clause, adds a condition or ends the
statement.

Most readers decide at the sites of an outline and are treated once, through searches over twins.
The last word of an entry of `ORDER BY` is different: it is looked for in the bare text, literals
included. A word that reaches into a literal holds its quote, and so names no direction
(`SortKey.divide_of_quote`).
-/

namespace TableQuery

open Text Outline

variable {v w : List Char} {p p' : Piece}

/-! ## The parts of a `SELECT` -/

theorem SelectHead.agree_parse (h : Twins v w p p') :
    Agree (fun a b => a.distinct = b.distinct ∧ Twins v w a.fields b.fields) (parse p)
      (parse p') := by
  obtain ⟨f, h⟩ := h
  have hselect := h.cursors.consume? .select
  rw [parse, parse]
  generalize (Cursor.ofPiece p).consume? .select = a,
    (Cursor.ofPiece p').consume? .select = b at hselect
  cases hselect with
  | none => exact .error rfl
  | @some c c' hc =>
    have hdistinct := hc.skipBlanks.consume? .distinct
    have hfirst : f.Meets v w ((c.skipBlanks.consume? .distinct).getD c.skipBlanks).position
        ((c'.skipBlanks.consume? .distinct).getD c'.skipBlanks).position := by
      generalize c.skipBlanks.consume? .distinct = a,
        c'.skipBlanks.consume? .distinct = b at hdistinct
      cases hdistinct with
      | none => exact hc.skipBlanks.meets
      | some hd => exact hd.meets
    refine ((h.outlineFrom hfirst).search p p' fun s s' hs =>
      Frame.ranges_topKeyword? hs .fromTable).bind fun a b hab => ?_
    cases hab with
    | none => exact .error rfl
    | some hab =>
      have htable := h.rest hab.2
      dsimp only
      rw [htable.isEmpty]
      split
      · exact .error rfl
      · exact .ok ⟨isSome_of_rel hdistinct, h.cut hfirst hab.1⟩

namespace Join

theorem agree_reference {f : Frame} {c c' : Cursor} (h : f.Cursors v w c c') :
    Agree (fun a b => f.Cursors v w a.2 b.2) (reference c) (reference c') := by
  have hname := h.upto.takeWhile (P := inReference) (by decide)
  rw [reference, reference, ← hname]
  split
  · exact .error rfl
  · refine .ok (h.jump (List.takeWhile_append_dropWhile).symm fun d hd => ?_)
    exact (plain_of_inReference (fun _ h => List.mem_takeWhile_imp h) d hd).1

theorem agree_equality {f : Frame} {c c' : Cursor} (h : f.Cursors v w c c') :
    Agree (fun _ _ => True) (equality c) (equality c') := by
  refine (agree_reference h.skipBlanks).bind fun a b hab => ?_
  have hcursor := hab.skipBlanks
  dsimp only
  rw [hcursor.current]
  split
  · exact .error rfl
  · rename_i heq
    have hnext := hcursor.next (by rw [hcursor.current, not_not.1 heq]; decide)
    refine (agree_reference hnext.skipBlanks).bind fun a b hab => ?_
    rw [hab.skipBlanks.atEnd]
    split
    · exact .error rfl
    · exact .ok trivial

theorem agree_parse (kind : JoinKind) (h : Twins v w p p') :
    Agree (fun a b => a.kind = b.kind) (parse kind p) (parse kind p') := by
  obtain ⟨f, h⟩ := h
  have ho : f.Outlined v w p.outline p'.outline := h.outlineFrom (f.meets_zero v w)
  refine (ho.search p p' fun s s' hs => Frame.ranges_keyword? hs .on).bind fun a b hab => ?_
  cases hab with
  | none => exact .error rfl
  | some hab =>
    have htable := h.cut (f.meets_zero v w) hab.1
    dsimp only
    rw [htable.isEmpty]
    split
    · exact .error rfl
    · refine (agree_equality ⟨h, hab.2⟩).bind fun _ _ _ => ?_
      exact .ok rfl

end Join

namespace Condition

theorem agree_ofParts {f : Frame} (h : f.Pair v w p p') (operator : Operator) {i j i' j' : Nat}
    (hi : f.Meets v w i j) (hj : f.Meets v w i' j') :
    Agree (fun a b => a.operator = b.operator) (ofParts p operator i i')
      (ofParts p' operator j j') := by
  have hfield := h.cut (f.meets_zero v w) hi
  have hvalue := h.rest hj
  rw [ofParts, ofParts, hfield.isEmpty, hvalue.isEmpty]
  split
  · exact .error rfl
  · split
    · exact .error rfl
    · exact .ok rfl

theorem agree_parse (h : Twins v w p p') :
    Agree (fun a b => a.operator = b.operator) (parse p) (parse p') := by
  obtain ⟨f, h⟩ := h
  have ho : f.Outlined v w p.outline p'.outline := h.outlineFrom (f.meets_zero v w)
  refine (ho.search p p' fun s s' hs => Frame.ranges_keyword? hs .like).bind fun a b hab => ?_
  cases hab with
  | some hab => exact agree_ofParts h .like hab.1 hab.2
  | none =>
    have hsymbol :
        ∀ s s', f.Alike v w s s' → Option.Rel (fun a b => a.1 = b.1 ∧ f.Ranges v w a.2 b.2)
        ((Operator.detect? s.here).map fun a => (a.1, s.index, s.index + a.2))
        ((Operator.detect? s'.here).map fun a => (a.1, s'.index, s'.index + a.2)) := by
      intro s s' hs
      rw [← hs.upto.detect?]
      cases hd : Operator.detect? s.here with
      | none => exact .none
      | some a =>
        obtain ⟨m, r, e, hn, hm⟩ := Operator.plain_of_detect? hd
        refine .some ⟨rfl, hs.meets, ?_⟩
        dsimp only
        rw [hn]
        exact hs.meets_add e hm
    refine (ho.search p p' hsymbol).bind fun a b hab => ?_
    cases hab with
    | none => exact .error rfl
    | @some a b hab =>
      obtain ⟨operator, i, j⟩ := a
      obtain ⟨operator', i', j'⟩ := b
      obtain ⟨rfl, hi, hj⟩ := hab
      exact agree_ofParts h operator hi hj

end Condition

namespace Where

theorem agree_conditionIn {f : Frame} (h : f.Pair v w p p') {i j i' j' : Nat} (hi : f.Meets v w i j)
    (hj : f.Meets v w i' j') (n n' : Nat) :
    Agree (Twins v w) (conditionIn p i i' n) (conditionIn p' j j' n') := by
  have ht := h.cut hi hj
  rw [conditionIn, conditionIn, ht.isEmpty]
  split
  · exact .error rfl
  · exact .ok ht

theorem agree_fragmentsFrom {f : Frame} (h : f.Pair v w p p') {ss ss' : List Site}
    (hs : List.Forall₂ (f.Alike v w) ss ss') {i j : Nat} (hi : f.Meets v w i j) :
    Agree (fun a b => List.Forall₂ (Twins v w) a.1 b.1 ∧ f.Meets v w a.2 b.2)
      (fragmentsFrom p i ss) (fragmentsFrom p' j ss') := by
  induction hs generalizing i j with
  | nil => exact .ok ⟨.nil, hi⟩
  | @cons s s' _ _ hss _ ih =>
    have hconnector : connector? s = connector? s' := by
      rw [connector?, connector?, hss.topKeyword?, hss.topKeyword?]
    rw [fragmentsFrom, fragmentsFrom, ← hconnector]
    cases hk : connector? s with
    | none => exact ih hi
    | some n =>
      have hnext : f.Meets v w (s.index + n) (s'.index + n) := by
        obtain ⟨k, hk⟩ := exists_of_connector? hk
        exact hss.meets_topKeyword? hk
      refine (agree_conditionIn h hi hss.meets _ _).bind fun a b hab => ?_
      refine (ih hnext).bind fun as bs habs => ?_
      exact .ok ⟨.cons hab habs.1, habs.2⟩

theorem agree_split (h : Twins v w p p') :
    Agree (List.Forall₂ (Twins v w)) (split p) (split p') := by
  obtain ⟨f, h⟩ := h
  have ho : f.Outlined v w p.outline p'.outline := h.outlineFrom (f.meets_zero v w)
  rw [split, split, h.isEmpty]
  by_cases hempty : p'.isEmpty = true
  · rw [if_pos hempty, if_pos hempty]
    exact .error rfl
  · rw [if_neg hempty, if_neg hempty]
    refine (agree_fragmentsFrom h ho.sites (f.meets_zero v w)).bind fun a b hab => ?_
    refine (ho.requireTerminated p p').bind fun _ _ _ => ?_
    refine (agree_conditionIn h hab.2 h.meets_length _ _).bind fun c d hcd => ?_
    exact .ok (List.rel_append hab.1 (.cons hcd .nil))

theorem agree_parse (h : Twins v w p p') :
    Agree (List.Forall₂ fun a b => a.operator = b.operator) (parse p) (parse p') :=
  (agree_split h).bind fun _ _ hab => .mapM hab fun _ _ => Condition.agree_parse

end Where

namespace SortKey

theorem exists_last_blank {cs : List Char} (h : ∃ c ∈ cs, isBlank c = true) :
    ∃ x b z, cs = x ++ b :: z ∧ isBlank b = true ∧ ∀ c ∈ z, isBlank c = false := by
  induction cs with
  | nil => simp at h
  | cons c cs ih =>
    by_cases hcs : ∃ d ∈ cs, isBlank d = true
    · obtain ⟨x, b, z, rfl, hb, hz⟩ := ih hcs
      exact ⟨c :: x, b, z, rfl, hb, hz⟩
    · have hz : ∀ d ∈ cs, isBlank d = false := by simpa using hcs
      obtain ⟨d, hd, hblank⟩ := h
      rcases List.mem_cons.1 hd with rfl | hd
      · exact ⟨[], d, cs, rfl, hblank, hz⟩
      · rw [hz d hd] at hblank
        cases hblank

/-- A word that reaches into a literal names no direction. -/
theorem divide_of_quote {x y : List Char} (hy : ∀ c ∈ y, isBlank c = false) :
    divide (x ++ '\'' :: y) = (x ++ '\'' :: y, .asc) := by
  rw [divide]
  cases hl : lastWord? (x ++ '\'' :: y) with
  | none => rfl
  | some a =>
    obtain ⟨z, word⟩ := a
    obtain ⟨b, hb, e⟩ := eq_of_lastWord? hl
    have hmem : '\'' ∈ word := by
      have hne : b ≠ '\'' := by
        rintro rfl
        exact absurd hb (by decide)
      rcases List.append_eq_append_iff.1 e with ⟨t, -, ht⟩ | ⟨t, -, ht⟩
      · cases t with
        | nil => exact absurd (List.cons_eq_cons.1 ht).1.symm hne
        | cons d t =>
          have hd : b ∈ y := by
            rw [(List.cons_eq_cons.1 ht).2]
            exact List.mem_append_right _ List.mem_cons_self
          rw [hy b hd] at hb
          cases hb
      · cases t with
        | nil => exact absurd (List.cons_eq_cons.1 ht).1 hne
        | cons d t =>
          rw [(List.cons_eq_cons.1 ht).2]
          exact List.mem_append_right _ List.mem_cons_self
    have hword : Direction.ofWord? word = none := by
      cases hd : Direction.ofWord? word with
      | none => rfl
      | some d =>
        have := (plain_of_ofWord? hd '\'' hmem).1
        exact absurd this (by decide)
    simp only [hword]

/-- The direction of an entry stands outside its literals. -/
theorem exists_divide (f : Frame) :
    ∃ (g : Frame) (d : Direction), ∀ u, divide (f.fill u) = (g.fill u, d) := by
  cases h : f.hasHole with
  | false =>
    refine ⟨.ofText (divide f.back).1, (divide f.back).2, fun u => ?_⟩
    rw [Frame.fill_of_whole h, Frame.fill_ofText]
  | true =>
    by_cases hb : ∃ c ∈ f.back, isBlank c = true
    · obtain ⟨x, b, z, e, hb, hz⟩ := exists_last_blank hb
      have hlast : ∀ u, lastWord? (f.fill u) = some ((f.keep e).fill u, z) := by
        intro u
        rw [Frame.fill_keep e, lastWord?_append hb hz]
      cases hd : Direction.ofWord? z with
      | none => exact ⟨f, .asc, fun u => by simp only [divide, hlast, hd]⟩
      | some d =>
        obtain ⟨g, hg⟩ := (f.keep e).exists_trimEnd
        exact ⟨g, d, fun u => by simp only [divide, hlast, hd, hg]⟩
    · have hback : ∀ c ∈ f.back, isBlank c = false := by simpa using hb
      refine ⟨f, .asc, fun u => ?_⟩
      have hfill : f.fill u = (f.front ++ '\'' :: Literal.double '\'' u) ++ '\'' :: f.back := by
        rw [Frame.fill, Frame.middle_of_hole h, Literal.quote]
        simp
      rw [hfill, divide_of_quote hback]

theorem agree_hasTopBlank (h : Twins v w p p') :
    Agree (· = ·) (hasTopBlank p) (hasTopBlank p') := by
  obtain ⟨f, h⟩ := h
  have ho : f.Outlined v w p.outline p'.outline := h.outlineFrom (f.meets_zero v w)
  have hblank : ∀ s s', f.Alike v w s s' → Option.Rel (fun _ _ => True)
      (if s.depth = 0 ∧ isBlank s.char then some s else none)
      (if s'.depth = 0 ∧ isBlank s'.char then some s' else none) := by
    intro s s' hs
    rw [hs.depth, hs.char]
    split
    · exact .some trivial
    · exact .none
  exact (ho.search p p' hblank).bind fun a b hab => .ok (isSome_of_rel hab)

theorem agree_parseItem (h : Twins v w p p') :
    Agree (fun a b => a.direction = b.direction) (parseItem p) (parseItem p') := by
  obtain ⟨f, h⟩ := h
  obtain ⟨g, d, hg⟩ := exists_divide f
  rw [parseItem, parseItem, h.left, h.right, hg, hg]
  refine (agree_hasTopBlank ⟨g, rfl, rfl⟩).bind ?_
  rintro a _ rfl
  cases a with
  | true => exact .error rfl
  | false => exact .ok rfl

theorem agree_parse (h : Twins v w p p') :
    Agree (List.Forall₂ fun a b => a.direction = b.direction) (parse p) (parse p') :=
  (ItemList.agree_split h .orderBy).bind fun _ _ hab => .mapM hab fun _ _ => agree_parseItem

end SortKey

/-- A limit has no literal. -/
theorem Limit.agree_parse (h : Twins v w p p') : Agree (· = ·) (parse p) (parse p') := by
  obtain ⟨f, h⟩ := h
  have hdigits : ofDigits? p.chars = ofDigits? p'.chars := by
    cases hh : f.hasHole with
    | false => rw [h.left, h.right, Frame.fill_of_whole hh, Frame.fill_of_whole hh]
    | true =>
      have hnone : ∀ u, ofDigits? (f.fill u) = none := by
        intro u
        have hmem : '\'' ∈ f.fill u := by
          rw [Frame.fill, Frame.middle_of_hole hh]
          exact List.mem_append_right _ List.mem_cons_self
        have hall : (f.fill u).all Char.isDigit = false := by
          rw [List.all_eq_false]
          exact ⟨_, hmem, by decide⟩
        rw [ofDigits?, hall, Bool.not_false, Bool.or_true, if_pos rfl]
      rw [h.left, h.right, hnone, hnone]
  rw [parse, parse, hdigits]
  split
  · exact .ok rfl
  · exact .error rfl

/-! ## `SELECT` -/

namespace SelectQuery

theorem agree_optional {α β : Type} {R : α → β → Prop} {b b' : Option Piece}
    {read : Piece → Except ParseError α} {read' : Piece → Except ParseError β}
    (h : Option.Rel (Twins v w) b b') (hr : ∀ p p', Twins v w p p' → Agree R (read p) (read' p')) :
    Agree (Option.Rel R) (optional b read) (optional b' read') := by
  cases h with
  | none => exact .ok .none
  | some h => exact (hr _ _ h).map fun _ _ => .some

/-- Two queries that differ only in the texts of their parts. -/
structure SameShape (q q' : SelectQuery) : Prop where
  distinct : q.distinct = q'.distinct
  limit : q.limit = q'.limit
  fields : q.fields.length = q'.fields.length
  join : q.join.map Join.kind = q'.join.map Join.kind
  conditions : q.conditions.map Condition.operator = q'.conditions.map Condition.operator
  groupBy : q.groupBy.map List.length = q'.groupBy.map List.length
  orderBy : q.orderBy.map (List.map SortKey.direction) = q'.orderBy.map (List.map SortKey.direction)

theorem map_eq_of_rel {α β γ : Type} {R : α → β → Prop} {a : Option α} {b : Option β}
    (h : Option.Rel R a b) {f : α → γ} {g : β → γ} (hf : ∀ x y, R x y → f x = g y) :
    a.map f = b.map g := by
  cases h with
  | none => rfl
  | some h => exact congrArg some (hf _ _ h)

theorem map_eq_of_forall₂ {α β γ : Type} {f : α → γ} {g : β → γ} {as : List α} {bs : List β}
    (h : List.Forall₂ (fun a b => f a = g b) as bs) : as.map f = bs.map g := by
  induction h with
  | nil => rfl
  | cons h _ ih => rw [List.map_cons, List.map_cons, h, ih]

theorem agree_parse (h : Twins v w p p') : Agree SameShape (parse p) (parse p') := by
  refine (Clauses.agree_split h).bind fun c c' hc => ?_
  refine (SelectHead.agree_parse hc.head).bind fun a b hhead => ?_
  refine (ItemList.agree_parse hhead.2 .projection).bind fun fs fs' hfields => ?_
  have hjoin : Agree (Option.Rel fun a b => a.kind = b.kind) (joinOf c) (joinOf c') := by
    rw [joinOf, joinOf]
    have := hc.join
    generalize c.join = x, c'.join = y at this
    cases this with
    | none => exact .ok .none
    | @some x y hxy =>
      obtain ⟨k, b⟩ := x
      obtain ⟨k', b'⟩ := y
      obtain ⟨rfl, ht⟩ := hxy
      exact (Join.agree_parse k ht).map fun _ _ hkind => .some hkind
  refine hjoin.bind fun j j' hj => ?_
  refine (agree_optional hc.whereRows fun _ _ => Where.agree_parse).bind fun cs cs' hcs => ?_
  refine (agree_optional hc.groupBy fun _ _ ht => ItemList.agree_parse ht .groupBy).bind
    fun gs gs' hgs => ?_
  refine (agree_optional hc.orderBy fun _ _ => SortKey.agree_parse).bind fun os os' hos => ?_
  refine (agree_optional hc.limit fun _ _ => Limit.agree_parse).bind fun n n' hn => ?_
  refine .ok ⟨hhead.1, ?_, hfields, map_eq_of_rel hj fun _ _ => id, ?_,
    map_eq_of_rel hgs fun _ _ => id, map_eq_of_rel hos fun _ _ => map_eq_of_forall₂⟩
  · show n = n'
    cases hn with
    | none => rfl
    | some h => rw [h]
  · show (cs.getD []).map Condition.operator = (cs'.getD []).map Condition.operator
    cases hcs with
    | none => rfl
    | some h => exact map_eq_of_forall₂ h

end SelectQuery

/-! ## `INSERT` -/

namespace InsertQuery

variable {f : Frame} {c c' : Cursor}

theorem agree_tableTo (h : f.Cursors v w c c') {i j : Nat} (hi : f.Meets v w i j) :
    Agree (fun a b => f.Cursors v w a.2 b.2) (tableTo c i) (tableTo c' j) := by
  rw [tableTo, tableTo]
  by_cases he : i = c.position
  · rw [if_pos he, if_pos ((hi.inj h.meets).1 he)]
    exact .error rfl
  · rw [if_neg he, if_neg fun he' => he ((hi.inj h.meets).2 he')]
    exact .ok (h.seek hi)

theorem agree_tableAt (h : f.Cursors v w c c') :
    Agree (fun a b => f.Cursors v w a.2 b.2) (tableAt c) (tableAt c') := by
  have hends : ∀ s s', f.Alike v w s s' → Option.Rel (f.Alike v w) (ending? s) (ending? s') := by
    intro s s' hs
    simp only [ending?, Option.guard, hs.char]
    split
    · exact .some hs
    · exact .none
  rw [tableAt_eq, tableAt_eq]
  refine ((h.pair.outlineFrom h.meets).search c.piece c'.piece hends).bind fun a b hab => ?_
  cases hab with
  | none => exact agree_tableTo h h.pair.meets_length
  | some hs =>
    dsimp only
    rw [hs.char]
    split
    · exact .error rfl
    · exact agree_tableTo h hs.meets

theorem agree_enclosed (h : f.Cursors v w c c') (role : ListRole) :
    Agree (fun a b => Twins v w a.1 b.1 ∧ f.Cursors v w a.2 b.2) (enclosed c role)
      (enclosed c' role) := by
  have hclose : ∀ s s', f.Alike v w s s' →
      Option.Rel (fun i j => f.Meets v w i j ∧ f.Meets v w (i + 1) (j + 1)) (closing? s)
        (closing? s') := by
    intro s s' hs
    rw [closing?, closing?, ← hs.char, ← hs.depth]
    split
    · rename_i hchar
      refine .some ⟨hs.meets, hs.meets_add (m := [s.char]) rfl fun d hd => ?_⟩
      rw [List.mem_singleton.1 hd, hchar.1]
      decide
    · exact .none
  rw [enclosed_eq, enclosed_eq, ← h.current]
  by_cases hopen : c.current = '('
  · rw [if_neg (not_not_intro hopen), if_neg (not_not_intro hopen)]
    have hinside : f.Meets v w (c.position + 1) (c'.position + 1) := by
      obtain ⟨r, hr⟩ := List.head?_eq_some_iff.1 ((Cursor.current_eq_iff (by decide)).1 hopen)
      exact h.meets.plain (m := ['(']) (h.rest_eq.symm.trans hr) (by decide)
    refine ((h.pair.outlineFrom h.meets).search c.piece c'.piece hclose).bind fun a b hab => ?_
    cases hab with
    | none => exact .error rfl
    | some hab => exact .ok ⟨h.pair.cut hinside hab.1, h.seek hab.2⟩
  · rw [if_pos hopen, if_pos hopen]
    exact .error rfl

theorem agree_returningColumns (h : f.Cursors v w c c') :
    Agree (fun a b => a.length = b.length) (returningColumns c) (returningColumns c') := by
  rw [returningColumns, returningColumns, h.atEnd]
  by_cases hend : c'.atEnd = true
  · rw [if_pos hend, if_pos hend]
    exact .ok rfl
  · rw [if_neg hend, if_neg hend]
    dsimp only
    rw [h.current]
    by_cases hclose : c'.current = ')'
    · rw [if_pos hclose, if_pos hclose]
      exact .error rfl
    · rw [if_neg hclose, if_neg hclose]
      have hreturning := h.consume? .returning
      generalize c.consume? .returning = a, c'.consume? .returning = b at hreturning
      cases hreturning with
      | none => exact .error rfl
      | some hc =>
        refine (ItemList.agree_split (h.pair.rest hc.meets) .returning).bind fun a b hab => .ok ?_
        rw [List.length_map, List.length_map, hab.length_eq]

/-- Two queries with as many columns, values and returned columns. -/
structure SameShape (q q' : InsertQuery) : Prop where
  columns : q.columns.length = q'.columns.length
  values : q.values.length = q'.values.length
  returning : q.returning.length = q'.returning.length

theorem agree_parse (arity : Bool) (h : Twins v w p p') :
    Agree SameShape (parse arity p) (parse arity p') := by
  obtain ⟨f, h⟩ := h
  have hinsert := h.cursors.consume? .insertInto
  rw [parse, parse]
  generalize (Cursor.ofPiece p).consume? .insertInto = a,
    (Cursor.ofPiece p').consume? .insertInto = b at hinsert
  cases hinsert with
  | none => exact .error rfl
  | some hc =>
    refine (agree_tableAt hc.skipBlanks).bind fun _ _ hc => ?_
    refine (agree_enclosed hc.skipBlanks .insertColumns).bind fun a b hcolumns => ?_
    have hvalues := hcolumns.2.skipBlanks.consume? .values
    dsimp only
    generalize a.2.skipBlanks.consume? .values = x, b.2.skipBlanks.consume? .values = y at hvalues
    cases hvalues with
    | none => exact .error rfl
    | some hc =>
      refine (agree_enclosed hc.skipBlanks .insertValues).bind fun _ _ hvalues => ?_
      refine (agree_returningColumns hvalues.2.skipBlanks).bind fun _ _ hreturning => ?_
      refine (ItemList.agree_split hcolumns.1 .insertColumns).bind fun as bs hab => ?_
      refine (ItemList.agree_split hvalues.1 .insertValues).bind fun cs ds hcd => ?_
      rw [hab.length_eq, hcd.length_eq]
      split
      · exact .error rfl
      · refine .ok ⟨?_, ?_, hreturning⟩
        · rw [List.length_map, List.length_map, hab.length_eq]
        · rw [List.length_map, List.length_map, hcd.length_eq]

end InsertQuery

/-! ## Statements -/

namespace Statement

/-- Two statements of one kind that differ only in the texts of their parts. -/
def SameShape : Statement → Statement → Prop
  | .select q, .select q' => q.SameShape q'
  | .insert q, .insert q' => q.SameShape q'
  | _, _ => False

theorem agree_parse (settings : Settings) (h : Twins v w p p') :
    Agree SameShape (parse settings p) (parse settings p') := by
  have hword : p.chars.takeWhile isNameChar = p'.chars.takeWhile isNameChar := by
    obtain ⟨f, h⟩ := h
    have hquote : isNameChar '\'' = false := by decide +kernel
    rw [h.left, h.right]
    exact (f.meets_zero v w).upto.takeWhile hquote
  rw [parse, parse, hword]
  split
  · exact (SelectQuery.agree_parse h).map fun _ _ hq => hq
  · split
    · exact (InsertQuery.agree_parse settings.matchArity h).map fun _ _ hq => hq
    · exact .error rfl

/-- The semicolon at the end stands outside literals. -/
theorem exists_dropSemicolon (f : Frame) : ∃ g : Frame, ∀ (p : Piece) (u : List Char),
    p.chars = f.fill u → (dropSemicolon p).chars = g.fill u := by
  by_cases hs : f.back.getLast? = some ';'
  · obtain ⟨x, e⟩ := List.getLast?_eq_some_iff.1 hs
    obtain ⟨g, hg⟩ := (f.keep e).exists_trimEnd
    refine ⟨g, fun p u hp => ?_⟩
    rw [Frame.fill_keep e] at hp
    rw [dropSemicolon, if_pos (by rw [hp, List.getLast?_concat])]
    dsimp only
    rw [hp, List.dropLast_concat, hg]
  · refine ⟨f, fun p u hp => ?_⟩
    have hlast : p.chars.getLast? ≠ some ';' := by
      rw [hp]
      cases hh : f.hasHole with
      | false => rwa [Frame.fill_of_whole hh]
      | true =>
        rw [Frame.fill, Frame.middle_of_hole hh]
        refine getLast?_append_ne (by simp [Literal.quote]) ?_
        by_cases hb : f.back = []
        · rw [hb, List.append_nil, Literal.getLast?_quote]
          decide
        · exact getLast?_append_ne hb hs
    rw [dropSemicolon, if_neg hlast, hp]

/-- The content of a literal has no influence on the structure of a statement: texts that differ
only in it are both refused, for mistakes of the same kind, or both read as statements of the same
shape. -/
theorem agree_ofText_literal (settings : Settings) (a b v w : String) (hskim : Skimmed a.toList)
    (ha : a.toList.getLast? ≠ some '\'') (hb : b.toList.head? ≠ some '\'')
    (hv : byteLength (a ++ String.ofList (Literal.quote v.toList) ++ b).toList ≤ settings.maxLength)
    (hw : byteLength (a ++ String.ofList (Literal.quote w.toList) ++ b).toList ≤
      settings.maxLength) :
    Agree SameShape (ofText settings (a ++ String.ofList (Literal.quote v.toList) ++ b))
      (ofText settings (a ++ String.ofList (Literal.quote w.toList) ++ b)) := by
  let f : Frame := ⟨a.toList, b.toList, true, hskim, ha, fun _ => hb, nofun⟩
  have hfill : ∀ u : String, (a ++ String.ofList (Literal.quote u.toList) ++ b).toList =
      f.fill u.toList := by
    intro u
    rw [Frame.fill, Frame.middle_of_hole (f := f) rfl]
    simp [f]
  obtain ⟨g, hg⟩ := f.exists_trim
  obtain ⟨t, ht⟩ := exists_dropSemicolon g
  have hisolate : ∀ u : String,
      byteLength (a ++ String.ofList (Literal.quote u.toList) ++ b).toList ≤ settings.maxLength →
      ∃ p, isolate settings (a ++ String.ofList (Literal.quote u.toList) ++ b) = .ok p ∧
        p.chars = t.fill u.toList := by
    intro u hu
    refine ⟨_, isolate_eq_ok_iff.2 ⟨hu, rfl⟩, ht _ _ ?_⟩
    rw [chars_rest_ofString, hfill, hg]
  obtain ⟨p, hp, e⟩ := hisolate v hv
  obtain ⟨p', hp', e'⟩ := hisolate w hw
  have hagree := agree_parse settings (v := v.toList) (w := w.toList) ⟨t, e, e'⟩
  rw [ofText, ofText, hp, hp']
  exact hagree

theorem agree_ofText_injection :
    Skimmed "SELECT a FROM t WHERE b = ".toList ∧
      Agree SameShape
        (ofText {}
          ("SELECT a FROM t WHERE b = " ++ String.ofList (Literal.quote "1".toList) ++ " LIMIT 3"))
        (ofText {} ("SELECT a FROM t WHERE b = " ++
          String.ofList (Literal.quote "1' OR c = '2); --".toList) ++ " LIMIT 3")) := by
  have hskim : Skimmed "SELECT a FROM t WHERE b = ".toList := skimmed_iff.2 (by decide +kernel)
  exact ⟨hskim, agree_ofText_literal {} _ _ _ _ hskim (by decide) (by decide) (by decide +kernel)
    (by decide +kernel)⟩

end Statement

end TableQuery
