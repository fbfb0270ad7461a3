import Mathlib.Algebra.GroupWithZero.Nat
import Mathlib.Data.List.Forall2
import Mathlib.Data.Nat.Find
import TableQuery.Proofs.Sites

/-!
# Searches and seams

What a search over a piece gives, in terms of its text: a search succeeds at the first site at which
its test does (`FirstAt`), and finds nothing in a text whose literals end. The first site is the one
with the least text in front of it (`exists_firstAt_iff`).

A `Seam` divides a text where no literal and no parenthesis is open. What stands between two seams
of a balanced text is balanced (`Balanced.between`), and so is what trimming leaves of it.
-/

namespace TableQuery

open Text Outline

/-! ## Computations that succeed or fail -/

theorem bind_eq_ok_iff {α β : Type} {x : Except ParseError α} {f : α → Except ParseError β}
    {b : β} :
    (x >>= f) = .ok b ↔ ∃ a, x = .ok a ∧ f a = .ok b := by
  cases x with
  | error e =>
    constructor
    · intro h
      cases h
    · rintro ⟨a, h, -⟩
      cases h
  | ok a =>
    constructor
    · intro h
      exact ⟨a, rfl, h⟩
    · rintro ⟨a', h, h'⟩
      cases h
      exact h'

theorem bind_of_ok {α β : Type} {x : Except ParseError α} {a : α} (h : x = .ok a)
    (f : α → Except ParseError β) :
    (x >>= f) = f a := by
  rw [h]
  rfl

theorem bind_eq_error_iff {α β : Type} {x : Except ParseError α} {f : α → Except ParseError β}
    {e : ParseError} :
    (x >>= f) = .error e ↔ x = .error e ∨ ∃ a, x = .ok a ∧ f a = .error e := by
  cases x with
  | error e' =>
    constructor
    · intro h
      cases h
      exact .inl rfl
    · rintro (h | ⟨a, h, -⟩)
      · cases h
        rfl
      · cases h
  | ok a =>
    constructor
    · intro h
      exact .inr ⟨a, rfl, h⟩
    · rintro (h | ⟨a', h, h'⟩)
      · cases h
      · cases h
        exact h'

theorem map_eq_ok_iff {α β : Type} {x : Except ParseError α} {f : α → β} {b : β} :
    f <$> x = .ok b ↔ ∃ a, x = .ok a ∧ f a = b := by
  cases x with
  | error e =>
    constructor
    · intro h
      cases h
    · rintro ⟨a, h, -⟩
      cases h
  | ok a =>
    constructor
    · intro h
      cases h
      exact ⟨a, rfl, rfl⟩
    · rintro ⟨a', h, rfl⟩
      cases h
      rfl

theorem mapM_eq_ok_iff {α β : Type} {f : α → Except ParseError β} {xs : List α} {ys : List β} :
    xs.mapM f = .ok ys ↔ List.Forall₂ (fun x y => f x = .ok y) xs ys := by
  induction xs generalizing ys with
  | nil =>
    rw [List.mapM_nil, List.forall₂_nil_left_iff]
    constructor
    · intro h
      cases h
      rfl
    · rintro rfl
      rfl
  | cons x xs ih =>
    rw [List.mapM_cons, bind_eq_ok_iff, List.forall₂_cons_left_iff]
    constructor
    · rintro ⟨y, hy, h⟩
      obtain ⟨ys', hys, h⟩ := bind_eq_ok_iff.1 h
      cases h
      exact ⟨y, ys', hy, ih.1 hys, rfl⟩
    · rintro ⟨y, ys', hy, hys, rfl⟩
      exact ⟨y, hy, bind_eq_ok_iff.2 ⟨ys', ih.2 hys, rfl⟩⟩

/-- A list is refused for its first element that is refused. -/
theorem mapM_eq_error_iff {α β : Type} {f : α → Except ParseError β} {xs : List α}
    {e : ParseError} :
    xs.mapM f = .error e ↔
      ∃ front x back, xs = front ++ x :: back ∧ (∀ y ∈ front, ∃ b, f y = .ok b) ∧
        f x = .error e := by
  induction xs with
  | nil =>
    refine iff_of_false nofun ?_
    rintro ⟨front, x, back, h, -⟩
    cases front <;> cases h
  | cons x xs ih =>
    rw [List.mapM_cons, bind_eq_error_iff]
    constructor
    · rintro (hx | ⟨b, hx, h⟩)
      · exact ⟨[], x, xs, rfl, nofun, hx⟩
      · obtain h | ⟨bs, -, h⟩ := bind_eq_error_iff.1 h
        · obtain ⟨front, y, back, rfl, hfront, hy⟩ := ih.1 h
          exact ⟨x :: front, y, back, rfl, List.forall_mem_cons.2 ⟨⟨b, hx⟩, hfront⟩, hy⟩
        · cases h
    · rintro ⟨front, y, back, h, hfront, hy⟩
      cases front with
      | nil =>
        obtain ⟨rfl, rfl⟩ := List.cons.inj h
        exact .inl hy
      | cons z front =>
        obtain ⟨rfl, rfl⟩ := List.cons.inj h
        obtain ⟨⟨b, hb⟩, hfront⟩ := List.forall_mem_cons.1 hfront
        exact .inr ⟨b, hb, bind_eq_error_iff.2 (.inl (ih.2 ⟨front, y, back, rfl, hfront, hy⟩))⟩

theorem exists_of_forall₂ {α β : Type} {R : α → β → Prop} {xs : List α} {ys : List β}
    (h : List.Forall₂ R xs ys) : ∀ y ∈ ys, ∃ x ∈ xs, R x y := by
  induction h with
  | nil => exact fun y hy => by cases hy
  | cons hxy _ ih =>
    refine List.forall_mem_cons.2 ⟨⟨_, List.mem_cons_self, hxy⟩, fun y hy => ?_⟩
    obtain ⟨x, hx, hr⟩ := ih y hy
    exact ⟨x, List.mem_cons_of_mem _ hx, hr⟩

/-! ## The first site -/

/-- The search succeeds with `a` at the character `c` behind `u`, and fails everywhere in `u`. -/
structure FirstAt {α : Type} (f : Site → Option α) (p : Place) (u : List Char) (c : Char)
    (r : List Char) (a : α) : Prop where
  outside : (p.advance u).isOutside c = true
  found : f ((p.advance u).site c r) = some a
  quiet : ∀ s ∈ sitesFrom p u, f (s.extend (c :: r)) = none

theorem findSome?_eq_some_iff {α : Type} {f : Site → Option α} {p : Place} {x : List Char} {a : α} :
    (sitesFrom p x).findSome? f = some a ↔ ∃ u c r, x = u ++ c :: r ∧ FirstAt f p u c r a := by
  constructor
  · intro h
    obtain ⟨u, c, r, e, ho, hf, hq⟩ := exists_of_findSome? h
    exact ⟨u, c, r, e, ho, hf, hq⟩
  · rintro ⟨u, c, r, rfl, ho, hf, hq⟩
    rw [findSome?_append_of_none hq, sitesFrom_cons_of_outside ho,
      List.findSome?_cons_of_isSome (by simp [hf]), hf]

/-- The test answers `a` at the character of the text `x` right behind `u`. -/
def AnswersAt {α : Type} (f : Site → Option α) (x u : List Char) (a : α) : Prop :=
  ∃ c r, x = u ++ c :: r ∧ ((Place.start 0 none).advance u).isOutside c = true ∧
    f (((Place.start 0 none).advance u).site c r) = some a

theorem mem_filterMap_sites_iff {α : Type} {f : Site → Option α} {x : List Char} {a : α} :
    a ∈ (sitesFrom (.start 0 none) x).filterMap f ↔ ∃ u, AnswersAt f x u a := by
  rw [List.mem_filterMap]
  constructor
  · rintro ⟨s, hs, hf⟩
    obtain ⟨u, c, r, e, ho, rfl⟩ := mem_sitesFrom.1 hs
    exact ⟨u, c, r, e, ho, hf⟩
  · rintro ⟨u, c, r, e, ho, hf⟩
    exact ⟨_, mem_sitesFrom.2 ⟨u, c, r, e, ho, rfl⟩, hf⟩

/-- The first answer is the one with the least in front of it. -/
theorem exists_firstAt_iff {α : Type} {f : Site → Option α} {x u : List Char} {a : α} :
    (∃ c r, x = u ++ c :: r ∧ FirstAt f (.start 0 none) u c r a) ↔
      AnswersAt f x u a ∧ ∀ u' a', AnswersAt f x u' a' → u.length ≤ u'.length := by
  constructor
  · rintro ⟨c, r, rfl, ho, hf, hq⟩
    refine ⟨⟨c, r, rfl, ho, hf⟩, ?_⟩
    rintro u' a' ⟨c', r', e, ho', hf'⟩
    by_contra hlt
    rw [Nat.not_le] at hlt
    -- an answer in front of `u` is one inside `u`
    obtain ⟨t, rfl, rfl⟩ : ∃ t, u = u' ++ c' :: t ∧ r' = t ++ c :: r := by
      rcases List.append_eq_append_iff.1 e with ⟨y, rfl, -⟩ | ⟨y, rfl, hy⟩
      · rw [List.length_append] at hlt
        omega
      · cases y with
        | nil =>
          rw [List.append_nil] at hlt
          omega
        | cons d y =>
          obtain ⟨rfl, rfl⟩ := List.cons.inj hy
          exact ⟨y, rfl, rfl⟩
    have hnone := hq _ (mem_sitesFrom.2 ⟨u', c', t, rfl, ho', rfl⟩)
    cases hf'.symm.trans hnone
  · rintro ⟨⟨c, r, rfl, ho, hf⟩, hfirst⟩
    refine ⟨c, r, rfl, ho, hf, fun s hs => ?_⟩
    obtain ⟨u', c', t, rfl, ho', rfl⟩ := mem_sitesFrom.1 hs
    rw [Option.eq_none_iff_forall_ne_some]
    intro a' hf'
    have hle := hfirst u' a' ⟨c', t ++ c :: r, by simp, ho', hf'⟩
    rw [List.length_append, List.length_cons] at hle
    omega

/-- The first answer of a test, where a relation `At` says what is found behind which text. -/
theorem exists_firstAt_iff_of {α β : Type} {f : Site → Option α} {x : List Char}
    {At : List Char → β → Prop} {g : β → α} (h : ∀ u a, AnswersAt f x u a ↔ ∃ b, At u b ∧ a = g b)
    {u : List Char} {a : α} :
    (∃ c r, x = u ++ c :: r ∧ FirstAt f (.start 0 none) u c r a) ↔
      ∃ b, At u b ∧ a = g b ∧ ∀ u' b', At u' b' → u.length ≤ u'.length := by
  rw [exists_firstAt_iff]
  constructor
  · rintro ⟨hu, hfirst⟩
    obtain ⟨b, hb, rfl⟩ := (h u a).1 hu
    exact ⟨b, hb, rfl, fun u' b' hb' => hfirst u' _ ((h u' _).2 ⟨b', hb', rfl⟩)⟩
  · rintro ⟨b, hb, rfl, hfirst⟩
    refine ⟨(h u _).2 ⟨b, hb, rfl⟩, fun u' a' ha' => ?_⟩
    obtain ⟨b', hb', -⟩ := (h u' a').1 ha'
    exact hfirst u' b' hb'

theorem forall_sites_eq_none_iff {α : Type} {f : Site → Option α} {x : List Char} :
    (∀ s ∈ sitesFrom (.start 0 none) x, f s = none) ↔ ∀ u a, ¬AnswersAt f x u a := by
  constructor
  · rintro h u a ⟨c, r, rfl, ho, hf⟩
    have hnone := h _ (mem_sitesFrom.2 ⟨u, c, r, rfl, ho, rfl⟩)
    cases hf.symm.trans hnone
  · intro h s hs
    obtain ⟨u, c, r, rfl, ho, rfl⟩ := mem_sitesFrom.1 hs
    rw [Option.eq_none_iff_forall_ne_some]
    exact fun a hf => h u a ⟨c, r, rfl, ho, hf⟩

/-- Of the places that a relation describes, one has the least in front of it. -/
theorem exists_least_front {β : Type} {At : List Char → β → Prop} (h : ∃ u b, At u b) :
    ∃ u b, At u b ∧ ∀ u' b', At u' b' → u.length ≤ u'.length := by
  classical
  have hlength : ∃ n u b, At u b ∧ u.length = n := h.elim fun u ⟨b, hb⟩ => ⟨u.length, u, b, hb, rfl⟩
  obtain ⟨u, b, hb, hn⟩ := Nat.find_spec hlength
  refine ⟨u, b, hb, fun u' b' hb' => ?_⟩
  rw [hn]
  exact Nat.find_min' hlength ⟨u', b', hb', rfl⟩

namespace Piece

/-- A reader that refuses blank pieces. -/
theorem nonblank_eq_ok_iff {p q : Piece} {e : ParseError} :
    (if p.isEmpty then .error e else .ok p : Except ParseError Piece) = .ok q ↔
      q = p ∧ q.chars ≠ [] := by
  by_cases h : p.isEmpty = true
  · rw [if_pos h]
    refine iff_of_false nofun ?_
    rintro ⟨rfl, hne⟩
    exact hne (isEmpty_iff.1 h)
  · rw [if_neg h, Except.ok.injEq, eq_comm]
    refine ⟨?_, And.left⟩
    rintro rfl
    exact ⟨rfl, mt isEmpty_iff.2 h⟩

/-- The ranges of the piece from `first` on that stand between the marks. -/
def cutsFrom (p : Piece) (first : Nat) : List (Nat × Nat) → List Piece
  | [] => [p.cut first p.length]
  | m :: marks => p.cut first m.1 :: p.cutsFrom m.2 marks

theorem length_cutsFrom (p : Piece) (first : Nat) (marks : List (Nat × Nat)) :
    (p.cutsFrom first marks).length = marks.length + 1 := by
  induction marks generalizing first with
  | nil => rfl
  | cons m marks ih => rw [cutsFrom, List.length_cons, ih, List.length_cons]

/-- Each range reaches from behind a mark, or from `first`, to a mark or to the end. -/
theorem exists_of_mem_cutsFrom {p q : Piece} {first : Nat} {marks : List (Nat × Nat)}
    (h : q ∈ p.cutsFrom first marks) :
    ∃ i j, (i = first ∨ ∃ m ∈ marks, i = m.2) ∧ (j = p.length ∨ ∃ m ∈ marks, j = m.1) ∧
      q = p.cut i j := by
  induction marks generalizing first with
  | nil => exact ⟨first, p.length, .inl rfl, .inl rfl, List.mem_singleton.1 h⟩
  | cons m marks ih =>
    rcases List.mem_cons.1 h with rfl | h
    · exact ⟨first, m.1, .inl rfl, .inr ⟨m, List.mem_cons_self, rfl⟩, rfl⟩
    · obtain ⟨i, j, hi, hj, rfl⟩ := ih h
      refine ⟨i, j, .inr ?_, hj.imp id fun ⟨m', hm, e⟩ => ⟨m', List.mem_cons_of_mem _ hm, e⟩, rfl⟩
      rcases hi with rfl | ⟨m', hm, rfl⟩
      · exact ⟨m, List.mem_cons_self, rfl⟩
      · exact ⟨m', List.mem_cons_of_mem _ hm, rfl⟩

theorem outline_eq (p : Piece) : p.outline = .ofPlace (.start 0 none) p.chars := by
  simp [outline, outlineFrom]

theorem sites_outline (p : Piece) : p.outline.sites = sitesFrom (.start 0 none) p.chars := by
  rw [outline_eq, Outline.ofPlace]

theorem outlineFrom_of_eq {p : Piece} {u x : List Char} (h : p.chars = u ++ x) {i : Nat}
    (hi : i = u.length) : p.outlineFrom i = .ofPlace (.start i u.getLast?) x := by
  subst hi
  have hb : (if u.length = 0 then none else (u ++ x)[u.length - 1]?) = u.getLast? := by
    split
    · rename_i h0
      rw [List.length_eq_zero_iff.1 h0]
      rfl
    · rw [List.getElem?_append_left (by omega), List.getLast?_eq_getElem?]
  rw [outlineFrom, h, List.drop_left, hb]

theorem requireTerminated_eq_ok_iff {p : Piece} {o : Outline} :
    p.requireTerminated o = .ok () ↔ o.unterminated? = none := by
  unfold requireTerminated
  cases o.unterminated? <;> simp

theorem requireClosed_eq_ok_iff {p : Piece} {q : Place} {x : List Char} :
    p.requireClosed (.ofPlace q x) = .ok () ↔ (q.advance x).depth = 0 := by
  unfold requireClosed Outline.ofPlace Place.unclosed?
  by_cases h : (q.advance x).depth = 0 <;> simp [h]

theorem requireOpened_eq_ok_iff {p : Piece} {o : Outline} :
    p.requireOpened o = .ok () ↔ ∀ s ∈ o.sites, s.isTop ')' = false := by
  unfold requireOpened
  cases h : o.unexpectedClose? with
  | none =>
    rw [Outline.unexpectedClose?, List.find?_eq_none] at h
    simpa using h
  | some s =>
    have hm := List.mem_of_find?_eq_some h
    have ht := List.find?_some h
    simp only [reduceCtorEq, false_iff]
    intro h'
    rw [h' s hm] at ht
    cases ht

theorem requireBalanced_eq_ok_iff {p : Piece} :
    p.requireBalanced p.outline = .ok () ↔ Balanced p.chars := by
  rw [requireBalanced, outline_eq, bind_eq_ok_iff]
  constructor
  · rintro ⟨_, h₁, h⟩
    obtain ⟨_, h₂, h₃⟩ := bind_eq_ok_iff.1 h
    exact ⟨⟨requireTerminated_eq_ok_iff.1 h₂, requireOpened_eq_ok_iff.1 h₁⟩,
      requireClosed_eq_ok_iff.1 h₃⟩
  · intro h
    refine ⟨(), requireOpened_eq_ok_iff.2 h.opened, bind_eq_ok_iff.2 ⟨(), ?_, ?_⟩⟩
    · exact requireTerminated_eq_ok_iff.2 h.terminated
    · exact requireClosed_eq_ok_iff.2 h.closed

theorem search_eq_some_iff {α : Type} {p : Piece} {q : Place} {x : List Char} {f : Site → Option α}
    {a : α} : p.search (.ofPlace q x) f = .ok (some a) ↔
      ∃ u c r, x = u ++ c :: r ∧ FirstAt f q u c r a := by
  rw [← findSome?_eq_some_iff, search, Outline.ofPlace]
  cases h : (sitesFrom q x).findSome? f with
  | some b =>
    simp only [pure, Except.pure, Except.ok.injEq]
  | none =>
    simp only [bind_eq_ok_iff, pure, Except.pure, reduceCtorEq, iff_false]
    rintro ⟨-, -, h'⟩
    cases h'

theorem search_eq_none_iff {α : Type} {p : Piece} {q : Place} {x : List Char}
    {f : Site → Option α} :
    p.search (.ofPlace q x) f = .ok none ↔
      (∀ s ∈ sitesFrom q x, f s = none) ∧ (q.advance x).unterminated? = none := by
  rw [← List.findSome?_eq_none_iff, search]
  cases h : (Outline.ofPlace q x).sites.findSome? f with
  | some b =>
    have h' : (sitesFrom q x).findSome? f = some b := h
    simp [pure, Except.pure, h']
  | none =>
    have h' : (sitesFrom q x).findSome? f = none := h
    simp only [bind_eq_ok_iff, h', true_and]
    constructor
    · rintro ⟨_, ht, -⟩
      exact requireTerminated_eq_ok_iff.1 ht
    · intro ht
      exact ⟨(), requireTerminated_eq_ok_iff.2 ht, rfl⟩

/-- A search for a range finds the first site at which a keyword or an operator starts. -/
theorem search_range_iff {p : Piece} {q : Place} {x : List Char} {g : Site → Option Nat}
    {i j : Nat} :
    p.search (.ofPlace q x) (fun s => (g s).map fun n => (s.index, s.index + n)) =
        .ok (some (i, j)) ↔
      ∃ u c r n, x = u ++ c :: r ∧ FirstAt g q u c r n ∧
        i = q.index + u.length ∧ j = q.index + u.length + n := by
  rw [search_eq_some_iff]
  constructor
  · rintro ⟨u, c, r, e, ho, hf, hq⟩
    obtain ⟨n, hn, he⟩ := Option.map_eq_some_iff.1 hf
    rw [Place.site, Place.advance_index, Prod.mk.injEq] at he
    refine ⟨u, c, r, n, e, ⟨ho, hn, fun s hs => ?_⟩, he.1.symm, he.2.symm⟩
    exact Option.map_eq_none_iff.1 (hq s hs)
  · rintro ⟨u, c, r, n, e, ⟨ho, hf, hq⟩, rfl, rfl⟩
    refine ⟨u, c, r, e, ho, ?_, fun s hs => ?_⟩
    · refine Option.map_eq_some_iff.2 ⟨n, hf, ?_⟩
      rw [Place.site, Place.advance_index]
    · exact Option.map_eq_none_iff.2 (hq s hs)

end Piece

/-! ## Seams -/

theorem balanced_iff {x : List Char} : Balanced x ↔ Sound x ∧ openDepth x = 0 := by
  constructor
  · intro h
    exact ⟨h.toSound, h.closed⟩
  · rintro ⟨h, hd⟩
    exact ⟨h, hd⟩

/-- No literal and no parenthesis is open between `u` and `v`. -/
structure Seam (u v : List Char) : Prop where
  fresh : ((Place.start 0 none).advance u).Fresh v
  depth : ((Place.start 0 none).advance u).depth = 0

theorem seam_nil (v : List Char) : Seam [] v :=
  ⟨Place.fresh_start 0 none v, rfl⟩

/-- Outside literals, the place in front of a character is clear. -/
theorem clear_of_isOutside {u : List Char} {c : Char} {i : Nat} {b : Option Char}
    (h : ((Place.start i b).advance u).isOutside c = true) : ((Place.start i b).advance u).Clear :=
  Place.clear_advance (Place.clear_start i b) (Place.terminated_of_isOutside h)

theorem seam_of_isOutside {u : List Char} {c : Char} {r : List Char}
    (h : ((Place.start 0 none).advance u).isOutside c = true)
    (hd : ((Place.start 0 none).advance u).depth = 0) : Seam u (c :: r) := by
  refine ⟨(clear_of_isOutside h).fresh ?_, hd⟩
  intro d hd'
  cases hd'
  exact Place.not_isQuote_of_isOutside h

theorem seam_of_start {u : List Char} {c : Char} {r : List Char} {i : Nat} {b : Option Char}
    (h : ((Place.start i b).advance u).isOutside c = true)
    (hd : ((Place.start i b).advance u).depth = 0) : Seam u (c :: r) := by
  obtain ⟨-, hdepth, hterm⟩ := sitesFrom_of_fresh (Place.fresh_start i b u) (.inl rfl)
  have hclear : ((Place.start 0 none).advance u).Clear :=
    Place.clear_advance (Place.clear_start 0 none) (hterm.1 (Place.terminated_of_isOutside h))
  refine ⟨hclear.fresh ?_, ?_⟩
  · intro d hd'
    cases hd'
    exact Place.not_isQuote_of_isOutside h
  · rw [hd] at hdepth
    have e : (Place.start i b).depth = 0 := rfl
    rw [e, Nat.zero_add] at hdepth
    exact hdepth.symm

theorem seam_of_balanced {u v : List Char} (h : Balanced u)
    (hv : ∀ c ∈ v.head?, Literal.isQuote c = false) : Seam u v := by
  obtain ⟨hc, hd⟩ := h.advance (Place.fresh_start 0 none u)
  exact ⟨hc.fresh hv, hd⟩

theorem Seam.plain {u m v : List Char} (h : Seam u (m ++ v)) (hm : Plain m) (hne : m ≠ []) :
    Seam (u ++ m) v := by
  obtain ⟨-, hd, hq⟩ := hm.advance h.fresh.clear
  rw [← Place.advance_append] at hd hq
  exact ⟨Place.fresh_of_outside (hq hne) v, by rw [hd, h.depth]⟩

/-- The text behind a seam is read as it would be on its own. -/
theorem Seam.sound {u v : List Char} (hs : Seam u v) (h : Sound (u ++ v)) :
    Sound v ∧ openDepth (u ++ v) = openDepth v := by
  obtain ⟨hsites, hdepth, hterm⟩ := sitesFrom_of_fresh hs.fresh (.inl hs.depth)
  have hopened := (forall_sitesFrom_append.1 h.opened).2
  rw [hs.depth] at hsites hdepth
  refine ⟨⟨?_, ?_⟩, ?_⟩
  · rw [← hterm, ← Place.advance_append]
    exact h.terminated
  · rw [hsites] at hopened
    refine forall_sites_withBefore (fun _ _ h => h)
      (b := ((Place.start 0 none).advance u).before) ?_
    intro s hs'
    have :=
      hopened (s.shift ((Place.start 0 none).advance u).index 0) (List.mem_map.2 ⟨s, hs', rfl⟩)
    exact this
  · rw [openDepth, Place.advance_append, hdepth, Nat.zero_add]

theorem Sound.left {u v : List Char} (h : Sound (u ++ v))
    (ht : ((Place.start 0 none).advance u).unterminated? = none) : Sound u :=
  ⟨ht, (forall_sitesFrom_append.1 h.opened).1⟩

theorem Balanced.right {u v : List Char} (h : Balanced (u ++ v)) (hs : Seam u v) : Balanced v := by
  obtain ⟨hv, hd⟩ := hs.sound h.toSound
  exact balanced_iff.2 ⟨hv, by rw [← hd]; exact h.closed⟩

theorem Balanced.left {u v : List Char} (h : Balanced (u ++ v)) (hs : Seam u v) : Balanced u :=
  ⟨h.toSound.left hs.fresh.clear.terminated, hs.depth⟩

/-- A place behind a seam is shifted by what stands in front of the seam. -/
theorem Seam.place {u w : List Char} (hs : Seam u w) :
    ((Place.start 0 none).advance (u ++ w)).depth = ((Place.start 0 none).advance w).depth ∧
      (((Place.start 0 none).advance (u ++ w)).unterminated? = none ↔
        ((Place.start 0 none).advance w).unterminated? = none) := by
  obtain ⟨-, hdepth, hterm⟩ := sitesFrom_of_fresh hs.fresh (.inl hs.depth)
  rw [hs.depth, Nat.zero_add] at hdepth
  rw [Place.advance_append]
  exact ⟨hdepth, hterm⟩

/-- What stands between two seams of a balanced text is balanced. -/
theorem Balanced.between {u w v : List Char} (h : Balanced (u ++ (w ++ v))) (h₁ : Seam u (w ++ v))
    (h₂ : Seam (u ++ w) v) (hv : ∀ c ∈ v.head?, Literal.isQuote c = false) : Balanced w := by
  cases w with
  | nil => exact ⟨⟨rfl, fun s hs => by cases hs⟩, rfl⟩
  | cons c w =>
    have hs : Seam u (c :: w) := ⟨⟨h₁.fresh.clear, h₁.fresh.apart⟩, h₁.depth⟩
    obtain ⟨hd, ht⟩ := hs.place
    have hclear : ((Place.start 0 none).advance (c :: w)).Clear :=
      Place.clear_advance (Place.clear_start 0 none) (ht.1 h₂.fresh.clear.terminated)
    exact (h.right h₁).left ⟨hclear.fresh hv, by rw [← hd]; exact h₂.depth⟩

theorem Balanced.append {x y : List Char} (hx : Balanced x) (hy : Balanced y) (h : Seam x y) :
    Balanced (x ++ y) := by
  obtain ⟨hs, hd⟩ := hx.toSound.append hy.toSound h.fresh
  exact balanced_iff.2 ⟨hs, by rw [hd, hx.openDepth, hy.openDepth]⟩

/-- Two balanced texts with a plain text between them. -/
theorem Balanced.append_plain {x m y : List Char} (hx : Balanced x) (hm : Plain m) (hne : m ≠ [])
    (hy : Balanced y) : Balanced (x ++ (m ++ y)) := by
  have hseam : ∀ c ∈ (m ++ y).head?, Literal.isQuote c = false := by
    obtain ⟨c, m, rfl⟩ := List.exists_cons_of_ne_nil hne
    exact hm.head
  have hm' : Balanced (m ++ y) := hm.balanced.append hy ((seam_nil (m ++ y)).plain hm hne)
  exact hx.append hm' (seam_of_balanced hx hseam)

/-! ## Blanks at the ends -/

/-- A text without quotes ends no literal. -/
theorem Plain.terminated_of_advance {p : Place} {x : List Char} (hx : Plain x)
    (hp : ∀ q b, p.quoting.mode = some (q, b) → Literal.isQuote q = true)
    (h : (p.advance x).unterminated? = none) : p.unterminated? = none := by
  induction x generalizing p with
  | nil => exact h
  | cons c r ih =>
    obtain ⟨hc, hr⟩ := List.forall_mem_cons.1 hx
    have hnext := ih hr (Place.proper_next hp c) h
    cases hq : p.quoting with
    | outside => rw [Place.unterminated?, hq]
    | closed q i => rw [Place.unterminated?, hq]
    | inside q i =>
      have hne : c ≠ q := by
        rintro rfl
        have := hp c true (by rw [hq]; rfl)
        rw [hc.1] at this
        cases this
      rw [Place.unterminated?, Place.next, hq] at hnext
      simp [Place.stay, hne] at hnext

/-- Plain texts at the ends of a text change nothing about its literals and parentheses. -/
theorem sound_of_plain_append_plain {b x b' : List Char} (hb : Plain b) (hb' : Plain b')
    (h : Sound (b ++ (x ++ b'))) : Sound x ∧ openDepth (b ++ (x ++ b')) = openDepth x := by
  have hs : Seam b (x ++ b') := by
    cases b with
    | nil => exact seam_nil _
    | cons c b => exact (seam_nil (c :: b ++ (x ++ b'))).plain hb (List.cons_ne_nil c b)
  obtain ⟨hx, hd⟩ := hs.sound h
  have ht : ((Place.start 0 none).advance x).unterminated? = none := by
    refine hb'.terminated_of_advance (Place.proper_advance (Place.clear_start 0 none).proper x) ?_
    rw [← Place.advance_append]
    exact hx.terminated
  have hc := Place.clear_advance (Place.clear_start 0 none) ht
  refine ⟨hx.left ht, ?_⟩
  rw [hd, openDepth, Place.advance_append, (hb'.advance hc).2.1, openDepth]

theorem Sound.trim {x : List Char} (h : Sound x) :
    Sound (trim x) ∧ openDepth x = openDepth (trim x) := by
  obtain ⟨b, b', hb, hb', e⟩ := exists_blank_trim_blank x
  rw [e] at h
  obtain ⟨h₁, h₂⟩ := sound_of_plain_append_plain (plain_of_blank hb) (plain_of_blank hb') h
  exact ⟨h₁, by rw [← h₂, ← e]⟩

theorem Balanced.trim {x : List Char} (h : Balanced x) : Balanced (trim x) := by
  obtain ⟨h₁, h₂⟩ := h.toSound.trim
  exact balanced_iff.2 ⟨h₁, by rw [← h₂]; exact h.closed⟩

/-- A balanced text stays balanced when a plain end is taken off. -/
theorem Balanced.of_append_plain {x m : List Char} (h : Balanced (x ++ m)) (hm : Plain m) :
    Balanced x := by
  obtain ⟨h₁, h₂⟩ := sound_of_plain_append_plain (b := []) (plain_of_blank blank_nil) hm h.toSound
  exact balanced_iff.2 ⟨h₁, by rw [← h₂]; exact h.closed⟩

/-! ## Cutting at seams -/

/-- No literal and no parenthesis is open at this position of the text. -/
def SeamAt (x : List Char) (i : Nat) : Prop :=
  ∃ u v, x = u ++ v ∧ i = u.length ∧ Seam u v

/-- A seam at which moreover no literal starts. -/
def StopAt (x : List Char) (j : Nat) : Prop :=
  ∃ u v, x = u ++ v ∧ j = u.length ∧ Seam u v ∧ ∀ c ∈ v.head?, Literal.isQuote c = false

theorem seamAt_zero (x : List Char) : SeamAt x 0 :=
  ⟨[], x, rfl, rfl, seam_nil x⟩

theorem stopAt_length {x : List Char} (h : Balanced x) : StopAt x x.length := by
  refine ⟨x, [], by simp, rfl, seam_of_balanced h ?_, ?_⟩ <;> exact fun c hc => by cases hc

theorem stopAt_of_site {x : List Char} {s : Site} (hs : s ∈ sitesFrom (.start 0 none) x)
    (hd : s.depth = 0) : StopAt x s.index := by
  obtain ⟨u, c, r, rfl, ho, rfl⟩ := mem_sitesFrom.1 hs
  refine ⟨u, c :: r, rfl, ?_, seam_of_isOutside ho hd, ?_⟩
  · simp [Place.site, Place.advance_index, Place.start]
  · intro d hd'
    cases hd'
    exact Place.not_isQuote_of_isOutside ho

theorem seamAt_of_site {x : List Char} {s : Site} (hs : s ∈ sitesFrom (.start 0 none) x)
    (hd : s.depth = 0) {n : Nat} (hn : 0 < n) (hp : Plain (s.here.take n))
    (hl : n ≤ s.here.length) : SeamAt x (s.index + n) := by
  obtain ⟨u, c, r, rfl, ho, rfl⟩ := mem_sitesFrom.1 hs
  have hne : (c :: r).take n ≠ [] := by
    rw [Ne, List.take_eq_nil_iff]
    rintro (h | h)
    · omega
    · cases h
  have e : u ++ c :: r = (u ++ (c :: r).take n) ++ (c :: r).drop n := by
    rw [List.append_assoc, List.take_append_drop]
  have hseam : Seam u ((c :: r).take n ++ (c :: r).drop n) := by
    rw [List.take_append_drop]
    exact seam_of_isOutside ho hd
  refine ⟨u ++ (c :: r).take n, (c :: r).drop n, e, ?_, hseam.plain hp hne⟩
  have hl' : n ≤ (c :: r).length := hl
  rw [List.length_append, List.length_take, Nat.min_eq_left hl', Place.site, Place.advance_index,
    Place.start, Nat.zero_add]

theorem balanced_cut {p : Piece} {i j : Nat} (h : Balanced p.chars) (hi : SeamAt p.chars i)
    (hj : StopAt p.chars j) : Balanced (p.cut i j).chars := by
  obtain ⟨u, v, e, rfl, hs⟩ := hi
  obtain ⟨u', v', e', rfl, hs', hq⟩ := hj
  rw [e] at e'
  rcases List.append_eq_append_iff.1 e' with ⟨w, rfl, rfl⟩ | ⟨w, rfl, rfl⟩
  · rw [Piece.cut_of_eq e rfl List.length_append]
    rw [e] at h
    exact (h.between hs hs' hq).trim
  · have hslice : p.slice (u' ++ w).length u'.length = [] := by
      rw [Piece.slice, List.length_append, Nat.sub_eq_zero_of_le (Nat.le_add_right _ _),
        List.take_zero]
    have hempty : (p.cut (u' ++ w).length u'.length).chars = [] := by
      rw [Piece.cut, hslice, trim_nil]
    rw [hempty]
    exact ⟨⟨rfl, fun s hs => by cases hs⟩, rfl⟩

theorem tight_cut (p : Piece) (i j : Nat) : Tight (p.cut i j).chars :=
  tight_trim _

/-! ## Parts of statements -/

/-- A text that may stand between keywords: sound, and with no blanks at its ends. Parentheses may
be left open. -/
structure Chunk (x : List Char) : Prop extends Sound x where
  ne_nil : x ≠ []
  tight : Tight x

/-- A balanced chunk. -/
structure Part (x : List Char) : Prop extends Balanced x where
  ne_nil : x ≠ []
  tight : Tight x

theorem part_iff {x : List Char} : Part x ↔ Chunk x ∧ openDepth x = 0 := by
  constructor
  · intro h
    exact ⟨⟨h.toSound, h.ne_nil, h.tight⟩, h.openDepth⟩
  · rintro ⟨h, hd⟩
    exact ⟨balanced_iff.2 ⟨h.toSound, hd⟩, h.ne_nil, h.tight⟩

instance (x : List Char) : Decidable (Balanced x) :=
  decidable_of_iff (((Place.start 0 none).advance x).unterminated? = none ∧
      (∀ s ∈ sitesFrom (.start 0 none) x, s.isTop ')' = false) ∧
      ((Place.start 0 none).advance x).depth = 0)
    ⟨fun h => ⟨⟨h.1, h.2.1⟩, h.2.2⟩, fun h => ⟨h.terminated, h.opened, h.closed⟩⟩

instance (x : List Char) : Decidable (Part x) :=
  decidable_of_iff (Balanced x ∧ x ≠ [] ∧ Tight x)
    ⟨fun h => ⟨h.1, h.2.1, h.2.2⟩, fun h => ⟨h.toBalanced, h.ne_nil, h.tight⟩⟩

/-- Chunks with something plain between them leave open what each of them does. -/
theorem Chunk.append {x m y : List Char} (hx : Chunk x) (hm : Plain m) (hne : m ≠ [])
    (hy : Chunk y) :
    Chunk (x ++ (m ++ y)) ∧ openDepth (x ++ (m ++ y)) = openDepth x + openDepth y := by
  have hclear := (hx.toSound.advance (Place.fresh_start 0 none x)).1
  obtain ⟨hsound, hdepth⟩ := hx.toSound.append hm.balanced.toSound (hm.fresh hclear)
  have hfresh : ((Place.start 0 none).advance (x ++ m)).Fresh y := by
    rw [Place.advance_append]
    exact Place.fresh_of_outside ((hm.advance hclear).2.2 hne) y
  obtain ⟨hsound', hdepth'⟩ := hsound.append hy.toSound hfresh
  rw [List.append_assoc] at hsound' hdepth'
  refine ⟨⟨hsound', ?_, tight_append hx.ne_nil ?_ hx.tight.head ?_⟩, ?_⟩
  · exact fun e => hx.ne_nil (List.append_eq_nil_iff.1 e).1
  · exact fun e => hne (List.append_eq_nil_iff.1 e).1
  · obtain ⟨l, hl⟩ := Option.isSome_iff_exists.1 (List.getLast?_isSome.2 hy.ne_nil)
    rw [List.getLast?_append, hl, Option.some_or, ← hl]
    exact hy.tight.last
  · rw [hdepth', hdepth, hm.balanced.openDepth, Nat.add_zero]

theorem Part.append {x m y : List Char} (hx : Part x) (hm : Plain m) (hne : m ≠ []) (hy : Part y) :
    Part (x ++ (m ++ y)) := by
  obtain ⟨hcx, hdx⟩ := part_iff.1 hx
  obtain ⟨hcy, hdy⟩ := part_iff.1 hy
  obtain ⟨hchunk, hdepth⟩ := hcx.append hm hne hcy
  exact part_iff.2 ⟨hchunk, by omega⟩

theorem chunk_intercalate {t : List Char} (ht : Plain t) (hne : t ≠ []) {xs : List (List Char)}
    (hxs : xs ≠ []) (h : ∀ x ∈ xs, Chunk x) :
    Chunk (t.intercalate xs) ∧ openDepth (t.intercalate xs) = (xs.map openDepth).sum := by
  induction xs with
  | nil => exact absurd rfl hxs
  | cons x xs ih =>
    obtain ⟨hx, hxs⟩ := List.forall_mem_cons.1 h
    cases xs with
    | nil =>
      rw [List.intercalate_singleton]
      exact ⟨hx, by simp⟩
    | cons y ys =>
      obtain ⟨hchunk, hdepth⟩ := ih (List.cons_ne_nil _ _) hxs
      rw [List.intercalate_cons_cons, List.append_assoc, List.map_cons, List.sum_cons, ← hdepth]
      exact hx.append ht hne hchunk

theorem part_intercalate {t : List Char} (ht : Plain t) (hne : t ≠ []) {xs : List (List Char)}
    (hxs : xs ≠ []) (h : ∀ x ∈ xs, Part x) : Part (t.intercalate xs) := by
  obtain ⟨hchunk, hdepth⟩ := chunk_intercalate ht hne hxs fun x hx => (part_iff.1 (h x hx)).1
  refine part_iff.2 ⟨hchunk, hdepth.trans ?_⟩
  rw [List.sum_eq_zero_iff_forall_eq_nat, List.forall_mem_map]
  exact fun x hx => (part_iff.1 (h x hx)).2

end TableQuery
