import TableQuery.Proofs.LiteralScan
import TableQuery.Proofs.Search

/-!
# Frames

A `Frame` is a text with a hole in which a single-quoted literal stands. Two texts that fill one
frame with different contents have the same structure: their sites come in pairs
(`Pair.outlineFrom`), and what is cut out of them between two pairs of positions fills a frame again
(`Pair.cut`).

A text without a hole is a frame too, which every content fills with the same text.
-/

namespace TableQuery

open Text Outline

/-! ## Jumping over literals -/

theorem Skimmed.right {m r : List Char} (h : Skimmed (m ++ r))
    (hm : ∀ c ∈ m, Literal.isQuote c = false) :
    Skimmed r := by
  induction m with
  | nil => exact h
  | cons c m ih =>
    obtain ⟨hc, hm⟩ := List.forall_mem_cons.1 hm
    cases h with
    | plain _ h => exact ih h hm
    | literal hq _ _ =>
      rw [hc] at hq
      cases hq

/-- Behind a character outside literals, the rest of a skimmed text is skimmed. -/
theorem Skimmed.of_isOutside {u r : List Char} {c : Char} {i : Nat} {b : Option Char}
    (h : Skimmed (u ++ c :: r)) (ho : ((Place.start i b).advance u).isOutside c = true) :
    Skimmed (c :: r) := by
  have hfresh : ((Place.start i b).advance u).Fresh (c :: r) := by
    refine (clear_of_isOutside ho).fresh fun d hd => ?_
    cases hd
    exact Place.not_isQuote_of_isOutside ho
  rw [← terminated_iff_skimmed hfresh, ← Place.advance_append]
  exact (terminated_iff_skimmed (Place.fresh_start i b _)).2 h

/-- A text in which a literal may stand. -/
structure Frame where
  front : List Char
  back : List Char
  hasHole : Bool
  skimmed : Skimmed front
  /-- A quote in front of the literal would belong to it. -/
  opens : front.getLast? ≠ some '\''
  /-- So would a quote behind it. -/
  closes : hasHole = true → back.head? ≠ some '\''
  whole : hasHole = false → front = []

namespace Frame

/-- What stands in the hole. -/
def middle (f : Frame) (v : List Char) : List Char :=
  if f.hasHole then Literal.quote v else []

/-- The text with a literal of the given content. -/
def fill (f : Frame) (v : List Char) : List Char :=
  f.front ++ (f.middle v ++ f.back)

/-- A text without a hole. -/
def ofText (x : List Char) : Frame where
  front := []
  back := x
  hasHole := false
  skimmed := .nil
  opens := by simp
  closes := by simp
  whole _ := rfl

@[simp] theorem fill_ofText (x v : List Char) : (ofText x).fill v = x := rfl

theorem middle_of_hole {f : Frame} (h : f.hasHole = true) (v : List Char) :
    f.middle v = Literal.quote v := by
  rw [middle, if_pos h]

theorem fill_of_whole {f : Frame} (h : f.hasHole = false) (v : List Char) : f.fill v = f.back := by
  rw [fill, middle, h, f.whole h]
  rfl

theorem fill_eq_nil_iff {f : Frame} {v : List Char} :
    f.fill v = [] ↔ f.hasHole = false ∧ f.back = [] := by
  cases h : f.hasHole with
  | false =>
    rw [fill_of_whole h]
    exact ⟨fun h' => ⟨rfl, h'⟩, And.right⟩
  | true =>
    rw [fill, middle_of_hole h]
    constructor
    · intro h'
      exact absurd (List.append_eq_nil_iff.1 (List.append_eq_nil_iff.1 h').2).1
        (Literal.quote_ne_nil v)
    · rintro ⟨h', -⟩
      cases h'

/-- The frame without the end of its text. -/
def keep (f : Frame) {x y : List Char} (e : f.back = x ++ y) : Frame :=
  { f with
    back := x
    closes := by
      intro h hx
      apply f.closes h
      rw [e, List.head?_append, hx, Option.some_or] }

theorem fill_keep {f : Frame} {x y : List Char} (e : f.back = x ++ y) (v : List Char) :
    f.fill v = (f.keep e).fill v ++ y := by
  have hmiddle : (f.keep e).middle v = f.middle v := rfl
  rw [fill, fill, hmiddle, e]
  simp only [keep, List.append_assoc]

/-- The frame without the start of its text. -/
def behind (f : Frame) (hole : f.hasHole = true) {x y : List Char} (e : f.front = x ++ y)
    (hy : Skimmed y) : Frame :=
  { f with
    front := y
    skimmed := hy
    opens := by
      intro hl
      apply f.opens
      rw [e, List.getLast?_append, hl, Option.some_or]
    whole := by
      intro h
      rw [hole] at h
      cases h }

theorem fill_behind {f : Frame} (hole : f.hasHole = true) {x y : List Char} (e : f.front = x ++ y)
    (hy : Skimmed y) (v : List Char) : f.fill v = x ++ (f.behind hole e hy).fill v := by
  have hmiddle : (f.behind hole e hy).middle v = f.middle v := rfl
  rw [fill, fill, hmiddle, e]
  simp only [behind, List.append_assoc]

/-- Trimming stays outside the hole. -/
theorem exists_trimEnd (f : Frame) : ∃ g : Frame, ∀ v, trimEnd (f.fill v) = g.fill v := by
  obtain ⟨b, hb, e⟩ := exists_trimEnd_blank f.back
  refine ⟨f.keep e, fun v => ?_⟩
  have hlast : ∀ c ∈ ((f.keep e).fill v).getLast?, isBlank c = false := by
    intro c hc
    cases h : f.hasHole with
    | false =>
      rw [fill_of_whole (f := f.keep e) h] at hc
      exact getLast?_trimEnd f.back c hc
    | true =>
      rw [fill, middle_of_hole (f := f.keep e) h, List.getLast?_append, List.getLast?_append,
        Literal.getLast?_quote] at hc
      cases hl : (f.keep e).back.getLast? with
      | none =>
        rw [hl] at hc
        cases hc
        decide
      | some d =>
        rw [hl] at hc
        cases hc
        exact getLast?_trimEnd f.back _ hl
  rw [fill_keep e, trimEnd_append_blank hb, trimEnd_eq_self hlast]

theorem exists_trimStart (f : Frame) : ∃ g : Frame, ∀ v, trimStart (f.fill v) = g.fill v := by
  cases h : f.hasHole with
  | false => exact ⟨ofText (trimStart f.back), fun v => by rw [fill_of_whole h, fill_ofText]⟩
  | true =>
    obtain ⟨b, hb, e⟩ : ∃ b, Blank b ∧ f.front = b ++ trimStart f.front :=
      ⟨_, blank_takeWhile f.front, (List.takeWhile_append_dropWhile).symm⟩
    have hskimmed : Skimmed (trimStart f.front) := by
      refine Skimmed.right (m := b) ?_ fun c hc => (plain_of_blank hb c hc).1
      rw [← e]
      exact f.skimmed
    refine ⟨f.behind h e hskimmed, fun v => ?_⟩
    have hhead : ∀ c ∈ ((f.behind h e hskimmed).fill v).head?, isBlank c = false := by
      intro c hc
      rw [fill, middle_of_hole (f := f.behind h e hskimmed) h, List.head?_append] at hc
      cases hf : (f.behind h e hskimmed).front.head? with
      | none =>
        rw [hf] at hc
        cases hc
        decide
      | some d =>
        rw [hf] at hc
        cases hc
        exact head?_dropWhile_isBlank f.front _ hf
    rw [fill_behind h e hskimmed, trimStart_blank_append hb, trimStart_eq_self hhead]

theorem exists_trim (f : Frame) : ∃ g : Frame, ∀ v, trim (f.fill v) = g.fill v := by
  obtain ⟨g, hg⟩ := f.exists_trimStart
  obtain ⟨t, ht⟩ := g.exists_trimEnd
  exact ⟨t, fun v => by rw [trim, hg, ht]⟩

/-! ## Positions -/

/-- Positions of two texts in one frame that stand at the same place of it, outside literals. -/
inductive Meets (f : Frame) (v w : List Char) : Nat → Nat → Prop
  | front {x y : List Char} : f.hasHole = true → f.front = x ++ y → Skimmed y →
      Meets f v w x.length x.length
  | back {x y : List Char} : f.back = x ++ y →
      Meets f v w (f.front ++ (f.middle v ++ x)).length (f.front ++ (f.middle w ++ x)).length

variable {f : Frame} {v w : List Char}

theorem fill_of_front (h : f.hasHole = true) {x y : List Char} (e : f.front = x ++ y)
    (v : List Char) :
    f.fill v = x ++ (y ++ (Literal.quote v ++ f.back)) := by
  rw [fill, middle_of_hole h, e, List.append_assoc]

theorem fill_of_back {x y : List Char} (e : f.back = x ++ y) (v : List Char) :
    f.fill v = (f.front ++ (f.middle v ++ x)) ++ y := by
  rw [fill, e]
  simp only [List.append_assoc]

theorem meets_zero (f : Frame) (v w : List Char) : f.Meets v w 0 0 := by
  cases h : f.hasHole with
  | true => exact .front (x := []) h rfl f.skimmed
  | false =>
    have := Meets.back (f := f) (v := v) (w := w) (x := []) rfl
    simpa [middle, h, f.whole h] using this

theorem meets_length (f : Frame) (v w : List Char) :
    f.Meets v w (f.fill v).length (f.fill w).length :=
  .back (y := []) (List.append_nil _).symm

/-- Two texts that are the same up to a quote, or to their ends. -/
def Upto (r r' : List Char) : Prop :=
  r = r' ∨ ∃ z y y', r = z ++ '\'' :: y ∧ r' = z ++ '\'' :: y'

theorem getLast?_back (f : Frame) (v w x : List Char) :
    (f.front ++ (f.middle v ++ x)).getLast? = (f.front ++ (f.middle w ++ x)).getLast? := by
  have hmiddle : (f.middle v).getLast? = (f.middle w).getLast? := by
    unfold middle
    split
    · rw [Literal.getLast?_quote, Literal.getLast?_quote]
    · rfl
  simp only [List.getLast?_append, hmiddle]

/-- The two texts at a pair of positions. -/
theorem Meets.split {i j : Nat} (h : f.Meets v w i j) : ∃ u r u' r',
    (f.fill v = u ++ r ∧ i = u.length) ∧ (f.fill w = u' ++ r' ∧ j = u'.length) ∧
      u.getLast? = u'.getLast? ∧ Upto r r' := by
  cases h with
  | @front x y hh e hy =>
    have hquote : ∀ u, ∃ z, Literal.quote u ++ f.back = '\'' :: z := fun u => ⟨_, rfl⟩
    obtain ⟨z, hz⟩ := hquote v
    obtain ⟨z', hz'⟩ := hquote w
    refine ⟨x, y ++ '\'' :: z, x, y ++ '\'' :: z', ⟨?_, rfl⟩, ⟨?_, rfl⟩, rfl,
      .inr ⟨y, z, z', rfl, rfl⟩⟩
    · rw [fill_of_front hh e, hz]
    · rw [fill_of_front hh e, hz']
  | @back x y e =>
    refine ⟨_, y, _, y, ⟨fill_of_back e v, rfl⟩, ⟨fill_of_back e w, rfl⟩, ?_, .inl rfl⟩
    exact f.getLast?_back v w x

theorem Meets.upto {i j : Nat} (h : f.Meets v w i j) :
    Upto ((f.fill v).drop i) ((f.fill w).drop j) := by
  obtain ⟨u, r, u', r', ⟨e, rfl⟩, ⟨e', rfl⟩, -, hr⟩ := h.split
  rw [e, e', List.drop_left, List.drop_left]
  exact hr

theorem Meets.le {i j : Nat} (h : f.Meets v w i j) :
    i ≤ (f.fill v).length ∧ j ≤ (f.fill w).length := by
  obtain ⟨u, r, u', r', ⟨e, rfl⟩, ⟨e', rfl⟩, -, -⟩ := h.split
  rw [e, e', List.length_append, List.length_append]
  omega

/-- Each position has one partner. -/
theorem Meets.inj {i j i' j' : Nat} (h : f.Meets v w i j) (h' : f.Meets v w i' j') :
    i = i' ↔ j = j' := by
  cases h with
  | @front x y hh e _ =>
    cases h' with
    | front => exact Iff.rfl
    | back =>
      have hlength := congrArg List.length e
      simp only [List.length_append, middle_of_hole hh, Literal.quote,
        List.length_cons] at hlength ⊢
      omega
  | back =>
    cases h' with
    | @front x y hh e _ =>
      have hlength := congrArg List.length e
      simp only [List.length_append, middle_of_hole hh, Literal.quote,
        List.length_cons] at hlength ⊢
      omega
    | back =>
      simp only [List.length_append]
      omega

/-- Positions move on together over characters that are no quotes. -/
theorem Meets.plain {i j : Nat} (h : f.Meets v w i j) {m r : List Char}
    (e : (f.fill v).drop i = m ++ r) (hm : ∀ c ∈ m, Literal.isQuote c = false) :
    f.Meets v w (i + m.length) (j + m.length) := by
  cases h with
  | @front x y hh ef hy =>
    have hrest : y ++ (Literal.quote v ++ f.back) = m ++ r := by
      rw [← e, fill_of_front hh ef, List.drop_left]
    obtain ⟨z, hz⟩ : ∃ z, y = m ++ z := by
      rcases List.append_eq_append_iff.1 hrest with ⟨z, rfl, hz⟩ | ⟨z, hz, -⟩
      · cases z with
        | nil => exact ⟨[], by simp⟩
        | cons c z =>
          have hc : Literal.isQuote c = false := hm c (List.mem_append_right _ List.mem_cons_self)
          rw [← (List.cons_eq_cons.1 hz).1] at hc
          exact absurd hc (by decide)
      · exact ⟨z, hz⟩
    rw [hz] at hy ef
    rw [← List.length_append]
    exact .front hh (by rw [ef, List.append_assoc]) (hy.right hm)
  | @back x y eb =>
    have hrest : y = m ++ r := by
      rw [← e, fill_of_back eb, List.drop_left]
    have hback : f.back = (x ++ m) ++ r := by rw [eb, hrest, List.append_assoc]
    have := Meets.back (f := f) (v := v) (w := w) hback
    simpa only [List.length_append, Nat.add_assoc] using this

/-! ## Pieces -/

theorem exists_slice {i j i' j' : Nat} (h : f.Meets v w i j) (h' : f.Meets v w i' j') : ∃ g : Frame,
    ((f.fill v).drop i).take (i' - i) = g.fill v ∧
      ((f.fill w).drop j).take (j' - j) = g.fill w := by
  cases h with
  | @front x y hh e hy =>
    cases h' with
    | @front x' y' _ e' _ =>
      have hle : x'.length - x.length ≤ y.length := by
        have := congrArg List.length (e.symm.trans e')
        rw [List.length_append, List.length_append] at this
        omega
      refine ⟨ofText (y.take (x'.length - x.length)), ?_, ?_⟩
      · rw [fill_of_front hh e, List.drop_left, List.take_append_of_le_length hle, fill_ofText]
      · rw [fill_of_front hh e, List.drop_left, List.take_append_of_le_length hle, fill_ofText]
    | @back x' y' e' =>
      have hfill : ∀ u, f.fill u = x ++ (((f.behind hh e hy).keep e').fill u ++ y') := by
        intro u
        rw [fill_behind hh e hy, fill_keep (f := f.behind hh e hy) e']
      have hlength : ∀ u, (f.front ++ (f.middle u ++ x')).length - x.length =
          (((f.behind hh e hy).keep e').fill u).length := by
        intro u
        have hsum := congrArg List.length ((fill_of_back e' u).symm.trans (hfill u))
        simp only [List.length_append] at hsum ⊢
        omega
      refine ⟨(f.behind hh e hy).keep e', ?_, ?_⟩
      · rw [hlength v, hfill v, List.drop_left, List.take_left]
      · rw [hlength w, hfill w, List.drop_left, List.take_left]
  | @back x y e =>
    cases h' with
    | @front x' y' _ e' _ =>
      have hle : x'.length ≤ f.front.length := by
        rw [e', List.length_append]
        omega
      refine ⟨ofText [], ?_, ?_⟩
      · rw [Nat.sub_eq_zero_of_le (by rw [List.length_append]; omega), List.take_zero, fill_ofText]
      · rw [Nat.sub_eq_zero_of_le (by rw [List.length_append]; omega), List.take_zero, fill_ofText]
    | @back x' y' _ =>
      have hsub : ∀ u : List Char, (f.front ++ (u ++ x')).length - (f.front ++ (u ++ x)).length =
          x'.length - x.length := by
        intro u
        simp only [List.length_append]
        omega
      refine ⟨ofText (y.take (x'.length - x.length)), ?_, ?_⟩
      · rw [fill_of_back e, List.drop_left, hsub, fill_ofText]
      · rw [fill_of_back e, List.drop_left, hsub, fill_ofText]

/-- Two pieces that fill the frame. -/
structure Pair (f : Frame) (v w : List Char) (p p' : Piece) : Prop where
  left : p.chars = f.fill v
  right : p'.chars = f.fill w

end Frame

/-- Two pieces that fill one frame. -/
def Twins (v w : List Char) (p p' : Piece) : Prop :=
  ∃ f : Frame, f.Pair v w p p'

section

variable {f : Frame} {v w : List Char} {p p' : Piece}

theorem Frame.Pair.isEmpty (h : f.Pair v w p p') : p.isEmpty = p'.isEmpty := by
  rw [Bool.eq_iff_iff, Piece.isEmpty_iff, Piece.isEmpty_iff, h.left, h.right, Frame.fill_eq_nil_iff,
    Frame.fill_eq_nil_iff]

theorem Twins.isEmpty (h : Twins v w p p') : p.isEmpty = p'.isEmpty := by
  obtain ⟨f, h⟩ := h
  exact h.isEmpty

/-- What is cut out of twins between pairs of positions are twins. -/
theorem Frame.Pair.cut {i j i' j' : Nat} (h : f.Pair v w p p') (hi : f.Meets v w i j)
    (hj : f.Meets v w i' j') : Twins v w (p.cut i i') (p'.cut j j') := by
  obtain ⟨g, hg, hg'⟩ := Frame.exists_slice hi hj
  obtain ⟨t, ht⟩ := g.exists_trim
  refine ⟨t, ?_, ?_⟩
  · rw [Piece.cut, Piece.slice, h.left, hg, ht]
  · rw [Piece.cut, Piece.slice, h.right, hg', ht]

theorem Frame.Pair.meets_length (h : f.Pair v w p p') : f.Meets v w p.length p'.length := by
  rw [Piece.length, Piece.length, h.left, h.right]
  exact f.meets_length v w

theorem Frame.Pair.rest {i j : Nat} (h : f.Pair v w p p') (hi : f.Meets v w i j) :
    Twins v w (p.rest i) (p'.rest j) :=
  h.cut hi h.meets_length

end

/-! ## Outlines -/

namespace Frame

/-- Two sites at the same place of a frame. -/
structure Alike (f : Frame) (v w : List Char) (s s' : Site) : Prop where
  meets : f.Meets v w s.index s'.index
  depth : s.depth = s'.depth
  before : s.before = s'.before
  char : s.char = s'.char
  left : s.here = (f.fill v).drop s.index
  right : s'.here = (f.fill w).drop s'.index

/-- The sites of two outlines are alike, and so are their ends. -/
structure Outlined (f : Frame) (v w : List Char) (o o' : Outline) : Prop where
  sites : List.Forall₂ (f.Alike v w) o.sites o'.sites
  terminated : o.unterminated? = none ↔ o'.unterminated? = none
  closed : o.unclosed? = none ↔ o'.unclosed? = none

/-- Two places that differ only in their positions. -/
structure Level (p p' : Place) : Prop where
  depth : p.depth = p'.depth
  before : p.before = p'.before
  mode : p.quoting.mode = p'.quoting.mode

variable {f : Frame} {v w : List Char}

theorem sites_back {x y : List Char} (e : f.back = x ++ y) {p p' : Place} (h : Level p p')
    (hp : p.index = (f.front ++ (f.middle v ++ x)).length)
    (hp' : p'.index = (f.front ++ (f.middle w ++ x)).length) :
    List.Forall₂ (f.Alike v w) (sitesFrom p y) (sitesFrom p' y) ∧
      (p.advance y).depth = (p'.advance y).depth ∧
      (p.advance y).quoting.mode = (p'.advance y).quoting.mode := by
  let b : Place := { p with index := 0 }
  have hb : b.Shift p.index 0 p := ⟨(Nat.zero_add _).symm, rfl, rfl⟩
  have hb' : b.Shift p'.index 0 p' := ⟨(Nat.zero_add _).symm, h.depth.symm, h.mode.symm⟩
  obtain ⟨hs, ha⟩ := sitesFrom_shift hb rfl (x := y) (.inl rfl)
  obtain ⟨hs', ha'⟩ := sitesFrom_shift hb' h.before.symm (x := y) (.inl rfl)
  refine ⟨?_, by rw [ha.depth, ha'.depth], by rw [ha.mode, ha'.mode]⟩
  rw [hs, hs', List.forall₂_map_left_iff, List.forall₂_map_right_iff, List.forall₂_same]
  intro s hmem
  obtain ⟨u, c, r, rfl, -, rfl⟩ := mem_sitesFrom.1 hmem
  have hback : f.back = (x ++ u) ++ c :: r := by rw [e, List.append_assoc]
  have hindex : ((b.advance u).site c r).index = u.length := by
    have := Place.advance_index b u
    rw [Place.site, this]
    exact Nat.zero_add _
  have hposition : ∀ z : List Char, u.length + (f.front ++ (z ++ x)).length =
      (f.front ++ (z ++ (x ++ u))).length := by
    intro z
    simp only [List.length_append]
    omega
  refine ⟨?_, rfl, rfl, rfl, ?_, ?_⟩
  · rw [Site.shift, Site.shift, hindex, hp, hp']
    dsimp only
    rw [hposition, hposition]
    exact .back hback
  · rw [Site.shift, hindex, hp]
    dsimp only
    rw [hposition, fill_of_back hback, List.drop_left]
    rfl
  · rw [Site.shift, hindex, hp']
    dsimp only
    rw [hposition, fill_of_back hback, List.drop_left]
    rfl

/-- In front of the hole, the walk is ready for the literal. -/
theorem fresh_quote {x y : List Char} (e : f.front = x ++ y) (hy : Skimmed y) (i : Nat)
    (b : Option Char) (u : List Char) : ((Place.start i b).advance y).Fresh (Literal.quote u) := by
  have hclear : ((Place.start i b).advance y).Clear :=
    Place.clear_advance (Place.clear_start i b)
      ((terminated_iff_skimmed (Place.fresh_start i b y)).2 hy)
  refine ⟨hclear, fun c hc hmode => ?_⟩
  cases hc
  by_cases hnil : y = []
  · rw [hnil] at hmode
    cases hmode
  · apply f.opens
    rw [e, List.getLast?_append, Place.getLast?_of_closed hnil hmode, Option.some_or]

theorem sites_front (hh : f.hasHole = true) {x y : List Char} (e : f.front = x ++ y)
    (hy : Skimmed y) (b : Option Char) :
    List.Forall₂ (f.Alike v w) (sitesFrom (.start x.length b) (y ++ (Literal.quote v ++ f.back)))
        (sitesFrom (.start x.length b) (y ++ (Literal.quote w ++ f.back))) ∧
      ((Place.start x.length b).advance (y ++ (Literal.quote v ++ f.back))).depth =
        ((Place.start x.length b).advance (y ++ (Literal.quote w ++ f.back))).depth ∧
      ((Place.start x.length b).advance (y ++ (Literal.quote v ++ f.back))).quoting.mode =
        ((Place.start x.length b).advance (y ++ (Literal.quote w ++ f.back))).quoting.mode := by
  let p : Place := (Place.start x.length b).advance y
  obtain ⟨hs, hq, hd⟩ := advance_quote (fresh_quote e hy x.length b v)
  obtain ⟨hs', hq', hd'⟩ := advance_quote (fresh_quote e hy x.length b w)
  have hindex :
      ∀ u, (p.advance (Literal.quote u)).index = (f.front ++ (f.middle u ++ [])).length := by
    intro u
    rw [Place.advance_index, Place.advance_index, middle_of_hole hh, e]
    simp only [List.length_append, List.length_nil, Place.start]
    omega
  have hbefore : ∀ u, (p.advance (Literal.quote u)).before = some '\'' := by
    intro u
    rw [Place.advance_before, Literal.getLast?_quote, Option.some_or]
  have hlevel : Level (p.advance (Literal.quote v)) (p.advance (Literal.quote w)) :=
    ⟨by rw [hd, hd'], by rw [hbefore, hbefore], by rw [hq, hq']⟩
  obtain ⟨hback, hdepth, hmode⟩ := sites_back (x := []) rfl hlevel (hindex v) (hindex w)
  simp only [Place.advance_append, sitesFrom_append, hs, hs', List.map_nil, List.nil_append]
  refine ⟨List.rel_append ?_ hback, hdepth, hmode⟩
  -- the sites in front of the hole are the same ones, with other texts behind them
  rw [List.forall₂_map_left_iff, List.forall₂_map_right_iff, List.forall₂_same]
  intro s hmem
  obtain ⟨u, c, r, rfl, ho, rfl⟩ := mem_sitesFrom.1 hmem
  have hfront : f.front = (x ++ u) ++ c :: r := by rw [e, List.append_assoc]
  have hposition : (((Place.start x.length b).advance u).site c r).index = (x ++ u).length := by
    rw [Place.site, Place.advance_index, List.length_append]
    rfl
  refine ⟨?_, rfl, rfl, rfl, ?_, ?_⟩
  · rw [Site.extend_index, Site.extend_index, hposition]
    exact .front hh hfront (hy.of_isOutside ho)
  · rw [Site.extend_index, hposition, fill_of_front hh hfront, List.drop_left]
    rfl
  · rw [Site.extend_index, hposition, fill_of_front hh hfront, List.drop_left]
    rfl

theorem outlined_of_level {o o' : Outline} {p p' : Place} {r r' : List Char}
    (ho : o = .ofPlace p r) (ho' : o' = .ofPlace p' r')
    (hs : List.Forall₂ (f.Alike v w) (sitesFrom p r) (sitesFrom p' r'))
    (hd : (p.advance r).depth = (p'.advance r').depth)
    (hm : (p.advance r).quoting.mode = (p'.advance r').quoting.mode) : f.Outlined v w o o' := by
  subst ho ho'
  refine ⟨hs, ?_, ?_⟩
  · show (p.advance r).unterminated? = none ↔ (p'.advance r').unterminated? = none
    rw [Place.unterminated?_eq_none_iff, Place.unterminated?_eq_none_iff, hm]
  · show (p.advance r).unclosed? = none ↔ (p'.advance r').unclosed? = none
    rw [Place.unclosed?, Place.unclosed?, hd]
    split
    · exact Iff.rfl
    · exact ⟨nofun, nofun⟩

/-- From a pair of positions on, twins have the same outline. -/
theorem Pair.outlineFrom {p p' : Piece} (h : f.Pair v w p p') {i j : Nat} (hi : f.Meets v w i j) :
    f.Outlined v w (p.outlineFrom i) (p'.outlineFrom j) := by
  cases hi with
  | @front x y hh e hy =>
    obtain ⟨hs, hd, hm⟩ := sites_front (v := v) (w := w) hh e hy x.getLast?
    exact outlined_of_level (Piece.outlineFrom_of_eq (h.left.trans (fill_of_front hh e v)) rfl)
      (Piece.outlineFrom_of_eq (h.right.trans (fill_of_front hh e w)) rfl) hs hd hm
  | @back x y e =>
    have hlevel :
        Level (.start (f.front ++ (f.middle v ++ x)).length (f.front ++ (f.middle v ++ x)).getLast?)
        (.start (f.front ++ (f.middle w ++ x)).length (f.front ++ (f.middle w ++ x)).getLast?) :=
      ⟨rfl, f.getLast?_back v w x, rfl⟩
    obtain ⟨hs, hd, hm⟩ := sites_back e hlevel rfl rfl
    exact outlined_of_level (Piece.outlineFrom_of_eq (h.left.trans (fill_of_back e v)) rfl)
      (Piece.outlineFrom_of_eq (h.right.trans (fill_of_back e w)) rfl) hs hd hm

end Frame

end TableQuery
