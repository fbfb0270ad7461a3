import TableQuery.Outline
import TableQuery.Proofs.Trim

/-!
# Sites of assembled texts

A statement is put together from parts, and its outline from the outlines of the parts: the sites of
`x ++ y` are those of `x`, with `y` behind them, followed by those of `y` at the place behind `x`
(`sitesFrom_append`). What a place does to the sites of the text that it stands in front of is a
shift of their positions and depths (`sitesFrom_shift`), as long as no parenthesis closes that the
text itself did not open.

A text is `Sound` when its literals end and it closes no parenthesis which it has not opened, and
`Balanced` when it also closes all that it opens. Walking over a sound text from outside literals
adds its own depth to the depth of the place and ends outside literals (`Sound.advance`).
-/

namespace TableQuery

open Text Outline

/-! ## Quotes -/

namespace Literal

theorem isQuote_iff {c : Char} : isQuote c = true ↔ c = '\'' ∨ c = '"' := by
  simp [isQuote]

/-- A property that neither quote has excludes quotes. -/
theorem isQuote_eq_false_of (P : Char → Prop) {c : Char} (h : P c) (hsingle : ¬P '\'')
    (hdouble : ¬P '"') :
    isQuote c = false := by
  rw [Bool.eq_false_iff]
  intro hq
  rcases isQuote_iff.1 hq with rfl | rfl
  · exact hsingle h
  · exact hdouble h

end Literal

namespace Quoting

/-- The quote of a literal, and whether the literal is still open. -/
def mode : Quoting → Option (Char × Bool)
  | outside => none
  | inside q _ => some (q, true)
  | closed q _ => some (q, false)

end Quoting

/-! ## Steps of the walk -/

namespace Place

/-- The site of a character that stands at the place. -/
def site (p : Place) (c : Char) (after : List Char) : Site :=
  ⟨p.index, p.depth, p.before, c, after⟩

/-- No literal is open at the place. -/
structure Clear (p : Place) : Prop where
  /-- A literal that has been left was one. -/
  proper : ∀ q b, p.quoting.mode = some (q, b) → Literal.isQuote q = true
  terminated : p.unterminated? = none

@[simp] theorem next_index (p : Place) (c : Char) : (p.next c).index = p.index + 1 := by
  unfold next
  split
  · rfl
  · rfl
  · split <;> rfl

@[simp] theorem next_before (p : Place) (c : Char) : (p.next c).before = some c := by
  unfold next
  split
  · rfl
  · rfl
  · split <;> rfl

theorem next_withBefore (p : Place) (b : Option Char) (c : Char) :
    ({ p with before := b } : Place).next c = p.next c := rfl

theorem advance_index (p : Place) (cs : List Char) :
    (p.advance cs).index = p.index + cs.length := by
  induction cs generalizing p with
  | nil => rfl
  | cons c r ih =>
    rw [advance_cons, ih, next_index, List.length_cons]
    omega

theorem advance_before (p : Place) (cs : List Char) :
    (p.advance cs).before = cs.getLast?.or p.before := by
  induction cs generalizing p with
  | nil => rfl
  | cons c r ih =>
    rw [advance_cons, ih, next_before]
    cases r with
    | nil => rfl
    | cons d r =>
      obtain ⟨e, he⟩ := Option.isSome_iff_exists.1 (List.getLast?_isSome.2 (List.cons_ne_nil d r))
      rw [List.getLast?_cons_cons, he, Option.some_or, Option.some_or]

theorem index_advance_start (u : List Char) : ((start 0 none).advance u).index = u.length := by
  rw [advance_index]
  exact Nat.zero_add _

/-- A site follows a blank if the text in front of it ends in one. -/
theorem followsBlank_site {u : List Char} {c : Char} {r : List Char} :
    (((start 0 none).advance u).site c r).followsBlank = true ↔
      ∃ d ∈ u.getLast?, isBlank d = true := by
  simp [Site.followsBlank, site, advance_before, start, Option.any_eq_true]

theorem next_of_outside {p : Place} (h : p.quoting = .outside) (c : Char) :
    p.next c = p.pass c := by
  unfold next
  rw [h]

theorem isOutside_of_clear {p : Place} (h : p.Clear) {c : Char} (hc : Literal.isQuote c = false) :
    p.isOutside c = true := by
  unfold isOutside
  split
  · rename_i e
    have := h.terminated
    simp [unterminated?, e] at this
  · simp [hc]

theorem clear_of_outside {p : Place} (h : p.quoting = .outside) : p.Clear := by
  constructor
  · intro q b e
    rw [h] at e
    cases e
  · rw [unterminated?, h]

theorem clear_start (i : Nat) (b : Option Char) : (start i b).Clear :=
  clear_of_outside rfl

/-- A site stands outside literals, so that none is open in front of it and it opens none. -/
theorem terminated_of_isOutside {p : Place} {c : Char} (h : p.isOutside c = true) :
    p.unterminated? = none := by
  unfold isOutside at h
  unfold unterminated?
  split at h
  · cases h
  · rfl

theorem not_isQuote_of_isOutside {p : Place} {c : Char} (h : p.isOutside c = true) :
    Literal.isQuote c = false := by
  unfold isOutside at h
  split at h
  · cases h
  · simpa using h

theorem proper_next {p : Place} (h : ∀ q b, p.quoting.mode = some (q, b) → Literal.isQuote q = true)
    (c : Char) : ∀ q b, (p.next c).quoting.mode = some (q, b) → Literal.isQuote q = true := by
  intro q b e
  have hpass : ∀ q b, (p.pass c).quoting.mode = some (q, b) → Literal.isQuote q = true := by
    intro q b e
    simp only [pass] at e
    split at e
    · rename_i hc
      cases e
      exact hc
    · cases e
  unfold next at e
  split at e
  · exact hpass q b e
  · rename_i q' i e'
    have hq := h q' true (by rw [e']; rfl)
    simp only [stay] at e
    split at e <;> (cases e; exact hq)
  · rename_i q' i e'
    have hq := h q' false (by rw [e']; rfl)
    split at e
    · cases e
      exact hq
    · exact hpass q b e

theorem proper_advance {p : Place}
    (h : ∀ q b, p.quoting.mode = some (q, b) → Literal.isQuote q = true) (cs : List Char) :
    ∀ q b, (p.advance cs).quoting.mode = some (q, b) → Literal.isQuote q = true := by
  induction cs generalizing p with
  | nil => exact h
  | cons c r ih => exact ih (proper_next h c)

/-- From outside literals, a walk that ends with no open literal ends at a clear place. -/
theorem clear_advance {p : Place} (h : p.Clear) {cs : List Char}
    (ht : (p.advance cs).unterminated? = none) : (p.advance cs).Clear :=
  ⟨proper_advance h.proper cs, ht⟩

theorem pass_quoting {c : Char} (p : Place) (hc : Literal.isQuote c = false) :
    (p.pass c).quoting = .outside := by
  simp [pass, hc]

end Place

/-! ## Sites of a text in front of another -/

namespace Site

/-- The site when more text follows. -/
def extend (s : Site) (more : List Char) : Site :=
  { s with after := s.after ++ more }

/-- The site moved by `k` positions and into `d` more parentheses. -/
def shift (k d : Nat) (s : Site) : Site :=
  { s with index := s.index + k, depth := s.depth + d }

@[simp] theorem extend_nil (s : Site) : s.extend [] = s := by
  simp [extend]

theorem extend_extend (s : Site) (x y : List Char) : (s.extend x).extend y = s.extend (x ++ y) := by
  simp [extend]

@[simp] theorem extend_index (s : Site) (more : List Char) : (s.extend more).index = s.index := rfl

@[simp] theorem extend_depth (s : Site) (more : List Char) : (s.extend more).depth = s.depth := rfl

@[simp] theorem extend_char (s : Site) (more : List Char) : (s.extend more).char = s.char := rfl

@[simp] theorem extend_before (s : Site) (more : List Char) :
    (s.extend more).before = s.before := rfl

@[simp] theorem extend_here (s : Site) (more : List Char) :
    (s.extend more).here = s.here ++ more := rfl

@[simp] theorem extend_isTop (s : Site) (more : List Char) (c : Char) :
    (s.extend more).isTop c = s.isTop c := rfl

end Site

namespace Outline

theorem sitesFrom_cons_of_outside {p : Place} {c : Char} (h : p.isOutside c = true)
    (r : List Char) : sitesFrom p (c :: r) = p.site c r :: sitesFrom (p.next c) r := by
  rw [sitesFrom, if_pos h]
  rfl

theorem sitesFrom_cons_of_inside {p : Place} {c : Char} (h : p.isOutside c = false)
    (r : List Char) : sitesFrom p (c :: r) = sitesFrom (p.next c) r := by
  rw [sitesFrom, if_neg (by simp [h])]

theorem sitesFrom_append (p : Place) (x y : List Char) :
    sitesFrom p (x ++ y) = (sitesFrom p x).map (·.extend y) ++ sitesFrom (p.advance x) y := by
  induction x generalizing p with
  | nil => rfl
  | cons c r ih =>
    rw [List.cons_append, Place.advance_cons]
    cases h : p.isOutside c with
    | true =>
      rw [sitesFrom_cons_of_outside h, sitesFrom_cons_of_outside h, ih]
      rfl
    | false => rw [sitesFrom_cons_of_inside h, sitesFrom_cons_of_inside h, ih]

theorem forall_sitesFrom_append {P : Site → Prop} {p : Place} {x y : List Char} :
    (∀ s ∈ sitesFrom p (x ++ y), P s) ↔
      (∀ s ∈ sitesFrom p x, P (s.extend y)) ∧ ∀ s ∈ sitesFrom (p.advance x) y, P s := by
  rw [sitesFrom_append, List.forall_mem_append, List.forall_mem_map]

/-- The sites of a text are its characters outside literals, each seen from the place in front of
it. -/
theorem mem_sitesFrom {p : Place} {x : List Char} {s : Site} :
    s ∈ sitesFrom p x ↔
      ∃ u c r, x = u ++ c :: r ∧ (p.advance u).isOutside c = true ∧ s = (p.advance u).site c r := by
  constructor
  · intro h
    induction x generalizing p with
    | nil => cases h
    | cons c r ih =>
      have step : s ∈ sitesFrom (p.next c) r →
          ∃ u d t, c :: r = u ++ d :: t ∧ (p.advance u).isOutside d = true ∧
            s = (p.advance u).site d t := by
        intro hs
        obtain ⟨u, d, t, rfl, ho, e⟩ := ih hs
        exact ⟨c :: u, d, t, rfl, ho, e⟩
      cases ho : p.isOutside c with
      | true =>
        rw [sitesFrom_cons_of_outside ho] at h
        rcases List.mem_cons.1 h with rfl | h
        · exact ⟨[], c, r, rfl, ho, rfl⟩
        · exact step h
      | false =>
        rw [sitesFrom_cons_of_inside ho] at h
        exact step h
  · rintro ⟨u, c, r, rfl, ho, rfl⟩
    rw [sitesFrom_append, sitesFrom_cons_of_outside ho]
    exact List.mem_append_right _ List.mem_cons_self

theorem index_of_mem_sitesFrom {p : Place} {x : List Char} {s : Site} (h : s ∈ sitesFrom p x) :
    p.index ≤ s.index ∧ s.index < p.index + x.length := by
  obtain ⟨u, c, r, rfl, -, rfl⟩ := mem_sitesFrom.1 h
  simp only [Place.site, Place.advance_index, List.length_append, List.length_cons]
  omega

/-- Sites are listed in the order in which they stand in the text. -/
theorem pairwise_sitesFrom (p : Place) (x : List Char) :
    (sitesFrom p x).Pairwise fun s t => s.index < t.index := by
  induction x generalizing p with
  | nil => exact .nil
  | cons c r ih =>
    cases h : p.isOutside c with
    | true =>
      rw [sitesFrom_cons_of_outside h]
      refine .cons (fun t ht => ?_) (ih (p.next c))
      have := (index_of_mem_sitesFrom ht).1
      rw [Place.next_index] at this
      exact this
    | false =>
      rw [sitesFrom_cons_of_inside h]
      exact ih (p.next c)

/-- The first site at which a search succeeds divides the text: it fails everywhere in front. -/
theorem exists_of_findSome? {α : Type} {f : Site → Option α} {p : Place} {x : List Char} {a : α}
    (h : (sitesFrom p x).findSome? f = some a) :
    ∃ u c r, x = u ++ c :: r ∧ (p.advance u).isOutside c = true ∧
      f ((p.advance u).site c r) = some a ∧ ∀ s ∈ sitesFrom p u, f (s.extend (c :: r)) = none := by
  induction x generalizing p with
  | nil => cases h
  | cons c r ih =>
    have step : (sitesFrom (p.next c) r).findSome? f = some a →
        (p.isOutside c = true → f (p.site c r) = none) →
        ∃ u d t, c :: r = u ++ d :: t ∧ (p.advance u).isOutside d = true ∧
          f ((p.advance u).site d t) = some a ∧
          ∀ s ∈ sitesFrom p u, f (s.extend (d :: t)) = none := by
      intro hf hn
      obtain ⟨u, d, t, rfl, ho, e, hu⟩ := ih hf
      refine ⟨c :: u, d, t, rfl, ho, e, ?_⟩
      cases hc : p.isOutside c with
      | true =>
        rw [sitesFrom_cons_of_outside hc]
        exact List.forall_mem_cons.2 ⟨hn hc, hu⟩
      | false =>
        rw [sitesFrom_cons_of_inside hc]
        exact hu
    cases hc : p.isOutside c with
    | true =>
      rw [sitesFrom_cons_of_outside hc] at h
      cases hf : f (p.site c r) with
      | some b =>
        rw [List.findSome?_cons_of_isSome (by simp [hf]), hf] at h
        exact ⟨[], c, r, rfl, hc, by rw [← h, ← hf]; rfl, fun s hs => by cases hs⟩
      | none =>
        rw [List.findSome?_cons_of_isNone (by simp [hf])] at h
        exact step h fun _ => hf
    | false =>
      rw [sitesFrom_cons_of_inside hc] at h
      exact step h fun ho => by rw [hc] at ho; cases ho

/-- A search that fails at all sites of `x` goes on behind `x`. -/
theorem findSome?_append_of_none {α : Type} {f : Site → Option α} {p : Place} {x y : List Char}
    (h : ∀ s ∈ sitesFrom p x, f (s.extend y) = none) :
    (sitesFrom p (x ++ y)).findSome? f = (sitesFrom (p.advance x) y).findSome? f := by
  rw [sitesFrom_append, List.findSome?_append]
  have e : ((sitesFrom p x).map (·.extend y)).findSome? f = none := by
    rw [List.findSome?_eq_none_iff]
    intro s hs
    obtain ⟨t, ht, rfl⟩ := List.mem_map.1 hs
    exact h t ht
  rw [e, Option.none_or]

theorem filterMap_append_of_none {α : Type} {f : Site → Option α} {p : Place} {x y : List Char}
    (h : ∀ s ∈ sitesFrom p x, f (s.extend y) = none) :
    (sitesFrom p (x ++ y)).filterMap f = (sitesFrom (p.advance x) y).filterMap f := by
  rw [sitesFrom_append, List.filterMap_append]
  have e : ((sitesFrom p x).map (·.extend y)).filterMap f = [] := by
    rw [List.filterMap_eq_nil_iff]
    intro s hs
    obtain ⟨t, ht, rfl⟩ := List.mem_map.1 hs
    exact h t ht
  rw [e, List.nil_append]

end Outline

/-! ## Shifted places -/

namespace Place

/-- The place `p'` stands `k` positions behind `p` and in `d` more parentheses, and both stand alike
with respect to literals. -/
structure Shift (k d : Nat) (p p' : Place) : Prop where
  index : p'.index = p.index + k
  depth : p'.depth = p.depth + d
  mode : p'.quoting.mode = p.quoting.mode

theorem isOutside_eq (p : Place) (c : Char) :
    p.isOutside c = (!p.quoting.mode.any (·.2) && !Literal.isQuote c) := by
  unfold isOutside
  cases h : p.quoting <;> rfl

theorem unterminated?_eq_none_iff {p : Place} :
    p.unterminated? = none ↔ p.quoting.mode.any (·.2) = false := by
  unfold unterminated?
  cases h : p.quoting <;> simp [Quoting.mode]

theorem Shift.isOutside {k d : Nat} {p p' : Place} (h : Shift k d p p') (c : Char) :
    p'.isOutside c = p.isOutside c := by
  rw [isOutside_eq, isOutside_eq, h.mode]

theorem Shift.terminated {k d : Nat} {p p' : Place} (h : Shift k d p p') :
    p'.unterminated? = none ↔ p.unterminated? = none := by
  rw [unterminated?_eq_none_iff, unterminated?_eq_none_iff, h.mode]

theorem Shift.pass {k d : Nat} {p p' : Place} (h : Shift k d p p') {c : Char}
    (hc : d = 0 ∨ (c = ')' → p.depth ≠ 0)) : Shift k d (p.pass c) (p'.pass c) := by
  have hi := h.index
  have hd := h.depth
  refine ⟨?_, ?_, ?_⟩
  · simp only [Place.pass]
    omega
  · simp only [Place.pass]
    split
    · omega
    · split
      · rename_i e
        rcases hc with rfl | hc
        · omega
        · have := hc e
          omega
      · exact hd
  · simp only [Place.pass]
    split <;> rfl

/-- One step keeps two places apart as they are, unless a parenthesis closes that only the outer
place has opened. -/
theorem Shift.next {k d : Nat} {p p' : Place} (h : Shift k d p p') {c : Char}
    (hc : d = 0 ∨ (p.isOutside c = true → c = ')' → p.depth ≠ 0)) :
    Shift k d (p.next c) (p'.next c) := by
  have hpass : (∀ q i, p.quoting ≠ .inside q i) → Shift k d (p.pass c) (p'.pass c) := by
    intro hq
    apply h.pass
    rcases hc with rfl | hc
    · exact .inl rfl
    · right
      intro e
      apply hc _ e
      unfold Place.isOutside
      split
      · rename_i e'
        exact absurd e' (hq _ _)
      · rw [e]
        rfl
  have hi := h.index
  have hd := h.depth
  have hm := h.mode
  unfold Place.next
  cases e : p.quoting with
  | outside =>
    cases e' : p'.quoting with
    | outside => exact hpass fun q i => by rw [e]; exact Quoting.noConfusion
    | inside q i => rw [e, e'] at hm; cases hm
    | closed q i => rw [e, e'] at hm; cases hm
  | inside q i =>
    cases e' : p'.quoting with
    | outside => rw [e, e'] at hm; cases hm
    | closed q i => rw [e, e'] at hm; cases hm
    | inside q' i' =>
      rw [e, e'] at hm
      cases hm
      refine ⟨?_, hd, ?_⟩
      · simp only [stay]
        omega
      · simp only [stay]
        split <;> rfl
  | closed q i =>
    cases e' : p'.quoting with
    | outside => rw [e, e'] at hm; cases hm
    | inside q i => rw [e, e'] at hm; cases hm
    | closed q' i' =>
      rw [e, e'] at hm
      cases hm
      simp only
      split
      · refine ⟨?_, hd, rfl⟩
        simp only [stay]
        omega
      · exact hpass fun q i => by rw [e]; exact Quoting.noConfusion

end Place

namespace Outline

/-- The sites of a text seen from a shifted place. -/
theorem sitesFrom_shift {k d : Nat} {p p' : Place} (h : p.Shift k d p') (hb : p'.before = p.before)
    {x : List Char} (ho : d = 0 ∨ ∀ s ∈ sitesFrom p x, s.isTop ')' = false) :
    sitesFrom p' x = (sitesFrom p x).map (Site.shift k d) ∧
      (p.advance x).Shift k d (p'.advance x) := by
  induction x generalizing p p' with
  | nil => exact ⟨rfl, h⟩
  | cons c r ih =>
    rw [Place.advance_cons, Place.advance_cons]
    have hb' : (p'.next c).before = (p.next c).before := by
      rw [Place.next_before, Place.next_before]
    cases hc : p.isOutside c with
    | true =>
      have hc' : p'.isOutside c = true := by rw [h.isOutside, hc]
      rw [sitesFrom_cons_of_outside hc, sitesFrom_cons_of_outside hc']
      rw [sitesFrom_cons_of_outside hc, List.forall_mem_cons] at ho
      have hstep : d = 0 ∨ (p.isOutside c = true → c = ')' → p.depth ≠ 0) := by
        refine ho.imp id fun ho _ e hd => ?_
        have := ho.1
        simp [Site.isTop, Place.site, e, hd] at this
      obtain ⟨hs, ha⟩ := ih (h.next hstep) hb' (ho.imp id And.right)
      refine ⟨?_, ha⟩
      rw [hs, List.map_cons]
      congr 1
      simp only [Place.site, Site.shift, h.index, h.depth, hb]
    | false =>
      have hc' : p'.isOutside c = false := by rw [h.isOutside, hc]
      rw [sitesFrom_cons_of_inside hc] at ho ⊢
      rw [sitesFrom_cons_of_inside hc']
      exact ih (h.next (.inr fun e => by rw [hc] at e; cases e)) hb' ho

/-- The character in front of a text is seen only by the first of its characters. -/
theorem sitesFrom_withBefore (p : Place) (b : Option Char) (c : Char) (r : List Char) :
    sitesFrom { p with before := b } (c :: r) =
      (if p.isOutside c then [⟨p.index, p.depth, b, c, r⟩] else []) ++ sitesFrom (p.next c) r := by
  have e : ({ p with before := b } : Place).isOutside c = p.isOutside c := rfl
  rw [sitesFrom, e, Place.next_withBefore]
  split <;> rfl

end Outline

/-! ## Sound and balanced texts -/

/-- The text ends its literals, and closes no parenthesis that it has not opened. -/
structure Sound (x : List Char) : Prop where
  terminated : ((Place.start 0 none).advance x).unterminated? = none
  opened : ∀ s ∈ sitesFrom (.start 0 none) x, s.isTop ')' = false

/-- The text ends its literals and closes exactly the parentheses that it opens. -/
structure Balanced (x : List Char) : Prop extends Sound x where
  closed : ((Place.start 0 none).advance x).depth = 0

/-- The number of parentheses that a text leaves open. -/
def openDepth (x : List Char) : Nat :=
  ((Place.start 0 none).advance x).depth

theorem Balanced.openDepth {x : List Char} (h : Balanced x) : openDepth x = 0 :=
  h.closed

namespace Place

/-- The text is read at the place as if nothing stood in front of it: no literal is open, and the
text does not prolong one that has just been closed. -/
structure Fresh (p : Place) (x : List Char) : Prop where
  clear : p.Clear
  apart : ∀ c ∈ x.head?, p.quoting.mode ≠ some (c, false)

theorem fresh_of_outside {p : Place} (h : p.quoting = .outside) (x : List Char) : p.Fresh x := by
  refine ⟨clear_of_outside h, fun c _ e => ?_⟩
  rw [h] at e
  cases e

theorem Clear.fresh {p : Place} (h : p.Clear) {x : List Char}
    (hx : ∀ c ∈ x.head?, Literal.isQuote c = false) : p.Fresh x := by
  refine ⟨h, fun c hc e => ?_⟩
  have := h.proper c false e
  rw [hx c hc] at this
  cases this

theorem fresh_start (i : Nat) (b : Option Char) (x : List Char) : (start i b).Fresh x :=
  fresh_of_outside rfl x

theorem Fresh.left {p : Place} {x y : List Char} (h : p.Fresh (x ++ y)) : p.Fresh x := by
  cases x with
  | nil => exact ⟨h.clear, fun c hc => by cases hc⟩
  | cons c r => exact ⟨h.clear, h.apart⟩

theorem Fresh.next {p : Place} {c : Char} {r : List Char} (h : p.Fresh (c :: r)) :
    p.next c = p.pass c := by
  unfold Place.next
  split
  · rfl
  · rename_i e
    have := h.clear.terminated
    simp [unterminated?, e] at this
  · rename_i q i e
    rw [if_neg]
    rintro rfl
    exact h.apart c rfl (by rw [e]; rfl)

theorem Fresh.isOutside {p : Place} {c : Char} {r : List Char} (h : p.Fresh (c :: r)) :
    p.isOutside c = !Literal.isQuote c := by
  rw [isOutside_eq, unterminated?_eq_none_iff.1 h.clear.terminated]
  rfl

/-- The place is a shift of the start of a text that is read afresh there, from the second character
on. -/
theorem Fresh.shift_next {p : Place} {c : Char} {r : List Char} (h : p.Fresh (c :: r))
    (b : Option Char) (hc : p.depth = 0 ∨ c ≠ ')') :
    ((start 0 b).next c).Shift p.index p.depth (p.next c) := by
  rw [h.next, next_of_outside rfl]
  refine ⟨?_, ?_, ?_⟩
  · simp only [pass, start]
    omega
  · simp only [pass, start]
    split
    · omega
    · split
      · rename_i e
        rcases hc with hc | hc
        · omega
        · exact absurd e hc
      · omega
  · simp only [pass]
    split <;> rfl

end Place

namespace Outline

theorem forall_sites_withBefore {P : Site → Prop} (hP : ∀ s b, P s → P { s with before := b })
    {i : Nat} {b b' : Option Char} {x : List Char} (h : ∀ s ∈ sitesFrom (.start i b) x, P s) :
    ∀ s ∈ sitesFrom (.start i b') x, P s := by
  cases x with
  | nil => exact fun s hs => by cases hs
  | cons c r =>
    intro s hs
    have hb : sitesFrom (.start i b) (c :: r) =
        (if Place.isOutside (.start i b) c then [⟨i, 0, b, c, r⟩] else []) ++
          sitesFrom (Place.next (.start i b) c) r :=
      sitesFrom_withBefore (.start i b) b c r
    have hb' : sitesFrom (.start i b') (c :: r) =
        (if Place.isOutside (.start i b) c then [⟨i, 0, b', c, r⟩] else []) ++
          sitesFrom (Place.next (.start i b) c) r :=
      sitesFrom_withBefore (.start i b) b' c r
    rw [hb] at h
    rw [hb'] at hs
    rcases List.mem_append.1 hs with hs | hs
    · split at hs
      · rename_i ho
        rw [List.mem_singleton.1 hs]
        rw [if_pos ho] at h
        exact hP _ b' (h _ (List.mem_append_left _ List.mem_cons_self))
      · cases hs
    · exact h s (List.mem_append_right _ hs)

end Outline

theorem Sound.sites {x : List Char} (h : Sound x) (b : Option Char) :
    ∀ s ∈ sitesFrom (.start 0 b) x, s.isTop ')' = false :=
  forall_sites_withBefore (fun _ _ h => h) h.opened

/-- At a place where it is read afresh, a text has the sites that it has on its own, shifted to the
place, and it ends as it ends on its own. -/
theorem sitesFrom_of_fresh {p : Place} {x : List Char} (hp : p.Fresh x)
    (hx : p.depth = 0 ∨ ∀ s ∈ sitesFrom (.start 0 none) x, s.isTop ')' = false) :
    sitesFrom p x = (sitesFrom (.start 0 p.before) x).map (Site.shift p.index p.depth) ∧
      (p.advance x).depth = p.depth + openDepth x ∧
      ((p.advance x).unterminated? = none ↔
        ((Place.start 0 none).advance x).unterminated? = none) := by
  cases x with
  | nil =>
    refine ⟨rfl, rfl, ?_⟩
    rw [Place.advance_nil, hp.clear.terminated]
    simp [Place.unterminated?, Place.start]
  | cons c r =>
    have hx' : p.depth = 0 ∨ ∀ s ∈ sitesFrom (.start 0 p.before) (c :: r), s.isTop ')' = false :=
      hx.imp id fun h => forall_sites_withBefore (fun _ _ h => h) h
    have ho : Place.isOutside (.start 0 p.before) c = p.isOutside c := by
      rw [hp.isOutside]
      rfl
    have hc : p.depth = 0 ∨ c ≠ ')' := by
      refine hx'.imp id ?_
      rintro h rfl
      have e : Place.isOutside (.start 0 p.before) ')' = true := rfl
      rw [sitesFrom_cons_of_outside e] at h
      exact absurd (h _ List.mem_cons_self) (by simp [Site.isTop, Place.site, Place.start])
    have hs := hp.shift_next p.before hc
    have hb : (p.next c).before = (Place.next (.start 0 p.before) c).before := by
      rw [Place.next_before, Place.next_before]
    have hr : p.depth = 0 ∨
        ∀ s ∈ sitesFrom (Place.next (.start 0 p.before) c) r, s.isTop ')' = false := by
      refine hx'.imp id fun h s hs => h s ?_
      rw [sitesFrom]
      split
      · exact List.mem_cons_of_mem _ hs
      · exact hs
    obtain ⟨e, ha⟩ := sitesFrom_shift hs hb hr
    have hstart : ((Place.start 0 none).advance (c :: r)) =
        (Place.next (.start 0 p.before) c).advance r := rfl
    refine ⟨?_, ?_, ?_⟩
    · rw [sitesFrom, sitesFrom, e, ho]
      split
      · rw [List.map_cons]
        congr 1
        simp [Site.shift, Place.start]
      · rfl
    · rw [Place.advance_cons, ha.depth, openDepth, hstart, Nat.add_comm]
    · rw [Place.advance_cons, ha.terminated, hstart]

/-- Walking over a sound text ends outside literals, in as many more parentheses as the text leaves
open. -/
theorem Sound.advance {x : List Char} (h : Sound x) {p : Place} (hp : p.Fresh x) :
    (p.advance x).Clear ∧ (p.advance x).depth = p.depth + openDepth x := by
  obtain ⟨-, hd, ht⟩ := sitesFrom_of_fresh hp (.inr h.opened)
  exact ⟨Place.clear_advance hp.clear (ht.2 h.terminated), hd⟩

theorem Balanced.advance {x : List Char} (h : Balanced x) {p : Place} (hp : p.Fresh x) :
    (p.advance x).Clear ∧ (p.advance x).depth = p.depth := by
  have := h.toSound.advance hp
  rw [h.openDepth, Nat.add_zero] at this
  exact this

/-! ## Putting texts together -/

theorem Sound.append {x y : List Char} (hx : Sound x) (hy : Sound y)
    (h : ((Place.start 0 none).advance x).Fresh y) :
    Sound (x ++ y) ∧ openDepth (x ++ y) = openDepth x + openDepth y := by
  obtain ⟨hs, hd, ht⟩ := sitesFrom_of_fresh h (.inr hy.opened)
  refine ⟨⟨?_, ?_⟩, ?_⟩
  · rw [Place.advance_append, ht]
    exact hy.terminated
  · refine forall_sitesFrom_append.2 ⟨hx.opened, ?_⟩
    rw [hs]
    intro s h'
    obtain ⟨t, ht', rfl⟩ := List.mem_map.1 h'
    have := hy.sites _ t ht'
    simp only [Site.isTop, Bool.and_eq_false_iff, beq_eq_false_iff_ne] at this ⊢
    simp only [Site.shift]
    rcases this with h0 | h0
    · left
      omega
    · exact .inr h0
  · rw [openDepth, Place.advance_append, hd]
    rfl

/-- A text of characters that are neither quotes nor parentheses. -/
def Plain (x : List Char) : Prop :=
  ∀ c ∈ x, Literal.isQuote c = false ∧ c ≠ '(' ∧ c ≠ ')'

instance (x : List Char) : Decidable (Plain x) :=
  inferInstanceAs (Decidable (∀ c ∈ x, _))

theorem Plain.head {x : List Char} (h : Plain x) : ∀ c ∈ x.head?, Literal.isQuote c = false := by
  intro c hc
  exact (h c (List.mem_of_mem_head? hc)).1

theorem Plain.fresh {x : List Char} (h : Plain x) {p : Place} (hp : p.Clear) : p.Fresh x :=
  hp.fresh h.head

theorem Plain.append {x y : List Char} (hx : Plain x) (hy : Plain y) : Plain (x ++ y) := by
  intro c hc
  rcases List.mem_append.1 hc with hc | hc
  · exact hx c hc
  · exact hy c hc

/-- A property that no quote and no parenthesis has excludes them. -/
theorem plainChar_of (P : Char → Prop) {c : Char} (h : P c)
    (hP : ∀ d ∈ ['\'', '"', '(', ')'], ¬P d) :
    Literal.isQuote c = false ∧ c ≠ '(' ∧ c ≠ ')' := by
  simp only [List.forall_mem_cons, List.not_mem_nil, false_imp_iff, implies_true, and_true] at hP
  obtain ⟨hsingle, hdouble, hopen, hclose⟩ := hP
  exact ⟨Literal.isQuote_eq_false_of P h hsingle hdouble, by rintro rfl; exact hopen h,
    by rintro rfl; exact hclose h⟩

theorem plain_of_blank {x : List Char} (h : Blank x) : Plain x :=
  fun c hc => plainChar_of (isBlank · = true) (h c hc) (by decide)

/-- Walking over a plain text only moves on. -/
theorem Plain.advance {x : List Char} (h : Plain x) {p : Place} (hp : p.Clear) :
    (p.advance x).Clear ∧ (p.advance x).depth = p.depth ∧
      (x ≠ [] → (p.advance x).quoting = .outside) := by
  induction x generalizing p with
  | nil => exact ⟨hp, rfl, fun e => absurd rfl e⟩
  | cons c r ih =>
    obtain ⟨hc, hl, hr⟩ := h c List.mem_cons_self
    rw [Place.advance_cons, (h.fresh hp).next]
    have hq := Place.pass_quoting p hc
    have hd : (p.pass c).depth = p.depth := by
      simp only [Place.pass]
      rw [if_neg hl, if_neg hr]
    obtain ⟨h1, h2, h3⟩ :=
      ih (fun d hd => h d (List.mem_cons_of_mem _ hd)) (Place.clear_of_outside hq)
    refine ⟨h1, by rw [h2, hd], fun _ => ?_⟩
    cases r with
    | nil => exact hq
    | cons d r => exact h3 (List.cons_ne_nil d r)

theorem Plain.balanced {x : List Char} (h : Plain x) : Balanced x := by
  obtain ⟨hc, hd, -⟩ := h.advance (Place.clear_start 0 none)
  refine ⟨⟨hc.terminated, ?_⟩, hd⟩
  intro s hs
  obtain ⟨u, c, r, rfl, -, rfl⟩ := mem_sitesFrom.1 hs
  have := (h c (List.mem_append_right _ List.mem_cons_self)).2.2
  simp [Site.isTop, Place.site, this]

end TableQuery
