import TableQuery.ItemList
import TableQuery.Proofs.Search

/-!
# Lists are split at their commas

A list is read exactly if it is a sequence of segments with commas between them: each segment is
balanced, has no comma of its own outside literals and parentheses, and is not blank (`Listed`,
`split_eq_ok_iff`). Reading loses nothing but blanks (`Listed.solid_eq`), and a list that is written
with `", "` between its items is read back (`listed_intercalate`).
-/

namespace TableQuery

open Text Outline

/-- A balanced text without a comma outside literals and parentheses. -/
structure Segment (x : List Char) : Prop extends Balanced x where
  commaFree : ∀ s ∈ sitesFrom (.start 0 none) x, s.isTop ',' = false

/-- A segment that is trimmed and not empty. -/
structure Item (x : List Char) : Prop extends Segment x where
  ne_nil : x ≠ []
  tight : Tight x

instance (x : List Char) : Decidable (Item x) :=
  decidable_of_iff (Balanced x ∧ (∀ s ∈ sitesFrom (.start 0 none) x, s.isTop ',' = false) ∧ x ≠ [] ∧
      Tight x)
    ⟨fun h => ⟨⟨h.1, h.2.1⟩, h.2.2.1, h.2.2.2⟩,
      fun h => ⟨h.toBalanced, h.commaFree, h.ne_nil, h.tight⟩⟩

theorem Item.part {x : List Char} (h : Item x) : Part x :=
  ⟨h.toBalanced, h.ne_nil, h.tight⟩

/-- The text is a list of the given items. -/
def Listed (cs : List Char) (items : List (List Char)) : Prop :=
  ∃ x xs, cs = x ++ xs.flatMap (',' :: ·) ∧ (∀ z ∈ x :: xs, Segment z ∧ trim z ≠ []) ∧
    items = (x :: xs).map trim

/-! ## Segments -/

theorem Segment.sites {x : List Char} (h : Segment x) {p : Place} (hp : p.Fresh x)
    (hd : p.depth = 0) : ∀ s ∈ sitesFrom p x, s.isTop ')' = false ∧ s.isTop ',' = false := by
  rw [(sitesFrom_of_fresh hp (.inl hd)).1, hd]
  intro s hs
  obtain ⟨t, ht, rfl⟩ := List.mem_map.1 hs
  have h₁ := h.toSound.sites p.before t ht
  have h₂ := forall_sites_withBefore (fun _ _ h => h) h.commaFree t ht
  exact ⟨h₁, h₂⟩

theorem segment_of_sites {x : List Char} {p : Place} (hp : p.Fresh x) (hd : p.depth = 0)
    (h : ∀ s ∈ sitesFrom p x, s.isTop ')' = false ∧ s.isTop ',' = false)
    (ht : (p.advance x).unterminated? = none) (hc : (p.advance x).depth = 0) : Segment x := by
  obtain ⟨hs, hdepth, hterm⟩ := sitesFrom_of_fresh hp (.inl hd)
  rw [hs, hd] at h
  have back : ∀ s ∈ sitesFrom (.start 0 p.before) x, s.isTop ')' = false ∧ s.isTop ',' = false :=
    fun s hs' => h (s.shift p.index 0) (List.mem_map.2 ⟨s, hs', rfl⟩)
  refine ⟨⟨⟨hterm.1 ht, ?_⟩, ?_⟩, ?_⟩
  · exact forall_sites_withBefore (fun _ _ h => h) fun s hs' => (back s hs').1
  · rw [hc, hd, Nat.zero_add] at hdepth
    exact hdepth.symm
  · exact forall_sites_withBefore (fun _ _ h => h) fun s hs' => (back s hs').2

theorem isTop_comma_of_blank {p : Place} {b : List Char} (hb : Blank b) :
    ∀ s ∈ sitesFrom p b, s.isTop ',' = false := by
  intro s hs
  obtain ⟨u, c, r, rfl, -, rfl⟩ := mem_sitesFrom.1 hs
  have hne : c ≠ ',' := by
    rintro rfl
    exact absurd (hb ',' (List.mem_append_right _ List.mem_cons_self)) (by decide)
  simp [Site.isTop, Place.site, hne]

/-- Blanks around a segment change nothing. -/
theorem segment_blank_iff {b x b' : List Char} (hb : Blank b) (hb' : Blank b') :
    Segment (b ++ (x ++ b')) ↔ Segment x := by
  have hplain := plain_of_blank hb
  have hplain' := plain_of_blank hb'
  have hs : Seam b (x ++ b') := by
    cases b with
    | nil => exact seam_nil _
    | cons c b => exact (seam_nil _).plain hplain (List.cons_ne_nil c b)
  constructor
  · intro h
    obtain ⟨hsound, hdepth⟩ := sound_of_plain_append_plain hplain hplain' h.toSound
    refine ⟨balanced_iff.2 ⟨hsound, by rw [← hdepth]; exact h.closed⟩, ?_⟩
    have hmid := (forall_sitesFrom_append.1 (forall_sitesFrom_append.1 h.commaFree).2).1
    rw [(sitesFrom_of_fresh hs.fresh.left (.inl hs.depth)).1, hs.depth] at hmid
    refine forall_sites_withBefore (fun _ _ h => h)
      (b := ((Place.start 0 none).advance b).before) fun s hs' => ?_
    exact hmid (s.shift _ 0) (List.mem_map.2 ⟨s, hs', rfl⟩)
  · intro h
    have hback : Balanced (x ++ b') :=
      h.toBalanced.append hplain'.balanced (seam_of_balanced h.toBalanced hplain'.head)
    refine ⟨hplain.balanced.append hback hs,
      forall_sitesFrom_append.2 ⟨?_, forall_sitesFrom_append.2 ⟨?_, ?_⟩⟩⟩
    · exact isTop_comma_of_blank hb
    · exact fun s hs' => (h.sites hs.fresh.left hs.depth s hs').2
    · exact isTop_comma_of_blank hb'

theorem Segment.trim {x : List Char} (h : Segment x) : Segment (trim x) := by
  obtain ⟨b, b', hb, hb', e⟩ := exists_blank_trim_blank x
  rw [e] at h
  exact (segment_blank_iff hb hb').1 h

theorem item_trim {x : List Char} (h : Segment x) (hne : trim x ≠ []) : Item (trim x) :=
  ⟨h.trim, hne, tight_trim x⟩

theorem segment_blank_append_iff {b x : List Char} (hb : Blank b) :
    Segment (b ++ x) ↔ Segment x := by
  have h := segment_blank_iff (x := x) hb blank_nil
  rwa [List.append_nil] at h

/-! ## Lists of segments -/

theorem balanced_flatMap_comma {x : List Char} {xs : List (List Char)}
    (h : ∀ z ∈ x :: xs, Balanced z) :
    Balanced (x ++ xs.flatMap (',' :: ·)) := by
  induction xs generalizing x with
  | nil => simpa using h x List.mem_cons_self
  | cons y ys ih =>
    obtain ⟨hx, hys⟩ := List.forall_mem_cons.1 h
    have hcomma : Plain [','] := by decide
    rw [List.flatMap_cons]
    exact hx.append_plain (m := [',']) hcomma (List.cons_ne_nil _ _) (ih hys)

theorem Listed.balanced {cs : List Char} {items : List (List Char)} (h : Listed cs items) :
    Balanced cs := by
  obtain ⟨x, xs, rfl, hs, -⟩ := h
  exact balanced_flatMap_comma fun z hz => (hs z hz).1.toBalanced

theorem Listed.items {cs : List Char} {items : List (List Char)} (h : Listed cs items) :
    items ≠ [] ∧ ∀ x ∈ items, Item x := by
  obtain ⟨x, xs, -, hs, rfl⟩ := h
  refine ⟨List.cons_ne_nil _ _, fun y hy => ?_⟩
  obtain ⟨z, hz, rfl⟩ := List.mem_map.1 hy
  exact item_trim (hs z hz).1 (hs z hz).2

theorem listed_singleton {x : List Char} (h : Segment x) (hne : trim x ≠ []) : Listed x [trim x] :=
  ⟨x, [], by simp, by simpa using ⟨h, hne⟩, rfl⟩

theorem Listed.cons {x y : List Char} {items : List (List Char)} (h : Segment x) (hne : trim x ≠ [])
    (hy : Listed y items) : Listed (x ++ ',' :: y) (trim x :: items) := by
  obtain ⟨z, zs, rfl, hs, rfl⟩ := hy
  exact ⟨x, z :: zs, by simp, List.forall_mem_cons.2 ⟨⟨h, hne⟩, hs⟩, rfl⟩

/-- Blanks in front of a list belong to its first segment. -/
theorem listed_blank_append_iff {b x : List Char} {items : List (List Char)} (hb : Blank b) :
    Listed (b ++ x) items ↔ Listed x items := by
  constructor
  · rintro ⟨s, ss, e, hs, rfl⟩
    obtain ⟨⟨hseg, hne⟩, hss⟩ := List.forall_mem_cons.1 hs
    rcases List.append_eq_append_iff.1 e with ⟨s, rfl, rfl⟩ | ⟨a, rfl, -⟩
    · rw [trim_blank_append hb] at hne
      refine ⟨s, ss, rfl,
        List.forall_mem_cons.2 ⟨⟨(segment_blank_append_iff hb).1 hseg, hne⟩, hss⟩, ?_⟩
      rw [List.map_cons, List.map_cons, trim_blank_append hb]
    · obtain ⟨c, hc, hcb⟩ := trim_ne_nil_iff.1 hne
      rw [(blank_append.1 hb).1 c hc] at hcb
      cases hcb
  · rintro ⟨s, ss, rfl, hs, rfl⟩
    obtain ⟨⟨hseg, hne⟩, hss⟩ := List.forall_mem_cons.1 hs
    refine ⟨b ++ s, ss, by rw [List.append_assoc], List.forall_mem_cons.2
      ⟨⟨(segment_blank_append_iff hb).2 hseg, by rwa [trim_blank_append hb]⟩, hss⟩, ?_⟩
    rw [List.map_cons, List.map_cons, trim_blank_append hb]

/-- Blanks behind a list belong to its last segment. -/
theorem listed_append_blank_iff {b x : List Char} {items : List (List Char)} (hb : Blank b) :
    Listed (x ++ b) items ↔ Listed x items := by
  have hsegment : ∀ {x}, Segment (x ++ b) ↔ Segment x := segment_blank_iff (b := []) blank_nil hb
  have hcomma : ∀ {y}, b ≠ ',' :: y := by
    rintro y rfl
    exact absurd (hb ',' List.mem_cons_self) (by decide)
  constructor
  · rintro ⟨s, ss, e, hs, rfl⟩
    induction ss generalizing x s with
    | nil =>
      rw [List.flatMap_nil, List.append_nil] at e
      obtain ⟨hseg, hne⟩ := hs s List.mem_cons_self
      rw [← e] at hseg hne ⊢
      rw [trim_append_blank hb] at hne
      rw [List.map_singleton, trim_append_blank hb]
      exact listed_singleton (hsegment.1 hseg) hne
    | cons s' ss ih =>
      obtain ⟨⟨hseg, hne⟩, hss⟩ := List.forall_mem_cons.1 hs
      rw [List.flatMap_cons, List.cons_append] at e
      rcases List.append_eq_append_iff.1 e with ⟨a, -, ha⟩ | ⟨a, rfl, ha⟩
      · -- no comma stands in the blanks
        have hmem : ',' ∈ b := by
          rw [ha]
          exact List.mem_append_right _ List.mem_cons_self
        exact absurd (hb ',' hmem) (by decide)
      · cases a with
        | nil => exact absurd ha.symm hcomma
        | cons c a =>
          obtain ⟨rfl, ha'⟩ := List.cons_eq_cons.1 ha
          exact .cons hseg hne (ih s' ha'.symm hss)
  · rintro ⟨s, ss, rfl, hs, rfl⟩
    induction ss generalizing s with
    | nil =>
      obtain ⟨hseg, hne⟩ := hs s List.mem_cons_self
      rw [List.flatMap_nil, List.append_nil, List.map_singleton, ← trim_append_blank hb s]
      exact listed_singleton (hsegment.2 hseg) (by rwa [trim_append_blank hb])
    | cons s' ss ih =>
      obtain ⟨⟨hseg, hne⟩, hss⟩ := List.forall_mem_cons.1 hs
      have hassoc : s ++ (s' :: ss).flatMap (',' :: ·) ++ b =
          s ++ ',' :: (s' ++ ss.flatMap (',' :: ·) ++ b) := by
        simp
      rw [hassoc]
      exact .cons hseg hne (ih s' hss)

/-- A list is the same with the blanks around it. -/
theorem listed_trim_iff {x : List Char} {items : List (List Char)} :
    Listed (trim x) items ↔ Listed x items := by
  obtain ⟨b, b', hb, hb', e⟩ := exists_blank_trim_blank x
  conv_rhs => rw [e]
  rw [listed_blank_append_iff hb, listed_append_blank_iff hb']

theorem intercalate_comma (b x : List Char) (xs : List (List Char)) :
    (',' :: b).intercalate (x :: xs) = x ++ (xs.map (b ++ ·)).flatMap (',' :: ·) := by
  induction xs generalizing x with
  | nil => simp
  | cons y ys ih =>
    rw [List.intercalate_cons_cons, ih, List.map_cons, List.flatMap_cons]
    simp

theorem intercalate_comma_blank (x : List Char) (xs : List (List Char)) :
    [',', ' '].intercalate (x :: xs) = x ++ (xs.map (' ' :: ·)).flatMap (',' :: ·) :=
  intercalate_comma [' '] x xs

/-- Reading a list keeps all characters that are no blanks. -/
theorem Listed.solid_eq {cs : List Char} {items : List (List Char)} (h : Listed cs items) :
    solid cs = solid ([',', ' '].intercalate items) := by
  obtain ⟨x, xs, rfl, -, rfl⟩ := h
  rw [List.map_cons, intercalate_comma_blank, solid_append, solid_append, solid_trim]
  congr 1
  induction xs with
  | nil => rfl
  | cons y ys ih =>
    rw [List.map_cons, List.map_cons, List.flatMap_cons, List.flatMap_cons, solid_append,
      solid_append, ih]
    congr 1
    have e : ∀ z, solid (',' :: z) = ',' :: solid z := fun z => rfl
    have e' : ∀ z, solid (' ' :: z) = solid z := fun z => rfl
    rw [e, e, e', solid_trim]

/-- Items that are written one behind the other, with a comma and any blanks between them, make a
list of these items. -/
theorem listed_intercalate_of_blank {b : List Char} (hb : Blank b) {items : List (List Char)}
    (hne : items ≠ []) (h : ∀ x ∈ items, Item x) : Listed ((',' :: b).intercalate items) items := by
  obtain ⟨x, xs, rfl⟩ := List.exists_cons_of_ne_nil hne
  obtain ⟨hx, hxs⟩ := List.forall_mem_cons.1 h
  have trim_blank : ∀ z ∈ xs, trim (b ++ z) = z := fun z hz => by
    rw [trim_blank_append hb z, trim_eq_self (hxs z hz).tight]
  refine ⟨x, xs.map (b ++ ·), intercalate_comma b x xs, ?_, ?_⟩
  · refine List.forall_mem_cons.2 ⟨⟨hx.toSegment, ?_⟩, ?_⟩
    · rw [trim_eq_self hx.tight]
      exact hx.ne_nil
    · rw [List.forall_mem_map]
      intro z hz
      refine ⟨(segment_blank_append_iff hb).2 (hxs z hz).toSegment, ?_⟩
      rw [trim_blank z hz]
      exact (hxs z hz).ne_nil
  · rw [List.map_cons, trim_eq_self hx.tight, List.map_map]
    congr 1
    exact (List.map_id xs).symm.trans (List.map_congr_left fun z hz => (trim_blank z hz).symm)

theorem listed_intercalate {items : List (List Char)} (hne : items ≠ []) (h : ∀ x ∈ items, Item x) :
    Listed ([',', ' '].intercalate items) items :=
  listed_intercalate_of_blank (b := [' ']) (by decide) hne h

/-- A list as it is rendered. -/
def listText (l : List String) : List Char :=
  [',', ' '].intercalate (l.map String.toList)

theorem part_listText {l : List String} (hne : l ≠ []) (h : ∀ f ∈ l, Item f.toList) :
    Part (listText l) := by
  refine part_intercalate (by decide) (by decide) (by simpa using hne) ?_
  rw [List.forall_mem_map]
  exact fun f hf => (h f hf).part

theorem listed_listText {l : List String} (hne : l ≠ []) (h : ∀ f ∈ l, Item f.toList) :
    Listed (listText l) (l.map String.toList) :=
  listed_intercalate (by simpa using hne) (List.forall_mem_map.2 h)

/-! ## Reading -/

namespace ItemList

/-- The items of a list from position `first` on, where the given sites stand. -/
def itemsTo (list : Piece) (role : ListRole) (first : Nat) (sites : List Site) :
    Except ParseError (List Piece) := do
  let (items, first) ← itemsFrom list role first sites
  let last ← itemIn list role first list.length
  return items ++ [last]

theorem itemIn_eq_ok_iff {list : Piece} {role : ListRole} {i j : Nat} {piece : Piece} :
    itemIn list role i j = .ok piece ↔ piece = list.cut i j ∧ piece.chars ≠ [] :=
  Piece.nonblank_eq_ok_iff

theorem itemsFrom_append (list : Piece) (role : ListRole) (first : Nat) {l : List Site}
    (h : ∀ s ∈ l, s.isTop ')' = false ∧ s.isTop ',' = false) (l' : List Site) :
    itemsFrom list role first (l ++ l') = itemsFrom list role first l' := by
  induction l with
  | nil => rfl
  | cons s l ih =>
    obtain ⟨⟨h₁, h₂⟩, h⟩ := List.forall_mem_cons.1 h
    rw [List.cons_append, itemsFrom, if_neg (by simp [h₁]), if_neg (by simp [h₂]), ih h]

theorem itemsTo_append (list : Piece) (role : ListRole) (first : Nat) {l : List Site}
    (h : ∀ s ∈ l, s.isTop ')' = false ∧ s.isTop ',' = false) (l' : List Site) :
    itemsTo list role first (l ++ l') = itemsTo list role first l' := by
  rw [itemsTo, itemsFrom_append list role first h, itemsTo]

theorem itemsTo_nil_eq_ok_iff {list : Piece} {role : ListRole} {first : Nat} {items : List Piece} :
    itemsTo list role first [] = .ok items ↔
      ∃ piece, itemIn list role first list.length = .ok piece ∧ items = [piece] := by
  rw [itemsTo, itemsFrom, bind_eq_ok_iff]
  constructor
  · rintro ⟨_, h, h'⟩
    cases h
    obtain ⟨piece, hp, h'⟩ := bind_eq_ok_iff.1 h'
    cases h'
    exact ⟨piece, hp, rfl⟩
  · rintro ⟨piece, hp, rfl⟩
    exact ⟨_, rfl, bind_eq_ok_iff.2 ⟨piece, hp, rfl⟩⟩

theorem itemsTo_comma_eq_ok_iff {list : Piece} {role : ListRole} {first : Nat} {s : Site}
    {l : List Site} {items : List Piece} (hs : s.isTop ',' = true) :
    itemsTo list role first (s :: l) = .ok items ↔
      ∃ piece rest, itemIn list role first s.index = .ok piece ∧
        itemsTo list role (s.index + 1) l = .ok rest ∧ items = piece :: rest := by
  have hn : s.isTop ')' = false := by
    simp only [Site.isTop, Bool.and_eq_true, beq_iff_eq] at hs
    simp [Site.isTop, hs.2]
  rw [itemsTo, itemsFrom, if_neg (by simp [hn]), if_pos hs, bind_eq_ok_iff]
  constructor
  · rintro ⟨_, h, h'⟩
    obtain ⟨piece, hp, h⟩ := bind_eq_ok_iff.1 h
    obtain ⟨⟨front, last⟩, hr, h⟩ := bind_eq_ok_iff.1 h
    cases h
    obtain ⟨piece', hp', h'⟩ := bind_eq_ok_iff.1 h'
    cases h'
    exact ⟨piece, front ++ [piece'], hp,
      bind_eq_ok_iff.2 ⟨_, hr, bind_eq_ok_iff.2 ⟨_, hp', rfl⟩⟩, rfl⟩
  · rintro ⟨piece, rest, hp, hr, rfl⟩
    obtain ⟨⟨front, last⟩, hf, hr⟩ := bind_eq_ok_iff.1 hr
    obtain ⟨piece', hp', hr⟩ := bind_eq_ok_iff.1 hr
    cases hr
    refine ⟨(piece :: front, last), ?_, bind_eq_ok_iff.2 ⟨piece', hp', rfl⟩⟩
    exact bind_eq_ok_iff.2 ⟨piece, hp, bind_eq_ok_iff.2 ⟨(front, last), hf, rfl⟩⟩

theorem itemsTo_close_eq_error {list : Piece} {role : ListRole} {first : Nat} {s : Site}
    {l : List Site} (hs : s.isTop ')' = true) :
    itemsTo list role first (s :: l) = .error (list.faultAt .unexpectedClose s.index) := by
  rw [itemsTo, itemsFrom, if_pos hs]
  rfl

/-- The walk over a list has come to the place behind `u`, with nothing open and with `x` still to
come. -/
structure Reached (list : Piece) (u x : List Char) (p : Place) : Prop where
  chars : list.chars = u ++ x
  index : p.index = u.length
  fresh : p.Fresh x
  depth : p.depth = 0

namespace Reached

variable {list : Piece} {role : ListRole} {u w x r : List Char} {p : Place} {items : List Piece}

theorem start (list : Piece) : Reached list [] list.chars (.start 0 none) :=
  ⟨rfl, rfl, Place.fresh_start 0 none _, rfl⟩

theorem behind_comma (h : Reached list u (w ++ ',' :: r) p) (hw : Segment w) :
    Reached list (u ++ w ++ [',']) r ((p.advance w).next ',') := by
  have hpl : Plain [','] := by decide
  obtain ⟨hclear, hdepth⟩ := hw.toBalanced.advance h.fresh.left
  obtain ⟨-, hdepth', hout⟩ := hpl.advance hclear
  refine ⟨?_, ?_, Place.fresh_of_outside (hout (List.cons_ne_nil _ _)) r, ?_⟩
  · rw [h.chars]
    simp
  · rw [Place.next_index, Place.advance_index, h.index]
    simp only [List.length_append, List.length_singleton]
  · exact hdepth'.trans (hdepth.trans h.depth)

theorem chars_last (h : Reached list u x p) : (list.cut u.length list.length).chars = trim x :=
  Piece.rest_of_eq h.chars rfl

theorem chars_front (h : Reached list u (w ++ r) p) :
    (list.cut u.length (u ++ w).length).chars = trim w :=
  Piece.cut_of_eq h.chars rfl List.length_append

/-- The walk goes over a segment to what stands behind it. -/
theorem itemsTo_segment (h : Reached list u (w ++ r) p) (hw : Segment w) :
    itemsTo list role u.length (sitesFrom p (w ++ r)) =
      itemsTo list role u.length (sitesFrom (p.advance w) r) := by
  rw [sitesFrom_append, itemsTo_append]
  rw [List.forall_mem_map]
  exact hw.sites h.fresh.left h.depth

theorem itemsTo_last_iff (h : Reached list u x p) (hx : Segment x) :
    itemsTo list role u.length (sitesFrom p x) = .ok items ↔
      trim x ≠ [] ∧ items = [list.cut u.length list.length] := by
  have hskip := itemsTo_append list role u.length (hx.sites h.fresh h.depth) []
  rw [List.append_nil] at hskip
  rw [hskip, itemsTo_nil_eq_ok_iff, ← h.chars_last]
  simp only [itemIn_eq_ok_iff]
  constructor
  · rintro ⟨_, ⟨rfl, hne⟩, rfl⟩
    exact ⟨hne, rfl⟩
  · rintro ⟨hne, rfl⟩
    exact ⟨_, ⟨rfl, hne⟩, rfl⟩

theorem itemsTo_comma_iff (h : Reached list u (w ++ ',' :: r) p) (hw : Segment w) :
    itemsTo list role u.length (sitesFrom p (w ++ ',' :: r)) = .ok items ↔ trim w ≠ [] ∧ ∃ rest,
      itemsTo list role (u ++ w ++ [',']).length (sitesFrom ((p.advance w).next ',') r) = .ok rest ∧
        items = list.cut u.length (u ++ w).length :: rest := by
  obtain ⟨hclear, hdepth⟩ := hw.toBalanced.advance h.fresh.left
  have ho : (p.advance w).isOutside ',' = true := Place.isOutside_of_clear hclear (by decide)
  have hcomma : ((p.advance w).site ',' r).isTop ',' = true := by
    simp [Site.isTop, Place.site, hdepth, h.depth]
  have hindex : ((p.advance w).site ',' r).index = (u ++ w).length := by
    rw [Place.site, Place.advance_index, h.index, List.length_append]
  have hlength : (u ++ w ++ [',']).length = (u ++ w).length + 1 := by
    rw [List.length_append, List.length_singleton]
  rw [h.itemsTo_segment hw, sitesFrom_cons_of_outside ho, itemsTo_comma_eq_ok_iff hcomma, hindex,
    hlength, ← h.chars_front]
  simp only [itemIn_eq_ok_iff]
  constructor
  · rintro ⟨_, rest, ⟨rfl, hne⟩, hrest, rfl⟩
    exact ⟨hne, rest, hrest, rfl⟩
  · rintro ⟨hne, rest, hrest, rfl⟩
    exact ⟨_, rest, ⟨rfl, hne⟩, hrest, rfl⟩

theorem itemsTo_close_ne (h : Reached list u (w ++ ')' :: r) p) (hw : Segment w) :
    itemsTo list role u.length (sitesFrom p (w ++ ')' :: r)) ≠ .ok items := by
  obtain ⟨hclear, hdepth⟩ := hw.toBalanced.advance h.fresh.left
  have ho : (p.advance w).isOutside ')' = true := Place.isOutside_of_clear hclear (by decide)
  have hclose : ((p.advance w).site ')' r).isTop ')' = true := by
    simp [Site.isTop, Place.site, hdepth, h.depth]
  rw [h.itemsTo_segment hw, sitesFrom_cons_of_outside ho, itemsTo_close_eq_error hclose]
  intro he
  cases he

end Reached

/-- Segments with commas between them are read one by one. -/
theorem itemsTo_of_segments {list : Piece} (role : ListRole) {u x : List Char}
    {xs : List (List Char)} {p : Place} (h : Reached list u (x ++ xs.flatMap (',' :: ·)) p)
    (hs : ∀ z ∈ x :: xs, Segment z ∧ trim z ≠ []) :
    ∃ items, itemsTo list role u.length (sitesFrom p (x ++ xs.flatMap (',' :: ·))) = .ok items ∧
      items.map Piece.chars = (x :: xs).map trim := by
  induction xs generalizing u x p with
  | nil =>
    obtain ⟨hx, hne⟩ := hs x List.mem_cons_self
    rw [List.flatMap_nil, List.append_nil] at h ⊢
    refine ⟨_, (h.itemsTo_last_iff hx).2 ⟨hne, rfl⟩, ?_⟩
    rw [List.map_singleton, h.chars_last, List.map_singleton]
  | cons y ys ih =>
    obtain ⟨⟨hx, hne⟩, hys⟩ := List.forall_mem_cons.1 hs
    rw [List.flatMap_cons, List.cons_append] at h ⊢
    obtain ⟨items, hitems, hchars⟩ := ih (h.behind_comma hx) hys
    refine ⟨_, (h.itemsTo_comma_iff hx).2 ⟨hne, items, hitems, rfl⟩, ?_⟩
    rw [List.map_cons, h.chars_front, hchars, List.map_cons (a := x)]

/-- A text that leaves nothing open is one segment, or its first segment ends at a comma or at a
parenthesis that closes too much. -/
theorem segment_or_exists_first {p : Place} {x : List Char} (hp : p.Fresh x) (hd : p.depth = 0)
    (ht : (p.advance x).unterminated? = none) (hc : (p.advance x).depth = 0) :
    Segment x ∨ ∃ w c r, x = w ++ c :: r ∧ Segment w ∧ (c = ',' ∨ c = ')') := by
  have test_none : ∀ {s : Site}, Option.guard (fun s => s.isTop ')' || s.isTop ',') s = none →
      s.isTop ')' = false ∧ s.isTop ',' = false := by
    intro s h
    rwa [Option.guard_eq_none_iff, Bool.or_eq_false_iff] at h
  cases hf : (sitesFrom p x).findSome? (Option.guard fun s => s.isTop ')' || s.isTop ',') with
  | none =>
    refine .inl (segment_of_sites hp hd (fun s hs => ?_) ht hc)
    exact test_none (List.findSome?_eq_none_iff.1 hf s hs)
  | some s =>
    obtain ⟨w, c, r, rfl, ho, hs, hq⟩ := findSome?_eq_some_iff.1 hf
    obtain ⟨-, hs⟩ := Option.guard_eq_some_iff.1 hs
    simp only [Bool.or_eq_true, Site.isTop, Place.site, Bool.and_eq_true, beq_iff_eq] at hs
    have hdepth : (p.advance w).depth = 0 := hs.elim And.left And.left
    have hw : Segment w := segment_of_sites hp.left hd
      (fun t ht => test_none (s := t.extend (c :: r)) (hq t ht))
      (Place.terminated_of_isOutside ho) hdepth
    exact .inr ⟨w, c, r, rfl, hw, hs.symm.imp And.right And.right⟩

/-- What is read are the segments between commas. -/
theorem segments_of_itemsTo {list : Piece} (role : ListRole) {u x : List Char} {p : Place}
    {items : List Piece} (h : Reached list u x p) (ht : (p.advance x).unterminated? = none)
    (hc : (p.advance x).depth = 0)
    (hitems : itemsTo list role u.length (sitesFrom p x) = .ok items) :
    Listed x (items.map Piece.chars) := by
  induction hn : x.length using Nat.strongRecOn generalizing u x p items with
  | _ n ih =>
    rcases segment_or_exists_first h.fresh h.depth ht hc with hx | ⟨w, c, r, rfl, hw, rfl | rfl⟩
    · obtain ⟨hne, rfl⟩ := (h.itemsTo_last_iff hx).1 hitems
      refine ⟨x, [], by simp, List.forall_mem_singleton.2 ⟨hx, hne⟩, ?_⟩
      rw [List.map_singleton, h.chars_last, List.map_singleton]
    · obtain ⟨hne, rest, hrest, rfl⟩ := (h.itemsTo_comma_iff hw).1 hitems
      rw [List.length_append, List.length_cons] at hn
      rw [Place.advance_append, Place.advance_cons] at ht hc
      obtain ⟨y, ys, rfl, hys, hmap⟩ := ih r.length (by omega) (h.behind_comma hw) ht hc hrest rfl
      refine ⟨w, y :: ys, rfl, List.forall_mem_cons.2 ⟨⟨hw, hne⟩, hys⟩, ?_⟩
      rw [List.map_cons, h.chars_front, hmap, List.map_cons (a := w)]
    · exact absurd hitems (h.itemsTo_close_ne hw)

/-- A list that is not empty and leaves nothing open is read by one walk over it. -/
theorem split_eq_ok_iff_itemsTo {list : Piece} {role : ListRole} {items : List Piece} :
    split list role = .ok items ↔ list.chars ≠ [] ∧
      ((Place.start 0 none).advance list.chars).unterminated? = none ∧
      ((Place.start 0 none).advance list.chars).depth = 0 ∧
      itemsTo list role 0 (sitesFrom (.start 0 none) list.chars) = .ok items := by
  rw [split]
  by_cases hne : list.chars = []
  · rw [if_pos (Piece.isEmpty_iff.2 hne)]
    constructor
    · intro h
      cases h
    · rintro ⟨h, -⟩
      exact absurd hne h
  · rw [if_neg fun h => hne (Piece.isEmpty_iff.1 h)]
    dsimp only
    rw [Piece.sites_outline, Piece.outline_eq]
    constructor
    · intro h
      obtain ⟨⟨front, first⟩, hfront, h⟩ := bind_eq_ok_iff.1 h
      obtain ⟨_, hterm, h⟩ := bind_eq_ok_iff.1 h
      obtain ⟨_, hclosed, h⟩ := bind_eq_ok_iff.1 h
      exact ⟨hne, Piece.requireTerminated_eq_ok_iff.1 hterm,
        Piece.requireClosed_eq_ok_iff.1 hclosed, bind_eq_ok_iff.2 ⟨_, hfront, h⟩⟩
    · rintro ⟨-, hterm, hclosed, h⟩
      obtain ⟨⟨front, first⟩, hfront, hlast⟩ := bind_eq_ok_iff.1 h
      refine bind_eq_ok_iff.2 ⟨_, hfront,
        bind_eq_ok_iff.2 ⟨(), Piece.requireTerminated_eq_ok_iff.2 hterm, ?_⟩⟩
      exact bind_eq_ok_iff.2 ⟨(), Piece.requireClosed_eq_ok_iff.2 hclosed, hlast⟩

/-- A list is read exactly if it consists of items with commas between them. -/
theorem split_eq_ok_iff {list : Piece} {role : ListRole} {xs : List (List Char)} :
    (∃ items, split list role = .ok items ∧ items.map Piece.chars = xs) ↔ Listed list.chars xs := by
  constructor
  · rintro ⟨items, h, rfl⟩
    obtain ⟨-, hterm, hclosed, h⟩ := split_eq_ok_iff_itemsTo.1 h
    exact segments_of_itemsTo role (.start list) hterm hclosed h
  · intro h
    have hb := h.balanced
    obtain ⟨x, xs, e, hs, rfl⟩ := h
    have hstart := Reached.start list
    rw [e] at hstart
    obtain ⟨items, hitems, hchars⟩ := itemsTo_of_segments role hstart hs
    rw [← e] at hitems
    have hne : list.chars ≠ [] := by
      rw [e]
      intro h'
      obtain ⟨rfl, -⟩ := List.append_eq_nil_iff.1 h'
      exact (hs [] List.mem_cons_self).2 rfl
    exact ⟨items, split_eq_ok_iff_itemsTo.2 ⟨hne, hb.terminated, hb.closed, hitems⟩, hchars⟩

theorem parse_eq_ok_iff {list : Piece} {role : ListRole} {xs : List String} :
    parse list role = .ok xs ↔ Listed list.chars (xs.map String.toList) := by
  rw [parse, bind_eq_ok_iff]
  constructor
  · rintro ⟨items, h, hx⟩
    cases hx
    refine split_eq_ok_iff.1 ⟨items, h, ?_⟩
    simp [Piece.text]
  · intro h
    obtain ⟨items, hitems, hchars⟩ := split_eq_ok_iff.2 h
    refine ⟨items, hitems, congrArg Except.ok ?_⟩
    have htext : items.map Piece.text = (items.map Piece.chars).map String.ofList := by
      rw [List.map_map]
      rfl
    rw [htext, hchars]
    simp

end ItemList

end TableQuery
