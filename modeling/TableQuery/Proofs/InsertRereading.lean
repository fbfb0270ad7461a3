import TableQuery.Proofs.InsertRendering

/-!
# Rereadable `INSERT`s

A query is read back from its rendering only if it is `Rereadable` (`ofText_render_iff`). What a
name loses when it is read is a qualifier, quotes and blanks. So an item that is read off a
rendering cannot reach into what stands behind the name it is read as, nor end in front of the end
of that name (`eq_of_shrinks`): the items are the names that were rendered, from the first to the
last (`segments_eq`).
-/

namespace TableQuery

open Text Outline

/-! ## Aligning lists -/

/-- Read as `t`, the text `s` loses no ink that shows, and none at all if a comma or a closing
parenthesis stands in it. -/
structure Shrinks (s t : List Char) : Prop where
  le : (ink t).length ≤ (ink s).length
  eq : ',' ∈ s ∨ ')' ∈ s → (ink t).length = (ink s).length

theorem length_ink_pos {w : List Char} {d : Char} (h : w.head? = some d) (hb : isBlank d = false)
    (hq : Literal.isQuote d = false) : 0 < (ink w).length := by
  obtain ⟨r, rfl⟩ := List.head?_eq_some_iff.1 h
  simp [ink, hb, hq]

/-- A text that is read as what stands in its place ends where that ends. -/
theorem eq_of_shrinks {s t y y' : List Char} (h : Shrinks s t) (e : s ++ y = t ++ y')
    (hy : ∀ d ∈ y.head?, isBlank d = false ∧ Literal.isQuote d = false)
    (hy' : ∀ d ∈ y'.head?, d = ',' ∨ d = ')') : s = t ∧ y = y' := by
  rcases List.append_eq_append_iff.1 e with ⟨w, rfl, rfl⟩ | ⟨w, rfl, rfl⟩
  · cases w with
    | nil => exact ⟨(List.append_nil s).symm, rfl⟩
    | cons d w =>
      obtain ⟨hb, hq⟩ := hy d rfl
      have hpos := length_ink_pos (w := d :: w) rfl hb hq
      have hle := h.le
      rw [ink_append, List.length_append] at hle
      omega
  · cases w with
    | nil => exact ⟨List.append_nil t, rfl⟩
    | cons d w =>
      have hd := hy' d rfl
      have hmem : d ∈ t ++ d :: w := List.mem_append_right _ List.mem_cons_self
      have heq := h.eq (by rcases hd with rfl | rfl <;> simp)
      have hpos : 0 < (ink (d :: w)).length := by
        rcases hd with rfl | rfl
        · exact length_ink_pos rfl (by decide) (by decide)
        · exact length_ink_pos rfl (by decide) (by decide)
      rw [ink_append, List.length_append] at heq
      omega

/-- Lists that are read as each other have the same segments. -/
theorem segments_eq {s t : List Char} {ss ts : List (List Char)} {y y' : List Char}
    (h : List.Forall₂ Shrinks (s :: ss) (t :: ts))
    (e : (s ++ ss.flatMap (',' :: ·)) ++ y = (t ++ ts.flatMap (',' :: ·)) ++ y')
    (hy : ∀ d ∈ y.head?, isBlank d = false ∧ Literal.isQuote d = false)
    (hy' : ∀ d ∈ y'.head?, d = ',' ∨ d = ')') : s :: ss = t :: ts ∧ y = y' := by
  induction ss generalizing s t ts with
  | nil =>
    cases h with
    | cons hst hts =>
      cases hts
      simp only [List.flatMap_nil, List.append_nil] at e
      obtain ⟨rfl, rfl⟩ := eq_of_shrinks hst e hy hy'
      exact ⟨rfl, rfl⟩
  | cons s' ss ih =>
    cases h with
    | cons hst hts =>
      cases ts with
      | nil => cases hts
      | cons t' ts =>
        simp only [List.flatMap_cons, List.append_assoc, List.cons_append] at e
        have hcomma : ∀ {x : List Char}, ∀ d ∈ (',' :: x).head?, d = ',' := by
          intro x d hd
          cases hd
          rfl
        obtain ⟨rfl, e'⟩ := eq_of_shrinks hst e (fun d hd => by rw [hcomma d hd]; decide)
          (fun d hd => .inl (hcomma d hd))
        injection e' with _ e'
        obtain ⟨hs, rfl⟩ := ih hts (by simpa only [List.append_assoc] using e')
        exact ⟨by rw [hs], rfl⟩

theorem Listed.segments {w : List Char} {xs : List (List Char)} (h : Listed (trim w) xs) :
    ∃ s ss, w = s ++ ss.flatMap (',' :: ·) ∧ xs = (s :: ss).map trim := by
  obtain ⟨s, ss, e, -, hxs⟩ := listed_trim_iff.1 h
  exact ⟨s, ss, e, hxs⟩

namespace InsertQuery

/-- What is read of a segment of a list. -/
theorem shrinks_columnName {s t : List Char} (h : ink t = ink (columnName (trim s))) :
    Shrinks s t := by
  constructor
  · rw [h, ← ink_trim s]
    exact length_ink_columnName_le (trim s)
  · intro hs
    -- the character is no blank, so it is still there when the segment is trimmed
    have hmem : ∀ {d : Char}, isBlank d = false → d ∈ s → d ∈ trim s := by
      intro d hd hds
      obtain ⟨b, b', hb, hb', e⟩ := exists_blank_trim_blank s
      rw [e, List.mem_append, List.mem_append] at hds
      rcases hds with hd' | hd' | hd'
      · rw [hb d hd'] at hd
        cases hd
      · exact hd'
      · rw [hb' d hd'] at hd
        cases hd
    rw [h]
    rcases hs with hs | hs
    · rw [ink_columnName_of_mem (.inl rfl) (hmem (by decide) hs), ink_trim]
    · rw [ink_columnName_of_mem (.inr (.inr rfl)) (hmem (by decide) hs), ink_trim]

theorem forall₂_shrinks {g : List Char} (hg : Blank g) (s : List Char) (ss : List (List Char)) :
    List.Forall₂ Shrinks (s :: ss) ((g ++ columnName (trim s)) ::
      ss.map fun s => ' ' :: columnName (trim s)) := by
  have hblank : Blank [' '] := by decide
  refine .cons (shrinks_columnName ?_) ?_
  · rw [ink_append, ink_of_blank hg, List.nil_append]
  · rw [List.forall₂_map_right_iff, List.forall₂_same]
    intro s _
    apply shrinks_columnName
    rw [← List.singleton_append, ink_append, ink_of_blank hblank, List.nil_append]

/-- A name that is read off itself stands for itself. -/
theorem trim_eq_of_columnName {c : List Char} (h : columnName (trim c) = c) : trim c = c := by
  obtain ⟨b, b', -, -, e⟩ := exists_blank_trim_blank c
  have hle := length_columnName_le (trim c)
  rw [h] at hle
  have hlength := congrArg List.length e
  rw [List.length_append, List.length_append] at hlength
  have hb : b = [] := List.length_eq_zero_iff.1 (by omega)
  have hb' : b' = [] := List.length_eq_zero_iff.1 (by omega)
  rw [hb, hb', List.nil_append, List.append_nil] at e
  exact e.symm

/-- Columns that are read off their own rendering are read as they are written. -/
theorem columns_of_listed {g w y y' : List Char} {l : List String} {xs : List (List Char)}
    (hg : Blank g) (hl : Listed (trim w) xs) (hx : l = xs.map fun x => String.ofList (columnName x))
    (e : w ++ y = g ++ (listText l ++ y'))
    (hy : ∀ d ∈ y.head?, isBlank d = false ∧ Literal.isQuote d = false)
    (hy' : ∀ d ∈ y'.head?, d = ',' ∨ d = ')') :
    w = g ++ listText l ∧ y = y' ∧ l ≠ [] ∧ ∀ c ∈ l, IsColumn c.toList := by
  obtain ⟨-, hitems⟩ := hl.items
  obtain ⟨s, ss, rfl, rfl⟩ := hl.segments
  have hnames :
      l.map String.toList = columnName (trim s) :: ss.map fun s => columnName (trim s) := by
    rw [hx]
    simp [Function.comp_def]
  have htext : listText l = columnName (trim s) ++
      (ss.map fun s => ' ' :: columnName (trim s)).flatMap (',' :: ·) := by
    rw [listText, hnames, intercalate_comma_blank, List.map_map]
    rfl
  rw [htext] at e ⊢
  obtain ⟨hsegments, rfl⟩ :=
    segments_eq (forall₂_shrinks hg s ss) (by simpa only [List.append_assoc] using e) hy hy'
  obtain ⟨hs, hss⟩ := List.cons_eq_cons.1 hsegments
  refine ⟨by rw [← hss, ← List.append_assoc, ← hs], rfl, ?_, ?_⟩
  · rw [hx]
    simp
  · have hself : ∀ z ∈ s :: ss, ∃ b, Blank b ∧ z = b ++ columnName (trim z) := by
      have hmap : ss.map id = ss.map fun s => ' ' :: columnName (trim s) := by
        rw [List.map_id]
        exact hss
      refine List.forall_mem_cons.2 ⟨⟨g, hg, hs⟩, fun z hz => ⟨[' '], by decide, ?_⟩⟩
      exact List.map_inj_left.1 hmap z hz
    intro c hc
    rw [hx, List.map_map, List.mem_map] at hc
    obtain ⟨z, hz, rfl⟩ := hc
    obtain ⟨b, hb, ez⟩ := hself z hz
    have htrim : trim z = trim (columnName (trim z)) := by
      have := congrArg trim ez
      rwa [trim_blank_append hb] at this
    have hname : trim z = columnName (trim z) := by
      rw [← trim_eq_of_columnName (c := columnName (trim z)) (by rw [← htrim])]
      exact htrim
    rw [Function.comp_apply, String.toList_ofList, ← hname]
    exact ⟨hitems _ (List.mem_map.2 ⟨z, hz, rfl⟩), hname.symm⟩

/-! ## The layout of a rendering -/

/-- The keyword in front of the text is as long as the one that was rendered. -/
theorem follows_eq {k : Keyword} {w m x y z post : List Char} (hk : k.spelling.words = [w])
    (hm : m.length = w.length) (h : Follows k x y) (e : x ++ post = m ++ z) : y ++ post = z := by
  obtain ⟨m', rfl, hmatch⟩ := h
  obtain ⟨r, hr, -, hn⟩ := Keyword.match?_eq_some_iff.1 hmatch
  rw [hk] at hr
  obtain ⟨u, hu, rfl⟩ := Spelling.dropWord_eq_some_iff.1 hr
  have hlength : m'.length = m.length := by
    have := congrArg List.length hu
    rw [List.length_append, List.length_append] at this
    rw [List.length_append] at hn
    rw [hm, List.length_map]
    omega
  rw [List.append_assoc] at e
  exact (List.append_inj e hlength).2

theorem follows_insertInto {x y z post : List Char} (h : Follows .insertInto x y)
    (e : x ++ post = Keyword.insertInto.text ++ ' ' :: z) : y ++ post = ' ' :: z := by
  obtain ⟨m, rfl, hmatch⟩ := h
  -- what was read stays when the rest is put back, and is what was rendered
  have hlt : m.length < (m ++ y).length := by
    obtain ⟨r, hr, hallows, hn⟩ := Keyword.match?_eq_some_iff.1 hmatch
    cases r with
    | nil => cases hallows
    | cons c r =>
      obtain ⟨u, hu, -⟩ := Spelling.plain_of_dropWords Keyword.insertInto.isWord_of_mem_words hr
      have hlength := congrArg List.length hu
      simp only [List.length_append, List.length_cons] at hlength hn ⊢
      omega
  have hleft := Keyword.match?_append_eq_some (y := post) hmatch (.inl hlt)
  have hm : Keyword.insertInto.match? (Keyword.insertInto.text ++ [' ']) =
      some Keyword.insertInto.text.length := by decide
  have hright := Keyword.match?_append_eq_some (y := z) hm (.inl (by decide))
  rw [List.append_assoc, List.singleton_append, ← e, hleft, Option.some.injEq] at hright
  rw [List.append_assoc] at e
  exact (List.append_inj e hright).2

/-- The inside of a parenthesis is determined by the text. -/
theorem balanced_unique {w w' y y' : List Char} (hw : Balanced w) (hw' : Balanced w')
    (e : w ++ ')' :: y = w' ++ ')' :: y') : w = w' ∧ y = y' := by
  have key : ∀ {w v : List Char}, Balanced w → ¬Balanced (w ++ ')' :: v) := by
    intro w v hw hwv
    have hclear := (hw.advance (Place.fresh_start 0 none w)).1
    have := hwv.opened (((Place.start 0 none).advance w).site ')' v)
      (mem_sitesFrom.2 ⟨w, ')', v, rfl, Place.isOutside_of_clear hclear (by decide), rfl⟩)
    simp [Site.isTop, Place.site, hw.closed] at this
  rcases List.append_eq_append_iff.1 e with ⟨v, rfl, hv⟩ | ⟨v, rfl, hv⟩
  · cases v with
    | nil =>
      injection hv with _ hy
      exact ⟨(List.append_nil w).symm, hy⟩
    | cons d v =>
      injection hv with hd _
      subst hd
      exact absurd hw' (key hw)
  · cases v with
    | nil =>
      injection hv with _ hy
      exact ⟨List.append_nil w', hy.symm⟩
    | cons d v =>
      injection hv with hd _
      subst hd
      exact absurd hw (key hw')

theorem trimStart_append_eq {y post x : List Char} (hne : trimStart y ≠ [])
    (e : y ++ post = ' ' :: x) (hx : ∀ c ∈ x.head?, isBlank c = false) :
    trimStart y ++ post = x := by
  have hblank : Blank [' '] := by decide
  rw [← trimStart_append hne, e, ← List.singleton_append, trimStart_blank_append hblank,
    trimStart_eq_self hx]

theorem trimStart_eq_of_length_le {cs : List Char} (h : cs.length ≤ (trimStart cs).length) :
    trimStart cs = cs := by
  have hsuffix := List.dropWhile_suffix (l := cs) isBlank
  exact hsuffix.eq_of_length (Nat.le_antisymm hsuffix.length_le h)

/-- A table that is read as what stands in its place ends where that ends. -/
theorem table_eq {w y t z : List Char} (hw : Unbroken w) (ht : t = tableName w)
    (e : w ++ y = trimStart t ++ ' ' :: '(' :: z) : w = t ∧ y = ' ' :: '(' :: z := by
  have hlength : t.length ≤ w.length := by
    rw [ht]
    exact length_tableName_le w
  rcases List.append_eq_append_iff.1 e with ⟨v, hv, hy⟩ | ⟨v, rfl, hy⟩
  · have hle : (trimStart t).length ≤ t.length := (List.dropWhile_suffix isBlank).length_le
    have hsum := congrArg List.length hv
    rw [List.length_append] at hsum
    obtain rfl : v = [] := List.length_eq_zero_iff.1 (by omega)
    rw [List.append_nil] at hv
    rw [trimStart_eq_of_length_le (by omega)] at hv
    exact ⟨hv.symm, hy⟩
  · cases v with
    | nil =>
      rw [List.append_nil] at hlength ⊢
      exact ⟨trimStart_eq_of_length_le hlength, hy.symm⟩
    | cons c v =>
      obtain ⟨rfl, hz⟩ := List.cons_eq_cons.1 hy
      cases v with
      | nil => exact absurd (hw.last ' ' (by simp)) (by decide)
      | cons d v =>
        -- the parenthesis would not be lost
        obtain ⟨rfl, -⟩ := List.cons_eq_cons.1 hz
        have hink : ink t ++ ink (' ' :: '(' :: v) = ink t := by
          conv_rhs => rw [ht, ink_tableName, ink_append, ink_trimStart]
        have hmem : '(' ∈ ink (' ' :: '(' :: v) := List.mem_filter.2 ⟨by simp, by decide⟩
        rw [List.append_right_eq_self.1 hink] at hmem
        cases hmem

/-- The table that is read off a rendering is the one that was rendered. -/
theorem named_eq {y₀ y₁ w t z post : List Char} (hn : Named y₀ w y₁) (ht : t = tableName w)
    (e : y₀ ++ post = ' ' :: (t ++ ' ' :: '(' :: z)) : w = t ∧ y₁ ++ post = ' ' :: '(' :: z := by
  obtain ⟨e₀, hne, hw, -⟩ := hn
  have hblank : Blank [' '] := by decide
  have hstart : w ++ (y₁ ++ post) = trimStart (t ++ ' ' :: '(' :: z) := by
    have hne₀ : trimStart y₀ ≠ [] := by
      rw [e₀]
      exact fun h => hne (List.append_eq_nil_iff.1 h).1
    rw [← List.append_assoc, ← e₀, ← trimStart_append hne₀, e, ← List.singleton_append,
      trimStart_blank_append hblank]
  by_cases hnil : trimStart t = []
  · -- a blank name would leave the parenthesis in front of the table
    have hb : Blank (t ++ [' ']) := blank_append.2 ⟨List.dropWhile_eq_nil_iff.1 hnil, hblank⟩
    have hopen : trimStart (t ++ ' ' :: '(' :: z) = '(' :: z := by
      rw [← List.singleton_append, ← List.append_assoc, trimStart_blank_append hb]
      rfl
    rw [hopen] at hstart
    obtain ⟨d, w, rfl⟩ := List.exists_cons_of_ne_nil hne
    have hhead := hw.head d rfl
    rw [(List.cons_eq_cons.1 hstart).1] at hhead
    exact absurd hhead (by decide)
  · rw [trimStart_append hnil] at hstart
    exact table_eq hw ht hstart

theorem trimStart_ne_nil_of_follows {k : Keyword} {x y : List Char} (hk : k.match? [] = none)
    (h : Follows k (trimStart x) y) : trimStart x ≠ [] := by
  obtain ⟨m, -, hm⟩ := h
  intro hx
  rw [hx, hk] at hm
  cases hm

/-- What is taken off the end of a statement. -/
def Ending (post : List Char) : Prop :=
  Blank post ∨ ∃ b b', post = b ++ ';' :: b' ∧ Blank b ∧ Blank b'

/-- Nothing is taken off a rendered `RETURNING` clause that is read back. -/
theorem returns_eq {tail post : List Char} {rs : List String} (h : Returns (trimStart tail) rs)
    (hpost : Ending post) (e : tail ++ post = tailText rs) :
    post = [] ∧ ∀ c ∈ rs, IsColumn c.toList := by
  rcases h with ⟨-, rfl⟩ | ⟨y, zs, hf, hl, hrs⟩
  · exact ⟨(List.append_eq_nil_iff.1 e).2, fun c hc => by cases hc⟩
  · have hblank : Blank [' '] := by decide
    have hne : rs ≠ [] := by
      rw [hrs]
      simpa using hl.items.1
    rw [tailText, if_neg hne] at e
    have e₁ := trimStart_append_eq (trimStart_ne_nil_of_follows (by decide) hf) e (by
      intro c hc
      cases hc
      decide)
    have e₂ : y ++ post = [' '] ++ (listText rs ++ []) := by
      rw [List.append_nil]
      exact follows_eq rfl rfl hf e₁
    rcases hpost with hb | ⟨b, b', rfl, hb, -⟩
    · have htrim : trim (y ++ post) = trim y := trim_append_blank hb y
      obtain ⟨-, -, -, hcolumns⟩ := columns_of_listed (w := y ++ post) (y := []) hblank
        (by rw [htrim]; exact hl) hrs (by rw [List.append_nil, e₂]) (by simp) (by simp)
      refine ⟨?_, hcolumns⟩
      have hpart := part_listText hne fun c hc => (hcolumns c hc).1
      by_contra hpost
      obtain ⟨d, hd⟩ := Option.isSome_iff_exists.1 (List.getLast?_isSome.2 hpost)
      have hlast := congrArg List.getLast? e₂
      rw [List.append_nil, List.getLast?_append, hd, Option.some_or, List.getLast?_append] at hlast
      obtain ⟨d', hd'⟩ := Option.isSome_iff_exists.1 (List.getLast?_isSome.2 hpart.ne_nil)
      rw [hd', Option.some_or] at hlast
      have h₁ := hpart.tight.last d' hd'
      have h₂ := hb d (List.mem_of_getLast? hd)
      rw [← Option.some.inj hlast, h₂] at h₁
      cases h₁
    · have htrim : trim (y ++ b) = trim y := trim_append_blank hb y
      obtain ⟨-, hnil, -⟩ := columns_of_listed (w := y ++ b) (y := ';' :: b') hblank
        (by rw [htrim]; exact hl) hrs (by rw [List.append_assoc, e₂])
        (by
          intro d hd
          cases hd
          decide) (by simp)
      cases hnil

/-- A query that is read off its rendering has the parts that were rendered. -/
theorem Reading.rereadable {arity : Bool} {cs : List Char} {q : InsertQuery}
    {w cols vals tail : List Char} {xs ys : List (List Char)}
    (hr : Reading arity cs q w cols vals tail xs ys) {post : List Char} (hpost : Ending post)
    (e : cs ++ post = q.render.toList) :
    post = [] ∧ (q.render.toList.getLast? ≠ some ';' → q.Rereadable) := by
  have hopen : ∀ x : List Char, ∀ c ∈ ('(' :: x).head?, isBlank c = false := by
    intro x c hc
    cases hc
    decide
  obtain ⟨y₀, y₁, y₂, y₃, h₀, h₁, h₂, h₃, h₄⟩ := hr.laidOut
  have e₀ := follows_insertInto h₀ (e.trans (render_toList q))
  obtain ⟨rfl, e₁⟩ := named_eq h₁ hr.table e₀
  have e₂ := trimStart_append_eq (by rw [h₂.1]; simp) e₁ (hopen _)
  rw [h₂.1, List.cons_append, List.append_assoc] at e₂
  obtain ⟨-, e₃, hne, hcolumns⟩ := columns_of_listed (g := []) blank_nil hr.columns.1 hr.columns.2
    (List.cons_eq_cons.1 e₂).2
    (by
      intro d hd
      cases hd
      decide)
    (by
      intro d hd
      cases hd
      exact .inr rfl)
  have e₄ :=
    trimStart_append_eq (trimStart_ne_nil_of_follows (by decide) h₃) (List.cons_eq_cons.1 e₃).2
    (by
      intro d hd
      cases hd
      decide)
  have e₅ := trimStart_append_eq (by rw [h₄.1]; simp) (follows_eq rfl rfl h₃ e₄) (hopen _)
  rw [h₄.1, List.cons_append, List.append_assoc] at e₅
  have hvalues : q.values ≠ [] := by
    rw [hr.values.2]
    simpa using hr.values.1.items.1
  obtain ⟨-, e₆⟩ :=
    balanced_unique h₄.2 (listed_valueText hvalues).balanced (List.cons_eq_cons.1 e₅).2
  obtain ⟨hnil, hreturning⟩ := returns_eq hr.returning hpost e₆
  refine ⟨hnil,
    fun hlast => ⟨⟨h₁.2.1, h₁.2.2.1, hr.table.symm⟩, ⟨hne, hcolumns⟩, hvalues, hreturning, hlast⟩⟩

theorem ofText_render_iff {settings : Settings} {q : InsertQuery} :
    ofText settings q.render = .ok q ↔
      byteLength q.render.toList ≤ settings.maxLength ∧ q.Rereadable ∧
      (settings.matchArity = true → q.columns.length = q.values.length) := by
  constructor
  · intro h
    obtain ⟨p, hp, hparse⟩ := bind_eq_ok_iff.1 h
    obtain ⟨w, cols, vals, tail, xs, ys, hr⟩ := parse_eq_ok_iff.1 hparse
    obtain ⟨pre, post, e, hpre, hpost⟩ := Statement.exists_of_isolate hp
    have hnil : pre = [] := by
      cases pre with
      | nil => rfl
      | cons c pre =>
        have hhead := congrArg List.head? e
        rw [render_toList, head?_chars] at hhead
        cases hhead
        exact absurd (hpre 'I' List.mem_cons_self) (by decide)
    subst hnil
    have hending : Ending post := hpost.imp And.left id
    obtain ⟨rfl, hq⟩ := hr.rereadable hending e.symm
    rw [List.nil_append, List.append_nil] at e
    have hlast : q.render.toList.getLast? ≠ some ';' := by
      rcases hpost with ⟨-, hlast⟩ | ⟨b, b', hb, -⟩
      · rwa [e]
      · simp at hb
    refine ⟨(Statement.isolate_eq_ok_iff.1 hp).1, hq hlast, fun ha => ?_⟩
    rw [hr.columns.2, hr.values.2, List.length_map, List.length_map]
    exact hr.arity ha
  · rintro ⟨hl, hq, ha⟩
    exact ofText_render hq hl ha

end InsertQuery

end TableQuery
