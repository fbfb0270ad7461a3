import TableQuery.Proofs.Cursor
import TableQuery.Proofs.ItemList
import TableQuery.Proofs.Joints
import TableQuery.Select.Head

/-!
# Heads of `SELECT`s

A head is read exactly if it starts with `SELECT`, and perhaps `DISTINCT`, and holds a `FROM` behind
them; it is cut at the first one (`SelectHead.parse_select_iff`). A rendered head is read back
exactly if its list of fields holds no `FROM` and does not start like `DISTINCT`
(`SelectHead.parse_chars`, `SelectHead.quiet_of_parse`).
-/

namespace TableQuery

open Text Outline

/-- Whether `DISTINCT` stands in front of a blank does not depend on what follows the blank. -/
theorem match?_distinct_append {x : List Char} (h : Keyword.distinct.match? (x ++ [' ']) = none)
    (y : List Char) : Keyword.distinct.match? (x ++ ' ' :: y) = none := by
  rw [Keyword.match?_eq_none_iff] at h ⊢
  intro after ha
  obtain ⟨r, rfl, hr⟩ :=
    Spelling.dropWord_append (w := "DISTINCT".toList) (y := ' ' :: y) (by decide)
    (fun c hc => by cases hc; decide) ha
  have hr' : Spelling.dropWords Keyword.distinct.spelling.words (x ++ [' ']) = some (r ++ [' ']) :=
    Spelling.dropWords_extend Keyword.distinct.isWord_of_mem_words [' '] hr
  have hallows := h _ hr'
  cases r with
  | nil => exact hallows
  | cons c r => exact hallows

namespace SelectHead

/-- Behind position `first`, the head is cut at the first `FROM`. -/
def CutAt (head : Piece) (first : Nat) (h : SelectHead) : Prop :=
  ∃ i j, fromRange head first = .ok (some (i, j)) ∧ (head.rest j).chars ≠ [] ∧
    h.fields = head.cut first i ∧ h.table.toList = (head.rest j).chars

theorem parse_eq_ok_iff {head : Piece} {h : SelectHead} :
    parse head = .ok h ↔ ∃ c, (Cursor.ofPiece head).consume? .select = some c ∧
      h.distinct = (c.skipBlanks.consume? .distinct).isSome ∧
      CutAt head ((c.skipBlanks.consume? .distinct).getD c.skipBlanks).position h := by
  rw [parse]
  cases hc : (Cursor.ofPiece head).consume? .select with
  | none =>
    constructor
    · intro h'
      cases h'
    · rintro ⟨c, h', -⟩
      cases h'
  | some c =>
    dsimp only
    rw [bind_eq_ok_iff]
    constructor
    · rintro ⟨range, hr, h'⟩
      cases range with
      | none => cases h'
      | some range =>
        dsimp only at h'
        split at h'
        · cases h'
        · rename_i hne
          cases h'
          refine ⟨c, rfl, rfl, range.1, range.2, hr, fun e => hne (Piece.isEmpty_iff.2 e), rfl, ?_⟩
          exact String.toList_ofList
    · rintro ⟨c', hc', hd, i, j, hr, hne, hf, ht⟩
      cases hc'
      refine ⟨some (i, j), hr, ?_⟩
      dsimp only
      rw [if_neg (fun e => hne (Piece.isEmpty_iff.1 e))]
      obtain ⟨d, f, t⟩ := h
      subst hd hf
      rw [Piece.text, ← ht, String.ofList_toList]
      rfl

theorem fromRange_eq_some_iff {head : Piece} {u x : List Char} (h : head.chars = u ++ x)
    {i j : Nat} :
    fromRange head u.length = .ok (some (i, j)) ↔
      ∃ v c r n, x = v ++ c :: r ∧
        FirstAt (·.topKeyword? .fromTable) (.start u.length u.getLast?) v c r n ∧
        i = u.length + v.length ∧ j = u.length + v.length + n := by
  rw [fromRange, Piece.outlineFrom_of_eq h rfl, Piece.search_range_iff]
  rfl

/-- What a head is cut into, as texts. -/
theorem cutAt_iff {head : Piece} {u x : List Char} (e : head.chars = u ++ x) {h : SelectHead} :
    CutAt head u.length h ↔ ∃ v c r n, x = v ++ c :: r ∧
      FirstAt (·.topKeyword? .fromTable) (.start u.length u.getLast?) v c r n ∧
      h.fields = head.cut u.length (u.length + v.length) ∧
      h.fields.chars = trim v ∧ h.table.toList = trim ((c :: r).drop n) ∧ h.table.toList ≠ [] := by
  have hrest : ∀ {v : List Char} {c : Char} {r : List Char} {n : Nat}, x = v ++ c :: r →
      FirstAt (·.topKeyword? .fromTable) (.start u.length u.getLast?) v c r n →
      (head.rest (u.length + v.length + n)).chars = trim ((c :: r).drop n) := by
    rintro v c r n rfl hf
    have hn : n ≤ (c :: r).length :=
      (Keyword.plain_of_match? (Site.topKeyword?_eq_some_iff.1 hf.found).2.2).2.1
    have htext : head.chars = (u ++ (v ++ (c :: r).take n)) ++ (c :: r).drop n := by
      rw [e, List.append_assoc, List.append_assoc, List.take_append_drop]
    refine Piece.rest_of_eq htext ?_
    rw [List.length_append, List.length_append, List.length_take, Nat.min_eq_left hn, Nat.add_assoc]
  constructor
  · rintro ⟨i, j, hr, hne, hfields, htable⟩
    obtain ⟨v, c, r, n, rfl, hf, rfl, rfl⟩ := (fromRange_eq_some_iff e).1 hr
    rw [hrest rfl hf] at hne htable
    refine ⟨v, c, r, n, rfl, hf, hfields, ?_, htable, by rwa [htable]⟩
    rw [hfields, Piece.cut_of_eq e rfl rfl]
  · rintro ⟨v, c, r, n, rfl, hf, hfields, -, htable, hne⟩
    have hr := hrest rfl hf
    refine ⟨_, _, (fromRange_eq_some_iff e).2 ⟨v, c, r, n, rfl, hf, rfl, rfl⟩, ?_, hfields, ?_⟩
    · rw [hr, ← htable]
      exact hne
    · rw [hr, htable]

/-- What stands in front of the fields is plain. -/
theorem exists_plain_front {head : Piece} {c : Cursor}
    (hc : (Cursor.ofPiece head).consume? .select = some c) :
    ∃ u x, head.chars = u ++ x ∧ Plain u ∧ u ≠ [] ∧
      ((c.skipBlanks.consume? .distinct).getD c.skipBlanks).position = u.length := by
  obtain ⟨m, y, hmy, -, hm, hmne, hb⟩ := Cursor.consume?_eq_some (Cursor.between_ofPiece head) hc
  have hskip := hb.skipBlanks
  rw [List.nil_append] at hskip
  have hplain : Plain (m ++ y.takeWhile isBlank) := hm.append (plain_of_blank (blank_takeWhile y))
  have hplainne : m ++ y.takeWhile isBlank ≠ [] := fun e => hmne (List.append_eq_nil_iff.1 e).1
  have hchars : head.chars = (m ++ y.takeWhile isBlank) ++ trimStart y := by
    rw [hmy, List.append_assoc, trimStart, List.takeWhile_append_dropWhile]
  cases hd : c.skipBlanks.consume? .distinct with
  | none => exact ⟨_, _, hchars, hplain, hplainne, hskip.position⟩
  | some c' =>
    obtain ⟨m', y', hmy', -, hm', -, hb'⟩ := Cursor.consume?_eq_some hskip hd
    rw [hmy', ← List.append_assoc] at hchars
    refine ⟨_, _, hchars, hplain.append hm', ?_, hb'.position⟩
    exact fun e => hplainne (List.append_eq_nil_iff.1 e).1

/-- A head that was read has a plain text in front of the fields. -/
theorem exists_of_parse {head : Piece} {h : SelectHead} (hp : parse head = .ok h) :
    ∃ u v c r n, head.chars = u ++ (v ++ c :: r) ∧ Plain u ∧ u ≠ [] ∧
      FirstAt (·.topKeyword? .fromTable) (.start u.length u.getLast?) v c r n ∧
      h.fields.chars = trim v ∧ h.table.toList = trim ((c :: r).drop n) ∧ h.table.toList ≠ [] := by
  obtain ⟨c, hc, -, hcut⟩ := parse_eq_ok_iff.1 hp
  obtain ⟨u, x, hchars, hplain, hne, hposition⟩ := exists_plain_front hc
  rw [hposition, cutAt_iff hchars] at hcut
  obtain ⟨v, d, r, n, rfl, hf, -, hrest⟩ := hcut
  exact ⟨u, v, d, r, n, hchars, hplain, hne, hf, hrest⟩

theorem keyword_of_firstAt {v : List Char} {c : Char} {r : List Char} {n : Nat} {p : Place}
    (hf : FirstAt (·.topKeyword? .fromTable) p v c r n) :
    (p.advance v).depth = 0 ∧ (p.advance v).before.any isBlank = true ∧
      Keyword.fromTable.match? (c :: r) = some n :=
  Site.topKeyword?_eq_some_iff.1 hf.found

/-- The fields of a balanced head are balanced. -/
theorem fields_of_parse {head : Piece} {h : SelectHead} (hp : parse head = .ok h)
    (hb : Balanced head.chars) : Balanced h.fields.chars := by
  obtain ⟨u, v, c, r, n, e, hu, hne, hf, hfields, -⟩ := exists_of_parse hp
  rw [e] at hb
  have hx : Balanced (v ++ c :: r) := hb.right ((seam_nil _).plain hu hne)
  rw [hfields]
  exact (hx.left (seam_of_start hf.outside (keyword_of_firstAt hf).1)).trim

/-- The table of a balanced head is balanced. -/
theorem table_of_parse {head : Piece} {h : SelectHead} (hp : parse head = .ok h)
    (hb : Balanced head.chars) :
    h.table.toList ≠ [] ∧ Tight h.table.toList ∧ Balanced h.table.toList := by
  obtain ⟨u, v, c, r, n, e, hu, hne, hf, -, htable, hnt⟩ := exists_of_parse hp
  obtain ⟨hd, -, hm⟩ := keyword_of_firstAt hf
  obtain ⟨hpos, hle, hplain⟩ := Keyword.plain_of_match? hm
  refine ⟨hnt, by rw [htable]; exact tight_trim _, ?_⟩
  rw [htable]
  rw [e] at hb
  have hx : Balanced (v ++ c :: r) := hb.right ((seam_nil _).plain hu hne)
  have hword : (c :: r).take n ≠ [] := by
    rw [Ne, List.take_eq_nil_iff]
    rintro (h | h)
    · omega
    · cases h
  have hseam : Seam v ((c :: r).take n ++ (c :: r).drop n) := by
    rw [List.take_append_drop]
    exact seam_of_start hf.outside hd
  have hx' : Balanced ((v ++ (c :: r).take n) ++ (c :: r).drop n) := by
    rwa [List.append_assoc, List.take_append_drop]
  exact (hx'.right (hseam.plain hplain hword)).trim

/-! ## Rendered heads -/

/-- What stands in front of the fields. -/
def lead (distinct : Bool) : List Char :=
  if distinct then "SELECT DISTINCT".toList else "SELECT ".toList

/-- The blank between `DISTINCT` and the fields. -/
def gap (distinct : Bool) : List Char :=
  if distinct then [' '] else []

/-- A head with the given fields, and `z` behind them. -/
def chars (distinct : Bool) (fields z : List Char) : List Char :=
  lead distinct ++ (gap distinct ++ (fields ++ z))

theorem place_fields (d : Bool) :
    ((Place.start (lead d).length (lead d).getLast?).advance (gap d)).quoting = .outside ∧
      ((Place.start (lead d).length (lead d).getLast?).advance (gap d)).depth = 0 ∧
      ((Place.start (lead d).length (lead d).getLast?).advance (gap d)).before = some ' ' := by
  cases d <;> exact ⟨rfl, rfl, rfl⟩

theorem parse_select_iff {head : Piece} {x : List Char} {h : SelectHead}
    (e : head.chars = "SELECT ".toList ++ x) (hx : ∀ c ∈ x.head?, isBlank c = false) :
    parse head = .ok h ↔
      (∃ m y, x = m ++ y ∧ Keyword.distinct.match? x = some m.length ∧ h.distinct = true ∧
        CutAt head ("SELECT ".toList ++ m).length h) ∨
      (Keyword.distinct.match? x = none ∧ h.distinct = false ∧
        CutAt head "SELECT ".toList.length h) := by
  have hb : (Cursor.ofPiece head).Between [] ("SELECT".toList ++ ([' '] ++ x)) := by
    have := Cursor.between_ofPiece head
    rw [e] at this
    exact this
  have hm :
      Keyword.select.match? ("SELECT".toList ++ ([' '] ++ x)) = some "SELECT".toList.length := by
    have hm' : Keyword.select.match? "SELECT ".toList = some "SELECT".toList.length := by decide
    exact Keyword.match?_append_eq_some (y := x) hm' (.inl (by decide))
  have hc := Cursor.consume?_of_match? hb hm
  have hblank : Blank [' '] := by decide
  have hs := hb.jump.skip hblank hx
  rw [parse_eq_ok_iff, hc]
  constructor
  · rintro ⟨c, hc', hd, hcut⟩
    cases hc'
    cases hd' :
        ((Cursor.ofPiece head).jump "SELECT".toList.length).skipBlanks.consume? .distinct with
    | none =>
      right
      rw [hd', Option.getD_none, hs.position] at hcut
      rw [hd'] at hd
      rw [Cursor.consume?, hs.rest, Option.map_eq_none_iff] at hd'
      exact ⟨hd', hd, hcut⟩
    | some c' =>
      left
      obtain ⟨m, y, hmy, hmatch, -, -, hb'⟩ := Cursor.consume?_eq_some hs hd'
      rw [hd', Option.getD_some, hb'.position] at hcut
      rw [hd'] at hd
      exact ⟨m, y, hmy, hmatch, hd, hcut⟩
  · rintro (⟨m, y, rfl, hmatch, hd, hcut⟩ | ⟨hmatch, hd, hcut⟩)
    · have hd' := Cursor.consume?_of_match? hs hmatch
      refine ⟨_, rfl, by rw [hd', hd]; rfl, ?_⟩
      rw [hd', Option.getD_some, hs.jump.position]
      exact hcut
    · have hd' : ((Cursor.ofPiece head).jump "SELECT".toList.length).skipBlanks.consume? .distinct =
          none := by
        rw [Cursor.consume?, hs.rest, hmatch]
        rfl
      refine ⟨_, rfl, by rw [hd', hd]; rfl, ?_⟩
      rw [hd', Option.getD_none, hs.position]
      exact hcut

/-- A rendered head is cut behind its lead, unless its fields start like `DISTINCT`. -/
theorem parse_chars_iff {head : Piece} {d : Bool} {x z : List Char} {h : SelectHead}
    (e : head.chars = chars d x z) (hne : x ≠ []) (hx : Tight x) (hd : h.distinct = d) :
    parse head = .ok h ↔ (d = false → Keyword.distinct.match? (x ++ z) = none) ∧
      CutAt head (lead d).length h := by
  have hhead : ∀ c ∈ (x ++ z).head?, isBlank c = false := by
    obtain ⟨c, x, rfl⟩ := List.exists_cons_of_ne_nil hne
    exact hx.head
  cases d with
  | true =>
    have e' : head.chars = "SELECT ".toList ++ ("DISTINCT".toList ++ (' ' :: (x ++ z))) := e
    have hm : Keyword.distinct.match? ("DISTINCT".toList ++ (' ' :: (x ++ z))) =
        some "DISTINCT".toList.length := by
      have hm' : Keyword.distinct.match? "DISTINCT ".toList = some "DISTINCT".toList.length := by
        decide
      exact Keyword.match?_append_eq_some (y := x ++ z) hm' (.inl (by decide))
    have hlead : (lead true).length = ("SELECT ".toList ++ "DISTINCT".toList).length := by decide
    rw [parse_select_iff e' (fun c hc => by cases hc; decide), hlead]
    constructor
    · rintro (⟨m, y, -, hmatch, -, hcut⟩ | ⟨hmatch, -⟩)
      · rw [hm, Option.some.injEq] at hmatch
        rw [List.length_append, ← hmatch, ← List.length_append] at hcut
        exact ⟨nofun, hcut⟩
      · rw [hm] at hmatch
        cases hmatch
    · rintro ⟨-, hcut⟩
      exact .inl ⟨_, _, rfl, hm, hd, hcut⟩
  | false =>
    have e' : head.chars = "SELECT ".toList ++ (x ++ z) := e
    rw [parse_select_iff e' hhead]
    constructor
    · rintro (⟨m, y, -, -, hd', -⟩ | ⟨hmatch, -, hcut⟩)
      · rw [hd] at hd'
        cases hd'
      · exact ⟨fun _ => hmatch, hcut⟩
    · rintro ⟨hmatch, hcut⟩
      exact .inr ⟨hmatch rfl, hd, hcut⟩

theorem cutAt_chars_iff {head : Piece} {d : Bool} {x z : List Char} {h : SelectHead}
    (e : head.chars = chars d x z) :
    CutAt head (lead d).length h ↔ ∃ v c r n, gap d ++ (x ++ z) = v ++ c :: r ∧
      FirstAt (·.topKeyword? .fromTable) (.start (lead d).length (lead d).getLast?) v c r n ∧
      h.fields = head.cut (lead d).length ((lead d).length + v.length) ∧
      h.fields.chars = trim v ∧ h.table.toList = trim ((c :: r).drop n) ∧ h.table.toList ≠ [] :=
  cutAt_iff e

/-- The `FROM` that a head is written with is the first in it. -/
theorem firstAt_from (d : Bool) {x : List Char} (hb : Balanced x)
    (hq : Quiet (·.topKeyword? .fromTable) (some ' ') x) (t : List Char) :
    FirstAt (·.topKeyword? .fromTable) (.start (lead d).length (lead d).getLast?)
      (gap d ++ (x ++ [' '])) 'F' ("ROM ".toList ++ t) 4 := by
  obtain ⟨hquoting, hdepth, hbefore⟩ := place_fields d
  have hfresh := Place.fresh_of_outside hquoting x
  obtain ⟨hclear, hdepth'⟩ := hb.advance hfresh
  have hplain : Plain [' '] := by decide
  obtain ⟨hclear', hdepth'', -⟩ := hplain.advance hclear
  have hmatch : Keyword.fromTable.match? ('F' :: ("ROM ".toList ++ t)) = some 4 := by
    have hm : Keyword.fromTable.match? "FROM ".toList = some 4 := by decide
    exact Keyword.match?_append_eq_some (y := t) hm (.inl (by decide))
  refine ⟨?_, ?_, ?_⟩
  · rw [Place.advance_append, Place.advance_append]
    exact Place.isOutside_of_clear hclear' (by decide)
  · rw [Place.advance_append, Place.advance_append, Site.topKeyword?, Site.keyword?, if_pos, if_pos]
    · exact hmatch
    · rw [Site.followsBlank, Place.site, Place.advance_before]
      rfl
    · rw [Place.site, hdepth'', hdepth', hdepth]
  · have hblanks : ∀ s : Site, s.char = ' ' → s.topKeyword? .fromTable = none :=
      fun s hs => topKeyword?_eq_none_of_blank hs _
    have hgap : ∀ c ∈ gap d, c = ' ' := by
      cases d <;> decide
    refine forall_sitesFrom_append.2 ⟨?_, forall_sitesFrom_append.2 ⟨?_, ?_⟩⟩
    all_goals try simp only [Site.extend_extend]
    · exact quiet_of_blanks hblanks hgap _ _
    · exact Quiet.sites (f := (·.topKeyword? .fromTable)) (by rw [hbefore]; exact hq)
        (lasting_topKeyword? rfl (stops_blank (c := 'F') (by decide) _)) hfresh hdepth
    · exact quiet_of_blanks hblanks (fun c hc => List.mem_singleton.1 hc) _ _

/-- A rendered head is read back. -/
theorem parse_chars {head : Piece} {d : Bool} {x t : List Char}
    (e : head.chars = chars d x (" FROM ".toList ++ t)) (hne : x ≠ []) (hx : Tight x)
    (hb : Balanced x) (hq : Quiet (·.topKeyword? .fromTable) (some ' ') x)
    (hd : d = false → Keyword.distinct.match? (x ++ [' ']) = none) (htne : t ≠ []) (ht : Tight t) :
    ∃ h, parse head = .ok h ∧ h.distinct = d ∧ h.fields.chars = x ∧ h.table.toList = t := by
  have hblank : Blank [' '] := by decide
  have hgap : Blank (gap d) := by
    cases d <;> decide
  have htext : gap d ++ (x ++ (" FROM ".toList ++ t)) =
      (gap d ++ (x ++ [' '])) ++ 'F' :: ("ROM ".toList ++ t) := by
    have hfrom : " FROM ".toList = [' '] ++ 'F' :: "ROM ".toList := by decide
    rw [hfrom]
    simp
  have hfields : trim (gap d ++ (x ++ [' '])) = x := trim_blank_append_blank hgap hblank hx
  have htable : trim (('F' :: ("ROM ".toList ++ t)).drop 4) = t := by
    have hdrop : ('F' :: ("ROM ".toList ++ t)).drop 4 = [' '] ++ t := rfl
    rw [hdrop, trim_blank_append hblank, trim_eq_self ht]
  have hcut : (head.cut (lead d).length
      ((lead d).length + (gap d ++ (x ++ [' '])).length)).chars = x := by
    have e' : head.chars = lead d ++ ((gap d ++ (x ++ [' '])) ++ 'F' :: ("ROM ".toList ++ t)) := by
      rw [e, chars, htext]
    rw [Piece.cut_of_eq e' rfl rfl, hfields]
  refine ⟨⟨d, head.cut (lead d).length ((lead d).length + (gap d ++ (x ++ [' '])).length),
    String.ofList t⟩, ?_, rfl, hcut, String.toList_ofList⟩
  refine (parse_chars_iff e hne hx rfl).2 ⟨fun h' => ?_, ?_⟩
  · exact match?_distinct_append (hd h') ("FROM ".toList ++ t)
  · refine (cutAt_chars_iff e).2 ⟨_, _, _, 4, htext, firstAt_from d hb hq t, rfl, ?_, ?_, ?_⟩
    · rw [hcut, hfields]
    · rw [htable, String.toList_ofList]
    · rwa [String.toList_ofList]

/-- `FROM` has four letters. -/
theorem length_solid_from {x : List Char} {n : Nat} (h : Keyword.fromTable.match? x = some n) :
    (solid (x.take n)).length = 4 := by
  obtain ⟨r, hr, -, rfl⟩ := Keyword.match?_eq_some_iff.1 h
  obtain ⟨u, rfl, hu⟩ := Spelling.dropWord_eq_some_iff.1 hr
  have hletters : ∀ c ∈ u, isBlank c = false := by
    intro c hc
    have hmem : c.toUpper ∈ "FROM".toList := by
      rw [← hu]
      exact List.mem_map.2 ⟨c, hc, rfl⟩
    have hupper : ∀ d ∈ "FROM".toList, d.isUpper = true := by decide
    exact Spelling.not_isBlank_of_isUpper (hupper _ hmem)
  have hlength : u.length = 4 := by
    have := congrArg List.length hu
    rwa [List.length_map] at this
  rw [List.length_append, Nat.add_sub_cancel_right, List.take_left, solid,
    List.filter_eq_self.2 (fun c hc => by rw [hletters c hc]; rfl), hlength]

/-- A list of fields that is read off whole ends in front of the `FROM` at which the head is cut. -/
theorem exists_of_solid_eq {g x z v y : List Char} (hg : Blank g) (hne : x ≠ []) (hx : Tight x)
    (e : g ++ (x ++ z) = v ++ y) (hs : solid v = solid x) :
    ∃ w, v = g ++ (x ++ w) ∧ z = w ++ y := by
  rw [← List.append_assoc] at e
  rcases List.append_eq_append_iff.1 e with ⟨w, hv, hz⟩ | ⟨w, hv, hy⟩
  · exact ⟨w, by rw [hv, List.append_assoc], hz⟩
  · have hsolid := congrArg solid hv
    rw [solid_append, solid_append, solid_eq_nil_iff.2 hg, List.nil_append, hs] at hsolid
    have hw : Blank w := solid_eq_nil_iff.1 (List.self_eq_append_right.1 hsolid)
    have hlast := congrArg List.getLast? hv
    obtain ⟨l, hl⟩ := Option.isSome_iff_exists.1 (List.getLast?_isSome.2 hne)
    rw [List.getLast?_append, List.getLast?_append, hl, Option.some_or] at hlast
    cases hwl : w.getLast? with
    | none =>
      have hnil := List.getLast?_eq_none_iff.1 hwl
      rw [hnil, List.append_nil] at hv
      rw [hnil, List.nil_append] at hy
      exact ⟨[], by rw [List.append_nil, hv], by rw [hy, List.nil_append]⟩
    | some l' =>
      rw [hwl, Option.some_or, Option.some.injEq] at hlast
      have hb := hw l' (List.mem_of_getLast? hwl)
      rw [← hlast, hx.last l hl] at hb
      cases hb

/-- What a head that is read back tells about its fields, and how much is left for the table. -/
theorem quiet_of_parse {head : Piece} {d : Bool} {x z : List Char} {h : SelectHead}
    (e : head.chars = chars d x z) (hne : x ≠ []) (hx : Tight x)
    (hz : ∀ c ∈ z.head?, isBlank c = true) (hp : parse head = .ok h) (hd : h.distinct = d)
    (hs : solid h.fields.chars = solid x) :
    (d = false → Keyword.distinct.match? (x ++ z) = none) ∧
      Quiet (·.topKeyword? .fromTable) (some ' ') x ∧
      (solid h.table.toList).length + 4 ≤ (solid z).length := by
  obtain ⟨hmatch, hcut⟩ := (parse_chars_iff e hne hx hd).1 hp
  obtain ⟨v, c, r, n, hsplit, hf, -, hfields, htable, -⟩ := (cutAt_chars_iff e).1 hcut
  obtain ⟨hquoting, hdepth, hbefore⟩ := place_fields d
  have hgap : Blank (gap d) := by
    cases d <;> decide
  rw [hfields, solid_trim] at hs
  obtain ⟨w, rfl, hw⟩ := exists_of_solid_eq hgap hne hx hsplit hs
  refine ⟨hmatch, ?_, ?_⟩
  · have hq := (forall_sitesFrom_append.1 (forall_sitesFrom_append.1 hf.quiet).2).1
    simp only [Site.extend_extend, ← hw] at hq
    rw [← hbefore]
    exact quiet_of_sites hq (persistent_topKeyword? .fromTable hz)
      (Place.fresh_of_outside hquoting x) hdepth
  · have hfrom := length_solid_from (keyword_of_firstAt hf).2.2
    have hlength : (solid z).length = (solid w).length + ((solid ((c :: r).take n)).length +
        (solid ((c :: r).drop n)).length) := by
      have hcut : solid (c :: r) = solid ((c :: r).take n) ++ solid ((c :: r).drop n) := by
        rw [← solid_append, List.take_append_drop]
      rw [hw, solid_append, hcut, List.length_append, List.length_append]
    rw [htable, solid_trim]
    omega

end SelectHead

end TableQuery
