import TableQuery.Proofs.Division
import TableQuery.Proofs.ErrorKinds
import TableQuery.Proofs.WordPlaces

/-!
# The grammar of the head of a `SELECT`

The head of a `SELECT` is `SELECT [DISTINCT] <fields> FROM <table>`. A `Layout` is a text taken
apart in this way, and it is `Grammatical` if it starts with `SELECT` and a gap, if `DISTINCT` is
taken off whenever it stands there, and if its `FROM` is the first one outside literals and
parentheses.

The search for `FROM` starts behind the lead, with no parenthesis open, and not at the start of the
text. This makes no difference: the lead is plain, and no letter of `SELECT` or `DISTINCT` starts a
`FROM`, so that the first `FROM` behind the lead is the first one of the text
(`SelectHead.firstAt_behind_lead_iff`). A balanced head is read exactly if it has a grammatical
layout, and refused as a malformed `SELECT` otherwise (`SelectHead.cut_at_first_from`).
-/

namespace TableQuery.SelectHead

open Text Outline

/-! ## The lead -/

/-- `SELECT`, a gap, and `DISTINCT` or nothing stand in front of `x`. The gap is the whole run of
blanks, and `DISTINCT` is not left out if it stands behind the gap and in front of a blank. -/
structure LeadAt (select gap distinct x : List Char) : Prop where
  select : select.map Char.toUpper = ['S', 'E', 'L', 'E', 'C', 'T']
  gap : gap ≠ [] ∧ Blank gap
  whole : ∀ c ∈ (distinct ++ x).head?, isBlank c = false
  distinct : StartsWith ['D', 'I', 'S', 'T', 'I', 'N', 'C', 'T'] (distinct ++ x) distinct ∨
    distinct = [] ∧ ∀ d, ¬StartsWith ['D', 'I', 'S', 'T', 'I', 'N', 'C', 'T'] x d

theorem match?_select_append_iff {s y : List Char} :
    Keyword.select.match? (s ++ y) = some s.length ↔
    s.map Char.toUpper = ['S', 'E', 'L', 'E', 'C', 'T'] ∧ ∃ c ∈ y.head?, isBlank c = true :=
  Keyword.match?_append_iff rfl rfl (by decide)

theorem match?_distinct_append_iff {d y : List Char} :
    Keyword.distinct.match? (d ++ y) = some d.length ↔
    d.map Char.toUpper = ['D', 'I', 'S', 'T', 'I', 'N', 'C', 'T'] ∧
      ∃ c ∈ y.head?, isBlank c = true :=
  Keyword.match?_append_iff rfl rfl (by decide)

theorem match?_distinct_eq_none_iff {x : List Char} : Keyword.distinct.match? x = none ↔
    ∀ d, ¬StartsWith ['D', 'I', 'S', 'T', 'I', 'N', 'C', 'T'] x d := by
  have hsome : ∀ n, Keyword.distinct.match? x = some n ↔
      ∃ d, StartsWith ['D', 'I', 'S', 'T', 'I', 'N', 'C', 'T'] x d ∧ n = d.length :=
    fun n => Keyword.match?_eq_some_iff_startsWith rfl rfl (by decide)
  rw [Option.eq_none_iff_forall_ne_some]
  constructor
  · exact fun h d hd => h d.length ((hsome _).2 ⟨d, hd, rfl⟩)
  · intro h n hn
    obtain ⟨d, hd, -⟩ := (hsome n).1 hn
    exact h d hd

variable {core : Piece} {s g d x : List Char}

/-- The lead is plain, and no letter of it starts a `FROM`. -/
theorem LeadAt.plain (h : LeadAt s g d x) :
    Plain (s ++ (g ++ d)) ∧ ∀ c ∈ s ++ (g ++ d), c.toUpper ≠ 'F' := by
  have hword : ∀ {v w : List Char}, v.map Char.toUpper = w → Spelling.IsWord w → 'F' ∉ w →
      Plain v ∧ ∀ c ∈ v, c.toUpper ≠ 'F' := by
    rintro v w rfl hw hF
    exact ⟨(hw.plain rfl).2, fun c hc e => hF (e ▸ List.mem_map_of_mem hc)⟩
  obtain ⟨hs, hsF⟩ := hword h.select (by decide) (by decide)
  obtain ⟨hd, hdF⟩ : Plain d ∧ ∀ c ∈ d, c.toUpper ≠ 'F' := by
    rcases h.distinct with ⟨hd, -⟩ | ⟨rfl, -⟩
    · exact hword hd (by decide) (by decide)
    · exact ⟨plain_of_blank blank_nil, nofun⟩
  refine ⟨hs.append ((plain_of_blank h.gap.2).append hd), ?_⟩
  intro c hc
  simp only [List.mem_append] at hc
  rcases hc with hc | hc | hc
  · exact hsF c hc
  · intro e
    have hupper := Spelling.isUpper_toUpper_of_isBlank (h.gap.2 c hc)
    rw [e] at hupper
    cases hupper
  · exact hdF c hc

theorem LeadAt.ne_nil (h : LeadAt s g d x) : s ++ (g ++ d) ≠ [] := by
  intro e
  exact h.gap.1 (List.append_eq_nil_iff.1 (List.append_eq_nil_iff.1 e).2).1

/-- What is taken off the front of a text is a lead. -/
theorem exists_lead_of_consume? {c : Cursor}
    (hc : (Cursor.ofPiece core).consume? .select = some c) :
    ∃ s g d x, core.chars = s ++ (g ++ (d ++ x)) ∧ LeadAt s g d x ∧
      (c.skipBlanks.consume? .distinct).isSome = !d.isEmpty ∧
      ((c.skipBlanks.consume? .distinct).getD c.skipBlanks).position = (s ++ (g ++ d)).length := by
  obtain ⟨s, y, htext, hmatch, -, -, hb⟩ := Cursor.consume?_eq_some (Cursor.between_ofPiece core) hc
  rw [htext] at hmatch
  obtain ⟨hs, b, hy, hblank⟩ := match?_select_append_iff.1 hmatch
  have hgap : y.takeWhile isBlank ≠ [] := by
    obtain ⟨y, rfl⟩ := List.head?_eq_some_iff.1 hy
    rw [List.takeWhile_cons_of_pos hblank]
    exact List.cons_ne_nil _ _
  have hwhole : ∀ c ∈ (trimStart y).head?, isBlank c = false := head?_dropWhile_isBlank y
  have hchars : core.chars = s ++ (y.takeWhile isBlank ++ trimStart y) := by
    rw [htext, trimStart, List.takeWhile_append_dropWhile]
  have hskip := hb.skipBlanks
  rw [List.nil_append] at hskip
  cases hd : c.skipBlanks.consume? .distinct with
  | none =>
    have hnone : Keyword.distinct.match? (trimStart y) = none := by
      rw [Cursor.consume?, hskip.rest] at hd
      exact Option.map_eq_none_iff.1 hd
    refine ⟨s, y.takeWhile isBlank, [], trimStart y, hchars,
      ⟨hs, ⟨hgap, blank_takeWhile y⟩, hwhole, ?_⟩, rfl, ?_⟩
    · exact .inr ⟨rfl, match?_distinct_eq_none_iff.1 hnone⟩
    · rw [List.append_nil]
      exact hskip.position
  | some c' =>
    obtain ⟨d, x, hdx, hmatch', -, hne, hb'⟩ := Cursor.consume?_eq_some hskip hd
    rw [hdx] at hchars hwhole hmatch'
    obtain ⟨hspelled, hblank'⟩ := match?_distinct_append_iff.1 hmatch'
    refine ⟨s, y.takeWhile isBlank, d, x, hchars,
      ⟨hs, ⟨hgap, blank_takeWhile y⟩, hwhole, ?_⟩, ?_, ?_⟩
    · exact .inl ⟨hspelled, x, rfl, hblank'⟩
    · rw [List.isEmpty_eq_false_iff.2 hne]
      rfl
    · rw [← List.append_assoc]
      exact hb'.position

/-- A lead is taken off the front of a text. -/
theorem consume?_of_lead (e : core.chars = s ++ (g ++ (d ++ x))) (h : LeadAt s g d x) :
    ∃ c, (Cursor.ofPiece core).consume? .select = some c ∧
      (c.skipBlanks.consume? .distinct).isSome = !d.isEmpty ∧
      ((c.skipBlanks.consume? .distinct).getD c.skipBlanks).position = (s ++ (g ++ d)).length := by
  have hb : (Cursor.ofPiece core).Between [] (s ++ (g ++ (d ++ x))) :=
    e ▸ Cursor.between_ofPiece core
  have hblank : ∃ c ∈ (g ++ (d ++ x)).head?, isBlank c = true := by
    obtain ⟨hne, hg⟩ := h.gap
    obtain ⟨c, g, rfl⟩ := List.exists_cons_of_ne_nil hne
    exact ⟨c, rfl, hg c List.mem_cons_self⟩
  refine ⟨_, Cursor.consume?_of_match? hb (match?_select_append_iff.2 ⟨h.select, hblank⟩), ?_⟩
  have hskip := hb.jump.skip h.gap.2 h.whole
  rw [List.nil_append] at hskip
  rcases h.distinct with ⟨hd, y, hy, hblank'⟩ | ⟨rfl, hnone⟩
  · obtain rfl := List.append_cancel_left hy
    have hne : d ≠ [] := by
      rintro rfl
      cases hd
    rw [Cursor.consume?_of_match? hskip (match?_distinct_append_iff.2 ⟨hd, hblank'⟩),
      List.isEmpty_eq_false_iff.2 hne]
    refine ⟨rfl, ?_⟩
    rw [← List.append_assoc]
    exact hskip.jump.position
  · have hconsume : ((Cursor.ofPiece core).jump s.length).skipBlanks.consume? .distinct = none := by
      rw [Cursor.consume?, hskip.rest, List.nil_append, match?_distinct_eq_none_iff.2 hnone]
      rfl
    rw [hconsume]
    refine ⟨rfl, ?_⟩
    rw [List.append_nil]
    exact hskip.position

/-! ## The first `FROM` -/

/-- `FROM` stands in the text `x` right behind `u`, in the spelling `k`: outside literals and
parentheses, behind a blank, and in front of a blank or at the end. -/
def FromAt (x u k : List Char) : Prop :=
  WordAt (Scanned 0) ['F', 'R', 'O', 'M'] x u k

/-- No `FROM` starts with a character that is not its first letter. -/
theorem topKeyword?_from_eq_none {s : Site} (h : s.char.toUpper ≠ 'F') :
    s.topKeyword? .fromTable = none := by
  rw [Option.eq_none_iff_forall_ne_some]
  intro n hn
  obtain ⟨w, r, e, hw, -, -⟩ :=
    Keyword.match?_eq_some_iff_spells.1 (Site.topKeyword?_eq_some_iff.1 hn).2.2
  obtain ⟨c, hc, hletter⟩ := hw.head? (by decide)
  have hhead : s.here.head? = some c := by rw [e, List.head?_append, hc, Option.some_or]
  cases hhead
  exact h (Option.some.inj hletter).symm

/-- Behind a plain text, which leaves no literal and no parenthesis open, the walk is the one that
starts there. -/
theorem walk_behind_plain {u : List Char} (hu : Plain u) (hne : u ≠ []) (v : List Char) :
    sitesFrom ((Place.start 0 none).advance u) v = sitesFrom (.start u.length u.getLast?) v ∧
      ∀ c r, ((Place.start 0 none).advance (u ++ v)).isOutside c =
          ((Place.start u.length u.getLast?).advance v).isOutside c ∧
        ((Place.start 0 none).advance (u ++ v)).site c r =
          ((Place.start u.length u.getLast?).advance v).site c r := by
  obtain ⟨-, hdepth, hquoting⟩ := hu.advance (Place.clear_start 0 none)
  have hbefore :
      ((Place.start 0 none).advance u).before = (Place.start u.length u.getLast?).before := by
    rw [Place.advance_before]
    exact Option.or_none
  have hshift : (Place.start u.length u.getLast?).Shift 0 0 ((Place.start 0 none).advance u) := by
    refine ⟨?_, hdepth, by rw [hquoting hne]; rfl⟩
    rw [Place.advance_index]
    exact Nat.zero_add _
  obtain ⟨hsites, hend⟩ := sitesFrom_shift hshift hbefore (x := v) (.inl rfl)
  refine ⟨by rw [hsites]; exact List.map_id _, fun c r => ⟨?_, ?_⟩⟩
  · rw [Place.advance_append]
    exact hend.isOutside c
  · rw [Place.advance_append, Place.site, Place.site, hend.index, hend.depth,
      Place.advance_before _ v, Place.advance_before _ v, hbefore]
    rfl

/-- The first `FROM` behind the lead is the first one of the text. -/
theorem firstAt_behind_lead_iff {u : List Char} (hu : Plain u) (hne : u ≠ [])
    (hletters : ∀ c ∈ u, c.toUpper ≠ 'F') {v : List Char} {c : Char} {r : List Char} {n : Nat} :
    FirstAt (·.topKeyword? .fromTable) (.start u.length u.getLast?) v c r n ↔
      FirstAt (·.topKeyword? .fromTable) (.start 0 none) (u ++ v) c r n := by
  obtain ⟨hsites, hplace⟩ := walk_behind_plain hu hne v
  obtain ⟨houtside, hsite⟩ := hplace c r
  -- the whole text has no `FROM` more than the rest: none starts in the lead
  have hlead :
      ∀ s ∈ sitesFrom (.start 0 none) u, ∀ z, (s.extend z).topKeyword? .fromTable = none := by
    intro s hs z
    obtain ⟨a, b, t, rfl, -, rfl⟩ := mem_sitesFrom.1 hs
    exact topKeyword?_from_eq_none (hletters b (by simp))
  constructor
  · rintro ⟨ho, hf, hq⟩
    refine ⟨by rw [houtside]; exact ho, by rw [hsite]; exact hf, ?_⟩
    refine forall_sitesFrom_append.2 ⟨fun s hs => ?_, by rw [hsites]; exact hq⟩
    rw [Site.extend_extend]
    exact hlead s hs _
  · rintro ⟨ho, hf, hq⟩
    refine ⟨by rw [← houtside]; exact ho, by rw [← hsite]; exact hf, ?_⟩
    rw [← hsites]
    exact (forall_sitesFrom_append.1 hq).2

/-- Behind a lead, a balanced head is cut at the first `FROM` of the text. -/
theorem cutAt_iff_from {u x : List Char} (hb : Balanced core.chars) (e : core.chars = u ++ x)
    (hu : Plain u) (hne : u ≠ []) (hletters : ∀ c ∈ u, c.toUpper ≠ 'F') {h : SelectHead} :
    CutAt core u.length h ↔ ∃ v k y, x = v ++ (k ++ y) ∧ FromAt core.chars (u ++ v) k ∧
      (∀ u' k', FromAt core.chars u' k' → (u ++ v).length ≤ u'.length) ∧ ¬Blank y ∧
      h.fields = Piece.trimmed ⟨v, core.start + byteLength u⟩ ∧
      h.table = String.ofList (trim y) := by
  have hword : ∀ u n, AnswersAt (·.topKeyword? .fromTable) core.chars u n ↔
      ∃ k, FromAt core.chars u k ∧ n = k.length := fun u n => Keyword.answersAt_top_iff rfl rfl hb
  have hfields : ∀ {v z : List Char}, x = v ++ z →
      core.cut u.length (u.length + v.length) = Piece.trimmed ⟨v, core.start + byteLength u⟩ :=
    fun hx => Piece.cut_eq_trimmed (by rw [e, hx])
  rw [cutAt_iff e]
  simp only [firstAt_behind_lead_iff hu hne hletters]
  constructor
  · rintro ⟨v, c, r, n, hx, hf, hfield, -, htable, hnt⟩
    obtain ⟨k, hk, rfl, hfirst⟩ := (exists_firstAt_iff_of hword).1
      ⟨c, r, by rw [e, hx, List.append_assoc], hf⟩
    obtain ⟨y, hy, -⟩ := hk.2.2.2
    have hcr : c :: r = k ++ y := by
      rw [e, hx, List.append_assoc, List.append_cancel_left_eq, List.append_cancel_left_eq] at hy
      exact hy
    rw [hcr, List.drop_left] at htable
    rw [htable, Ne, trim_eq_nil_iff] at hnt
    refine ⟨v, k, y, by rw [hx, hcr], hk, hfirst, hnt, hfield.trans (hfields hx), ?_⟩
    rw [← htable, String.ofList_toList]
  · rintro ⟨v, k, y, rfl, hk, hfirst, hy, hfield, htable⟩
    obtain ⟨c, r, he, hf⟩ := (exists_firstAt_iff_of hword).2 ⟨k, hk, rfl, hfirst⟩
    have hcr : c :: r = k ++ y := by
      rw [e, List.append_assoc, List.append_cancel_left_eq, List.append_cancel_left_eq] at he
      exact he.symm
    have htext : h.table.toList = trim ((c :: r).drop k.length) := by
      rw [htable, String.toList_ofList, hcr, List.drop_left]
    refine ⟨v, c, r, k.length, by rw [hcr], hf, hfield.trans (hfields rfl).symm, ?_, htext, ?_⟩
    · rw [hfield]
      rfl
    · rw [htable, String.toList_ofList]
      exact mt trim_eq_nil_iff.1 hy

/-! ## The grammar -/

/-- The head of a `SELECT`, taken apart. -/
structure Layout where
  select : List Char
  gap : List Char
  distinct : List Char
  fields : List Char
  keyword : List Char
  table : List Char

namespace Layout

/-- What stands in front of the fields. -/
def lead (t : Layout) : List Char :=
  t.select ++ (t.gap ++ t.distinct)

/-- The text that is laid out. -/
def chars (t : Layout) : List Char :=
  t.lead ++ (t.fields ++ (t.keyword ++ t.table))

/-- A lead, any fields, the first `FROM`, and a table that is not blank. -/
structure Grammatical (t : Layout) : Prop where
  lead : LeadAt t.select t.gap t.distinct (t.fields ++ (t.keyword ++ t.table))
  keyword : FromAt t.chars (t.lead ++ t.fields) t.keyword
  first : ∀ u k, FromAt t.chars u k → (t.lead ++ t.fields).length ≤ u.length
  table : ¬Blank t.table

/-- The head that is laid out in a text which starts at the given byte. -/
def head (start : Nat) (t : Layout) : SelectHead :=
  ⟨!t.distinct.isEmpty, Piece.trimmed ⟨t.fields, start + byteLength t.lead⟩,
    String.ofList (trim t.table)⟩

end Layout

/-- A balanced head is read exactly if there is a layout of it, and holds the parts. -/
theorem parse_eq_ok_iff_layout (hb : Balanced core.chars) {h : SelectHead} :
    parse core = .ok h ↔
      ∃ t : Layout, t.chars = core.chars ∧ t.Grammatical ∧ h = t.head core.start := by
  rw [parse_eq_ok_iff]
  constructor
  · rintro ⟨c, hc, hdistinct, hcut⟩
    obtain ⟨s, g, d, x, e, hlead, hsome, hposition⟩ := exists_lead_of_consume? hc
    obtain ⟨hplain, hletters⟩ := hlead.plain
    have htext : core.chars = (s ++ (g ++ d)) ++ x := by rw [e]; simp only [List.append_assoc]
    rw [hposition, cutAt_iff_from hb htext hplain hlead.ne_nil hletters] at hcut
    obtain ⟨v, k, y, rfl, hk, hfirst, hy, hfields, htable⟩ := hcut
    rw [htext] at hk hfirst
    refine ⟨⟨s, g, d, v, k, y⟩, htext.symm, ⟨hlead, hk, hfirst, hy⟩, ?_⟩
    rw [Layout.head, Layout.lead, ← hsome, ← hdistinct, ← hfields, ← htable]
  · rintro ⟨t, e, ht, rfl⟩
    have htext : core.chars = t.lead ++ (t.fields ++ (t.keyword ++ t.table)) := e.symm
    obtain ⟨hplain, hletters⟩ := ht.lead.plain
    obtain ⟨c, hc, hsome, hposition⟩ :=
      consume?_of_lead (by rw [htext, Layout.lead]; simp only [List.append_assoc]) ht.lead
    refine ⟨c, hc, hsome.symm, ?_⟩
    rw [hposition]
    refine (cutAt_iff_from hb htext hplain ht.lead.ne_nil hletters).2
      ⟨t.fields, t.keyword, t.table, rfl, ?_⟩
    exact ⟨e ▸ ht.keyword, e ▸ ht.first, ht.table, rfl, rfl⟩

/-- A head whose literals and parentheses are closed is read exactly if it starts with `SELECT` and
a gap, perhaps `DISTINCT`, and if something stands behind the first `FROM` outside literals and
parentheses. It is cut at that `FROM`: the fields stand in front of it, trimmed and with the byte at
which they start, and the table behind it. Every other such head is refused as a malformed
`SELECT`. -/
theorem cut_at_first_from (core : Piece) (h : Scanned 0 core.chars) :
    (∀ head, parse core = .ok head ↔
      ∃ t : Layout, t.chars = core.chars ∧ t.Grammatical ∧ head = t.head core.start) ∧
    ((¬∃ t : Layout, t.chars = core.chars ∧ t.Grammatical) →
      ∃ e, parse core = .error e ∧ e.kind = .malformedSelect) := by
  have hb := scanned_iff_balanced.1 h
  refine ⟨fun head => parse_eq_ok_iff_layout hb, fun hnone => ?_⟩
  cases hp : parse core with
  | error e => exact ⟨e, rfl, (kinds_parse hb).of_error hp⟩
  | ok head =>
    obtain ⟨t, e, ht, -⟩ := (parse_eq_ok_iff_layout hb).1 hp
    exact absurd ⟨t, e, ht⟩ hnone

/-- A head with a `FROM` in a call, in a literal, in a name and behind the table. -/
def manyFroms : Piece :=
  .ofString "Select  distinct f(x FROM é), ' FROM ' from_a From t FROM u" 7

/-- A head whose only `FROM` ends it. -/
def tableMissing : Piece :=
  .ofString "SELECT distinct(a) FROM " 0

theorem cut_at_first_from_many :
    (Scanned 0 manyFroms.chars ∧ ∃ t : Layout, t.chars = manyFroms.chars ∧ t.Grammatical ∧
      t.head 7 = ⟨true, ⟨"f(x FROM é), ' FROM ' from_a".toList, 24⟩, "t FROM u"⟩) ∧
    Scanned 0 tableMissing.chars ∧ (¬∃ t : Layout, t.chars = tableMissing.chars ∧ t.Grammatical) ∧
    ∃ e, parse tableMissing = .error e ∧ e.kind = .malformedSelect := by
  have hmany : Scanned 0 manyFroms.chars := by decide +kernel
  have hmissing : Scanned 0 tableMissing.chars := by decide +kernel
  have hread : parse manyFroms =
      .ok ⟨true, ⟨"f(x FROM é), ' FROM ' from_a".toList, 24⟩, "t FROM u"⟩ := by decide +kernel
  have hrefused : (parse tableMissing).isOk = false := by decide +kernel
  obtain ⟨t, e, ht, hhead⟩ := ((cut_at_first_from manyFroms hmany).1 _).1 hread
  have hnone : ¬∃ t : Layout, t.chars = tableMissing.chars ∧ t.Grammatical := by
    rintro ⟨t, e, ht⟩
    rw [((cut_at_first_from tableMissing hmissing).1 _).2 ⟨t, e, ht, rfl⟩] at hrefused
    cases hrefused
  exact ⟨⟨hmany, t, e, ht, hhead.symm⟩, hmissing, hnone,
    (cut_at_first_from tableMissing hmissing).2 hnone⟩

end TableQuery.SelectHead
