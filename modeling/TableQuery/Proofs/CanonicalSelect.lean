import TableQuery.Proofs.SelectRendering

/-!
# Canonical `SELECT`s

A canonical query has parts that are `Sealed`: balanced, tight, without a semicolon at the end and
without a reserved word outside literals. Its values are any texts. A canonical query is read back
from its rendering (`SelectQuery.ofText_render_of_canonical`).
-/

namespace TableQuery

open Text Outline

/-- The words that part a statement. -/
def reserved : List (List Char) :=
  ["SELECT", "DISTINCT", "FROM", "INNER", "LEFT", "RIGHT", "JOIN", "ON", "WHERE", "GROUP", "ORDER",
    "BY", "LIMIT", "AND", "OR", "LIKE"].map String.toList

/-- The text starts with a word, in any case of its ASCII letters, which a blank or the end
follows. -/
def startsWord (w cs : List Char) : Bool :=
  match Spelling.dropWord w cs with
  | some after => after.head?.all isBlank
  | none => false

/-- The site is the start of a word, at the front of the text or behind a blank. -/
def Site.startsWord (s : Site) (w : List Char) : Bool :=
  s.before.all isBlank && TableQuery.startsWord w s.here

/-- A part with no reserved word at the front or behind a blank, and no semicolon at the end. -/
structure Sealed (x : List Char) : Prop extends Part x where
  last : x.getLast? ≠ some ';'
  unreserved : ∀ s ∈ sitesFrom (.start 0 none) x, ∀ w ∈ reserved, s.startsWord w = false

instance (x : List Char) : Decidable (Sealed x) :=
  decidable_of_iff (Part x ∧ x.getLast? ≠ some ';' ∧
      ∀ s ∈ sitesFrom (.start 0 none) x, ∀ w ∈ reserved, s.startsWord w = false)
    ⟨fun h => ⟨h.1, h.2.1, h.2.2⟩, fun h => ⟨h.toPart, h.last, h.unreserved⟩⟩

theorem startsWord_of_match? {k : Keyword} {x : List Char} {n : Nat} (hk : k ≠ .values)
    (h : k.match? x = some n) : ∃ w ∈ k.spelling.words.head?, startsWord w x = true := by
  obtain ⟨r, hr, hallows, -⟩ := Keyword.match?_eq_some_iff.1 h
  have hblank : r.head?.all isBlank = true := by
    cases r with
    | nil => rfl
    | cons c r => simpa [Spelling.allows, Keyword.spelling, hk] using hallows
  cases hw : k.spelling.words with
  | nil => exact absurd hw k.words_ne_nil
  | cons w ws =>
    refine ⟨w, rfl, ?_⟩
    rw [hw] at hr
    cases ws with
    | nil =>
      have hr' : Spelling.dropWord w x = some r := hr
      rw [startsWord, hr']
      exact hblank
    | cons v ws =>
      obtain ⟨r₁, r₂, h₁, h₂, -⟩ := Spelling.dropWords_cons_cons.1 hr
      obtain ⟨g, hne, hg, rfl, -⟩ := Spelling.dropGap_eq_some_iff.1 h₂
      rw [startsWord, h₁]
      obtain ⟨c, g, rfl⟩ := List.exists_cons_of_ne_nil hne
      exact hg c List.mem_cons_self

/-- No word of a sealed text is reserved, also when a blank is in front of the text. -/
theorem Sealed.sites {x : List Char} (h : Sealed x) (b : Option Char) :
    ∀ s ∈ sitesFrom (.start 0 b) x, s.followsBlank = true → ∀ w ∈ reserved,
      TableQuery.startsWord w s.here = false := by
  intro s hs hb w hw
  have hun := h.unreserved
  cases x with
  | nil => cases hs
  | cons c r =>
    have hstart : ∀ b, sitesFrom (.start 0 b) (c :: r) =
        (if (Place.start 0 none).isOutside c then [⟨0, 0, b, c, r⟩] else []) ++
          sitesFrom ((Place.start 0 none).next c) r := fun b =>
      sitesFrom_withBefore (.start 0 none) b c r
    rw [hstart] at hs hun
    rcases List.mem_append.1 hs with hs | hs
    · split at hs
      · rename_i ho
        rw [List.mem_singleton] at hs
        subst hs
        have := hun ⟨0, 0, none, c, r⟩ (by simp [ho]) w hw
        simpa [Site.startsWord, Site.here] using this
      · cases hs
    · have := hun s (List.mem_append_right _ hs) w hw
      rw [Site.startsWord] at this
      rw [Site.followsBlank] at hb
      cases hbefore : s.before with
      | none => simp [hbefore] at hb
      | some d => simpa [hbefore, (by simpa [hbefore] using hb : isBlank d = true)] using this

/-- A sealed text does not start with a reserved word. -/
theorem Sealed.startsWord_eq_false {x : List Char} (h : Sealed x) {w : List Char}
    (hw : w ∈ reserved) :
    startsWord w x = false := by
  have hword : ∀ w ∈ reserved, w ≠ [] ∧ ∀ c ∈ w, c.isUpper = true := by decide
  rw [Bool.eq_false_iff]
  intro hstarts
  have hdrop : ∃ r, Spelling.dropWord w x = some r := by
    rw [startsWord] at hstarts
    split at hstarts
    · exact ⟨_, ‹_›⟩
    · cases hstarts
  obtain ⟨r, hr⟩ := hdrop
  obtain ⟨u, rfl, hu⟩ := Spelling.dropWord_eq_some_iff.1 hr
  cases u with
  | nil => exact (hword w hw).1 hu.symm
  | cons c u =>
    -- the first letter is no quote, so that a site stands there
    have hc : Literal.isQuote c = false := by
      refine (Spelling.plain_of_toUpper ((hword w hw).2 _ ?_)).1
      rw [← hu]
      exact List.mem_cons_self
    have ho : (Place.start 0 none).isOutside c = true :=
      Place.isOutside_of_clear (Place.clear_start 0 none) hc
    have hsite := h.unreserved ((Place.start 0 none).site c (u ++ r)) (by
      rw [List.cons_append, sitesFrom_cons_of_outside ho]
      exact List.mem_cons_self) w hw
    simp only [Site.startsWord, Place.site, Place.start, Option.all_none, Bool.true_and] at hsite
    exact absurd (hsite.symm.trans hstarts) (by decide)

theorem Sealed.quiet_keyword {x : List Char} (h : Sealed x) {k : Keyword} (hk : k ≠ .values)
    (hw : ∀ w ∈ k.spelling.words.head?, w ∈ reserved) (b : Option Char) :
    Quiet (·.keyword? k) b x := by
  intro s hs
  rw [Site.keyword?_eq_none_iff]
  intro hb
  cases hm : k.match? s.here with
  | none => rfl
  | some n =>
    obtain ⟨w, hmem, hstarts⟩ := startsWord_of_match? hk hm
    rw [h.sites b s hs hb w (hw w hmem)] at hstarts
    cases hstarts

theorem Sealed.quiet {x : List Char} (h : Sealed x) {k : Keyword} (hk : k ≠ .values)
    (hw : ∀ w ∈ k.spelling.words.head?, w ∈ reserved) (b : Option Char) :
    Quiet (·.topKeyword? k) b x := by
  intro s hs
  have := h.quiet_keyword hk hw b s hs
  simp only [Site.topKeyword?]
  split
  · exact this
  · rfl

theorem Sealed.quiet_clause {x : List Char} (h : Sealed x) (k : ClauseKind) (b : Option Char) :
    Quiet (·.topKeyword? k.keyword) b x := by
  refine h.quiet k.keyword_ne_values ?_ b
  revert k; decide

/-! ## Keywords in what is put together -/

theorem stops_comma (y : List Char) : Stops ([',', ' '] ++ y) := by
  have htrim : trimStart ([',', ' '] ++ y) = [',', ' '] ++ y :=
    trimStart_eq_self fun c hc => by cases hc; decide
  refine ⟨fun c hc => ?_, fun c hc => ?_⟩
  · cases hc
    decide
  · rw [htrim] at hc
    cases hc
    decide

theorem quiet_intercalate_comma {k : Keyword} (hk : k.canEnd = true) {xs : List (List Char)}
    (h : ∀ x ∈ xs, Balanced x ∧ ∀ b, Quiet (·.topKeyword? k) b x) (b : Option Char) :
    Quiet (·.topKeyword? k) b ([',', ' '].intercalate xs) := by
  induction xs generalizing b with
  | nil => exact fun s hs => by cases hs
  | cons x xs ih =>
    obtain ⟨⟨hb, hx⟩, hxs⟩ := List.forall_mem_cons.1 h
    cases xs with
    | nil =>
      rw [List.intercalate_singleton]
      exact hx b
    | cons y ys =>
      rw [List.intercalate_cons_cons, List.append_assoc]
      exact quiet_append hk (hx b) hb (by decide) (stops_comma _) (ih hxs _)

theorem quiet_listText {k : Keyword} (hk : k.canEnd = true) {l : List String}
    (h : ∀ f ∈ l, Balanced f.toList ∧ ∀ b, Quiet (·.topKeyword? k) b f.toList) (b : Option Char) :
    Quiet (·.topKeyword? k) b (listText l) :=
  quiet_intercalate_comma hk (List.forall_mem_map.2 h) b

theorem quiet_sortKeys (k : ClauseKind) {ks : List SortKey}
    (h : ∀ o ∈ ks, Sealed o.field.toList) (b : Option Char) :
    Quiet (·.topKeyword? k.keyword) b (SortKey.listChars ks) := by
  refine quiet_intercalate_comma k.canEnd_keyword ?_ b
  rw [List.forall_mem_map]
  intro o ho
  have hname : Plain o.direction.name.toList ∧ Foreign k.keyword o.direction.name.toList ∧
      ∃ c r, o.direction.name.toList = c :: r ∧
        (c ≠ 'B' ∧ c ≠ 'J' ∧ c.toUpper = c ∧ isBlank c = false) := by
    cases o.direction
    · exact ⟨by decide, by revert k; decide, _, _, rfl, by decide⟩
    · exact ⟨by decide, by revert k; decide, _, _, rfl, by decide⟩
  obtain ⟨hplain, hforeign, c, r, e, hc⟩ := hname
  have hchars : o.chars = o.field.toList ++ ([' '] ++ o.direction.name.toList) := rfl
  rw [hchars]
  refine ⟨(h o ho).toBalanced.append_plain (by decide) (by decide) hplain.balanced, fun b => ?_⟩
  refine quiet_append k.canEnd_keyword ((h o ho).quiet_clause k b) (h o ho).toBalanced
    (by decide) ?_ ?_
  · rw [e]
    exact stops_blank hc r
  · have := quiet_word (b := some ' ') k.canEnd_keyword hforeign (.inl rfl)
    rwa [List.append_nil] at this

theorem quiet_where (k : ClauseKind) {cs : List Condition}
    (h : ∀ c ∈ cs, Sealed c.field.toList) (b : Option Char) :
    Quiet (·.topKeyword? k.keyword) b (Where.chars cs) := by
  have hlike : Foreign k.keyword "LIKE".toList := by
    revert k; decide
  have hand : Foreign k.keyword "AND".toList := by
    revert k; decide
  induction cs generalizing b with
  | nil => exact fun s hs => by cases hs
  | cons c cs ih =>
    obtain ⟨hc, hcs⟩ := List.forall_mem_cons.1 h
    have hquiet : Quiet (·.topKeyword? k.keyword) b c.chars :=
      Condition.quiet_chars k.canEnd_keyword hlike hc.toBalanced (hc.quiet_clause k b)
    cases cs with
    | nil =>
      rw [Where.chars, List.map_singleton, List.intercalate_singleton]
      exact hquiet
    | cons d ds =>
      have hrest := quiet_word (b := some ' ') k.canEnd_keyword hand
        (.inr ⟨_, rfl, ih hcs (some ' ')⟩)
      have hchars : Where.chars (c :: d :: ds) =
          c.chars ++ ([' '] ++ ("AND".toList ++ ' ' :: Where.chars (d :: ds))) := by
        rw [Where.chars, List.map_cons, List.map_cons, List.intercalate_cons_cons,
          List.append_assoc]
        rfl
      rw [hchars]
      exact quiet_append k.canEnd_keyword hquiet
        (Condition.balanced_chars hc.toBalanced) (by decide)
        (stops_blank (c := 'A') (by decide) _) hrest

theorem match?_reference (k : ClauseKind) {x : List Char} (h : Join.IsReference x)
    (hx : x.map Char.toUpper ∉ ["WHERE".toList, "LIMIT".toList]) : k.keyword.match? x = none := by
  have hsolid : ∀ c ∈ x, isBlank c = false := fun c hc => Join.isBlank_of_inReference (h.2 c hc)
  have hwords : (∃ w ∈ ["WHERE".toList, "LIMIT".toList], k.keyword.spelling.words = [w]) ∨
      ∃ w v, k.keyword.spelling.words = [w, v] := by
    rcases k with _ | _ | _ | _ | (_ | _ | _) <;>
      first | exact .inl ⟨_, by decide, rfl⟩ | exact .inr ⟨_, _, rfl⟩
  rw [Keyword.match?_eq_none_iff]
  intro r hr
  rcases hwords with ⟨w, hw, e⟩ | ⟨w, v, e⟩
  · rw [e] at hr
    obtain ⟨u, rfl, rfl⟩ := Spelling.dropWord_eq_some_iff.1 hr
    cases r with
    | nil =>
      rw [List.append_nil] at hx
      exact absurd hw hx
    | cons c r =>
      have hc := hsolid c (List.mem_append_right _ List.mem_cons_self)
      simp [Spelling.allows, Keyword.spelling, hc, k.keyword_ne_values]
  · rw [e] at hr
    obtain ⟨r₁, r₂, h₁, h₂, -⟩ := Spelling.dropWords_cons_cons.1 hr
    obtain ⟨u, rfl, -⟩ := Spelling.dropWord_eq_some_iff.1 h₁
    obtain ⟨g, hne, hg, rfl, -⟩ := Spelling.dropGap_eq_some_iff.1 h₂
    obtain ⟨c, g, rfl⟩ := List.exists_cons_of_ne_nil hne
    have hc := hsolid c (List.mem_append_right _ List.mem_cons_self)
    rw [hg c List.mem_cons_self] at hc
    cases hc

/-- A reference holds a clause keyword only if it is one. -/
theorem quiet_reference (k : ClauseKind) {x : List Char} (h : Join.IsReference x)
    (hx : x.map Char.toUpper ∉ ["WHERE".toList, "LIMIT".toList]) (b : Option Char) :
    Quiet (·.topKeyword? k.keyword) b x := by
  have hsolid : ∀ c ∈ x, isBlank c = false := fun c hc => Join.isBlank_of_inReference (h.2 c hc)
  have hnone : k.keyword.match? (x ++ []) = none := by
    rw [List.append_nil]
    exact match?_reference k h hx
  intro s hs
  have htop := topKeyword?_solid_eq_none hsolid hnone s hs
  rwa [Site.extend_nil] at htop

theorem quiet_join (k : ClauseKind) {j : Join} (ht : Sealed j.table.toList)
    (hl : Join.IsReference j.left.toList ∧
      j.left.toList.map Char.toUpper ∉ ["WHERE".toList, "LIMIT".toList])
    (hr : Join.IsReference j.right.toList ∧
      j.right.toList.map Char.toUpper ∉ ["WHERE".toList, "LIMIT".toList]) (b : Option Char) :
    Quiet (·.topKeyword? k.keyword) b j.chars := by
  have hon : Foreign k.keyword "ON".toList := by
    revert k; decide
  have hequality : Quiet (·.topKeyword? k.keyword) (some ' ')
      (j.left.toList ++ ([' ', '=', ' '] ++ j.right.toList)) :=
    quiet_append k.canEnd_keyword (quiet_reference k hl.1 hl.2 _)
      (Join.plain_of_inReference hl.1.2).balanced (by decide) (stops_blank (c := '=') (by decide) _)
      (quiet_reference k hr.1 hr.2 _)
  have hcondition := quiet_word (b := some ' ') k.canEnd_keyword hon (.inr ⟨_, rfl, hequality⟩)
  exact quiet_append (t := [' ']) k.canEnd_keyword (ht.quiet_clause k b) ht.toBalanced (by decide)
    (stops_blank (c := 'O') (by decide) _) hcondition

theorem toDigits_notMem (n : Nat) :
    (Nat.toDigits 10 n).map Char.toUpper ∉ ["WHERE".toList, "LIMIT".toList] := by
  obtain ⟨c, r, e⟩ := List.exists_cons_of_ne_nil (Nat.toDigits_ne_nil (n := n) (b := 10))
  have hdigit := Nat.isDigit_of_mem_toDigits (b := 10) (n := n) (by decide) (by decide)
    (by rw [e]; exact List.mem_cons_self)
  have hupper : c.toUpper.isUpper = false := by
    apply Spelling.isUpper_toUpper_of_toNat
    simp only [Char.isDigit, Bool.and_eq_true, decide_eq_true_eq, UInt32.le_iff_toNat_le] at hdigit
    change 48 ≤ c.toNat ∧ c.toNat ≤ 57 at hdigit
    omega
  rw [e, List.map_cons]
  intro hmem
  have hletters : ∀ w ∈ ["WHERE".toList, "LIMIT".toList], ∀ d ∈ w.head?, d.isUpper = true := by
    decide
  have := hletters _ hmem c.toUpper rfl
  rw [hupper] at this
  cases this

/-! ## Canonical queries -/

namespace SelectQuery

/-- No comma stands in the text outside literals and parentheses. -/
def CommaFree (x : List Char) : Prop :=
  ∀ s ∈ sitesFrom (.start 0 none) x, s.isTop ',' = false

instance (x : List Char) : Decidable (CommaFree x) :=
  inferInstanceAs (Decidable (∀ s ∈ _, _))

/-- The side of a join condition: a reference that is not a clause keyword of one word. -/
def IsSide (x : List Char) : Prop :=
  Join.IsReference x ∧ x.map Char.toUpper ∉ ["WHERE".toList, "LIMIT".toList]

instance (x : List Char) : Decidable (IsSide x) :=
  inferInstanceAs (Decidable (_ ∧ _))

/-- A query with sealed parts. Nothing is asked of the values in its conditions. -/
structure Canonical (q : SelectQuery) : Prop where
  fields : q.fields ≠ [] ∧ ∀ f ∈ q.fields, Sealed f.toList ∧ CommaFree f.toList
  table : Sealed q.table.toList
  join : ∀ j ∈ q.join, Sealed j.table.toList ∧ IsSide j.left.toList ∧ IsSide j.right.toList
  conditions : ∀ c ∈ q.conditions, Sealed c.field.toList ∧
    (c.operator ≠ .like → Quiet Site.symbol? none c.field.toList)
  groupBy : ∀ l ∈ q.groupBy, l ≠ [] ∧ ∀ f ∈ l, Sealed f.toList ∧ CommaFree f.toList
  orderBy : ∀ ks ∈ q.orderBy, ks ≠ [] ∧
    ∀ k ∈ ks, Sealed k.field.toList ∧ CommaFree k.field.toList ∧
      Quiet SortKey.topBlank? none k.field.toList
  aggregatesAll : q.aggregatesAll = aggregates q.fields q.groupBy

end SelectQuery

theorem Sealed.item {x : List Char} (h : Sealed x) (hc : SelectQuery.CommaFree x) : Item x :=
  ⟨⟨h.toBalanced, hc⟩, h.ne_nil, h.tight⟩

namespace SelectQuery.Canonical

variable {q : SelectQuery}

theorem shaped (h : q.Canonical) : q.Shaped where
  fields := ⟨h.fields.1, fun f hf => (h.fields.2 f hf).1.item (h.fields.2 f hf).2⟩
  table := h.table.toPart
  join j hj := by
    obtain ⟨ht, hl, hr⟩ := h.join j hj
    exact ⟨ht.ne_nil, ht.tight, ht.toBalanced,
      ht.quiet_keyword (by decide) (by decide) none, hl.1, hr.1⟩
  conditions c hc := (part_iff.1 (h.conditions c hc).1.toPart).1
  groupBy l hl := ⟨(h.groupBy l hl).1, fun f hf =>
    ((h.groupBy l hl).2 f hf).1.item ((h.groupBy l hl).2 f hf).2⟩
  orderBy ks hks := ⟨(h.orderBy ks hks).1, fun k hk =>
    have hkey := (h.orderBy ks hks).2 k hk
    ⟨hkey.1.item hkey.2.1, hkey.2.2⟩⟩
  aggregatesAll := h.aggregatesAll
  closed c hc := (h.conditions c hc).1.toBalanced

theorem clauseFree (h : q.Canonical) : ∀ a ∈ q.clauses, ClauseFree a.2 := by
  intro a ha
  rw [ClauseFree, quiet_ofSite?_iff]
  intro k
  rcases mem_clauses ha with ⟨j, hj, rfl⟩ | ⟨hne, rfl⟩ | ⟨l, hl, rfl⟩ | ⟨ks, hks, rfl⟩ | ⟨n, -, rfl⟩
  · obtain ⟨ht, hl, hr⟩ := h.join j hj
    exact quiet_join k ht hl hr _
  · exact quiet_where k (fun c hc => (h.conditions c hc).1) _
  · exact quiet_listText k.canEnd_keyword (fun f hf =>
      have hs := ((h.groupBy l hl).2 f hf).1
      ⟨hs.toBalanced, hs.quiet_clause k⟩) _
  · exact quiet_sortKeys k (fun o ho => ((h.orderBy ks hks).2 o ho).1) _
  · exact quiet_reference k (isReference_toDigits _) (toDigits_notMem _) _

theorem last (h : q.Canonical) : q.render.toList.getLast? ≠ some ';' := by
  rw [h.shaped.render_toList]
  refine (Clauses.getLast?_assemble_ne ?_ ?_).2
  · have hne := h.table.ne_nil
    refine ⟨h.shaped.part_head.ne_nil, ?_⟩
    rw [headText, SelectHead.chars_eq, ← List.append_assoc, ← List.append_assoc,
      ← List.append_assoc]
    exact getLast?_append_ne hne h.table.last
  · intro a ha
    refine ⟨(h.shaped.part_clause a ha).ne_nil, ?_⟩
    rcases h.shaped.getLast?_clause a ha with hlast | ⟨l, hl, rfl⟩
    · exact hlast
    · refine (getLast?_intercalate_ne (by simpa using (h.groupBy l hl).1) ?_).2
      rw [List.forall_mem_map]
      intro f hf
      have hs := ((h.groupBy l hl).2 f hf).1
      exact ⟨hs.ne_nil, hs.last⟩

/-- Fields without reserved words do not start like `DISTINCT`. -/
theorem distinctFree (h : q.Canonical) :
    Keyword.distinct.match? (listText q.fields ++ [' ']) = none := by
  obtain ⟨f, fs, hq⟩ := List.exists_cons_of_ne_nil h.fields.1
  have hs := (h.fields.2 f (by rw [hq]; exact List.mem_cons_self)).1
  have htext :
      ∃ y, listText q.fields ++ [' '] = f.toList ++ y ∧ ∀ c ∈ y.head?, c = ',' ∨ c = ' ' := by
    rw [listText, hq, List.map_cons, intercalate_comma_blank, List.append_assoc]
    refine ⟨_, rfl, ?_⟩
    cases fs with
    | nil =>
      intro c hc
      cases hc
      exact .inr rfl
    | cons g gs =>
      intro c hc
      cases hc
      exact .inl rfl
  obtain ⟨y, e, hy⟩ := htext
  rw [Keyword.match?_eq_none_iff, e]
  intro after ha
  obtain ⟨r, rfl, hr⟩ := Spelling.dropWord_append (w := "DISTINCT".toList) (by decide)
    (fun c hc => by rcases hy c hc with rfl | rfl <;> decide) ha
  have hstarts := hs.startsWord_eq_false (w := "DISTINCT".toList) (by decide)
  rw [startsWord, hr] at hstarts
  cases r with
  | nil => cases hstarts
  | cons c r =>
    have hc : isBlank c = false := hstarts
    simp [Spelling.allows, Keyword.spelling, hc]

theorem rereadable (h : q.Canonical) : q.Rereadable where
  toShaped := h.shaped
  distinctFree _ := h.distinctFree
  fromFree := quiet_listText (by decide) (fun f hf =>
    have hs := (h.fields.2 f hf).1
    ⟨hs.toBalanced, hs.quiet (by decide) (by decide)⟩) _
  clauseFree := by
    refine ⟨quiet_ofSite?_iff.2 fun k => ?_, quiet_ofSite?_iff.2 fun k => h.table.quiet_clause k _,
      h.clauseFree⟩
    exact quiet_listText k.canEnd_keyword (fun f hf =>
      have hs := (h.fields.2 f hf).1
      ⟨hs.toBalanced, hs.quiet_clause k⟩) _
  readable c hc := by
    obtain ⟨hs, hsymbol⟩ := h.conditions c hc
    exact ⟨hs.ne_nil, hs.tight, hs.toSound, hs.quiet_keyword (by decide) (by decide) none, hsymbol⟩
  connectorFree := by
    have hquiet : ∀ c ∈ q.conditions, ∀ b, Quiet Where.connection? b c.field.toList := by
      intro c hc b
      have hs := (h.conditions c hc).1
      exact Where.quiet_connection?_iff.2
        ⟨hs.quiet (by decide) (by decide) b, hs.quiet (by decide) (by decide) b⟩
    cases hq : q.conditions with
    | nil => trivial
    | cons c cs =>
      rw [hq] at hquiet
      obtain ⟨hc, hcs⟩ := List.forall_mem_cons.1 hquiet
      exact ⟨hc none, fun d hd => hcs d hd (some ' ')⟩
  last := h.last

end SelectQuery.Canonical

/-- Every canonical query is read back from its rendering. -/
theorem SelectQuery.ofText_render_of_canonical (settings : Settings) (q : SelectQuery)
    (h : q.Canonical) (hl : byteLength q.render.toList ≤ settings.maxLength) :
    SelectQuery.ofText settings q.render = .ok q :=
  ofText_render h.rereadable hl

namespace SelectQuery

/-- A query with every clause, and with values that hold quotes, keywords and parentheses. -/
def sample : SelectQuery where
  fields := ["name", "COUNT(h.id, 'a, b')"]
  table := "people"
  join := some ⟨.left, "homes", "people.id", "h.owner"⟩
  conditions := [⟨"name", .like, "O'Hara; -- AND ("⟩, ⟨"age", .ge, "1\n) OR ''"⟩]
  groupBy := some ["name"]
  aggregatesAll := false
  orderBy := some [⟨"name", .desc⟩]
  limit := some 3
  distinct := true

theorem ofText_render_sample : sample.Canonical ∧ ofText {} sample.render = .ok sample := by
  have hc : sample.Canonical := by
    refine ⟨?_, ?_, ?_, ?_, ?_, ?_, ?_⟩ <;> decide
  exact ⟨hc, ofText_render_of_canonical {} sample hc (by decide +kernel)⟩

end SelectQuery

end TableQuery
