import TableQuery.Proofs.ItemList
import TableQuery.Proofs.KeywordMatch
import TableQuery.Select.SortKey

/-!
# Sort keys

An entry of an `ORDER BY` list is a field, which a direction may follow behind its last blank.
Whatever is read as a list of sort keys can be read back when it is rendered
(`SortKey.readable_of_parse`, `SortKey.parse_chars`).
-/

namespace TableQuery

open Text Outline

namespace SortKey

/-! ## The last word -/

theorem lastWord?_append {x w : List Char} {b : Char} (hb : isBlank b = true)
    (hw : ∀ c ∈ w, isBlank c = false) : lastWord? (x ++ b :: w) = some (x, w) := by
  have hr : ∀ c ∈ w.reverse, (!isBlank c) = true := by
    intro c hc
    rw [hw c (List.mem_reverse.1 hc)]
    rfl
  have hrev : (x ++ b :: w).reverse = w.reverse ++ b :: x.reverse := by simp
  have htake : (x ++ b :: w).reverse.takeWhile (!isBlank ·) = w.reverse := by
    rw [hrev, List.takeWhile_append_of_pos hr, List.takeWhile_cons_of_neg (by simp [hb]),
      List.append_nil]
  have hdrop : (x ++ b :: w).reverse.dropWhile (!isBlank ·) = b :: x.reverse := by
    rw [hrev, List.dropWhile_append_of_pos hr, List.dropWhile_cons_of_neg (by simp [hb])]
  rw [lastWord?, htake, hdrop]
  simp

theorem eq_of_lastWord? {cs x w : List Char} (h : lastWord? cs = some (x, w)) :
    ∃ b, isBlank b = true ∧ cs = x ++ b :: w := by
  have hsplit := List.takeWhile_append_dropWhile (p := (!isBlank ·)) (l := cs.reverse)
  have hhead := List.head?_dropWhile_not (!isBlank ·) cs.reverse
  rw [lastWord?] at h
  cases hd : cs.reverse.dropWhile (!isBlank ·) with
  | nil =>
    rw [hd] at h
    cases h
  | cons b front =>
    rw [hd] at h hsplit hhead
    cases h
    refine ⟨b, by simpa using hhead, ?_⟩
    have hrev := congrArg List.reverse hsplit
    rw [List.reverse_reverse] at hrev
    conv_lhs => rw [← hrev]
    simp

theorem isBlank_of_lastWord? {cs x w : List Char} (h : lastWord? cs = some (x, w)) :
    ∀ c ∈ w, isBlank c = false := by
  intro c hc
  unfold lastWord? at h
  split at h
  · cases h
  · cases h
    have := List.mem_takeWhile_imp (List.mem_reverse.1 hc)
    simpa using this

/-- A word names a direction exactly if it spells the name. -/
theorem ofWord?_eq_some_iff {w : List Char} {d : Direction} :
    Direction.ofWord? w = some d ↔ w.map Char.toUpper = d.name.toList := by
  constructor
  · intro h
    have hname := List.find?_some h
    rw [beq_iff_eq] at hname
    rw [hname, String.toList_ofList]
  · intro h
    rw [Direction.ofWord?, h, String.ofList_toList, Direction.ofName?_name]

theorem isUpper_of_ofWord? {w : List Char} {d : Direction} (h : Direction.ofWord? w = some d) :
    ∀ c ∈ w, c.toUpper.isUpper = true := by
  have hupper : ∀ c ∈ d.name.toList, c.isUpper = true := by
    cases d <;> decide
  intro c hc
  refine hupper _ ?_
  rw [← ofWord?_eq_some_iff.1 h]
  exact List.mem_map_of_mem hc

/-- A direction is written in letters. -/
theorem plain_of_ofWord? {w : List Char} {d : Direction} (h : Direction.ofWord? w = some d) :
    Plain w :=
  fun c hc => Spelling.plain_of_toUpper (isUpper_of_ofWord? h c hc)

/-- An entry is its field, or its field with a gap and a direction behind it. -/
theorem divide_cases (cs : List Char) :
    divide cs = (cs, .asc) ∨ ∃ g w, g ≠ [] ∧ Blank g ∧ Direction.ofWord? w = some (divide cs).2 ∧
      cs = (divide cs).1 ++ (g ++ w) ∧ ∀ c ∈ (divide cs).1.getLast?, isBlank c = false := by
  unfold divide
  cases h : lastWord? cs with
  | none => exact .inl rfl
  | some p =>
    obtain ⟨x, w⟩ := p
    cases hd : Direction.ofWord? w with
    | none =>
      left
      simp only [hd]
    | some d =>
      right
      obtain ⟨b, hb, rfl⟩ := eq_of_lastWord? h
      obtain ⟨g, hg, hx⟩ := exists_trimEnd_blank x
      simp only [hd]
      refine ⟨g ++ [b], w, by simp, ?_, hd, ?_, getLast?_trimEnd x⟩
      · exact blank_append.2 ⟨hg, List.forall_mem_singleton.2 hb⟩
      · conv_lhs => rw [hx]
        simp

/-! ## One entry -/

/-- A blank outside literals and parentheses. -/
def topBlank? (s : Site) : Option Site :=
  if s.depth = 0 ∧ isBlank s.char then some s else none

/-- The field is an item of a list and has no blank that divides it. -/
structure Readable (k : SortKey) : Prop where
  item : Item k.field.toList
  blankFree : Quiet topBlank? none k.field.toList

/-- An entry in canonical form. -/
def chars (k : SortKey) : List Char :=
  k.field.toList ++ ' ' :: k.direction.name.toList

theorem render_toList (k : SortKey) : k.render.toList = k.chars := by
  simp [render, chars]

theorem hasTopBlank_eq_false_iff {p : Piece} :
    hasTopBlank p = .ok false ↔ Quiet topBlank? none p.chars ∧
      ((Place.start 0 none).advance p.chars).unterminated? = none := by
  rw [hasTopBlank, Piece.outline_eq, bind_eq_ok_iff]
  constructor
  · rintro ⟨found, hf, h⟩
    cases found with
    | some s => cases h
    | none => exact Piece.search_eq_none_iff.1 hf
  · intro h
    exact ⟨none, Piece.search_eq_none_iff.2 h, rfl⟩

theorem parseItem_eq_ok_iff {item : Piece} {k : SortKey} :
    parseItem item = .ok k ↔ k.field.toList = (divide item.chars).1 ∧
      k.direction = (divide item.chars).2 ∧ Quiet topBlank? none k.field.toList ∧
      ((Place.start 0 none).advance k.field.toList).unterminated? = none := by
  have hfalse := hasTopBlank_eq_false_iff (p := ⟨(divide item.chars).1, item.start⟩)
  rw [parseItem, bind_eq_ok_iff]
  constructor
  · rintro ⟨found, hf, h⟩
    cases found with
    | true => cases h
    | false =>
      cases h
      have hq := hfalse.1 hf
      rw [String.toList_ofList]
      exact ⟨rfl, rfl, hq⟩
  · rintro ⟨hfield, hdir, hq⟩
    rw [hfield] at hq
    refine ⟨false, hfalse.2 hq, ?_⟩
    have he : k = ⟨String.ofList (divide item.chars).1, (divide item.chars).2⟩ := by
      rw [← hfield, ← hdir, String.ofList_toList]
    rw [he]
    rfl

theorem divide_chars {k : SortKey} (ht : Tight k.field.toList) :
    divide k.chars = (k.field.toList, k.direction) := by
  have hname : (∀ c ∈ k.direction.name.toList, isBlank c = false) ∧
      Direction.ofWord? k.direction.name.toList = some k.direction := by
    cases k.direction <;> decide
  rw [divide, chars, lastWord?_append (by decide) hname.1]
  simp only [hname.2, trimEnd_eq_self ht.last]

/-- A rendered entry is read back. -/
theorem parseItem_chars {item : Piece} {k : SortKey} (h : item.chars = k.chars) (hk : k.Readable) :
    parseItem item = .ok k := by
  rw [parseItem_eq_ok_iff, h, divide_chars hk.item.tight]
  exact ⟨rfl, rfl, hk.blankFree, hk.item.terminated⟩

/-- Whatever is read as an entry is read back when it is rendered. -/
theorem readable_of_parseItem {item : Piece} {k : SortKey} (h : parseItem item = .ok k)
    (hi : Item item.chars) : k.Readable := by
  obtain ⟨hfield, -, hq, -⟩ := parseItem_eq_ok_iff.1 h
  refine ⟨?_, hq⟩
  rcases divide_cases item.chars with hd | ⟨g, w, hne, hg, hw, e, hlast⟩
  · rw [hfield, hd]
    exact hi
  · rw [← hfield] at e hlast
    have hbalanced : Balanced k.field.toList := by
      have hitem := hi.toBalanced
      rw [e] at hitem
      exact hitem.of_append_plain ((plain_of_blank hg).append (plain_of_ofWord? hw))
    have hfieldne : k.field.toList ≠ [] := by
      intro h0
      rw [h0, List.nil_append] at e
      obtain ⟨b, g, rfl⟩ := List.exists_cons_of_ne_nil hne
      have hb := hi.tight.head b (by rw [e]; rfl)
      rw [hg b List.mem_cons_self] at hb
      cases hb
    have hcomma := hi.commaFree
    rw [e] at hcomma
    refine ⟨⟨hbalanced, (forall_sitesFrom_append.1 hcomma).1⟩, hfieldne, ?_, hlast⟩
    intro c hc
    refine hi.tight.head c ?_
    rw [e, List.head?_append, hc]
    rfl

theorem item_chars {k : SortKey} (hk : k.Readable) : Item k.chars := by
  have hname : Plain (' ' :: k.direction.name.toList) ∧
      (∀ c ∈ ' ' :: k.direction.name.toList, c ≠ ',') ∧
      ∀ c ∈ (' ' :: k.direction.name.toList).getLast?, isBlank c = false := by
    cases k.direction <;> decide
  have hitem := hk.item
  refine ⟨⟨?_, forall_sitesFrom_append.2 ⟨hitem.commaFree, fun s hs => ?_⟩⟩, ?_, ?_⟩
  · exact hitem.toBalanced.append hname.1.balanced (seam_of_balanced hitem.toBalanced hname.1.head)
  · obtain ⟨u, c, r, e, -, rfl⟩ := mem_sitesFrom.1 hs
    have hc : c ≠ ',' := hname.2.1 c (by rw [e]; exact List.mem_append_right _ List.mem_cons_self)
    simp [Site.isTop, Place.site, hc]
  · intro h
    exact hitem.ne_nil (List.append_eq_nil_iff.1 h).1
  · exact tight_append hitem.ne_nil (List.cons_ne_nil _ _) hitem.tight.head hname.2.2

/-! ## Lists of entries -/

/-- The list of an `ORDER BY` in canonical form. -/
def listChars (ks : List SortKey) : List Char :=
  [',', ' '].intercalate (ks.map chars)

theorem parse_eq_ok_iff {body : Piece} {ks : List SortKey} :
    parse body = .ok ks ↔ ∃ items, ItemList.split body .orderBy = .ok items ∧
      List.Forall₂ (fun i k => parseItem i = .ok k) items ks := by
  rw [parse, bind_eq_ok_iff]
  simp only [mapM_eq_ok_iff]

/-- Whatever is read as a list of entries is read back when it is rendered. -/
theorem readable_of_parse {body : Piece} {ks : List SortKey} (h : parse body = .ok ks) :
    ks ≠ [] ∧ ∀ k ∈ ks, k.Readable := by
  obtain ⟨items, hs, hf⟩ := parse_eq_ok_iff.1 h
  obtain ⟨hne, hitems⟩ := (ItemList.split_eq_ok_iff.1 ⟨items, hs, rfl⟩).items
  constructor
  · rintro rfl
    rw [List.forall₂_nil_right_iff.1 hf] at hne
    exact hne rfl
  · intro k hk
    obtain ⟨i, hi, hp⟩ := exists_of_forall₂ hf k hk
    exact readable_of_parseItem hp (hitems _ (List.mem_map.2 ⟨i, hi, rfl⟩))

theorem forall₂_parseItem {items : List Piece} {ks : List SortKey}
    (h : items.map Piece.chars = ks.map chars) (hk : ∀ k ∈ ks, k.Readable) :
    List.Forall₂ (fun i k => parseItem i = .ok k) items ks := by
  induction ks generalizing items with
  | nil =>
    rw [List.map_nil, List.map_eq_nil_iff] at h
    rw [h]
    exact .nil
  | cons k ks ih =>
    obtain ⟨i, items, rfl, hi, hitems⟩ := List.map_eq_cons_iff.1 h
    obtain ⟨h₁, h₂⟩ := List.forall_mem_cons.1 hk
    exact .cons (parseItem_chars hi h₁) (ih hitems h₂)

theorem listed_chars {ks : List SortKey} (hne : ks ≠ []) (hk : ∀ k ∈ ks, k.Readable) :
    Listed (listChars ks) (ks.map chars) := by
  refine listed_intercalate (by simpa using hne) ?_
  rw [List.forall_mem_map]
  exact fun k h => item_chars (hk k h)

theorem parse_chars {body : Piece} {ks : List SortKey} (h : body.chars = listChars ks)
    (hne : ks ≠ []) (hk : ∀ k ∈ ks, k.Readable) : parse body = .ok ks := by
  obtain ⟨items, hs, hchars⟩ := ItemList.split_eq_ok_iff.2 (by rw [h]; exact listed_chars hne hk)
  exact parse_eq_ok_iff.2 ⟨items, hs, forall₂_parseItem hchars hk⟩

end SortKey

end TableQuery
