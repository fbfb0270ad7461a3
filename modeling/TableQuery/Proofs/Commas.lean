import TableQuery.Proofs.Division
import TableQuery.Proofs.ErrorKinds

/-!
# Where a list is divided

A list is divided at its commas: those that have a text in front of them in which all literals and
parentheses are closed (`CommaAt`). This says where it is cut without a word about the walk that
finds the commas, and every text is cut in one way only. A list is read exactly if it is not empty,
closes what it opens and has no blank part, and then its items are the parts
(`ItemList.split_at_commas`).
-/

namespace TableQuery

open Text Outline

/-- The separator `k` of the text `x` right behind `u` is a comma outside literals and
parentheses. -/
def CommaAt (x u k : List Char) : Prop :=
  k = [','] ∧ Scanned 0 u ∧ ∃ y, x = u ++ (k ++ y)

/-- Behind a closed text and plain characters, a text is closed if it is on its own. -/
theorem Scanned.behind_plain_iff {u m v : List Char} (hu : Scanned 0 u) (hm : Plain m)
    (hne : m ≠ []) :
    Scanned 0 (u ++ (m ++ v)) ↔ Scanned 0 v := by
  rw [scanned_iff_balanced, scanned_iff_balanced]
  have hb := scanned_iff_balanced.1 hu
  have hq : ∀ c ∈ (m ++ v).head?, Literal.isQuote c = false := by
    intro c hc
    rw [List.head?_append_of_ne_nil _ hne] at hc
    exact hm.head c hc
  constructor
  · intro h
    rw [← List.append_assoc] at h
    exact h.right ((seam_of_balanced hb hq).plain hm hne)
  · exact fun h => hb.append_plain hm hne h

theorem separation_commaAt : Separation CommaAt where
  within := by
    rintro x u k ⟨rfl, -, h⟩
    exact ⟨List.cons_ne_nil _ _, h⟩
  single := by
    rintro x u k k' ⟨rfl, -⟩ ⟨rfl, -⟩
    rfl
  apart := by
    rintro x u u' k k' ⟨rfl, -⟩ - hlt
    exact hlt
  behind := by
    rintro u k y v k' ⟨rfl, hu, -⟩
    have htext : (∃ r, u ++ ([','] ++ y) = u ++ ([','] ++ v) ++ (k' ++ r)) ↔
        ∃ r, y = v ++ (k' ++ r) := by
      refine exists_congr fun r => ?_
      rw [List.append_assoc, List.append_assoc, List.append_cancel_left_eq,
        List.append_cancel_left_eq]
    rw [CommaAt, CommaAt, htext, hu.behind_plain_iff (by decide) (List.cons_ne_nil _ _)]

namespace ItemList

/-- The range of a comma at a site. -/
def comma? (s : Site) : Option (Nat × Nat) :=
  if s.isTop ',' then some (s.index, s.index + 1) else none

/-- In a balanced text the walk meets exactly the commas at which it is divided. -/
theorem mem_commas_iff {x : List Char} (hx : Balanced x) {m : Nat × Nat} :
    m ∈ (sitesFrom (.start 0 none) x).filterMap comma? ↔
      ∃ u k, CommaAt x u k ∧ m = (u.length, u.length + k.length) := by
  rw [mem_filterMap_sites_iff]
  constructor
  · rintro ⟨u, c, r, rfl, ho, hm⟩
    simp only [comma?, Site.isTop, Place.site, Bool.and_eq_true, beq_iff_eq,
      Option.ite_none_right_eq_some, Option.some.injEq] at hm
    obtain ⟨⟨hd, rfl⟩, rfl⟩ := hm
    have hu : Balanced u := hx.left (seam_of_isOutside ho hd)
    exact ⟨u, [','], ⟨rfl, scanned_iff_balanced.2 hu, r, rfl⟩,
      by rw [Place.index_advance_start]; rfl⟩
  · rintro ⟨u, k, ⟨rfl, hu, y, rfl⟩, rfl⟩
    obtain ⟨hclear, hd⟩ := (scanned_iff_balanced.1 hu).advance (Place.fresh_start 0 none u)
    refine ⟨u, ',', y, rfl, Place.isOutside_of_clear hclear (by decide), ?_⟩
    have htop : (((Place.start 0 none).advance u).site ',' y).isTop ',' = true := by
      simp only [Site.isTop, Place.site, hd]
      rfl
    rw [comma?, if_pos htop, Place.site, Place.index_advance_start]
    rfl

/-- The walk cuts the list at the commas that it meets, and refuses an empty range. -/
theorem itemsTo_eq_ok_iff {list : Piece} {role : ListRole} {sites : List Site}
    (h : ∀ s ∈ sites, s.isTop ')' = false) {first : Nat} {items : List Piece} :
    itemsTo list role first sites = .ok items ↔
      items = list.cutsFrom first (sites.filterMap comma?) ∧ ∀ p ∈ items, p.chars ≠ [] := by
  induction sites generalizing first items with
  | nil =>
    rw [itemsTo_nil_eq_ok_iff]
    simp only [itemIn_eq_ok_iff, List.filterMap_nil, Piece.cutsFrom]
    constructor
    · rintro ⟨p, ⟨rfl, hne⟩, rfl⟩
      exact ⟨rfl, List.forall_mem_singleton.2 hne⟩
    · rintro ⟨rfl, hne⟩
      exact ⟨_, ⟨rfl, hne _ List.mem_cons_self⟩, rfl⟩
  | cons s sites ih =>
    obtain ⟨hs, h⟩ := List.forall_mem_cons.1 h
    by_cases hc : s.isTop ',' = true
    · have hmark : comma? s = some (s.index, s.index + 1) := if_pos hc
      rw [itemsTo_comma_eq_ok_iff hc, List.filterMap_cons_some hmark, Piece.cutsFrom]
      simp only [itemIn_eq_ok_iff, ih h]
      constructor
      · rintro ⟨p, rest, ⟨rfl, hne⟩, ⟨rfl, hrest⟩, rfl⟩
        exact ⟨rfl, List.forall_mem_cons.2 ⟨hne, hrest⟩⟩
      · rintro ⟨rfl, hne⟩
        obtain ⟨hne, hrest⟩ := List.forall_mem_cons.1 hne
        exact ⟨_, _, ⟨rfl, hne⟩, ⟨rfl, hrest⟩, rfl⟩
    · rw [Bool.not_eq_true] at hc
      have hmark : comma? s = none := if_neg (by simp [hc])
      have hskip := itemsTo_append list role first (List.forall_mem_singleton.2 ⟨hs, hc⟩) sites
      rw [List.singleton_append] at hskip
      rw [hskip, List.filterMap_cons_none hmark, ih h]

theorem split_eq_ok_iff_balanced {list : Piece} {role : ListRole} {items : List Piece} :
    split list role = .ok items ↔ list.chars ≠ [] ∧ Balanced list.chars ∧
      itemsTo list role 0 (sitesFrom (.start 0 none) list.chars) = .ok items := by
  constructor
  · intro h
    obtain ⟨hne, -, -, hitems⟩ := split_eq_ok_iff_itemsTo.1 h
    exact ⟨hne, (split_eq_ok_iff.1 ⟨items, h, rfl⟩).balanced, hitems⟩
  · rintro ⟨hne, hb, hitems⟩
    exact split_eq_ok_iff_itemsTo.2 ⟨hne, hb.terminated, hb.closed, hitems⟩

/-- A list is read exactly if it is balanced and no part between its commas is blank. -/
theorem split_eq_ok_iff_exact {list : Piece} {role : ListRole} {items : List Piece} {d : Division}
    (hd : d.Exact CommaAt list.chars) :
    split list role = .ok items ↔ list.chars ≠ [] ∧ Scanned 0 list.chars ∧
      (∀ z ∈ d.parts, ∃ c ∈ z, isBlank c = false) ∧ items = d.pieces list.start := by
  rw [split_eq_ok_iff_balanced, scanned_iff_balanced]
  refine and_congr_right fun _ => and_congr_right fun hb => ?_
  have hindex : ∀ s m, comma? s = some m → m.1 = s.index := by
    intro s m hm
    unfold comma? at hm
    split at hm
    · cases hm
      rfl
    · cases hm
  have hmarks := hd.filterMap_sites separation_commaAt hindex fun m => mem_commas_iff hb
  have hcuts := Piece.cutsFrom_marksFrom (p := list) (u := []) hd.chars_eq.symm
  rw [itemsTo_eq_ok_iff hb.opened, hmarks]
  rw [List.length_nil, byteLength_nil, Nat.add_zero] at hcuts
  rw [hcuts, and_comm, ← @Division.forall_pieces_ne_nil d list.start]
  refine and_congr_left fun e => ?_
  rw [e]

/-- The items of a list, joined by commas and any blanks, are read again. -/
theorem parse_intercalate_items {list : Piece} {role : ListRole} {items : List Piece}
    (h : split list role = .ok items) {b : List Char} (hb : Blank b) (role' : ListRole)
    (start : Nat) :
    parse (.ofString ((String.ofList (',' :: b)).intercalate (items.map Piece.text)) start) role' =
      .ok (items.map Piece.text) := by
  have hlisted := split_eq_ok_iff.1 ⟨items, h, rfl⟩
  have htext : (items.map Piece.text).map String.toList = items.map Piece.chars := by
    simp [Piece.text]
  rw [parse_eq_ok_iff, Piece.ofString, String.toList_intercalate, String.toList_ofList, htext]
  exact listed_intercalate_of_blank hb hlisted.items.1 hlisted.items.2

/-- A list is divided at its commas outside literals and parentheses, in exactly one way. It is read
exactly if it is not empty, its literals and parentheses are closed, and no part is blank; the items
are then the parts, trimmed. It is refused for its delimiters or for a missing item. The items,
joined by commas with or without a blank behind them, are read again in every role. -/
theorem split_at_commas (list : Piece) (role : ListRole) :
    (∃! d : Division, d.Exact CommaAt list.chars) ∧
    (∀ d : Division, d.Exact CommaAt list.chars →
      ((∃ items, split list role = .ok items) ↔ list.chars ≠ [] ∧ Scanned 0 list.chars ∧
        ∀ z ∈ d.parts, ∃ c ∈ z, isBlank c = false) ∧
      ∀ items, split list role = .ok items → items = d.pieces list.start) ∧
    (∀ e, split list role = .error e →
      e.kind = .unbalancedDelimiter ∨ e.kind = role.missingKind) ∧
    ∀ items, split list role = .ok items → ∀ separator ∈ [",", ", "],
      ∀ (role' : ListRole) (start : Nat),
      parse (.ofString (separator.intercalate (items.map Piece.text)) start) role' =
        .ok (items.map Piece.text) := by
  refine ⟨separation_commaAt.existsUnique_exact list.chars,
    fun d hd => ⟨⟨?_, ?_⟩, fun items h => ?_⟩, ?_, ?_⟩
  · rintro ⟨items, h⟩
    obtain ⟨hne, hs, hparts, -⟩ := (split_eq_ok_iff_exact hd).1 h
    exact ⟨hne, hs, hparts⟩
  · rintro ⟨hne, hs, hparts⟩
    exact ⟨_, (split_eq_ok_iff_exact hd).2 ⟨hne, hs, hparts, rfl⟩⟩
  · exact ((split_eq_ok_iff_exact hd).1 h).2.2.2
  · exact fun e => (kinds_split_or role).of_error
  · intro items h separator hs role' start
    have hblank : ∃ b, Blank b ∧ separator = String.ofList (',' :: b) := by
      rcases List.mem_cons.1 hs with rfl | hs
      · exact ⟨[], blank_nil, rfl⟩
      · rw [List.mem_singleton.1 hs]
        exact ⟨[' '], by decide, rfl⟩
    obtain ⟨b, hb, rfl⟩ := hblank
    exact parse_intercalate_items h hb role' start

end ItemList

end TableQuery
