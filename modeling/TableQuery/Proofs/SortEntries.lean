import TableQuery.Proofs.ErrorKinds
import TableQuery.Proofs.SelectForm

/-!
# The entries of an `ORDER BY`

An entry is a field, or a field with a gap and a direction behind it (`SortKey.WrittenAs`). The
direction is cut off at the last blank of the entry, wherever that stands, and only then is the
field searched for blanks outside literals and parentheses. In an item of a list this is safe: if a
direction follows the last blank, that blank stands outside literals and parentheses, because the
item is balanced and nothing but letters follows (`SortKey.divide_of_writtenAs`).

So a list is read exactly if each of its items is written as an entry, each on its own; otherwise
the first item that is not is refused as a whole (`SortKey.parse_iff_writtenAs`).
-/

namespace TableQuery.SortKey

open Text Outline

/-- The text is the field of the key, with no direction if that is ascending, or with a gap and the
direction behind it. The field has no blank outside literals and parentheses. -/
def WrittenAs (k : SortKey) (x : List Char) : Prop :=
  k.field.toList ≠ [] ∧ ¬TopLevel isBlank k.field.toList ∧
    ((x = k.field.toList ∧ k.direction = .asc) ∨
      ∃ g w, x = k.field.toList ++ (g ++ w) ∧ g ≠ [] ∧ Blank g ∧
        w.map Char.toUpper = k.direction.name.toList)

/-! ## Blanks that divide a text -/

/-- The search for a blank finds those outside literals and parentheses. -/
theorem quiet_topBlank?_iff {x : List Char} (h : Balanced x) :
    Quiet topBlank? none x ↔ ¬TopLevel isBlank x := by
  have hquote : ∀ c, isBlank c = true → Literal.isQuote c = false := fun c hc =>
    (plain_of_blank (List.forall_mem_singleton.2 hc) c List.mem_cons_self).1
  rw [topLevel_iff h hquote, Quiet]
  simp [topBlank?]

/-- A blank with only plain characters behind it divides a balanced text. -/
theorem topLevel_of_append_plain {x w : List Char} {b : Char} (hb : isBlank b = true) (hw : Plain w)
    (h : Balanced (x ++ b :: w)) : TopLevel isBlank (x ++ b :: w) := by
  have hplain : Plain (b :: w) := (plain_of_blank (List.forall_mem_singleton.2 hb)).append hw
  exact ⟨x, b, w, rfl, hb, scanned_iff_balanced.2 (h.of_append_plain hplain)⟩

/-- A balanced text that no blank divides does not end in one. -/
theorem getLast?_of_undivided {x : List Char} (h : Balanced x) (hx : ¬TopLevel isBlank x) :
    ∀ c ∈ x.getLast?, isBlank c = false := by
  intro c hc
  rw [Bool.eq_false_iff]
  intro hb
  obtain ⟨y, rfl⟩ := List.getLast?_eq_some_iff.1 hc
  exact hx (topLevel_of_append_plain hb (plain_of_blank blank_nil) h)

/-! ## One entry -/

/-- A balanced text is divided as it is written. -/
theorem divide_of_writtenAs {k : SortKey} {x : List Char} (hx : Balanced x) (h : k.WrittenAs x) :
    divide x = (k.field.toList, k.direction) := by
  obtain ⟨-, hundivided, ⟨rfl, hdir⟩ | ⟨g, w, rfl, hne, hg, hw⟩⟩ := h
  · -- a direction behind the last blank would show that this blank divides the field
    rcases divide_cases k.field.toList with e | ⟨g, w, hne, hg, hw, e, -⟩
    · rw [e, hdir]
    · obtain ⟨b, g, rfl⟩ := List.exists_cons_of_ne_nil hne
      obtain ⟨hb, hg⟩ := List.forall_mem_cons.1 hg
      have hplain : Plain (g ++ w) := (plain_of_blank hg).append (plain_of_ofWord? hw)
      rw [e] at hx hundivided
      exact absurd (topLevel_of_append_plain hb hplain hx) hundivided
  · have hword := ofWord?_eq_some_iff.2 hw
    have hfield : Balanced k.field.toList :=
      hx.of_append_plain ((plain_of_blank hg).append (plain_of_ofWord? hword))
    obtain ⟨b, hlast⟩ := Option.isSome_iff_exists.1 (List.getLast?_isSome.2 hne)
    obtain ⟨g, rfl⟩ := List.getLast?_eq_some_iff.1 hlast
    obtain ⟨hg, hb⟩ := blank_append.1 hg
    have hsplit : k.field.toList ++ (g ++ [b] ++ w) = (k.field.toList ++ g) ++ b :: w := by simp
    have hletters : ∀ c ∈ w, isBlank c = false := fun c hc =>
      Spelling.not_isBlank_of_isUpper (isUpper_of_ofWord? hword c hc)
    rw [divide, hsplit, lastWord?_append (hb b List.mem_cons_self) hletters]
    simp only [hword, trimEnd_append_blank hg,
      trimEnd_eq_self (getLast?_of_undivided hfield hundivided)]

/-- An item of a list is read exactly as it is written. -/
theorem parseItem_eq_ok_iff_writtenAs {item : Piece} (hi : Item item.chars) {k : SortKey} :
    parseItem item = .ok k ↔ k.WrittenAs item.chars := by
  rw [parseItem_eq_ok_iff]
  constructor
  · rintro ⟨hfield, hdir, hq, hterm⟩
    have hbal : Balanced k.field.toList := by
      rw [hfield]
      exact balanced_divide hi.toBalanced
    have hundivided := (quiet_topBlank?_iff hbal).1 hq
    rcases divide_cases item.chars with e | ⟨g, w, hne, hg, hw, htext, -⟩
    · rw [e] at hfield hdir
      exact ⟨by rw [hfield]; exact hi.ne_nil, hundivided, .inl ⟨hfield.symm, hdir⟩⟩
    · rw [← hfield] at htext
      rw [← hdir, ofWord?_eq_some_iff] at hw
      refine ⟨?_, hundivided, .inr ⟨g, w, htext, hne, hg, hw⟩⟩
      -- an entry does not start with a blank
      intro h0
      rw [h0, List.nil_append] at htext
      obtain ⟨b, g, rfl⟩ := List.exists_cons_of_ne_nil hne
      have hb := hi.tight.head b (by rw [htext]; rfl)
      rw [hg b List.mem_cons_self] at hb
      cases hb
  · intro h
    rw [divide_of_writtenAs hi.toBalanced h]
    have hbal : Balanced k.field.toList := by
      have := balanced_divide hi.toBalanced
      rwa [divide_of_writtenAs hi.toBalanced h] at this
    exact ⟨rfl, rfl, (quiet_topBlank?_iff hbal).2 h.2.1, hbal.terminated⟩

/-! ## Lists of entries -/

theorem forall₂_writtenAs_iff {items : List Piece} {ks : List SortKey}
    (hi : ∀ i ∈ items, Item i.chars) :
    List.Forall₂ (fun i k => parseItem i = .ok k) items ks ↔
      List.Forall₂ (fun (i : Piece) (k : SortKey) => k.WrittenAs i.chars) items ks := by
  constructor
  · intro h
    refine ((List.forall₂_and_left items ks).2 ⟨hi, h⟩).imp ?_
    exact fun i k ⟨hitem, hk⟩ => (parseItem_eq_ok_iff_writtenAs hitem).1 hk
  · intro h
    refine ((List.forall₂_and_left items ks).2 ⟨hi, h⟩).imp ?_
    exact fun i k ⟨hitem, hk⟩ => (parseItem_eq_ok_iff_writtenAs hitem).2 hk

/-- A list of sort keys is read exactly if the list can be split and each of its items is written as
an entry; the keys are those of the items, one by one. If some item of a list that was split is not
written as an entry, the first such item is refused as a whole. -/
theorem parse_iff_writtenAs (body : Piece) :
    (∀ ks, parse body = .ok ks ↔ ∃ items, ItemList.split body .orderBy = .ok items ∧
      List.Forall₂ (fun (i : Piece) (k : SortKey) => k.WrittenAs i.chars) items ks) ∧
    ∀ items, ItemList.split body .orderBy = .ok items →
      (∃ i ∈ items, ∀ k : SortKey, ¬k.WrittenAs i.chars) →
      ∃ front i back, items = front ++ i :: back ∧
        (∀ j ∈ front, ∃ k : SortKey, k.WrittenAs j.chars) ∧
        (∀ k : SortKey, ¬k.WrittenAs i.chars) ∧
        ∃ e, parse body = .error e ∧ e.kind = .malformedOrderBy ∧ e.text = i.text ∧
          e.start = i.start := by
  have hitem : ∀ {items}, ItemList.split body .orderBy = .ok items → ∀ i ∈ items, Item i.chars :=
    fun hs i hi => (ItemList.split_eq_ok_iff.1 ⟨_, hs, rfl⟩).items.2 _ (List.mem_map_of_mem hi)
  refine ⟨fun ks => ?_, fun items hs ⟨bad, hmem, hbad⟩ => ?_⟩
  · rw [parse_eq_ok_iff]
    exact exists_congr fun items => and_congr_right fun hs => forall₂_writtenAs_iff (hitem hs)
  · cases hp : parse body with
    | ok ks =>
      obtain ⟨items', hs', hall⟩ := parse_eq_ok_iff.1 hp
      cases hs.symm.trans hs'
      obtain ⟨k, -, hk⟩ :=
        exists_of_forall₂ ((forall₂_writtenAs_iff (hitem hs)).1 hall).flip bad hmem
      exact absurd hk (hbad k)
    | error e =>
      rw [parse, hs] at hp
      obtain ⟨front, i, back, rfl, hfront, hi⟩ := mapM_eq_error_iff.1 hp
      have hinner : Item i.chars := hitem hs i (by simp)
      obtain rfl := (refusals_parseItem hinner.toBalanced).of_error hi
      refine ⟨front, i, back, rfl, fun j hj => ?_, fun k hk => ?_, _, rfl, rfl, ?_, ?_⟩
      · obtain ⟨k, hk⟩ := hfront j hj
        exact ⟨k, (parseItem_eq_ok_iff_writtenAs (hitem hs j (by simp [hj]))).1 hk⟩
      · cases hi.symm.trans ((parseItem_eq_ok_iff_writtenAs hinner).2 hk)
      · exact i.faultWhole_text _
      · exact i.faultWhole_start _

/-- Entries with blanks inside parentheses and literals. -/
def nestedEntries : Piece :=
  .ofString "max( a , b )  desc, 'x y'\tAsc ,z" 30

/-- Entries that are not written as such. -/
def dividedEntries : Piece :=
  .ofString "b c DESC, d e" 30

theorem parse_iff_writtenAs_nested :
    (∃ items, ItemList.split nestedEntries .orderBy = .ok items ∧
      List.Forall₂ (fun (i : Piece) (k : SortKey) => k.WrittenAs i.chars) items
        [⟨"max( a , b )", .desc⟩, ⟨"'x y'", .asc⟩, ⟨"z", .asc⟩]) ∧
    ∃ items, ItemList.split dividedEntries .orderBy = .ok items ∧
      (∃ i ∈ items, ∀ k : SortKey, ¬k.WrittenAs i.chars) ∧
      ∃ e, parse dividedEntries = .error e ∧ e.kind = .malformedOrderBy ∧ e.text = "b c DESC" ∧
        e.start = 30 := by
  have hread :
      parse nestedEntries = .ok [⟨"max( a , b )", .desc⟩, ⟨"'x y'", .asc⟩, ⟨"z", .asc⟩] := by
    decide +kernel
  have hsplit : ItemList.split dividedEntries .orderBy =
      .ok [⟨"b c DESC".toList, 30⟩, ⟨"d e".toList, 40⟩] := by decide +kernel
  have hbad : ∀ k : SortKey, ¬k.WrittenAs "b c DESC".toList := by
    intro k hk
    have hitem : Item "b c DESC".toList := by decide +kernel
    have hrefused : (parseItem ⟨"b c DESC".toList, 30⟩).isOk = false := by decide +kernel
    rw [(parseItem_eq_ok_iff_writtenAs hitem).2 hk] at hrefused
    cases hrefused
  have hexists : ∃ i ∈ [⟨"b c DESC".toList, 30⟩, (⟨"d e".toList, 40⟩ : Piece)],
      ∀ k : SortKey, ¬k.WrittenAs i.chars := ⟨_, List.mem_cons_self, hbad⟩
  refine ⟨((parse_iff_writtenAs nestedEntries).1 _).1 hread, _, hsplit, hexists, ?_⟩
  obtain ⟨front, i, back, e, hfront, -, refusal, hparse, hkind, htext, hstart⟩ :=
    (parse_iff_writtenAs dividedEntries).2 _ hsplit hexists
  cases front with
  | nil =>
    obtain ⟨rfl, -⟩ := List.cons.inj e
    exact ⟨refusal, hparse, hkind, htext.trans (by decide), hstart⟩
  | cons j front =>
    obtain ⟨rfl, -⟩ := List.cons.inj e
    obtain ⟨k, hk⟩ := hfront _ List.mem_cons_self
    exact absurd hk (hbad k)

end TableQuery.SortKey
