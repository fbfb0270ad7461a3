import TableQuery.Proofs.Cursor
import TableQuery.Proofs.Joints
import TableQuery.Select.Join

/-!
# Joins

The body of a join is read exactly if it is a table, the first `ON` outside literals, and an
equality of two references that fills the rest (`Join.equality_eq_ok_iff`). A rendered join is read
back exactly if its table holds no `ON` and its two sides are references, as those of every join
that was read (`Join.parse_chars`, `Join.readable_of_parse`).
-/

namespace TableQuery

open Text Outline

namespace Join

/-! ## References -/

/-- A text of characters that make references, and at least one. -/
def IsReference (x : List Char) : Prop :=
  x ≠ [] ∧ ∀ c ∈ x, inReference c = true

instance (x : List Char) : Decidable (IsReference x) :=
  inferInstanceAs (Decidable (_ ∧ _))

theorem toNat_of_inReference {c : Char} (h : inReference c = true) :
    c.toNat = 46 ∨ (48 ≤ c.toNat ∧ c.toNat ≤ 57) ∨ (65 ≤ c.toNat ∧ c.toNat ≤ 90) ∨ c.toNat = 95 ∨
      (97 ≤ c.toNat ∧ c.toNat ≤ 122) := by
  delta inReference Char.isAlphanum Char.isAlpha Char.isUpper Char.isLower Char.isDigit at h
  simp only [Bool.or_eq_true, Bool.and_eq_true, decide_eq_true_eq, beq_iff_eq,
    UInt32.le_iff_toNat_le, ge_iff_le] at h
  rcases h with (((h | h) | h) | rfl) | rfl
  · change 65 ≤ c.toNat ∧ c.toNat ≤ 90 at h
    omega
  · change 97 ≤ c.toNat ∧ c.toNat ≤ 122 at h
    omega
  · change 48 ≤ c.toNat ∧ c.toNat ≤ 57 at h
    omega
  · decide
  · decide

theorem isBlank_of_inReference {c : Char} (h : inReference c = true) : isBlank c = false := by
  have hn := toNat_of_inReference h
  rw [Bool.eq_false_iff]
  intro hb
  simp only [isBlank, Bool.or_eq_true, Bool.and_eq_true, decide_eq_true_eq, beq_iff_eq] at hb
  omega

theorem plain_of_inReference {x : List Char} (h : ∀ c ∈ x, inReference c = true) : Plain x :=
  fun c hc => plainChar_of (inReference · = true) (h c hc) (by decide)

theorem tight_of_isReference {x : List Char} (h : IsReference x) : Tight x := by
  constructor
  · intro c hc
    exact isBlank_of_inReference (h.2 c (List.mem_of_mem_head? hc))
  · intro c hc
    exact isBlank_of_inReference (h.2 c (List.mem_of_getLast? hc))

/-- A reference ends where no character of a reference follows. -/
theorem takeWhile_reference {x y : List Char} (hx : ∀ c ∈ x, inReference c = true)
    (hy : ∀ c ∈ y.head?, inReference c = false) :
    (x ++ y).takeWhile inReference = x ∧ (x ++ y).dropWhile inReference = y := by
  rw [List.takeWhile_append_of_pos hx, List.dropWhile_append_of_pos hx]
  cases y with
  | nil => exact ⟨by simp, rfl⟩
  | cons c y =>
    have hc := hy c rfl
    exact ⟨by simp [hc], by simp [hc]⟩

theorem head?_blank_append {w y : List Char} (hw : Blank w)
    (hy : ∀ c ∈ y.head?, inReference c = false) :
    ∀ c ∈ (w ++ y).head?, inReference c = false := by
  cases w with
  | nil => exact hy
  | cons d w =>
    intro c hc
    cases hc
    cases hr : inReference d with
    | false => rfl
    | true =>
      have := hw d List.mem_cons_self
      rw [isBlank_of_inReference hr] at this
      cases this

theorem reference_eq_ok_iff {c c' : Cursor} {x : List Char} :
    reference c = .ok (x, c') ↔
      x = c.rest.takeWhile inReference ∧ x ≠ [] ∧ c' = c.jump x.length := by
  rw [reference]
  by_cases h : c.rest.takeWhile inReference = []
  · rw [if_pos (List.isEmpty_iff.2 h)]
    constructor
    · intro h'
      cases h'
    · rintro ⟨rfl, hne, -⟩
      exact absurd h hne
  · rw [if_neg (fun h' => h (List.isEmpty_iff.1 h'))]
    constructor
    · intro h'
      cases h'
      exact ⟨rfl, h, rfl⟩
    · rintro ⟨rfl, -, rfl⟩
      rfl

theorem rest_of_reference {c c' : Cursor} {x : List Char} (h : reference c = .ok (x, c')) :
    IsReference x ∧ c.rest = x ++ c'.rest := by
  obtain ⟨rfl, hne, rfl⟩ := reference_eq_ok_iff.1 h
  refine ⟨⟨hne, fun d hd => List.mem_takeWhile_imp hd⟩, ?_⟩
  rw [Cursor.rest_jump, Cursor.drop_length_takeWhile, List.takeWhile_append_dropWhile]

theorem reference_of_rest {c : Cursor} {x y : List Char} (h : c.rest = x ++ y) (hx : IsReference x)
    (hy : ∀ d ∈ y.head?, inReference d = false) :
    reference c = .ok (x, c.jump x.length) ∧ (c.jump x.length).rest = y := by
  have htake := (takeWhile_reference hx.2 hy).1
  refine ⟨reference_eq_ok_iff.2 ⟨by rw [h, htake], hx.1, rfl⟩, ?_⟩
  rw [Cursor.rest_jump, h, List.drop_left]

theorem exists_blank_skipBlanks (c : Cursor) :
    ∃ w, Blank w ∧ c.rest = w ++ c.skipBlanks.rest := by
  refine ⟨c.rest.takeWhile isBlank, blank_takeWhile _, ?_⟩
  rw [Cursor.rest_skipBlanks, trimStart, List.takeWhile_append_dropWhile]

theorem equality_eq_ok_iff' {c : Cursor} {l r : List Char} :
    equality c = .ok (l, r) ↔
      ∃ c₁ c₂, reference c.skipBlanks = .ok (l, c₁) ∧ c₁.skipBlanks.rest.head? = some '=' ∧
        reference c₁.skipBlanks.next.skipBlanks = .ok (r, c₂) ∧ c₂.skipBlanks.rest = [] := by
  have hend : '=' ≠ Literal.endMark := by decide
  rw [equality, bind_eq_ok_iff]
  constructor
  · rintro ⟨⟨l', c₁⟩, hl, h⟩
    dsimp only at h
    split at h
    · cases h
    · rename_i hc
      obtain ⟨⟨r', c₂⟩, hr, h⟩ := bind_eq_ok_iff.1 h
      dsimp only at h
      split at h
      · cases h
      · rename_i he
        cases h
        refine ⟨c₁, c₂, hl, ?_, hr, ?_⟩
        · rw [← Cursor.current_eq_iff hend]
          exact Classical.not_not.1 hc
        · rw [← Cursor.atEnd_iff]
          simpa using he
  · rintro ⟨c₁, c₂, hl, hc, hr, he⟩
    refine ⟨(l, c₁), hl, ?_⟩
    dsimp only
    rw [if_neg (not_not.2 ((Cursor.current_eq_iff hend).2 hc))]
    refine bind_eq_ok_iff.2 ⟨(r, c₂), hr, ?_⟩
    dsimp only
    rw [if_neg (by rw [Cursor.atEnd_iff.2 he]; decide)]
    rfl

/-- An equality is two references with `=` between them, and blanks anywhere around. -/
theorem equality_eq_ok_iff {c : Cursor} {l r : List Char} :
    equality c = .ok (l, r) ↔ IsReference l ∧ IsReference r ∧
      ∃ w₁ w₂ w₃ w₄, (Blank w₁ ∧ Blank w₂ ∧ Blank w₃ ∧ Blank w₄) ∧
        c.rest = w₁ ++ (l ++ (w₂ ++ '=' :: (w₃ ++ (r ++ w₄)))) := by
  rw [equality_eq_ok_iff']
  constructor
  · rintro ⟨c₁, c₂, hl, hc, hr, he⟩
    obtain ⟨hlref, hlrest⟩ := rest_of_reference hl
    obtain ⟨hrref, hrrest⟩ := rest_of_reference hr
    obtain ⟨w₁, hw₁, e₁⟩ := exists_blank_skipBlanks c
    obtain ⟨w₂, hw₂, e₂⟩ := exists_blank_skipBlanks c₁
    obtain ⟨w₃, hw₃, e₃⟩ := exists_blank_skipBlanks c₁.skipBlanks.next
    obtain ⟨w₄, hw₄, e₄⟩ := exists_blank_skipBlanks c₂
    refine ⟨hlref, hrref, w₁, w₂, w₃, w₄, ⟨hw₁, hw₂, hw₃, hw₄⟩, ?_⟩
    have hnext : c₁.skipBlanks.rest = '=' :: c₁.skipBlanks.next.rest := by
      rw [Cursor.rest_next]
      cases hs : c₁.skipBlanks.rest with
      | nil => rw [hs] at hc; cases hc
      | cons d t =>
        rw [hs] at hc
        cases hc
        rfl
    rw [e₁, hlrest, e₂, hnext, e₃, hrrest, e₄, he, List.append_nil]
  · rintro ⟨hl, hr, w₁, w₂, w₃, w₄, ⟨hw₁, hw₂, hw₃, hw₄⟩, e⟩
    have hskip : ∀ {c : Cursor} {w y : List Char}, c.rest = w ++ y → Blank w →
        (∀ d ∈ y.head?, isBlank d = false) → c.skipBlanks.rest = y := by
      intro c w y e hw hy
      rw [Cursor.rest_skipBlanks, e, trimStart_blank_append hw, trimStart_eq_self hy]
    have hequal : ∀ (z : List Char), ∀ d ∈ ('=' :: z).head?, inReference d = false := by
      intro z d hd
      cases hd
      decide
    have h₁ := hskip e hw₁ (by
      obtain ⟨d, l, rfl⟩ := List.exists_cons_of_ne_nil hl.1
      exact (tight_of_isReference hl).head)
    obtain ⟨hr₁, hrest₁⟩ := reference_of_rest h₁ hl (head?_blank_append hw₂ (hequal _))
    have h₂ := hskip hrest₁ hw₂ (by
      intro d hd
      cases hd
      decide)
    have hnext := Cursor.rest_next (c.skipBlanks.jump l.length).skipBlanks
    rw [h₂, List.drop_one, List.tail_cons] at hnext
    have h₃ := hskip hnext hw₃ (by
      obtain ⟨d, r, rfl⟩ := List.exists_cons_of_ne_nil hr.1
      exact (tight_of_isReference hr).head)
    obtain ⟨hr₂, hrest₂⟩ := reference_of_rest h₃ hr (by
      have := head?_blank_append (y := []) hw₄ (fun d hd => by cases hd)
      rwa [List.append_nil] at this)
    refine ⟨_, _, hr₁, by rw [h₂]; rfl, hr₂, ?_⟩
    exact hskip (y := []) (by rw [hrest₂, List.append_nil]) hw₄ (fun d hd => by cases hd)

/-! ## Bodies of joins -/

/-- The body of a join in canonical form. -/
def chars (j : Join) : List Char :=
  j.table.toList ++ ([' ', 'O', 'N', ' '] ++ (j.left.toList ++ ([' ', '=', ' '] ++ j.right.toList)))

/-- The table is a trimmed text, not empty, that closes its delimiters and holds no `ON`, and the
two sides are references. -/
structure Readable (j : Join) : Prop where
  ne_nil : j.table.toList ≠ []
  tight : Tight j.table.toList
  balanced : Balanced j.table.toList
  onFree : Quiet (·.keyword? .on) none j.table.toList
  left : IsReference j.left.toList
  right : IsReference j.right.toList

theorem render_toList (j : Join) :
    j.render.toList = j.kind.name.toList ++ ([' ', 'J', 'O', 'I', 'N', ' '] ++ j.chars) := by
  simp [render, chars]

theorem onRange_eq_some_iff {body : Piece} {i k : Nat} :
    onRange body = .ok (some (i, k)) ↔
      ∃ u c r n, body.chars = u ++ c :: r ∧ FirstAt (·.keyword? .on) (.start 0 none) u c r n ∧
        i = u.length ∧ k = u.length + n := by
  rw [onRange, Piece.outline_eq, Piece.search_range_iff]
  simp only [Place.start, Nat.zero_add]

theorem parse_eq_ok_iff {kind : JoinKind} {body : Piece} {j : Join} :
    parse kind body = .ok j ↔ j.kind = kind ∧ ∃ i k, onRange body = .ok (some (i, k)) ∧
      (body.cut 0 i).chars ≠ [] ∧ j.table.toList = (body.cut 0 i).chars ∧
      equality ⟨body, k⟩ = .ok (j.left.toList, j.right.toList) := by
  rw [parse, bind_eq_ok_iff]
  constructor
  · rintro ⟨range, hr, h⟩
    cases range with
    | none => cases h
    | some range =>
      dsimp only at h
      split at h
      · cases h
      · rename_i hne
        obtain ⟨⟨l, r⟩, he, h⟩ := bind_eq_ok_iff.1 h
        cases h
        refine ⟨rfl, range.1, range.2, hr, fun e => hne (Piece.isEmpty_iff.2 e), ?_, ?_⟩
        · exact String.toList_ofList
        · rw [String.toList_ofList, String.toList_ofList]
          exact he
  · rintro ⟨rfl, i, k, hr, hne, ht, he⟩
    refine ⟨some (i, k), hr, ?_⟩
    dsimp only
    rw [if_neg (fun e => hne (Piece.isEmpty_iff.1 e))]
    refine bind_eq_ok_iff.2 ⟨_, he, ?_⟩
    rw [Piece.text, ← ht, String.ofList_toList]
    simp only [String.ofList_toList]
    rfl

/-- A rendered join is read back. -/
theorem parse_chars {body : Piece} {j : Join} (h : body.chars = j.chars) (hj : j.Readable) :
    parse j.kind body = .ok j := by
  have hblank : Blank [' '] := by decide
  have hplain : Plain [' '] := by decide
  have hclear : ((Place.start 0 none).advance (j.table.toList ++ [' '])).Clear := by
    rw [Place.advance_append]
    exact (hplain.advance (hj.balanced.advance (Place.fresh_start 0 none _)).1).1
  have hbefore : ((Place.start 0 none).advance (j.table.toList ++ [' '])).before = some ' ' := by
    rw [Place.advance_before, List.getLast?_concat, Option.some_or]
  have htext : body.chars = (j.table.toList ++ [' ']) ++
      'O' :: (['N', ' '] ++ (j.left.toList ++ ([' ', '=', ' '] ++ j.right.toList))) := by
    rw [h, chars]
    simp
  have hcut : (body.cut 0 (j.table.toList ++ [' ']).length).chars = j.table.toList := by
    rw [Piece.cut_front_of_eq htext rfl, trim_append_blank hblank, trim_eq_self hj.tight]
  have hon : onRange body = .ok (some ((j.table.toList ++ [' ']).length,
      (j.table.toList ++ [' ']).length + 2)) := by
    refine onRange_eq_some_iff.2 ⟨_, _, _, 2, htext, ⟨?_, ?_, ?_⟩, rfl, rfl⟩
    · exact Place.isOutside_of_clear hclear (by decide)
    · rw [Site.keyword?, if_pos (by rw [Site.followsBlank, Place.site, hbefore]; rfl)]
      have hm : Keyword.on.match? ['O', 'N', ' '] = some 2 := by decide
      exact Keyword.match?_append_eq_some hm (.inl (by decide))
    · refine quiet_to_keyword (lasting_keyword? rfl (stops_blank (by decide) _)) hj.onFree ?_
      exact fun s hs => keyword?_eq_none_of_blank hs _
  refine parse_eq_ok_iff.2 ⟨rfl, _, _, hon, by rw [hcut]; exact hj.ne_nil, hcut.symm, ?_⟩
  refine equality_eq_ok_iff.2 ⟨hj.left, hj.right, [' '], [' '], [' '], [], ?_, ?_⟩
  · exact ⟨hblank, hblank, hblank, blank_nil⟩
  · refine Cursor.rest_of_eq (u := j.table.toList ++ [' ', 'O', 'N']) ?_ (by simp)
    rw [h, chars]
    simp

/-- Whatever is read as a join is read back when it is rendered. -/
theorem readable_of_parse {kind : JoinKind} {body : Piece} {j : Join} (h : parse kind body = .ok j)
    (ht : Tight body.chars) (hb : Balanced body.chars) : j.kind = kind ∧ j.Readable := by
  obtain ⟨hkind, i, k, hr, hne, htable, he⟩ := parse_eq_ok_iff.1 h
  obtain ⟨u, d, r, n, e, hf, rfl, rfl⟩ := onRange_eq_some_iff.1 hr
  obtain ⟨hleft, hright, w₁, w₂, w₃, w₄, ⟨hw₁, hw₂, hw₃, hw₄⟩, hrest⟩ := equality_eq_ok_iff.1 he
  have hcut : (body.cut 0 u.length).chars = trim u := Piece.cut_front_of_eq e rfl
  rw [hcut] at hne htable
  have hmatch : Keyword.on.match? (d :: r) = some n := by
    have hfound := hf.found
    unfold Site.keyword? at hfound
    split at hfound
    · exact hfound
    · cases hfound
  obtain ⟨-, -, hword⟩ := Keyword.plain_of_match? hmatch
  have hdrop : (d :: r).drop n = w₁ ++ (j.left.toList ++ (w₂ ++ '=' ::
      (w₃ ++ (j.right.toList ++ w₄)))) := by
    rw [← hrest, Cursor.rest, e, ← List.drop_drop, List.drop_left]
  have hplain : Plain (d :: r) := by
    have hequal : Plain ['='] := by decide
    rw [← List.take_append_drop n (d :: r), hdrop]
    exact hword.append ((plain_of_blank hw₁).append ((plain_of_inReference hleft.2).append
      ((plain_of_blank hw₂).append (hequal.append ((plain_of_blank hw₃).append
        ((plain_of_inReference hright.2).append (plain_of_blank hw₄)))))))
  have hu : Balanced u := by
    rw [e] at hb
    exact hb.of_append_plain hplain
  refine ⟨hkind, ?_, ?_, ?_, ?_, hleft, hright⟩
  · rwa [htable]
  · rw [htable]
    exact tight_trim u
  · rw [htable]
    exact hu.trim
  · rw [htable]
    exact quiet_front ht e hf

end Join

end TableQuery
