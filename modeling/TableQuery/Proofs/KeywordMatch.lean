import TableQuery.Clause
import TableQuery.Proofs.Sites

/-!
# Keywords in front of other text

Whether a keyword stands at the front of a text is decided inside the text as soon as what follows
it `Stops` keywords: it does not start with a letter, and its first word is not the second word of a
keyword (`match?_append_eq_none`). A keyword that is found at the end of a text is found in front of
a blank (`match?_append_eq_some`).
-/

namespace TableQuery

open Text Outline

namespace Spelling

theorem dropWord_eq_some_iff {w cs after : List Char} :
    dropWord w cs = some after ↔ ∃ u, cs = u ++ after ∧ u.map Char.toUpper = w := by
  constructor
  · intro h
    fun_induction dropWord w cs with
    | case1 cs =>
      cases h
      exact ⟨[], rfl, rfl⟩
    | case2 => cases h
    | case3 ws c cs ih =>
      obtain ⟨u, rfl, e⟩ := ih h
      exact ⟨c :: u, rfl, by rw [List.map_cons, e]⟩
    | case4 => cases h
  · rintro ⟨u, rfl, rfl⟩
    induction u with
    | nil => rfl
    | cons c u ih =>
      rw [List.map_cons, List.cons_append, dropWord, if_pos rfl, ih]

theorem dropGap_eq_some_iff {cs after : List Char} :
    dropGap cs = some after ↔
      ∃ g, g ≠ [] ∧ Blank g ∧ cs = g ++ after ∧ ∀ c ∈ after.head?, isBlank c = false := by
  constructor
  · intro h
    cases cs with
    | nil => cases h
    | cons c r =>
      rw [dropGap] at h
      split at h
      · rename_i hc
        cases h
        refine ⟨c :: r.takeWhile isBlank, List.cons_ne_nil _ _, ?_, ?_, head?_dropWhile_isBlank r⟩
        · exact List.forall_mem_cons.2 ⟨hc, blank_takeWhile r⟩
        · rw [List.cons_append, List.takeWhile_append_dropWhile]
      · cases h
  · rintro ⟨g, hne, hg, rfl, hh⟩
    obtain ⟨c, g, rfl⟩ := List.exists_cons_of_ne_nil hne
    obtain ⟨hc, hg⟩ := List.forall_mem_cons.1 hg
    rw [List.cons_append, dropGap, if_pos hc, List.dropWhile_append_of_pos hg]
    exact congrArg some (trimStart_eq_self hh)

theorem match?_eq_some_iff {s : Spelling} {x : List Char} {n : Nat} :
    s.match? x = some n ↔ ∃ r, dropWords s.words x = some r ∧ s.allows r = true ∧
      n = x.length - r.length := by
  unfold match?
  cases h : dropWords s.words x with
  | none => simp
  | some r =>
    constructor
    · intro e
      simp only [Option.ite_none_right_eq_some, Option.some.injEq] at e
      exact ⟨r, rfl, e.1, e.2.symm⟩
    · rintro ⟨r', e, ha, rfl⟩
      cases e
      simp only [ha, if_true]

/-- A text of upper-case letters, and at least one. -/
def IsWord (w : List Char) : Prop :=
  w ≠ [] ∧ ∀ c ∈ w, c.isUpper = true

instance (w : List Char) : Decidable (IsWord w) :=
  inferInstanceAs (Decidable (_ ∧ _))

/-- A word that is found in front of a text which starts with no letter ends before that text. -/
theorem dropWord_append {w x y after : List Char} (hw : IsWord w)
    (hy : ∀ c ∈ y.head?, c.toUpper.isUpper = false) (h : dropWord w (x ++ y) = some after) :
    ∃ r, after = r ++ y ∧ dropWord w x = some r := by
  obtain ⟨u, e, rfl⟩ := dropWord_eq_some_iff.1 h
  rcases List.append_eq_append_iff.1 e with ⟨v, rfl, rfl⟩ | ⟨v, rfl, rfl⟩
  · cases v with
    | nil => exact ⟨[], rfl, dropWord_eq_some_iff.2 ⟨x, by simp, by simp⟩⟩
    | cons c v =>
      have hc := hw.2 c.toUpper (List.mem_map.2 ⟨c, by simp, rfl⟩)
      rw [hy c rfl] at hc
      cases hc
  · exact ⟨v, rfl, dropWord_eq_some_iff.2 ⟨u, rfl, rfl⟩⟩

theorem dropGap_append {x y after : List Char} (h : dropGap (x ++ y) = some after)
    (hx : after ≠ trimStart y) : ∃ r, after = r ++ y ∧ dropGap x = some r := by
  obtain ⟨g, hne, hg, e, hh⟩ := dropGap_eq_some_iff.1 h
  rcases List.append_eq_append_iff.1 e with ⟨v, rfl, rfl⟩ | ⟨v, rfl, rfl⟩
  · refine absurd ?_ hx
    rw [trimStart_blank_append (blank_append.1 hg).2, trimStart_eq_self hh]
  · cases v with
    | nil => exact absurd (trimStart_eq_self hh).symm (by simpa using hx)
    | cons c v => exact ⟨c :: v, rfl, dropGap_eq_some_iff.2 ⟨g, hne, hg, rfl, hh⟩⟩

theorem dropWords_cons_cons {w v : List Char} {ws : List (List Char)} {cs after : List Char} :
    dropWords (w :: v :: ws) cs = some after ↔
      ∃ r₁ r₂, dropWord w cs = some r₁ ∧ dropGap r₁ = some r₂ ∧
        dropWords (v :: ws) r₂ = some after := by
  simp only [dropWords, Option.bind_eq_bind, Option.bind_eq_some_iff]
  constructor
  · rintro ⟨r₂, ⟨r₁, h₁, h₂⟩, h₃⟩
    exact ⟨r₁, r₂, h₁, h₂, h₃⟩
  · rintro ⟨r₁, r₂, h₁, h₂, h₃⟩
    exact ⟨r₂, ⟨r₁, h₁, h₂⟩, h₃⟩

/-- Words start with the first letter of the first of them. -/
theorem head?_of_dropWords {w : List Char} {ws : List (List Char)} {cs after : List Char}
    (hw : w ≠ []) (h : dropWords (w :: ws) cs = some after) :
    ∃ c ∈ cs.head?, w.head? = some c.toUpper := by
  have hd : ∃ t, dropWord w cs = some t := by
    cases ws with
    | nil => exact ⟨_, h⟩
    | cons v ws =>
      obtain ⟨r₁, -, h₁, -, -⟩ := dropWords_cons_cons.1 h
      exact ⟨r₁, h₁⟩
  obtain ⟨t, ht⟩ := hd
  obtain ⟨u, rfl, rfl⟩ := dropWord_eq_some_iff.1 ht
  cases u with
  | nil => exact absurd rfl hw
  | cons c u => exact ⟨c, rfl, rfl⟩

/-- Words that are found in front of a text end before it, if the text neither starts with a letter
nor, behind blanks, with the first letter of one of the later words. -/
theorem dropWords_append {ws : List (List Char)} {x y after : List Char} (hw : ∀ w ∈ ws, IsWord w)
    (hy : ∀ c ∈ y.head?, c.toUpper.isUpper = false)
    (hn : ∀ w ∈ ws.tail, ∀ c ∈ (trimStart y).head?, w.head? ≠ some c.toUpper)
    (h : dropWords ws (x ++ y) = some after) : ∃ r, after = r ++ y ∧ dropWords ws x = some r := by
  induction ws generalizing x with
  | nil =>
    cases h
    exact ⟨x, rfl, rfl⟩
  | cons w ws ih =>
    cases ws with
    | nil => exact dropWord_append (hw w List.mem_cons_self) hy h
    | cons v ws =>
      obtain ⟨r₁, r₂, h₁, h₂, h₃⟩ := dropWords_cons_cons.1 h
      obtain ⟨s₁, rfl, e₁⟩ := dropWord_append (hw w List.mem_cons_self) hy h₁
      have hv := hw v (List.mem_cons_of_mem _ List.mem_cons_self)
      have hne : r₂ ≠ trimStart y := by
        rintro rfl
        obtain ⟨c, hc, e⟩ := head?_of_dropWords hv.1 h₃
        exact hn v List.mem_cons_self c hc e
      obtain ⟨s₂, rfl, e₂⟩ := dropGap_append h₂ hne
      obtain ⟨r, rfl, e₃⟩ := ih (fun w' h' => hw w' (List.mem_cons_of_mem _ h'))
        (fun w' h' => hn w' (List.mem_cons_of_mem _ h')) h₃
      exact ⟨r, rfl, dropWords_cons_cons.2 ⟨s₁, s₂, e₁, e₂, e₃⟩⟩

/-- Words that are found in a text are found when more follows. -/
theorem dropWords_extend {ws : List (List Char)} {x r : List Char} (hw : ∀ w ∈ ws, IsWord w)
    (y : List Char) (h : dropWords ws x = some r) : dropWords ws (x ++ y) = some (r ++ y) := by
  have word : ∀ {w x r : List Char}, dropWord w x = some r →
      dropWord w (x ++ y) = some (r ++ y) := by
    intro w x r h
    obtain ⟨u, rfl, e⟩ := dropWord_eq_some_iff.1 h
    exact dropWord_eq_some_iff.2 ⟨u, List.append_assoc .., e⟩
  induction ws generalizing x with
  | nil =>
    cases h
    rfl
  | cons w ws ih =>
    cases ws with
    | nil => exact word h
    | cons v ws =>
      obtain ⟨r₁, r₂, h₁, h₂, h₃⟩ := dropWords_cons_cons.1 h
      obtain ⟨g, hne, hg, rfl, hh⟩ := dropGap_eq_some_iff.1 h₂
      obtain ⟨c, hc, -⟩ :=
        head?_of_dropWords (hw v (List.mem_cons_of_mem _ List.mem_cons_self)).1 h₃
      refine dropWords_cons_cons.2 ⟨g ++ r₂ ++ y, r₂ ++ y, word h₁, ?_,
        ih (fun w' h' => hw w' (List.mem_cons_of_mem _ h')) h₃⟩
      refine dropGap_eq_some_iff.2 ⟨g, hne, hg, List.append_assoc .., ?_⟩
      rw [List.head?_append, hc, Option.some_or]
      rw [hc] at hh
      exact hh

theorem toUpper_of_toNat {c : Char} (h : c.toNat < 97 ∨ 122 < c.toNat) : c.toUpper = c := by
  delta Char.toUpper
  split
  · rename_i hl
    simp only [UInt32.le_iff_toNat_le] at hl
    change 97 ≤ c.toNat ∧ c.toNat ≤ 122 at hl
    omega
  · rfl

theorem isUpper_toUpper_of_toNat {c : Char}
    (h : (c.toNat < 65 ∨ 90 < c.toNat) ∧ (c.toNat < 97 ∨ 122 < c.toNat)) :
    c.toUpper.isUpper = false := by
  rw [toUpper_of_toNat h.2, Bool.eq_false_iff]
  intro hu
  delta Char.isUpper at hu
  simp only [decide_eq_true_eq, UInt32.le_iff_toNat_le] at hu
  change 65 ≤ c.toNat ∧ c.toNat ≤ 90 at hu
  omega

/-- A blank is no letter of a word. -/
theorem isUpper_toUpper_of_isBlank {c : Char} (h : isBlank c = true) :
    c.toUpper.isUpper = false := by
  apply isUpper_toUpper_of_toNat
  simp only [isBlank, Bool.or_eq_true, Bool.and_eq_true, decide_eq_true_eq, beq_iff_eq] at h
  omega

theorem not_isBlank_of_isUpper {c : Char} (h : c.toUpper.isUpper = true) : isBlank c = false := by
  rw [Bool.eq_false_iff]
  intro hb
  rw [isUpper_toUpper_of_isBlank hb] at h
  cases h

theorem plain_of_toUpper {c : Char} (h : c.toUpper.isUpper = true) :
    Literal.isQuote c = false ∧ c ≠ '(' ∧ c ≠ ')' :=
  plainChar_of (·.toUpper.isUpper = true) h (by decide)

/-- Words and the gaps between them are neither quotes nor parentheses. -/
theorem plain_of_dropWords {ws : List (List Char)} {x r : List Char} (hw : ∀ w ∈ ws, IsWord w)
    (h : dropWords ws x = some r) : ∃ m, x = m ++ r ∧ Plain m ∧ (ws ≠ [] → m ≠ []) := by
  have word : ∀ {w x r : List Char}, IsWord w → dropWord w x = some r →
      ∃ m, x = m ++ r ∧ Plain m ∧ m ≠ [] := by
    intro w x r hw h
    obtain ⟨u, rfl, rfl⟩ := dropWord_eq_some_iff.1 h
    refine ⟨u, rfl, fun c hc => ?_, fun e => hw.1 (by rw [e]; rfl)⟩
    exact plain_of_toUpper (hw.2 c.toUpper (List.mem_map.2 ⟨c, hc, rfl⟩))
  induction ws generalizing x with
  | nil =>
    cases h
    exact ⟨[], rfl, plain_of_blank blank_nil, fun e => absurd rfl e⟩
  | cons w ws ih =>
    obtain ⟨hw₁, hw₂⟩ := List.forall_mem_cons.1 hw
    cases ws with
    | nil =>
      obtain ⟨m, e, hm, hne⟩ := word hw₁ h
      exact ⟨m, e, hm, fun _ => hne⟩
    | cons v ws =>
      obtain ⟨r₁, r₂, h₁, h₂, h₃⟩ := dropWords_cons_cons.1 h
      obtain ⟨m₁, rfl, hm₁, hne⟩ := word hw₁ h₁
      obtain ⟨g, -, hg, rfl, -⟩ := dropGap_eq_some_iff.1 h₂
      obtain ⟨m₃, rfl, hm₃, -⟩ := ih hw₂ h₃
      refine ⟨m₁ ++ (g ++ m₃), by simp, ?_, fun _ e => hne (List.append_eq_nil_iff.1 e).1⟩
      exact hm₁.append ((plain_of_blank hg).append hm₃)

end Spelling

/-! ## Keywords of statements -/

/-- The text lets no keyword run into it: it does not start with a letter, and what stands behind
its first blanks does not start like the second word of a keyword. -/
structure Stops (y : List Char) : Prop where
  head : ∀ c ∈ y.head?, c.toUpper.isUpper = false
  next : ∀ c ∈ (trimStart y).head?, c.toUpper ≠ 'B' ∧ c.toUpper ≠ 'J'

theorem stops_nil : Stops [] := by
  constructor <;> (intro c hc; cases hc)

namespace Keyword

/-- The keyword as it is rendered, with single blanks. -/
def text (k : Keyword) : List Char :=
  (" ".intercalate k.words).toList

theorem words_ne_nil (k : Keyword) : k.spelling.words ≠ [] := by
  cases k <;> decide

theorem isWord_of_mem_words (k : Keyword) : ∀ w ∈ k.spelling.words, Spelling.IsWord w := by
  cases k <;> decide

theorem head?_of_mem_tail {k : Keyword} (hk : k.canEnd = true) :
    ∀ w ∈ k.spelling.words.tail, w.head? = some 'B' ∨ w.head? = some 'J' := by
  revert hk
  cases k <;> decide

theorem match?_eq_some_iff {k : Keyword} {x : List Char} {n : Nat} :
    k.match? x = some n ↔ ∃ r, Spelling.dropWords k.spelling.words x = some r ∧
      k.spelling.allows r = true ∧ n = x.length - r.length :=
  Spelling.match?_eq_some_iff

theorem match?_eq_none_iff {k : Keyword} {x : List Char} :
    k.match? x = none ↔ ∀ r, Spelling.dropWords k.spelling.words x = some r →
      k.spelling.allows r = false := by
  unfold match? Spelling.match?
  cases h : Spelling.dropWords k.spelling.words x with
  | none => simp
  | some r => simp

/-- A keyword takes letters and blanks, and at least one of them. -/
theorem plain_of_match? {k : Keyword} {x : List Char} {n : Nat} (h : k.match? x = some n) :
    0 < n ∧ n ≤ x.length ∧ Plain (x.take n) := by
  obtain ⟨r, hr, -, rfl⟩ := match?_eq_some_iff.1 h
  obtain ⟨m, rfl, hm, hne⟩ := Spelling.plain_of_dropWords k.isWord_of_mem_words hr
  have hpos := List.length_pos_iff.2 (hne k.words_ne_nil)
  rw [List.length_append, Nat.add_sub_cancel_right, List.take_left]
  exact ⟨hpos, Nat.le_add_right _ _, hm⟩

theorem allows_append {k : Keyword} {r : List Char} (hr : r ≠ []) (y : List Char) :
    k.spelling.allows (r ++ y) = k.spelling.allows r := by
  obtain ⟨c, r, rfl⟩ := List.exists_cons_of_ne_nil hr
  rfl

/-- What stops keywords makes none. -/
theorem match?_append_eq_none {k : Keyword} (hk : k.canEnd = true) {x y : List Char} (hy : Stops y)
    (h : k.match? x = none) : k.match? (x ++ y) = none := by
  rw [match?_eq_none_iff] at h ⊢
  intro after ha
  obtain ⟨r, rfl, hr⟩ := Spelling.dropWords_append k.isWord_of_mem_words hy.head
    (fun w hw c hc e => by
      rcases head?_of_mem_tail hk w hw with e' | e'
      · exact (hy.next c hc).1 (Option.some.inj (e'.symm.trans e)).symm
      · exact (hy.next c hc).2 (Option.some.inj (e'.symm.trans e)).symm) ha
  have := h r hr
  cases r with
  | nil =>
    have : k.canEnd = false := this
    rw [hk] at this
    cases this
  | cons c r => rwa [allows_append (List.cons_ne_nil c r)]

/-- A keyword that is found at the end of a text is found in front of a blank. -/
theorem match?_append_eq_some {k : Keyword} {x y : List Char} {n : Nat} (h : k.match? x = some n)
    (hy : n < x.length ∨ ∀ c ∈ y.head?, isBlank c = true) : k.match? (x ++ y) = some n := by
  obtain ⟨r, hr, ha, rfl⟩ := match?_eq_some_iff.1 h
  refine match?_eq_some_iff.2 ⟨r ++ y, Spelling.dropWords_extend k.isWord_of_mem_words y hr, ?_, ?_⟩
  · cases r with
    | nil =>
      rcases hy with hy | hy
      · simp at hy
      · cases y with
        | nil => exact ha
        | cons c y =>
          have hc := hy c rfl
          simp [Spelling.allows, spelling, hc]
    | cons c r => rwa [allows_append (List.cons_ne_nil c r)]
  · simp only [List.length_append]
    omega

end Keyword

/-! ## Texts without keywords -/

namespace Site

theorem keyword?_eq_none_iff {s : Site} {k : Keyword} :
    s.keyword? k = none ↔ (s.followsBlank = true → k.match? s.here = none) := by
  unfold keyword?
  split
  · rename_i h
    simp [h]
  · rename_i h
    simp [h]

theorem topKeyword?_eq_some_iff {s : Site} {k : Keyword} {n : Nat} :
    s.topKeyword? k = some n ↔ s.depth = 0 ∧ s.followsBlank = true ∧ k.match? s.here = some n := by
  unfold topKeyword? keyword?
  split
  · split <;> simp_all
  · simp_all

theorem topKeyword?_eq_none_iff {s : Site} {k : Keyword} :
    s.topKeyword? k = none ↔ (s.depth = 0 → s.followsBlank = true → k.match? s.here = none) := by
  unfold topKeyword?
  split
  · rename_i h
    simp [h, keyword?_eq_none_iff]
  · rename_i h
    simp [h]

end Site

/-- A search fails everywhere in a text that stands behind the given character. -/
def Quiet {α : Type} (f : Site → Option α) (before : Option Char) (x : List Char) : Prop :=
  ∀ s ∈ sitesFrom (.start 0 before) x, f s = none

instance {α : Type} (f : Site → Option α) (before : Option Char) (x : List Char) :
    Decidable (Quiet f before x) :=
  inferInstanceAs (Decidable (∀ s ∈ _, f s = none))

/-- A search that fails at a site still fails there when the site is moved, and `y` follows. -/
def Lasting {α : Type} (f : Site → Option α) (y : List Char) : Prop :=
  ∀ s k, f s = none → f ((s.shift k 0).extend y) = none

/-- A search that fails on a text of its own fails where the text is read afresh. -/
theorem Quiet.sites {α : Type} {f : Site → Option α} {x y : List Char} {p : Place}
    (h : Quiet f p.before x) (hf : Lasting f y) (hp : p.Fresh x) (hd : p.depth = 0) :
    ∀ s ∈ sitesFrom p x, f (s.extend y) = none := by
  rw [(sitesFrom_of_fresh hp (.inl hd)).1]
  intro s hs
  obtain ⟨t, ht, rfl⟩ := List.mem_map.1 hs
  rw [hd]
  exact hf t _ (h t ht)

theorem lasting_keyword? {k : Keyword} (hk : k.canEnd = true) {y : List Char} (hy : Stops y) :
    Lasting (·.keyword? k) y := by
  intro s i h
  rw [Site.keyword?_eq_none_iff] at h ⊢
  intro hb
  exact Keyword.match?_append_eq_none hk hy (h hb)

theorem lasting_topKeyword? {k : Keyword} (hk : k.canEnd = true) {y : List Char} (hy : Stops y) :
    Lasting (·.topKeyword? k) y := by
  intro s i h
  rw [Site.topKeyword?_eq_none_iff] at h ⊢
  intro hd hb
  exact Keyword.match?_append_eq_none hk hy (h hd hb)

/-- A search that succeeds at a site still succeeds there when the site is moved, and `y`
follows. -/
def Persistent {α : Type} (f : Site → Option α) (y : List Char) : Prop :=
  ∀ s k, f ((s.shift k 0).extend y) = none → f s = none

/-- Where a search fails in a text which `y` follows, it fails on the text on its own. -/
theorem quiet_of_sites {α : Type} {f : Site → Option α} {x y : List Char} {p : Place}
    (h : ∀ s ∈ sitesFrom p x, f (s.extend y) = none) (hf : Persistent f y) (hp : p.Fresh x)
    (hd : p.depth = 0) : Quiet f p.before x := by
  intro s hs
  rw [(sitesFrom_of_fresh hp (.inl hd)).1, hd] at h
  exact hf s p.index (h _ (List.mem_map.2 ⟨s, hs, rfl⟩))

theorem persistent_keyword? (k : Keyword) {y : List Char} (hy : ∀ c ∈ y.head?, isBlank c = true) :
    Persistent (·.keyword? k) y := by
  intro s i h
  rw [Site.keyword?_eq_none_iff] at h ⊢
  intro hb
  cases e : k.match? s.here with
  | none => rfl
  | some n =>
    have he : k.match? (s.here ++ y) = some n := Keyword.match?_append_eq_some e (.inr hy)
    exact absurd ((h hb).symm.trans he) (by simp)

theorem persistent_topKeyword? (k : Keyword) {y : List Char}
    (hy : ∀ c ∈ y.head?, isBlank c = true) :
    Persistent (·.topKeyword? k) y := by
  intro s i h
  rw [Site.topKeyword?_eq_none_iff] at h ⊢
  intro hd
  have hk := persistent_keyword? k hy s i (Site.keyword?_eq_none_iff.2 (h hd))
  exact Site.keyword?_eq_none_iff.1 hk

/-- A text that starts with a blank, or is empty, and whose first word is not the second word of a
keyword. -/
theorem stops_blank {c : Char} (hc : c ≠ 'B' ∧ c ≠ 'J' ∧ c.toUpper = c ∧ isBlank c = false)
    (r : List Char) : Stops (' ' :: c :: r) := by
  refine ⟨fun d hd => by cases hd; decide, fun d hd => ?_⟩
  have e : trimStart (' ' :: c :: r) = c :: r := by
    have hb : Blank [' '] := by decide
    have := trimStart_blank_append hb (c :: r)
    rw [List.singleton_append] at this
    rw [this]
    exact trimStart_eq_self fun d hd => by cases hd; exact hc.2.2.2
  rw [e] at hd
  cases hd
  rw [hc.2.2.1]
  exact ⟨hc.1, hc.2.1⟩

/-! ## Texts without keywords, put together -/

namespace Keyword

/-- A keyword starts with a letter. -/
theorem match?_cons_eq_none (k : Keyword) {c : Char} (hc : c.toUpper.isUpper = false)
    (r : List Char) : k.match? (c :: r) = none := by
  rw [match?_eq_none_iff]
  intro after h
  cases hw : k.spelling.words with
  | nil => exact absurd hw k.words_ne_nil
  | cons w ws =>
    have hW : Spelling.IsWord w := k.isWord_of_mem_words w (by rw [hw]; exact List.mem_cons_self)
    rw [hw] at h
    obtain ⟨d, hd, e⟩ := Spelling.head?_of_dropWords hW.1 h
    cases hd
    have := hW.2 c.toUpper (List.mem_of_mem_head? e)
    rw [hc] at this
    cases this

end Keyword

namespace Spelling

/-- The two texts differ in a letter, in any case, before either of them ends. -/
def differs : List Char → List Char → Bool
  | w :: ws, c :: cs => c.toUpper != w || differs ws cs
  | _, _ => false

theorem dropWord_of_differs {w t : List Char} (h : differs w t = true) (y : List Char) :
    dropWord w (t ++ y) = none := by
  induction w generalizing t with
  | nil => cases h
  | cons w ws ih =>
    cases t with
    | nil => cases h
    | cons c t =>
      rw [List.cons_append, dropWord]
      split
      · rename_i e
        rw [differs, e] at h
        exact ih (by simpa using h)
      · rfl

end Spelling

theorem Keyword.match?_of_differs {k : Keyword} {t : List Char}
    (h : ∃ w ∈ k.spelling.words.head?, Spelling.differs w t = true) (y : List Char) :
    k.match? (t ++ y) = none := by
  obtain ⟨w, hw, hd⟩ := h
  rw [Keyword.match?_eq_none_iff]
  intro after ha
  have e := Spelling.dropWord_of_differs hd y
  cases hs : k.spelling.words with
  | nil => rw [hs] at hw; cases hw
  | cons v vs =>
    rw [hs] at hw ha
    cases hw
    cases vs with
    | nil => rw [Spelling.dropWords, e] at ha; cases ha
    | cons v' vs =>
      obtain ⟨r₁, -, h₁, -, -⟩ := Spelling.dropWords_cons_cons.1 ha
      rw [e] at h₁
      cases h₁

/-- A word, with no blank in it, that is not the first word of a keyword, whatever follows it. -/
structure Foreign (k : Keyword) (t : List Char) : Prop where
  plain : Plain t
  solid : ∀ c ∈ t, isBlank c = false
  differs : ∃ w ∈ k.spelling.words.head?, Spelling.differs w t = true

instance (k : Keyword) (t : List Char) : Decidable (Foreign k t) :=
  decidable_of_iff (Plain t ∧ (∀ c ∈ t, isBlank c = false) ∧
      ∃ w ∈ k.spelling.words.head?, Spelling.differs w t = true)
    ⟨fun h => ⟨h.1, h.2.1, h.2.2⟩, fun h => ⟨h.plain, h.solid, h.differs⟩⟩

theorem Foreign.match? {k : Keyword} {t : List Char} (h : Foreign k t) (y : List Char) :
    k.match? (t ++ y) = none :=
  Keyword.match?_of_differs h.differs y

/-- A text of signs, neither letters nor quotes nor parentheses, that ends with a blank. -/
structure Separator (t : List Char) : Prop where
  plain : Plain t
  sign : ∀ c ∈ t, c.toUpper.isUpper = false
  last : t.getLast? = some ' '

instance (t : List Char) : Decidable (Separator t) :=
  decidable_of_iff (Plain t ∧ (∀ c ∈ t, c.toUpper.isUpper = false) ∧ t.getLast? = some ' ')
    ⟨fun h => ⟨h.1, h.2.1, h.2.2⟩, fun h => ⟨h.plain, h.sign, h.last⟩⟩

theorem Separator.ne_nil {t : List Char} (h : Separator t) : t ≠ [] := by
  rintro rfl
  exact absurd h.last (by simp)

/-- Behind a separator a text is read afresh, behind a blank. -/
theorem Separator.advance {t : List Char} (h : Separator t) {p : Place} (hp : p.Clear) :
    (p.advance t).quoting = .outside ∧ (p.advance t).depth = p.depth ∧
      (p.advance t).before = some ' ' := by
  obtain ⟨-, hd, hq⟩ := h.plain.advance hp
  refine ⟨hq h.ne_nil, hd, ?_⟩
  rw [Place.advance_before, h.last, Option.some_or]

theorem Separator.quiet {t : List Char} (h : Separator t) (k : Keyword) (p : Place)
    (y : List Char) : ∀ s ∈ sitesFrom p t, (s.extend y).topKeyword? k = none := by
  intro s hs
  obtain ⟨u, c, r, rfl, -, rfl⟩ := mem_sitesFrom.1 hs
  rw [Site.topKeyword?_eq_none_iff]
  intro _ _
  exact k.match?_cons_eq_none (h.sign c (List.mem_append_right _ List.mem_cons_self)) _

/-- A text without a keyword has none behind a separator. -/
theorem Separator.quiet_sites {t : List Char} (h : Separator t) {k : Keyword}
    (hk : k.canEnd = true) {p : Place} (hp : p.Clear) (hd : p.depth = 0) {y : List Char}
    (hy : Quiet (·.topKeyword? k) (some ' ') y) :
    ∀ s ∈ sitesFrom p (t ++ y), s.topKeyword? k = none := by
  obtain ⟨hq, hd', hb⟩ := h.advance hp
  refine forall_sitesFrom_append.2 ⟨h.quiet k p y, ?_⟩
  intro s hs
  have := Quiet.sites (f := (·.topKeyword? k)) (y := []) (by rw [hb]; exact hy)
    (lasting_topKeyword? hk stops_nil) (Place.fresh_of_outside hq y) (by rw [hd', hd]) s hs
  rwa [Site.extend_nil] at this

/-- Two texts without a keyword make none when a separator stands between them. -/
theorem quiet_append {k : Keyword} (hk : k.canEnd = true) {b : Option Char} {x t y : List Char}
    (hx : Quiet (·.topKeyword? k) b x) (hb : Balanced x) (ht : Separator t) (hs : Stops (t ++ y))
    (hy : Quiet (·.topKeyword? k) (some ' ') y) : Quiet (·.topKeyword? k) b (x ++ (t ++ y)) := by
  obtain ⟨hc, hd⟩ := hb.advance (Place.fresh_start 0 b x)
  refine forall_sitesFrom_append.2 ⟨fun s h => ?_, ht.quiet_sites hk hc hd hy⟩
  exact lasting_topKeyword? hk hs s 0 (hx s h)

/-- In a text without blanks a keyword can stand at the front only. -/
theorem topKeyword?_solid_eq_none {k : Keyword} {b : Option Char} {x y : List Char}
    (hx : ∀ c ∈ x, isBlank c = false) (hm : k.match? (x ++ y) = none) :
    ∀ s ∈ sitesFrom (.start 0 b) x, (s.extend y).topKeyword? k = none := by
  intro s hs
  obtain ⟨u, c, r, rfl, -, rfl⟩ := mem_sitesFrom.1 hs
  rw [Site.topKeyword?_eq_none_iff]
  intro _ hb
  cases hu : u.getLast? with
  | none =>
    rw [List.getLast?_eq_none_iff] at hu
    subst hu
    exact hm
  | some d =>
    have hd := hx d (List.mem_append_left _ (List.mem_of_getLast? hu))
    simp [Site.followsBlank, Place.site, Place.advance_before, hu, hd] at hb

/-- A foreign word in front of a text without a keyword. -/
theorem quiet_word {k : Keyword} (hk : k.canEnd = true) {b : Option Char} {t y : List Char}
    (ht : Foreign k t) (hy : y = [] ∨ ∃ z, y = ' ' :: z ∧ Quiet (·.topKeyword? k) (some ' ') z) :
    Quiet (·.topKeyword? k) b (t ++ y) := by
  obtain ⟨hc, hd, -⟩ := ht.plain.advance (Place.clear_start 0 b)
  refine forall_sitesFrom_append.2 ⟨topKeyword?_solid_eq_none ht.solid (ht.match? y), ?_⟩
  rcases hy with rfl | ⟨z, rfl, hz⟩
  · exact fun s hs => by cases hs
  · have hsep : Separator [' '] := by decide
    exact hsep.quiet_sites hk hc hd hz

end TableQuery
