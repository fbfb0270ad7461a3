import TableQuery.Proofs.CharClass

/-!
# Keywords made from a text

A keyword is made from any text: its words, brought into upper case, with flags that say what may
follow the last of them. It is found at a position of another text exactly if the words are spelled
there (`Spelling.Spells`) and what stands behind them may follow (`Spelling.MayFollow`). So the
matcher recognises the spellings of the keyword and nothing else, and there is one at most
(`found_iff_spelled`).

The matcher goes over all blanks between two words at once. That this misses no spelling rests on
the upper case of the words: a word has no blanks (`words_eq_iff`), and no character that is none
has a blank in its upper case, which is a fact about the table of case mappings
(`isBlank_of_mem_upperChar`).
-/

namespace TableQuery

namespace Text

/-! ## The words of a text -/

/-- The text is made of the words: blanks stand between each two of them, and perhaps around
them. -/
inductive Worded : List (List Char) → List Char → Prop
  | nil {b : List Char} : Blank b → Worded [] b
  | cons {b w x : List Char} {ws : List (List Char)} :
      Blank b → w ≠ [] → (∀ c ∈ w, isBlank c = false) →
      (∀ c ∈ x.head?, isBlank c = true) → Worded ws x → Worded (w :: ws) (b ++ (w ++ x))

theorem Worded.blank_cons {ws : List (List Char)} {x : List Char} (h : Worded ws x) {c : Char}
    (hc : isBlank c = true) : Worded ws (c :: x) := by
  cases h with
  | nil hb => exact .nil (List.forall_mem_cons.2 ⟨hc, hb⟩)
  | cons hb hne hw hx hws => exact .cons (List.forall_mem_cons.2 ⟨hc, hb⟩) hne hw hx hws

/-- A character in front of a word becomes its first. -/
theorem Worded.cons_cons {w x : List Char} {ws : List (List Char)} {d : Char}
    (h : Worded (w :: ws) (d :: x)) (hd : isBlank d = false) {c : Char} (hc : isBlank c = false) :
    Worded ((c :: w) :: ws) (c :: d :: x) := by
  generalize e : d :: x = y at h
  cases h with
  | @cons b _ x' _ hb _ hw hx hws =>
    cases b with
    | nil => exact .cons blank_nil (List.cons_ne_nil c w) (List.forall_mem_cons.2 ⟨hc, hw⟩) hx hws
    | cons d' b =>
      obtain ⟨rfl, -⟩ := List.cons.inj e
      rw [hb d List.mem_cons_self] at hd
      cases hd

theorem worded_words (x : List Char) : Worded (words x) x := by
  fun_induction words x with
  | case1 => exact .nil blank_nil
  | case2 c hc => exact .nil fun d hd => by rwa [List.mem_singleton.1 hd]
  | case3 c hc =>
    rw [Bool.not_eq_true] at hc
    exact .cons blank_nil (List.cons_ne_nil c []) (List.forall_mem_singleton.2 hc)
      (fun d hd => by cases hd)
      (.nil blank_nil)
  | case4 c d r hc ih => exact ih.blank_cons hc
  | case5 c d r hc hd ih =>
    rw [Bool.not_eq_true] at hc
    exact .cons blank_nil (List.cons_ne_nil c []) (List.forall_mem_singleton.2 hc)
      (fun e he => by cases he; exact hd) ih
  | case6 c d r hc hd hnil ih =>
    -- a text without words is blank
    rw [hnil] at ih
    cases ih with
    | nil hb => exact absurd (hb d List.mem_cons_self) hd
  | case7 c d r hc hd w ws hcons ih =>
    rw [Bool.not_eq_true] at hc hd
    rw [hcons] at ih
    exact ih.cons_cons hd hc

theorem words_blank_append {b : List Char} (hb : Blank b) (x : List Char) :
    words (b ++ x) = words x := by
  induction b with
  | nil => rfl
  | cons c b ih =>
    obtain ⟨hc, hb⟩ := List.forall_mem_cons.1 hb
    rw [← ih hb, List.cons_append]
    cases b ++ x with
    | nil => simp [words, hc]
    | cons d y => rw [words, if_pos hc]

/-- A word ends at the end of the text or in front of a blank. -/
theorem words_word_append {w x : List Char} (hne : w ≠ []) (hw : ∀ c ∈ w, isBlank c = false)
    (hx : ∀ c ∈ x.head?, isBlank c = true) : words (w ++ x) = w :: words x := by
  induction w with
  | nil => exact absurd rfl hne
  | cons c w ih =>
    obtain ⟨hc, hw⟩ := List.forall_mem_cons.1 hw
    have hc' : ¬isBlank c = true := by rw [hc]; decide
    cases w with
    | nil =>
      cases x with
      | nil => simp [words, hc]
      | cons d x => rw [List.singleton_append, words, if_neg hc', if_pos (hx d rfl)]
    | cons d w =>
      have hd' : ¬isBlank d = true := by rw [hw d List.mem_cons_self]; decide
      rw [List.cons_append, List.cons_append, words, if_neg hc', if_neg hd', ← List.cons_append,
        ih (List.cons_ne_nil d w) hw]

/-- A text is made of its words and of no others. -/
theorem words_eq_iff {x : List Char} {ws : List (List Char)} : words x = ws ↔ Worded ws x := by
  constructor
  · rintro rfl
    exact worded_words x
  · intro h
    induction h with
    | @nil b hb => simpa [words] using words_blank_append hb []
    | cons hb hne hw hx _ ih => rw [words_blank_append hb, words_word_append hne hw hx, ih]

theorem Worded.forall_mem {ws : List (List Char)} {x : List Char} (h : Worded ws x) :
    ∀ w ∈ ws, w ≠ [] ∧ ∀ c ∈ w, isBlank c = false := by
  induction h with
  | nil _ => exact fun w hw => by cases hw
  | cons _ hne hw _ _ ih => exact List.forall_mem_cons.2 ⟨⟨hne, hw⟩, ih⟩

/-! ## Upper case -/

theorem isBlank_ofNat {n : Nat} (h : n ∉ blankCodes) : isBlank (Char.ofNat n) = false := by
  rw [Bool.eq_false_iff]
  intro hblank
  have hmem := toNat_mem_blankCodes hblank
  by_cases hvalid : n.isValidChar
  · have hcode : (Char.ofNat n).toNat = n := by
      rw [Char.ofNat, dif_pos hvalid]
      rfl
    rw [hcode] at hmem
    exact h hmem
  · have hcode : Char.ofNat n = '\x00' := by rw [Char.ofNat, dif_neg hvalid]; rfl
    rw [hcode] at hmem
    exact absurd hmem (by decide)

/-- No blank lies in the range of the upper cases of a run. -/
theorem CaseRun.upper?_notMem {r : CaseRun} (hr : r ∈ caseRuns) {n code : Nat}
    (h : r.upper? n = some code) :
    code ∉ blankCodes := by
  have hruns :
      ∀ r ∈ caseRuns, ∀ b ∈ blankCodes, b < r.upper ∨ r.upper + (r.last - r.first) < b := by
    decide +kernel
  rw [upper?, Option.ite_none_right_eq_some, Option.some.injEq] at h
  obtain ⟨hin, rfl⟩ := h
  simp only [Bool.and_eq_true, decide_eq_true_eq] at hin
  intro hmem
  rcases hruns r hr _ hmem with hlt | hlt <;> omega

/-- The upper case of a character that is no blank is a text without blanks. -/
theorem isBlank_of_mem_upperChar {c : Char} (hc : isBlank c = false) :
    upperChar c ≠ [] ∧ ∀ d ∈ upperChar c, isBlank d = false := by
  have hlong : ∀ e ∈ longUpperCases, e.2 ≠ [] ∧ ∀ n ∈ e.2, isBlank (Char.ofNat n) = false := by
    decide +kernel
  rw [upperChar]
  split
  · refine ⟨List.cons_ne_nil _ _, List.forall_mem_singleton.2 ?_⟩
    rw [← foldChar_of_not_isBlank hc, isBlank_foldChar, hc]
  · split
    · rename_i codes hcodes
      obtain ⟨l, l', e, -⟩ := List.lookup_eq_some_iff.1 hcodes
      obtain ⟨hne, hblank⟩ :=
        hlong (c.toNat, codes) (e ▸ List.mem_append_right l List.mem_cons_self)
      exact ⟨fun e => hne (List.map_eq_nil_iff.1 e), List.forall_mem_map.2 hblank⟩
    · split
      · rename_i code hcode
        obtain ⟨r, hr, hupper⟩ := List.exists_of_findSome?_eq_some hcode
        exact ⟨List.cons_ne_nil _ _,
          List.forall_mem_singleton.2 (isBlank_ofNat (CaseRun.upper?_notMem hr hupper))⟩
      · exact ⟨List.cons_ne_nil _ _, List.forall_mem_singleton.2 hc⟩

end Text

open Text

/-- The keywords of the statements are made from their texts. -/
theorem Keyword.spelling_eq_ofText (k : Keyword) :
    k.spelling = .ofText (" ".intercalate k.words).toList k.canEnd true
      (if k = values then some '(' else none) := by
  cases k <;> decide +kernel

namespace Spelling

/-- A word starts with a character that is no blank, also in upper case. -/
theorem solid_upper {w : List Char} (hne : w ≠ []) (hw : ∀ c ∈ w, isBlank c = false) :
    Solid (upper w) := by
  obtain ⟨c, r, rfl⟩ := List.exists_cons_of_ne_nil hne
  obtain ⟨hupper, hblank⟩ := isBlank_of_mem_upperChar (hw c List.mem_cons_self)
  obtain ⟨d, ds, e⟩ := List.exists_cons_of_ne_nil hupper
  rw [e] at hblank
  refine ⟨d, ?_, hblank d List.mem_cons_self⟩
  rw [← List.singleton_append, upper_append, upper, List.flatMap_singleton, e]
  rfl

theorem solid_of_worded {ws : List (List Char)} {word : List Char} (h : Worded ws word) :
    ∀ w ∈ (ws.map upper).tail, Solid w := by
  intro w hw
  obtain ⟨v, hv, rfl⟩ := List.mem_map.1 (List.mem_of_mem_tail hw)
  obtain ⟨hne, hblank⟩ := h.forall_mem v hv
  exact solid_upper hne hblank

/-- What a spelling lets stand behind its last word: the end, a blank or one other character, or
anything at all if it asks for neither of the two. -/
inductive MayFollow (s : Spelling) : List Char → Prop
  | atEnd : s.atEnd = true → MayFollow s []
  | blank {c : Char} {r : List Char} :
      s.beforeBlank = true → isBlank c = true → MayFollow s (c :: r)
  | before {c : Char} {r : List Char} : s.before = some c → MayFollow s (c :: r)
  | any {c : Char} {r : List Char} : s.beforeBlank = false → s.before = none → MayFollow s (c :: r)

theorem mayFollow_iff {s : Spelling} {r : List Char} : MayFollow s r ↔ s.allows r = true := by
  cases r with
  | nil =>
    constructor
    · rintro ⟨h⟩
      exact h
    · exact .atEnd
  | cons c r =>
    simp only [allows, Bool.or_eq_true, Bool.and_eq_true, Bool.not_eq_true',
      Option.isNone_iff_eq_none, beq_iff_eq]
    constructor
    · intro h
      cases h with
      | blank h₁ h₂ => exact .inl (.inr ⟨h₁, h₂⟩)
      | before h => exact .inr h
      | any h₁ h₂ => exact .inl (.inl ⟨h₁, h₂⟩)
    · rintro ((⟨h₁, h₂⟩ | ⟨h₁, h₂⟩) | h)
      · exact .any h₁ h₂
      · exact .blank h₁ h₂
      · exact .before h

/-- A keyword made from a text is found at a position of another text exactly if the words of the
first, in upper case, are spelled there, and what stands behind them may follow. At most one front
of the text from there on spells them, and it ends inside the text. The keywords of the statements
are made in this way. -/
theorem found_iff_spelled (word text : List Char) (atEnd beforeBlank : Bool) (before : Option Char)
    (start : Nat) :
    (∃ ws, (∀ ws', Worded ws' word ↔ ws' = ws) ∧
      (∀ n, (ofText word atEnd beforeBlank before).match? (text.drop start) = some n ↔
        ∃ x r, text.drop start = x ++ r ∧ Spells (ws.map upper) x ∧
          MayFollow (ofText word atEnd beforeBlank before) r ∧ n = x.length) ∧
      ∀ x r x' r', text.drop start = x ++ r → text.drop start = x' ++ r' → Spells (ws.map upper) x →
        Spells (ws.map upper) x' → x = x' ∧ r = r') ∧
    (∀ n, (ofText word atEnd beforeBlank before).match? (text.drop start) = some n →
      start ≤ text.length →
      start + n ≤ text.length) ∧
    ∀ k : Keyword, k.spelling = ofText (" ".intercalate k.words).toList k.canEnd true
      (if k = .values then some '(' else none) := by
  have hsolid := solid_of_worded (worded_words word)
  refine ⟨⟨Text.words word, fun ws' => ?_, fun n => ?_, fun x r x' r' e e' hx hx' => ?_⟩,
    fun n hn hle => ?_, Keyword.spelling_eq_ofText⟩
  · rw [← words_eq_iff, eq_comm]
  · simp only [mayFollow_iff]
    exact match?_eq_some_iff_spells hsolid
  · exact hx.unique hsolid hx' (e.symm.trans e')
  · have hlength := match?_le_length hn
    rw [List.length_drop] at hlength
    omega

/-- A keyword of two words that are longer in upper case, at a position inside a text. -/
theorem found_iff_spelled_longer :
    (ofText " große  straße".toList true true none).match?
      ("In GROSSE\t Strasse".toList.drop 3) = some 15 ∧
      3 + 15 ≤ "In GROSSE\t Strasse".toList.length := by
  obtain ⟨⟨ws, hws, hmatch, -⟩, hbound, -⟩ :=
    found_iff_spelled " große  straße".toList "In GROSSE\t Strasse".toList true true none 3
  obtain rfl : ["große".toList, "straße".toList] = ws := by
    refine (hws _).1 ?_
    exact .cons (b := [' ']) (x := "  straße".toList) (by decide) (by decide)
      (by decide) (by decide)
      (.cons (b := [' ', ' ']) (x := []) (by decide) (by decide) (by decide) (by decide)
        (.nil blank_nil))
  have h := (hmatch 15).2 ⟨"GROSSE\t Strasse".toList, [], rfl,
    .cons (u := "GROSSE".toList) (g := "\t ".toList) (by decide +kernel) (by decide) (by decide)
      (.word (by decide +kernel)), .atEnd rfl, rfl⟩
  exact ⟨h, hbound 15 h (by decide)⟩

end Spelling

end TableQuery
