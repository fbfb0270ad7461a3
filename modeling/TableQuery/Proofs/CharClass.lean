import TableQuery.Proofs.Spelling
import TableQuery.Select.Join
import TableQuery.Text.Word

/-!
# Characters up to case and kind of blank

`foldChar` forgets the case of an ASCII letter and which of the ASCII blanks a blank is. Beyond
ASCII it changes nothing, so that a class of characters is kept by it as soon as it is kept in ASCII
(`foldChar_invariant`), where the characters can be gone through.

A `Rigid` character shares its image with no other one: the quotes, the parentheses and all other
signs that structure a statement are rigid.
-/

namespace TableQuery.Text

/-- An ASCII letter in upper case, a space for each of U+0009 to U+000D, any other character as it
is. -/
def foldChar (c : Char) : Char :=
  if 0x09 ≤ c.toNat ∧ c.toNat ≤ 0x0D then ' ' else c.toUpper

theorem foldChar_of_le {c : Char} (h : 128 ≤ c.toNat) : foldChar c = c := by
  rw [foldChar, if_neg (by omega), Spelling.toUpper_of_toNat (by omega)]

/-- What holds of all ASCII characters holds of a character below 128. -/
theorem of_ascii {P : Char → Prop} (h : ∀ n < 128, P (Char.ofNat n)) {c : Char}
    (hc : c.toNat < 128) : P c := by
  have := h c.toNat hc
  rwa [Char.ofNat_toNat] at this

/-- What is kept in ASCII is kept. -/
theorem foldChar_invariant {α : Type} (f : Char → α)
    (h : ∀ n < 128, f (foldChar (Char.ofNat n)) = f (Char.ofNat n)) (c : Char) :
    f (foldChar c) = f c := by
  by_cases hc : c.toNat < 128
  · exact of_ascii (P := fun c => f (foldChar c) = f c) h hc
  · rw [foldChar_of_le (by omega)]

/-! ## Classes -/

/-- What the readers ask of a single character. -/
structure Kind where
  blank : Bool
  digit : Bool
  letter : Bool
  nameChar : Bool
  wordChar : Bool
  asciiNameChar : Bool
  asciiNameStart : Bool
  inReference : Bool
  utf8Size : Nat
deriving DecidableEq

def kind (c : Char) : Kind where
  blank := isBlank c
  digit := c.isDigit
  letter := c.isAlpha
  nameChar := isNameChar c
  wordChar := isWordChar c
  asciiNameChar := isAsciiNameChar c
  asciiNameStart := isAsciiNameStart c
  inReference := Join.inReference c
  utf8Size := c.utf8Size

theorem kind_foldChar (c : Char) : kind (foldChar c) = kind c :=
  foldChar_invariant kind (by decide +kernel) c

theorem isBlank_foldChar (c : Char) : isBlank (foldChar c) = isBlank c :=
  congrArg Kind.blank (kind_foldChar c)

theorem utf8Size_foldChar (c : Char) : (foldChar c).utf8Size = c.utf8Size :=
  congrArg Kind.utf8Size (kind_foldChar c)

theorem isDigit_foldChar (c : Char) : (foldChar c).isDigit = c.isDigit :=
  congrArg Kind.digit (kind_foldChar c)

theorem isAlpha_foldChar (c : Char) : (foldChar c).isAlpha = c.isAlpha :=
  congrArg Kind.letter (kind_foldChar c)

theorem isNameChar_foldChar (c : Char) : isNameChar (foldChar c) = isNameChar c :=
  congrArg Kind.nameChar (kind_foldChar c)

theorem isWordChar_foldChar (c : Char) : isWordChar (foldChar c) = isWordChar c :=
  congrArg Kind.wordChar (kind_foldChar c)

theorem isAsciiNameChar_foldChar (c : Char) : isAsciiNameChar (foldChar c) = isAsciiNameChar c :=
  congrArg Kind.asciiNameChar (kind_foldChar c)

theorem isAsciiNameStart_foldChar (c : Char) : isAsciiNameStart (foldChar c) = isAsciiNameStart c :=
  congrArg Kind.asciiNameStart (kind_foldChar c)

theorem inReference_foldChar (c : Char) : Join.inReference (foldChar c) = Join.inReference c :=
  congrArg Kind.inReference (kind_foldChar c)

theorem foldChar_of_not_isBlank {c : Char} (h : isBlank c = false) : foldChar c = c.toUpper := by
  rw [foldChar, if_neg]
  intro hc
  have : isBlank c = true := by
    simp only [isBlank, Bool.or_eq_true, Bool.and_eq_true, decide_eq_true_eq]
    omega
  rw [this] at h
  cases h

/-- The code points of the 25 blanks. -/
def blankCodes : List Nat :=
  List.range' 0x09 5 ++ List.range' 0x2000 11 ++
    [0x20, 0x85, 0xA0, 0x1680, 0x2028, 0x2029, 0x202F, 0x205F, 0x3000]

theorem toNat_mem_blankCodes {c : Char} (h : isBlank c = true) : c.toNat ∈ blankCodes := by
  simp only [isBlank, Bool.or_eq_true, Bool.and_eq_true, decide_eq_true_eq, beq_iff_eq] at h
  simp only [blankCodes, List.mem_append, List.mem_range'_1, List.mem_cons, List.not_mem_nil]
  omega

/-- The blanks are not among the characters of names. -/
theorem isNameChar_of_isBlank {c : Char} (h : isBlank c = true) : isNameChar c = false := by
  have hcodes : ∀ n ∈ blankCodes, isNameChar (Char.ofNat n) = false := by decide +kernel
  have hc := hcodes c.toNat (toNat_mem_blankCodes h)
  rwa [Char.ofNat_toNat] at hc

/-- ASCII letters are characters of names. -/
theorem isNameChar_of_isUpper_toUpper {c : Char} (h : c.toUpper.isUpper = true) :
    isNameChar c = true := by
  by_cases hc : c.toNat < 128
  · exact of_ascii (P := fun c => c.toUpper.isUpper = true → isNameChar c = true) (by decide) hc h
  · rw [Spelling.isUpper_toUpper_of_toNat (by omega)] at h
    cases h

/-- The first word ends in front of a blank. -/
theorem takeWhile_isNameChar {w y : List Char} {b : Char} (hw : ∀ c ∈ w, isNameChar c = true)
    (hb : isBlank b = true) : (w ++ b :: y).takeWhile isNameChar = w := by
  have hblank : ¬isNameChar b = true := by rw [isNameChar_of_isBlank hb]; decide
  rw [List.takeWhile_append_of_pos hw, List.takeWhile_cons_of_neg hblank, List.append_nil]

/-! ## Signs -/

theorem foldChar_eq_self_or {c : Char} (h : isBlank c = false) :
    foldChar c = c ∨ (foldChar c).isAlpha = true := by
  by_cases hc : c.toNat < 128
  · exact of_ascii (P := fun c => isBlank c = false → foldChar c = c ∨ (foldChar c).isAlpha = true)
      (by decide) hc h
  · exact .inl (foldChar_of_le (by omega))

/-- No other character has the same image. -/
def Rigid (m : Char) : Prop :=
  ∀ c, foldChar c = foldChar m → c = m

/-- Only letters and blanks are not rigid. -/
theorem rigid_of_not_isAlpha {m : Char} (ha : m.isAlpha = false) (hb : isBlank m = false) :
    Rigid m := by
  have hm : foldChar m = m := by
    rcases foldChar_eq_self_or hb with h | h
    · exact h
    · rw [isAlpha_foldChar, ha] at h
      cases h
  intro c hc
  have hcb : isBlank c = false := by rw [← isBlank_foldChar, hc, isBlank_foldChar, hb]
  rcases foldChar_eq_self_or hcb with h | h
  · rw [← h, hc, hm]
  · rw [hc, isAlpha_foldChar, ha] at h
    cases h

theorem rigid_of_isQuote {q : Char} (h : Literal.isQuote q = true) : Rigid q := by
  rcases Literal.isQuote_iff.1 h with rfl | rfl <;>
    exact rigid_of_not_isAlpha (by decide) (by decide)

theorem rigid_of_isDigit {m : Char} (h : m.isDigit = true) : Rigid m := by
  simp only [Char.isDigit, Bool.and_eq_true, decide_eq_true_eq, ge_iff_le,
    UInt32.le_iff_toNat_le] at h
  change 48 ≤ m.toNat ∧ m.toNat ≤ 57 at h
  have key : m.isAlpha = false ∧ isBlank m = false :=
    of_ascii (P := fun m => 48 ≤ m.toNat ∧ m.toNat ≤ 57 → m.isAlpha = false ∧ isBlank m = false)
      (by decide) (by omega) h
  exact rigid_of_not_isAlpha key.1 key.2

end TableQuery.Text
