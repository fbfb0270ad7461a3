import TableQuery.Text.Alphabetic
import TableQuery.Text.Mark
import TableQuery.Text.Number

/-!
# Characters that make words

Two classes decide where a word ends. `isWordChar` is the wide one, used for the boundary in front
of a function name: it also holds marks, connecting punctuation and the two joiners. `isNameChar`
is the narrow one, used for the first word of a statement. The two follow different editions of the
Unicode standard.
-/

namespace TableQuery.Text

/-- The character is punctuation that connects words (general category `Pc`), as `_` is. -/
def isConnector (c : Char) : Bool :=
  CodeRange.covers
    [⟨0x5F, 0x5F⟩, ⟨0x203F, 0x2040⟩, ⟨0x2054, 0x2054⟩, ⟨0xFE33, 0xFE34⟩, ⟨0xFE4D, 0xFE4F⟩,
     ⟨0xFF3F, 0xFF3F⟩] c.toNat

/-- The character is the zero-width non-joiner or the zero-width joiner. -/
def isJoiner (c : Char) : Bool :=
  c.toNat == 0x200C || c.toNat == 0x200D

/-- The character belongs to a word: it is alphabetic, a mark, a decimal digit, connecting
punctuation or a joiner, by the sixteenth edition of the standard. -/
def isWordChar (c : Char) : Bool :=
  isAlphabetic .sixteenth c || isMark c || isDecimal c || isConnector c || isJoiner c

/-- The character belongs to the first word of a statement: it is alphabetic, a number or `_`, by
the seventeenth edition of the standard. -/
def isNameChar (c : Char) : Bool :=
  isAlphabetic .seventeenth c || isNumeric c || c == '_'

/-- The character is an ASCII letter, an ASCII digit or `_`. -/
def isAsciiNameChar (c : Char) : Bool :=
  c.isAlphanum || c == '_'

/-- The character is an ASCII letter or `_`, the characters that can start an identifier. -/
def isAsciiNameStart (c : Char) : Bool :=
  c.isAlpha || c == '_'

theorem isAsciiNameChar_of_isAsciiNameStart {c : Char} (h : isAsciiNameStart c = true) :
    isAsciiNameChar c = true := by
  simp only [isAsciiNameStart, isAsciiNameChar, Char.isAlphanum, Bool.or_eq_true] at *
  rcases h with h | h
  · exact .inl (.inl h)
  · exact .inr h

end TableQuery.Text
