import TableQuery.Error
import TableQuery.Text.Blank

/-!
# Pieces of a statement

A `Piece` is a stretch of the statement together with the byte at which it starts in the input, so
that whatever is found in it can be reported in positions of the whole. Positions inside a piece
are counted in characters; `byteOffset` turns them into bytes of the input.

`cut` takes a range out of a piece and trims it; `reportSpan`, `reportAt` and `reportWhole` are the
three ways to point at a fault.
-/

namespace TableQuery

open Text

structure Piece where
  chars : List Char
  /-- The byte of the input at which the piece starts. -/
  start : Nat
deriving DecidableEq, Repr

namespace Piece

/-- A text that starts at a given byte of the input. -/
def ofString (text : String) (start : Nat) : Piece :=
  ⟨text.toList, start⟩

def text (p : Piece) : String :=
  String.ofList p.chars

/-- The number of characters. -/
def length (p : Piece) : Nat :=
  p.chars.length

def isEmpty (p : Piece) : Bool :=
  p.chars.isEmpty

/-- The byte of the input at which character `i` stands; the end of the piece for an `i` beyond
it. -/
def byteOffset (p : Piece) (i : Nat) : Nat :=
  byteIndex p.start p.chars i

/-- The characters from `first` up to, not including, `last`. Positions beyond the end stand for
the end, and a reversed range is empty. -/
def slice (p : Piece) (first last : Nat) : List Char :=
  (p.chars.drop first).take (last - first)

/-- The range from `first` to `last` as a piece of its own, without the blanks at its ends. A blank
range gives the empty piece at its end. -/
def cut (p : Piece) (first last : Nat) : Piece :=
  let range := p.slice first last
  ⟨trim range, p.byteOffset (min first last + (range.takeWhile isBlank).length)⟩

/-- The trimmed remainder of the piece from character `first` on. -/
def rest (p : Piece) (first : Nat) : Piece :=
  p.cut first p.length

theorem byteOffset_eq (p : Piece) (i : Nat) :
    p.byteOffset i = p.start + byteLength (p.chars.take i) :=
  byteIndex_eq p.start p.chars i

@[simp] theorem byteOffset_zero (p : Piece) : p.byteOffset 0 = p.start := by
  simp [byteOffset_eq]

theorem byteOffset_of_length_le {p : Piece} {i : Nat} (h : p.length ≤ i) :
    p.byteOffset i = p.byteOffset p.length := by
  simp [byteOffset_eq, length, List.take_of_length_le h]

/-- Two positions in the piece are different bytes of the input, since no character is without
bytes. -/
theorem byteOffset_lt_byteOffset {p : Piece} {i j : Nat} (hij : i < j) (hj : j ≤ p.length) :
    p.byteOffset i < p.byteOffset j := by
  have hbetween : (p.chars.drop i).take (j - i) ≠ [] := by
    rw [Ne, List.take_eq_nil_iff, List.drop_eq_nil_iff, ← length]
    omega
  have htake : p.chars.take j = p.chars.take i ++ (p.chars.drop i).take (j - i) := by
    rw [← List.take_add, Nat.add_sub_cancel' (Nat.le_of_lt hij)]
  rw [byteOffset_eq, byteOffset_eq, htake, byteLength_append, ← Nat.add_assoc]
  exact Nat.lt_add_of_pos_right (byteLength_pos hbetween)

@[simp] theorem slice_zero_length (p : Piece) : p.slice 0 p.length = p.chars := by
  simp [slice, length]

@[simp] theorem text_ofString (text : String) (start : Nat) :
    (ofString text start).text = text := by
  simp [ofString, Piece.text]

/-! ## Pointing at a fault -/

/-- A refusal of the characters from `first` up to, not including, `last`. -/
def reportSpan (p : Piece) (kind : ErrorKind) (message : String) (first last : Nat) :
    ParseError where
  kind := kind
  message := message
  text := String.ofList (p.slice first last)
  start := p.byteOffset first
  stop := p.byteOffset last

/-- A refusal at one position: it shows the character there and covers no bytes. -/
def reportAt (p : Piece) (kind : ErrorKind) (message : String) (i : Nat) : ParseError where
  kind := kind
  message := message
  text := String.ofList (p.slice i (i + 1))
  start := p.byteOffset i
  stop := p.byteOffset i

/-- A refusal of the whole piece. -/
def reportWhole (p : Piece) (kind : ErrorKind) (message : String) : ParseError :=
  p.reportSpan kind message 0 p.length

end Piece

end TableQuery
