import TableQuery.Fault
import TableQuery.Literal

/-!
# Cursors

A cursor is a place in a piece, between two of its characters or at its end. The moves only go
forward, `seek` apart, and never past the end. Reading past the end gives `Literal.endMark`.
-/

namespace TableQuery

open Text

structure Cursor where
  piece : Piece
  /-- The number of characters in front of the cursor. -/
  position : Nat
deriving DecidableEq, Repr

namespace Cursor

/-- The cursor at the front of a piece. -/
def ofPiece (p : Piece) : Cursor :=
  ⟨p, 0⟩

/-- The number of characters of the piece. -/
def length (c : Cursor) : Nat :=
  c.piece.length

/-- The characters behind the cursor. -/
def rest (c : Cursor) : List Char :=
  c.piece.chars.drop c.position

def atEnd (c : Cursor) : Bool :=
  c.length ≤ c.position

/-! ## Looking -/

/-- The character at a position of the piece. -/
def charAt? (c : Cursor) (i : Nat) : Option Char :=
  c.piece.chars[i]?

/-- The character `n` places behind the cursor. -/
def peek (c : Cursor) (n : Nat) : Char :=
  (c.charAt? (c.position + n)).getD Literal.endMark

/-- The character right behind the cursor. -/
def current (c : Cursor) : Char :=
  c.peek 0

/-- The character right in front of the cursor is a blank. -/
def followsBlank (c : Cursor) : Bool :=
  0 < c.position && (c.charAt? (c.position - 1)).any isBlank

/-- The characters between a position and the cursor. -/
def textFrom (c : Cursor) (first : Nat) : List Char :=
  c.piece.slice first c.position

/-! ## Moving -/

/-- One character forward. -/
def next (c : Cursor) : Cursor :=
  if c.atEnd then c else { c with position := c.position + 1 }

/-- Over all blanks behind the cursor. -/
def skipBlanks (c : Cursor) : Cursor :=
  { c with position := c.position + (c.rest.takeWhile isBlank).length }

/-- `n` characters forward. -/
def jump (c : Cursor) (n : Nat) : Cursor :=
  { c with position := min (c.position + n) c.length }

/-- To a position of the piece. -/
def seek (c : Cursor) (n : Nat) : Cursor :=
  { c with position := min n c.length }

/-- Over the keyword, if it stands behind the cursor; otherwise no cursor. -/
def consume? (c : Cursor) (k : Keyword) : Option Cursor :=
  (k.match? c.rest).map c.jump

/-- The number of characters of the literal behind the cursor, which the current character opens
whatever it is. -/
def literalLength? (c : Cursor) : Option Nat :=
  match c.rest with
  | [] => none
  | q :: r => (Literal.closing? q r).map (· + 1)

/-- Over the literal behind the cursor; to the end if it is not terminated. -/
def skipLiteral (c : Cursor) : Cursor :=
  match c.literalLength? with
  | some n => c.jump n
  | none => c.seek c.length

/-- The refusal of the literal behind the cursor, if it is not terminated. -/
def literalFault? (c : Cursor) : Option ParseError :=
  match c.literalLength? with
  | some _ => none
  | none => some (c.piece.faultFrom .unterminatedLiteral c.position)

/-- A refusal of the text from `pivot` to the cursor, which also shows the character behind the
cursor. -/
def report (c : Cursor) (kind : ErrorKind) (message : String) (pivot : Nat) : ParseError :=
  let last := max c.position pivot
  { kind := kind
    message := message
    text := String.ofList (c.piece.slice pivot (last + 1))
    start := c.piece.byteOffset pivot
    stop := c.piece.byteOffset last }

@[simp] theorem next_piece (c : Cursor) : c.next.piece = c.piece := by
  unfold next
  split <;> rfl

@[simp] theorem skipBlanks_piece (c : Cursor) : c.skipBlanks.piece = c.piece := rfl

@[simp] theorem jump_piece (c : Cursor) (n : Nat) : (c.jump n).piece = c.piece := rfl

@[simp] theorem seek_piece (c : Cursor) (n : Nat) : (c.seek n).piece = c.piece := rfl

@[simp] theorem skipLiteral_piece (c : Cursor) : c.skipLiteral.piece = c.piece := by
  unfold skipLiteral
  split <;> rfl

/-! ## Runs of moves -/

/-- One move of a cursor. -/
inductive Move where
  | next
  | skipBlanks
  | jump (n : Nat)
  | seek (n : Nat)
  | skipLiteral
  | consume (k : Keyword)
deriving DecidableEq, Repr

/-- The cursor after a move. -/
def move (c : Cursor) : Move → Cursor
  | .next => c.next
  | .skipBlanks => c.skipBlanks
  | .jump n => c.jump n
  | .seek n => c.seek n
  | .skipLiteral => c.skipLiteral
  | .consume k => (c.consume? k).getD c

/-- The cursor after a sequence of moves. -/
def run (c : Cursor) (moves : List Move) : Cursor :=
  moves.foldl move c

end Cursor

end TableQuery
