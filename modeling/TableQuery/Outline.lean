import TableQuery.Fault
import TableQuery.Keyword
import TableQuery.Literal

/-!
# Outlines

Every decision about the structure of a statement is taken at characters that stand outside quoted
literals: there parentheses count, commas separate and keywords are looked for. The outline of a
text is the list of these characters, its `Site`s, each with what is needed to decide about it: its
position, the depth of parentheses around it, the character in front of it and the text behind it.

A text is walked from left to right with one `Place` per position. A doubled quote needs no look
ahead: a literal that closes on a quote and meets the same quote next has not ended, and stays the
literal that it was.

The outline also says whether the last literal is unterminated, and whether a parenthesis is still
open at the end.
-/

namespace TableQuery

open Text

/-- Where a position of a text stands with respect to quoted literals. A literal is known by its
quote and by the position that opened it. -/
inductive Quoting where
  | outside
  | inside (quote : Char) (opened : Nat)
  /-- Right behind a quote that closes the literal, unless the same quote follows. -/
  | closed (quote : Char) (opened : Nat)
deriving DecidableEq, Repr

/-- What is known at a position of a text about the text in front of it. -/
structure Place where
  index : Nat
  /-- The number of open parentheses; a parenthesis that closes none is not counted. -/
  depth : Nat
  /-- The position of the last parenthesis that was opened at depth zero. -/
  opened : Nat
  /-- The character in front of the position. -/
  before : Option Char
  quoting : Quoting
deriving DecidableEq, Repr

namespace Place

/-- The place at a given position, outside literals and parentheses. -/
def start (index : Nat) (before : Option Char) : Place :=
  ⟨index, 0, index, before, .outside⟩

/-- The place behind a character that stands outside literals, or opens one. -/
def pass (p : Place) (c : Char) : Place :=
  { index := p.index + 1
    before := some c
    quoting := if Literal.isQuote c then .inside c p.index else .outside
    depth := if c = '(' then p.depth + 1 else if c = ')' then p.depth - 1 else p.depth
    opened := if c = '(' ∧ p.depth = 0 then p.index else p.opened }

/-- The place behind a character that belongs to a literal. -/
def stay (p : Place) (c : Char) (quoting : Quoting) : Place :=
  { p with index := p.index + 1, before := some c, quoting := quoting }

/-- The place one character further. -/
def next (p : Place) (c : Char) : Place :=
  match p.quoting with
  | .outside => p.pass c
  | .inside q i => p.stay c (if c = q then .closed q i else .inside q i)
  | .closed q i => if c = q then p.stay c (.inside q i) else p.pass c

/-- The place behind a text. -/
def advance (p : Place) (cs : List Char) : Place :=
  cs.foldl next p

/-- A character at this place stands outside literals and opens none. -/
def isOutside (p : Place) (c : Char) : Bool :=
  match p.quoting with
  | .inside _ _ => false
  | _ => !Literal.isQuote c

/-- The position of the quote that opened a literal which is still open. -/
def unterminated? (p : Place) : Option Nat :=
  match p.quoting with
  | .inside _ i => some i
  | _ => none

/-- The position of the outermost parenthesis that is still open. -/
def unclosed? (p : Place) : Option Nat :=
  if p.depth = 0 then none else some p.opened

@[simp] theorem advance_nil (p : Place) : p.advance [] = p := rfl

@[simp] theorem advance_cons (p : Place) (c : Char) (cs : List Char) :
    p.advance (c :: cs) = (p.next c).advance cs := rfl

theorem advance_append (p : Place) (cs ds : List Char) :
    p.advance (cs ++ ds) = (p.advance cs).advance ds := by
  simp [advance]

end Place

/-- A character of a text that stands outside quoted literals. -/
structure Site where
  index : Nat
  /-- The number of parentheses around the character. -/
  depth : Nat
  before : Option Char
  char : Char
  /-- The text behind the character. -/
  after : List Char
deriving DecidableEq, Repr

namespace Site

/-- The text from the character on. -/
def here (s : Site) : List Char :=
  s.char :: s.after

/-- The character in front of the site is a blank. -/
def followsBlank (s : Site) : Bool :=
  s.before.any isBlank

/-- A given character outside all parentheses. -/
def isTop (s : Site) (c : Char) : Bool :=
  s.depth == 0 && s.char == c

/-- The length of a keyword that starts at the site, right behind a blank. -/
def keyword? (s : Site) (k : Keyword) : Option Nat :=
  if s.followsBlank then k.match? s.here else none

/-- The length of a keyword that starts at the site, right behind a blank and outside all
parentheses. -/
def topKeyword? (s : Site) (k : Keyword) : Option Nat :=
  if s.depth = 0 then s.keyword? k else none

end Site

/-- The structure of a text. -/
structure Outline where
  sites : List Site
  /-- The position of the quote of a literal that does not end. -/
  unterminated? : Option Nat
  /-- The position of the outermost parenthesis that is not closed. -/
  unclosed? : Option Nat
deriving DecidableEq, Repr

namespace Outline

/-- The sites of a text that stands at a given place. -/
def sitesFrom (p : Place) : List Char → List Site
  | [] => []
  | c :: r =>
    if p.isOutside c then ⟨p.index, p.depth, p.before, c, r⟩ :: sitesFrom (p.next c) r
    else sitesFrom (p.next c) r

/-- The outline of a text that stands at a given place. -/
def ofPlace (p : Place) (cs : List Char) : Outline :=
  ⟨sitesFrom p cs, (p.advance cs).unterminated?, (p.advance cs).unclosed?⟩

/-- The first site that closes a parenthesis which none opened. -/
def unexpectedClose? (o : Outline) : Option Site :=
  o.sites.find? (·.isTop ')')

end Outline

namespace Piece

/-- The outline of the piece from character `first` on, with positions counted from the front of
the piece. -/
def outlineFrom (p : Piece) (first : Nat) : Outline :=
  let before := if first = 0 then none else p.chars[first - 1]?
  .ofPlace (.start first before) (p.chars.drop first)

/-- The outline of the whole piece. -/
def outline (p : Piece) : Outline :=
  p.outlineFrom 0

/-- Refuses an outline in which a literal does not end. -/
def requireTerminated (p : Piece) (o : Outline) : Except ParseError Unit :=
  match o.unterminated? with
  | some i => .error (p.faultFrom .unterminatedLiteral i)
  | none => .ok ()

/-- Refuses an outline in which a parenthesis is not closed. -/
def requireClosed (p : Piece) (o : Outline) : Except ParseError Unit :=
  match o.unclosed? with
  | some i => .error (p.faultFrom .unclosedOpen i)
  | none => .ok ()

/-- Refuses an outline in which a parenthesis closes that none opened. -/
def requireOpened (p : Piece) (o : Outline) : Except ParseError Unit :=
  match o.unexpectedClose? with
  | some s => .error (p.faultAt .unexpectedClose s.index)
  | none => .ok ()

/-- Refuses a text whose literals and parentheses do not balance, for the first reason from the
left. -/
def requireBalanced (p : Piece) (o : Outline) : Except ParseError Unit := do
  p.requireOpened o
  p.requireTerminated o
  p.requireClosed o

/-- The first answer of `f` at a site of the outline. An unterminated literal counts only when no
site in front of it answers. -/
def search {α : Type} (p : Piece) (o : Outline) (f : Site → Option α) :
    Except ParseError (Option α) := do
  match o.sites.findSome? f with
  | some a => return some a
  | none =>
    p.requireTerminated o
    return none

end Piece

end TableQuery
