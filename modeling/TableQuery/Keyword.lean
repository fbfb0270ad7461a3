import TableQuery.Text.Blank
import TableQuery.Text.Upper

/-!
# Keywords

A keyword is one or more words. In a statement the case of its ASCII letters is free, any blanks may
stand between its words, and what follows it is restricted, so that `LIMIT` is not found in
`limits`. A `Spelling` holds the words and the restriction; `Spelling.match?` recognises it at the
front of a text.
-/

namespace TableQuery

open Text

/-- How a keyword is written: its words in upper case, and what may follow the last of them. With
neither `beforeBlank` nor `before`, any character may follow. -/
structure Spelling where
  words : List (List Char)
  /-- The keyword may end the text. -/
  atEnd : Bool
  /-- A blank may follow the keyword. -/
  beforeBlank : Bool
  /-- This character may follow the keyword. -/
  before : Option Char
deriving DecidableEq, Repr

namespace Spelling

/-- The spelling of the words of a text in upper case. -/
def ofText (text : List Char) (atEnd beforeBlank : Bool) (before : Option Char) : Spelling :=
  ⟨(Text.words text).map upper, atEnd, beforeBlank, before⟩

/-- What follows a word at the front of a text, whose ASCII letters are taken in upper case. -/
def dropWord : List Char → List Char → Option (List Char)
  | [], cs => some cs
  | _ :: _, [] => none
  | w :: ws, c :: cs => if c.toUpper = w then dropWord ws cs else none

/-- What follows one or more blanks at the front of a text. -/
def dropGap : List Char → Option (List Char)
  | [] => none
  | c :: cs => if isBlank c then some (cs.dropWhile isBlank) else none

/-- What follows the given words, with a gap between each two, at the front of a text. -/
def dropWords : List (List Char) → List Char → Option (List Char)
  | [], cs => some cs
  | [w], cs => dropWord w cs
  | w :: v :: ws, cs => dropWord w cs >>= dropGap >>= dropWords (v :: ws)

/-- The text may follow the keyword. -/
def allows (s : Spelling) : List Char → Bool
  | [] => s.atEnd
  | c :: _ =>
    (!s.beforeBlank && s.before.isNone) || (s.beforeBlank && isBlank c) || s.before == some c

/-- The number of characters that the keyword takes at the front of a text. -/
def match? (s : Spelling) (cs : List Char) : Option Nat :=
  match dropWords s.words cs with
  | none => none
  | some after => if s.allows after then some (cs.length - after.length) else none

theorem match?_le_length {s : Spelling} {cs : List Char} {n : Nat} (h : s.match? cs = some n) :
    n ≤ cs.length := by
  unfold match? at h
  split at h
  · simp at h
  · split at h
    · simp only [Option.some.injEq] at h
      omega
    · simp at h

end Spelling

/-- The keywords of the statements. -/
inductive Keyword where
  | select
  | distinct
  | fromTable
  | innerJoin
  | leftJoin
  | rightJoin
  | on
  | whereRows
  | groupBy
  | orderBy
  | limit
  | and
  | or
  | like
  | insertInto
  | values
  | returning
deriving DecidableEq, Repr

namespace Keyword

/-- The words of a keyword. -/
def words : Keyword → List String
  | select => ["SELECT"]
  | distinct => ["DISTINCT"]
  | fromTable => ["FROM"]
  | innerJoin => ["INNER", "JOIN"]
  | leftJoin => ["LEFT", "JOIN"]
  | rightJoin => ["RIGHT", "JOIN"]
  | on => ["ON"]
  | whereRows => ["WHERE"]
  | groupBy => ["GROUP", "BY"]
  | orderBy => ["ORDER", "BY"]
  | limit => ["LIMIT"]
  | and => ["AND"]
  | or => ["OR"]
  | like => ["LIKE"]
  | insertInto => ["INSERT", "INTO"]
  | values => ["VALUES"]
  | returning => ["RETURNING"]

/-- The keyword may be the last word of a text. -/
def canEnd : Keyword → Bool
  | select | distinct | insertInto | values => false
  | _ => true

/-- A blank may follow every keyword, and an opening parenthesis may follow `VALUES`. -/
def spelling (k : Keyword) : Spelling where
  words := k.words.map String.toList
  atEnd := k.canEnd
  beforeBlank := true
  before := if k = values then some '(' else none

/-- The number of characters that the keyword takes at the front of a text. -/
def match? (k : Keyword) (cs : List Char) : Option Nat :=
  k.spelling.match? cs

end Keyword

end TableQuery
