import TableQuery.Json
import TableQuery.Json.Magnitude

/-!
# Reading JSON text

A reader for the whole of JSON. Values nest at most `maxDepth` deep, numbers are in range, an
escaped surrogate must come in a pair, and a string holds no character below U+0020. `read?` reads a
text that is one value; the other readers take a value off the front of a text and return the rest
of it.

Each step of the nested readers is paid from a fuel that the length of the text bounds.
-/

namespace TableQuery.Json

/-- The blanks that may stand between the tokens of a JSON text. -/
def isSpace (c : Char) : Bool :=
  c == ' ' || c == '\t' || c == '\n' || c == '\r'

def skipSpace (cs : List Char) : List Char :=
  cs.dropWhile isSpace

/-! ## Strings -/

/-- The value of a hexadecimal digit in either case. -/
def hexValue? (c : Char) : Option Nat :=
  let n := c.toNat
  if 0x30 ≤ n ∧ n ≤ 0x39 then some (n - 0x30)
  else if 0x61 ≤ n ∧ n ≤ 0x66 then some (n - 0x57)
  else if 0x41 ≤ n ∧ n ≤ 0x46 then some (n - 0x37)
  else none

/-- The value of four hexadecimal digits. -/
def hexUnit? (a b c d : Char) : Option Nat := do
  return (((← hexValue? a) * 16 + (← hexValue? b)) * 16 + (← hexValue? c)) * 16 + (← hexValue? d)

/-- The low surrogate that must follow a high one. -/
def lowUnit? (cs : List Char) : Option (Nat × List Char) :=
  match cs with
  | '\\' :: 'u' :: a :: b :: c :: d :: r => do
    let n ← hexUnit? a b c d
    if 0xDC00 ≤ n ∧ n ≤ 0xDFFF then some (n, r) else none
  | _ => none

/-- The character with the given first unit, whose second unit, if it needs one, follows. -/
def ofUnit? (n : Nat) (cs : List Char) : Option (Char × List Char) :=
  if 0xD800 ≤ n ∧ n ≤ 0xDBFF then do
    let (low, r) ← lowUnit? cs
    some (Char.ofNat (0x10000 + (n - 0xD800) * 0x400 + (low - 0xDC00)), r)
  else if 0xDC00 ≤ n ∧ n ≤ 0xDFFF then none
  else some (Char.ofNat n, cs)

/-- The character that an escape stands for, behind its backslash. -/
def unescape? (cs : List Char) : Option (Char × List Char) :=
  match cs with
  | '"' :: r => some ('"', r)
  | '\\' :: r => some ('\\', r)
  | '/' :: r => some ('/', r)
  | 'b' :: r => some ('\x08', r)
  | 'f' :: r => some ('\x0c', r)
  | 'n' :: r => some ('\n', r)
  | 'r' :: r => some ('\r', r)
  | 't' :: r => some ('\t', r)
  | 'u' :: a :: b :: c :: d :: r => do ofUnit? (← hexUnit? a b c d) r
  | _ => none

/-- The characters of a string behind its opening quote. -/
def readChars? : Nat → List Char → Option (List Char × List Char)
  | 0, _ => none
  | _ + 1, [] => none
  | fuel + 1, c :: r =>
    if c = '"' then
      some ([], r)
    else if c = '\\' then do
      let (c, r) ← unescape? r
      let (cs, r) ← readChars? fuel r
      some (c :: cs, r)
    else if c.toNat < 0x20 then
      none
    else do
      let (cs, r) ← readChars? fuel r
      some (c :: cs, r)

/-- The string whose opening quote has been read. -/
def readString? (cs : List Char) : Option (String × List Char) :=
  (readChars? (cs.length + 1) cs).map fun (text, r) => (String.ofList text, r)

/-! ## Numbers -/

/-- One or more digits at the front of a text. -/
def readDigits? (cs : List Char) : Option (List Char × List Char) :=
  match cs.takeWhile Char.isDigit with
  | [] => none
  | digits => some (digits, cs.dropWhile Char.isDigit)

/-- The digits in front of the point. A zero stands alone. -/
def readWhole? (cs : List Char) : Option (List Char × List Char) :=
  match cs with
  | '0' :: d :: r => if d.isDigit then none else some (['0'], d :: r)
  | _ => readDigits? cs

/-- A point with digits, or nothing. -/
def readFraction? (cs : List Char) : Option (List Char × List Char) :=
  match cs with
  | '.' :: r => (readDigits? r).map fun (digits, r) => ('.' :: digits, r)
  | _ => some ([], cs)

/-- The exponent of a number, or nothing. -/
def readExponent? (cs : List Char) : Option (List Char × List Char) :=
  match cs with
  | e :: r =>
    if e = 'e' ∨ e = 'E' then
      match r with
      | '+' :: r => (readDigits? r).map fun (digits, r) => (e :: '+' :: digits, r)
      | '-' :: r => (readDigits? r).map fun (digits, r) => (e :: '-' :: digits, r)
      | _ => (readDigits? r).map fun (digits, r) => (e :: digits, r)
    else
      some ([], cs)
  | [] => some ([], cs)

/-- The value of an exponent as written. -/
def exponentValue : List Char → Int
  | [] => 0
  | _ :: '-' :: digits => -(Nat.ofDigitChars 10 digits 0 : Int)
  | _ :: '+' :: digits => Nat.ofDigitChars 10 digits 0
  | _ :: digits => Nat.ofDigitChars 10 digits 0

/-- The number at the front of a text. A number out of range is refused. -/
def readNumber? (cs : List Char) : Option (Json × List Char) := do
  let (sign, r) := match cs with
    | '-' :: r => (['-'], r)
    | _ => ([], cs)
  let (whole, r) ← readWhole? r
  let (fraction, r) ← readFraction? r
  let (exponent, r) ← readExponent? r
  let value := Nat.ofDigitChars 10 whole 0
  if sign.isEmpty && fraction.isEmpty && exponent.isEmpty && value ≤ maxWord then
    return (.nat value, r)
  if (Scaled.ofDigits whole (fraction.drop 1) (exponentValue exponent)).overflows then
    none
  return (.number (String.ofList (sign ++ whole ++ fraction ++ exponent)), r)

/-! ## Values -/

/-- The greatest number of arrays and objects around a value. -/
def maxDepth : Nat := 127

mutual

/-- The value at the front of a text, in which at most `depth` arrays and objects may nest. -/
def readValue? : (fuel depth : Nat) → List Char → Option (Json × List Char)
  | 0, _, _ => none
  | fuel + 1, depth, cs =>
    match skipSpace cs with
    | 'n' :: 'u' :: 'l' :: 'l' :: r => some (.null, r)
    | 't' :: 'r' :: 'u' :: 'e' :: r => some (.bool true, r)
    | 'f' :: 'a' :: 'l' :: 's' :: 'e' :: r => some (.bool false, r)
    | '"' :: r => (readString? r).map fun (s, r) => (.str s, r)
    | '[' :: r =>
      match depth with
      | 0 => none
      | depth + 1 =>
        match skipSpace r with
        | ']' :: r => some (.arr [], r)
        | r => (readItems? fuel depth r).map fun (items, r) => (.arr items, r)
    | '\x7b' :: r =>
      match depth with
      | 0 => none
      | depth + 1 =>
        match skipSpace r with
        | '\x7d' :: r => some (.obj [], r)
        | r => (readEntries? fuel depth r).map fun (entries, r) => (ofEntries entries, r)
    | r => readNumber? r

/-- One or more items with commas between them, up to the closing bracket. -/
def readItems? : (fuel depth : Nat) → List Char → Option (List Json × List Char)
  | 0, _, _ => none
  | fuel + 1, depth, cs => do
    let (item, r) ← readValue? fuel depth cs
    match skipSpace r with
    | ']' :: r => some ([item], r)
    | ',' :: r =>
      let (items, r) ← readItems? fuel depth r
      some (item :: items, r)
    | _ => none

/-- One or more entries with commas between them, up to the closing brace. -/
def readEntries? : (fuel depth : Nat) → List Char → Option (List (String × Json) × List Char)
  | 0, _, _ => none
  | fuel + 1, depth, cs =>
    match skipSpace cs with
    | '"' :: r => do
      let (key, r) ← readString? r
      match skipSpace r with
      | ':' :: r =>
        let (value, r) ← readValue? fuel depth r
        match skipSpace r with
        | '\x7d' :: r => some ([(key, value)], r)
        | ',' :: r =>
          let (entries, r) ← readEntries? fuel depth r
          some ((key, value) :: entries, r)
        | _ => none
      | _ => none
    | _ => none

end

/-- The value that fills a text. -/
def read? (text : String) : Option Json := do
  let cs := text.toList
  let (value, r) ← readValue? (2 * cs.length + 2) maxDepth cs
  if (skipSpace r).isEmpty then some value else none

end TableQuery.Json
