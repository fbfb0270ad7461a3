import TableQuery.Json

/-!
# Compact JSON text

A value is written without any blanks. In a string the quote, the backslash and the characters
below U+0020 are escaped, with the short form where there is one; all else stands as it is.
-/

namespace TableQuery.Json

/-- The digit of a value below 16, in lower case. -/
def hexDigit (n : Nat) : Char :=
  if n < 10 then Char.ofNat (0x30 + n) else Char.ofNat (0x57 + n)

/-- A character as it stands in a string. -/
def escape (c : Char) : List Char :=
  if c = '"' then ['\\', '"']
  else if c = '\\' then ['\\', '\\']
  else if c = '\x08' then ['\\', 'b']
  else if c = '\x0c' then ['\\', 'f']
  else if c = '\n' then ['\\', 'n']
  else if c = '\r' then ['\\', 'r']
  else if c = '\t' then ['\\', 't']
  else if c.toNat < 0x20 then
    ['\\', 'u', '0', '0', hexDigit (c.toNat / 16), hexDigit (c.toNat % 16)]
  else [c]

/-- A text as a JSON string. -/
def writeString (cs : List Char) : List Char :=
  '"' :: (cs.flatMap escape ++ ['"'])

mutual

/-- The compact text of a value. -/
def write : Json → List Char
  | .null => "null".toList
  | .bool true => "true".toList
  | .bool false => "false".toList
  | .nat n => Nat.toDigits 10 n
  | .number literal => literal.toList
  | .str s => writeString s.toList
  | .arr [] => ['[', ']']
  | .arr (j :: js) => '[' :: (write j ++ writeItems js)
  | .obj [] => ['\x7b', '\x7d']
  | .obj ((k, j) :: es) => '\x7b' :: (writeString k.toList ++ ':' :: (write j ++ writeEntries es))

/-- The items behind the first one, each behind a comma, and the closing bracket. -/
def writeItems : List Json → List Char
  | [] => [']']
  | j :: js => ',' :: (write j ++ writeItems js)

/-- The entries behind the first one, each behind a comma, and the closing brace. -/
def writeEntries : List (String × Json) → List Char
  | [] => ['\x7d']
  | (k, j) :: es => ',' :: (writeString k.toList ++ ':' :: (write j ++ writeEntries es))

end

/-- The compact text of a value as a string. -/
def render (j : Json) : String :=
  String.ofList (write j)

end TableQuery.Json
