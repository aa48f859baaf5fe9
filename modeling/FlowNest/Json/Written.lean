import FlowNest.Json
import FlowNest.Decimal.Style

/-!
# FlowNest — writing JSON text

Two layouts of the same tokens: `Json.compact`, without any blank, and
`Json.pretty`, with every item and entry on a line of its own, indented by two
blanks a level. Empty containers are closed at once in both.
-/

namespace FlowNest.Json

/-- Numbers in JSON text: shortest digits, never without a fraction, and an
exponent from `1e+16` up and below `0.00001`; an exact tie goes to the even
digit. JSON has no text for the special numbers. -/
def numberStyle : Decimal.Style where
  plain := some (-5, 15)
  wholeFraction := true
  tie := .toEven
  nan := "null"
  infinity := "null"

/-- A hexadecimal digit. -/
def hexChar (n : Nat) : Char :=
  if n < 10 then Char.ofNat ('0'.toNat + n) else Char.ofNat ('a'.toNat + (n - 10))

/-- A character inside a string. The quote, the backslash and the control
characters are escaped, by a letter where there is one. -/
def writeChar (c : Char) : List Char :=
  match c with
  | '"' => ['\\', '"']
  | '\\' => ['\\', '\\']
  | '\n' => ['\\', 'n']
  | '\r' => ['\\', 'r']
  | '\t' => ['\\', 't']
  | '\x08' => ['\\', 'b']
  | '\x0c' => ['\\', 'f']
  | c =>
    if c < ' ' then ['\\', 'u', '0', '0', hexChar (c.toNat / 16), hexChar (c.toNat % 16)]
    else [c]

/-- A text as a JSON string. -/
def quote (s : String) : String :=
  String.ofList ('"' :: s.toList.flatMap writeChar ++ ['"'])

/-- The text of a value that holds no other. -/
def writeLeaf : Json → String
  | .null => "null"
  | .bool true => "true"
  | .bool false => "false"
  | .int n => toString n
  | .float f => if f.isFinite then numberStyle.float f else "null"
  | .str s => quote s
  | .arr _ => "[]"
  | .obj _ => "\x7b\x7d"

mutual

/-- The text without blanks. -/
def compact : Json → String
  | .arr (item :: rest) => "[" ++ compact item ++ compactItems rest
  | .obj ((k, j) :: rest) => "\x7b" ++ quote k ++ ":" ++ compact j ++ compactEntries rest
  | j => writeLeaf j

def compactItems : List Json → String
  | [] => "]"
  | item :: rest => "," ++ compact item ++ compactItems rest

def compactEntries : List (String × Json) → String
  | [] => "\x7d"
  | (k, j) :: rest => "," ++ quote k ++ ":" ++ compact j ++ compactEntries rest

end

/-- A new line, indented to its level. -/
def newline (level : Nat) : String :=
  String.ofList ('\n' :: List.replicate (2 * level) ' ')

mutual

/-- The text in lines; `level` is how far the value itself is indented. -/
def prettyAt (level : Nat) : Json → String
  | .arr (item :: rest) =>
    "[" ++ newline (level + 1) ++ prettyAt (level + 1) item ++ prettyItems level rest
  | .obj ((k, j) :: rest) =>
    "\x7b" ++ newline (level + 1) ++ quote k ++ ": " ++ prettyAt (level + 1) j ++
      prettyEntries level rest
  | j => writeLeaf j

def prettyItems (level : Nat) : List Json → String
  | [] => newline level ++ "]"
  | item :: rest =>
    "," ++ newline (level + 1) ++ prettyAt (level + 1) item ++ prettyItems level rest

def prettyEntries (level : Nat) : List (String × Json) → String
  | [] => newline level ++ "\x7d"
  | (k, j) :: rest =>
    "," ++ newline (level + 1) ++ quote k ++ ": " ++ prettyAt (level + 1) j ++
      prettyEntries level rest

end

/-- The text in lines, without a line end behind it. -/
def pretty (j : Json) : String :=
  prettyAt 0 j

end FlowNest.Json
