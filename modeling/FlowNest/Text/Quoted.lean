import FlowNest.Text.Invisible

/-!
# FlowNest — quoted text

Messages that show a text which may be empty, or hold anything, put it in
quotes: quotes and backslashes are escaped, line ends and tabs get their
letters, and what cannot be seen is shown by its number.
-/

namespace FlowNest.Text

/-- The number of a character in hexadecimal. -/
def hex (n : Nat) : String :=
  String.ofList (Nat.toDigits 16 n)

/-- A character inside a quoted text. -/
def quotedChar (c : Char) : String :=
  match c with
  | '\x00' => "\\0"
  | '\t' => "\\t"
  | '\n' => "\\n"
  | '\r' => "\\r"
  | '"' => "\\\""
  | '\\' => "\\\\"
  | c => if invisible c then "\\u\x7b" ++ hex c.toNat ++ "\x7d" else c.toString

/-- A text in quotes. -/
def quoted (s : String) : String :=
  "\"" ++ String.join (s.toList.map quotedChar) ++ "\""

/-- A text that may be missing. -/
def quotedOption : Option String → String
  | none => "None"
  | some s => "Some(" ++ quoted s ++ ")"

end FlowNest.Text
