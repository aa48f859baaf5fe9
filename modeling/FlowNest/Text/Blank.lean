/-!
# FlowNest — blank text

Which characters count as blank, and what is left of a text once the blanks
around it are gone. Ids and names are refused when they are blank, and
settings are read without the blanks around them.

The set is Unicode's `White_Space`, twenty-five characters; core's
`Char.isWhitespace` knows only the ones in ASCII.
-/

namespace FlowNest.Text

/-- The characters with the Unicode property `White_Space`. -/
def blankChar (c : Char) : Bool :=
  ('\t' ≤ c && c ≤ '\r') || c = ' ' || c = '\u0085' || c = '\u00a0' || c = '\u1680' ||
  ('\u2000' ≤ c && c ≤ '\u200a') || c = '\u2028' || c = '\u2029' || c = '\u202f' ||
  c = '\u205f' || c = '\u3000'

/-- A text of blanks only; the empty text is one. -/
def isBlank (s : String) : Bool :=
  s.toList.all blankChar

/-- A text without the blanks at its two ends. -/
def trim (s : String) : String :=
  let tail := s.toList.dropWhile blankChar
  String.ofList (tail.reverse.dropWhile blankChar).reverse

end FlowNest.Text
