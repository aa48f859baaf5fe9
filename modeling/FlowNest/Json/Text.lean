import FlowNest.Json.Draft
import FlowNest.Decimal.Nearest

/-!
# FlowNest — reading JSON text

From bytes to drafts. The grammar is strict JSON: no byte order mark, no
comments, no leading zeros, no control characters inside strings. Text that
follows the grammar may still denote no value (`Draft.unfit`): a number that
rounds to infinity, a string with half of a surrogate pair or with bytes that
are not UTF-8, and a container inside more than `deepest` others.

A scanner takes the text from where it stands, as a list of bytes written as
the characters with their codes, and gives what it found with the text behind
it; it gives `none` where the text breaks.
-/

namespace FlowNest.Json

/-- How many containers may be nested in each other. -/
def deepest : Nat := 127

/-- Drops the blanks that may stand between tokens. -/
def dropBlanks (s : List Char) : List Char :=
  s.dropWhile fun c => c = ' ' || c = '\n' || c = '\r' || c = '\t'

/-- Drops the given text from the front. -/
def expect (word s : List Char) : Option (List Char) :=
  if word.isPrefixOf s then some (s.drop word.length) else none

/-! ## Numbers -/

/-- A run of one or more digits. -/
def scanDigits (s : List Char) : Option (List Char × List Char) :=
  match s.span Char.isDigit with
  | ([], _) => none
  | run => some run

/-- The digits in front of the point: a zero stands alone. -/
def scanWhole (s : List Char) : Option (List Char × List Char) := do
  let (ds, rest) ← scanDigits s
  if ds.head? = some '0' ∧ ds.length ≠ 1 then none else return (ds, rest)

/-- The digits behind the point, if there is one. -/
def scanFraction : List Char → Option (Option (List Char) × List Char)
  | '.' :: s => do
    let (ds, rest) ← scanDigits s
    return (some ds, rest)
  | s => some (none, s)

/-- The power of ten, if there is one. -/
def scanPower (s : List Char) : Option (Option Int × List Char) :=
  let signed (negative : Bool) (s : List Char) : Option (Option Int × List Char) := do
    let (ds, rest) ← scanDigits s
    let n : Int := Decimal.ofDigits ds
    return (some (if negative then -n else n), rest)
  match s with
  | 'e' :: '-' :: s | 'E' :: '-' :: s => signed true s
  | 'e' :: '+' :: s | 'E' :: '+' :: s | 'e' :: s | 'E' :: s => signed false s
  | s => some (none, s)

/-- What the parts of a number denote. A number without fraction and power that
fits 64 bits is whole, except the negative zero; any other one is rounded. -/
def numberDraft (negative : Bool) (whole : List Char) (fraction : Option (List Char))
    (power : Option Int) : Draft :=
  let n := Decimal.ofDigits whole
  -- unsigned 64 bits above zero, signed ones below
  if fraction.isNone && power.isNone && !negative && n < UInt64.size then .int n
  else if fraction.isNone && power.isNone && negative && 0 < n && n ≤ UInt64.size / 2 then .int (-n)
  else
    let ds := fraction.getD []
    let f := Decimal.nearest (Decimal.ofDigits (whole ++ ds)) (power.getD 0 - ds.length)
    if f.isInf then .unfit else .float (if negative then -f else f)

/-- A number, from its sign on. -/
def scanNumber (s : List Char) : Option (Draft × List Char) := do
  let (negative, s) := match s with
    | '-' :: s => (true, s)
    | s => (false, s)
  let (whole, s) ← scanWhole s
  let (fraction, s) ← scanFraction s
  let (power, s) ← scanPower s
  return (numberDraft negative whole fraction power, s)

/-! ## Strings -/

/-- A piece of a string: a byte, or a code unit written as four digits. -/
inductive Piece where
  | byte (b : UInt8)
  | unit (n : Nat)

/-- The value of a hexadecimal digit. -/
def hexDigit (c : Char) : Option Nat :=
  if c.isDigit then some (c.toNat - '0'.toNat)
  else if 'a' ≤ c ∧ c ≤ 'f' then some (c.toNat - 'a'.toNat + 10)
  else if 'A' ≤ c ∧ c ≤ 'F' then some (c.toNat - 'A'.toNat + 10)
  else none

/-- The byte that a one-letter escape stands for. -/
def escapedByte (c : Char) : Option UInt8 :=
  match c with
  | '"' | '\\' | '/' => some c.toUInt8
  | 'b' => some 0x08
  | 'f' => some 0x0c
  | 'n' => some 0x0a
  | 'r' => some 0x0d
  | 't' => some 0x09
  | _ => none

/-- The pieces of a string up to its closing quote. -/
def scanPieces : List Char → Option (List Piece × List Char)
  | '"' :: rest => some ([], rest)
  | '\\' :: 'u' :: a :: b :: c :: d :: rest => do
    let unit := (((← hexDigit a) * 16 + (← hexDigit b)) * 16 + (← hexDigit c)) * 16
      + (← hexDigit d)
    let (pieces, rest) ← scanPieces rest
    return (.unit unit :: pieces, rest)
  | '\\' :: c :: rest => do
    let b ← escapedByte c
    let (pieces, rest) ← scanPieces rest
    return (.byte b :: pieces, rest)
  | c :: rest => do
    if c < ' ' then none
    let (pieces, rest) ← scanPieces rest
    return (.byte c.toUInt8 :: pieces, rest)
  | [] => none

/-- The bytes that pieces stand for; two halves of a surrogate pair stand for one
character, and a half alone for none. -/
def pieceBytes : List Piece → Option (List UInt8)
  | [] => some []
  | .byte b :: rest => (pieceBytes rest).map (b :: ·)
  | .unit high :: .unit low :: rest =>
    if 0xd800 ≤ high ∧ high < 0xdc00 then
      if 0xdc00 ≤ low ∧ low < 0xe000 then
        let c := Char.ofNat (0x10000 + (high - 0xd800) * 0x400 + (low - 0xdc00))
        (pieceBytes rest).map (c.toString.toUTF8.toList ++ ·)
      else none
    else if 0xdc00 ≤ high ∧ high < 0xe000 then none
    else (pieceBytes (.unit low :: rest)).map ((Char.ofNat high).toString.toUTF8.toList ++ ·)
  | .unit n :: rest =>
    if 0xd800 ≤ n ∧ n < 0xe000 then none
    else (pieceBytes rest).map ((Char.ofNat n).toString.toUTF8.toList ++ ·)

/-- A string, from behind its opening quote on; `none` inside for one that
denotes no text. -/
def scanString (s : List Char) : Option (Option String × List Char) := do
  let (pieces, rest) ← scanPieces s
  return ((pieceBytes pieces).bind fun bs => String.fromUTF8? ⟨bs.toArray⟩, rest)

/-! ## Values -/

/-- A found container: inside too many others it denotes no value, but a break
in it stays one. -/
def contained (room : Nat) (d : Draft) : Draft :=
  if room = 0 then (if d.passable then .unfit else .broken) else d

mutual

/-- A value and the text behind it, if the text does not break before. `room` is
how many containers may still be opened. -/
def scanValue : Nat → Nat → List Char → Draft × Option (List Char)
  | 0, _, _ => (.broken, none)
  | fuel + 1, room, s =>
    match dropBlanks s with
    | '[' :: s =>
      let (items, rest) := scanItems fuel (room - 1) true s
      (contained room (.arr items), rest)
    | '{' :: s =>
      let (entries, rest) := scanEntries fuel (room - 1) true s
      (contained room (.obj entries), rest)
    | '"' :: s =>
      match scanString s with
      | some (some text, rest) => (.str text, some rest)
      | some (none, rest) => (.unfit, some rest)
      | none => (.broken, none)
    | s =>
      let word (text : String) (d : Draft) := (expect text.toList s).map (d, ·)
      match word "null" .null <|> word "true" (.bool true) <|> word "false" (.bool false) <|>
        scanNumber s with
      | some (d, rest) => (d, some rest)
      | none => (.broken, none)

/-- The items of an array up to its end; `first` when none stands before. -/
def scanItems : Nat → Nat → Bool → List Char → List Draft × Option (List Char)
  | 0, _, _, _ => ([.broken], none)
  | fuel + 1, room, first, s =>
    let item (s : List Char) : List Draft × Option (List Char) :=
      match scanValue fuel room s with
      | (d, some rest) =>
        let (items, rest) := scanItems fuel room false rest
        (d :: items, rest)
      | (d, none) => ([d], none)
    match dropBlanks s, first with
    | ']' :: rest, _ => ([], some rest)
    | ',' :: rest, false => item rest
    | rest, true => item rest
    | _, false => ([.broken], none)

/-- The entries of an object up to its end; `first` when none stands before. -/
def scanEntries : Nat → Nat → Bool → List Char →
    List (Option String × Draft) × Option (List Char)
  | 0, _, _, _ => ([(none, .broken)], none)
  | fuel + 1, room, first, s =>
    let entry (s : List Char) : List (Option String × Draft) × Option (List Char) :=
      match dropBlanks s with
      | '"' :: s =>
        match scanString s with
        | none => ([(none, .broken)], none)
        | some (key, s) =>
          match dropBlanks s with
          | ':' :: s =>
            match scanValue fuel room s with
            | (d, some rest) =>
              let (entries, rest) := scanEntries fuel room false rest
              ((key, d) :: entries, rest)
            | (d, none) => ([(key, d)], none)
          | _ => ([(key, .broken)], none)
      | _ => ([(none, .broken)], none)
    match dropBlanks s, first with
    | '}' :: rest, _ => ([], some rest)
    | ',' :: rest, false => entry rest
    | rest, true => entry rest
    | _, false => ([(none, .broken)], none)

end

/-- What a text holds: the draft of its value, and whether the text ends there. -/
structure Reading where
  draft : Draft
  ends : Bool

/-- Reads a text. No scanner runs out of steps: each step but the first takes a
character, or follows one that did. -/
def Reading.ofBytes (bytes : List UInt8) : Reading :=
  let s := bytes.map fun b => Char.ofNat b.toNat
  let (draft, rest) := scanValue (2 * s.length + 2) deepest s
  ⟨draft, rest.any fun s => (dropBlanks s).isEmpty⟩

/-- The value a text denotes, if all of it denotes one. -/
def ofText? (text : String) : Option Json :=
  let reading := Reading.ofBytes text.toUTF8.toList
  if reading.ends then reading.draft.json? else none

end FlowNest.Json
