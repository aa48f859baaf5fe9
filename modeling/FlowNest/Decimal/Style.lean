import FlowNest.Decimal.Shortest

/-!
# FlowNest — how a number is written

The digits of a number are fixed by `Binary.shortest`; where the point goes,
when an exponent is used and whether a whole number keeps a fraction is a
`Decimal.Style`. A style writes every floating-point number, the special ones
included.
-/

namespace FlowNest.Decimal

/-- The decisions that turn digits into text. `plain` is the range of exponents
of the leading digit for which no exponent is written; without it none ever is. -/
structure Style where
  plain : Option (Int × Int)
  wholeFraction : Bool
  tie : Tie
  nan : String
  infinity : String

/-- The exponent of the leading digit. -/
def leading (d : Decimal) : Int :=
  (toString d.digits).length + d.exponent - 1

/-- All digits, with the point among them or zeros up to it. -/
def plainText (d : Decimal) (wholeFraction : Bool) : String :=
  let ds := (toString d.digits).toList
  let whole := ds.length + d.exponent
  let zeros (n : Nat) := List.replicate n '0'
  String.ofList <|
    if whole ≤ 0 then '0' :: '.' :: zeros (-whole).toNat ++ ds
    else if d.exponent < 0 then ds.take whole.toNat ++ '.' :: ds.drop whole.toNat
    else ds ++ zeros d.exponent.toNat ++ if wholeFraction then ['.', '0'] else []

/-- One digit before the point and a signed exponent; no point for one digit. -/
def exponentText (d : Decimal) : String :=
  let sign := if d.leading < 0 then "-" else "+"
  let mantissa := match (toString d.digits).toList with
    | first :: second :: rest => String.ofList (first :: '.' :: second :: rest)
    | ds => String.ofList ds
  mantissa ++ "e" ++ sign ++ toString d.leading.natAbs

/-- The text of a positive decimal. -/
def Style.decimal (s : Style) (d : Decimal) : String :=
  match s.plain with
  | none => d.plainText s.wholeFraction
  | some (low, high) =>
    if low ≤ d.leading ∧ d.leading ≤ high then d.plainText s.wholeFraction else d.exponentText

/-- The text of a number: its sign, also that of a negative zero, and its
shortest digits. -/
def Style.float (s : Style) (f : Float) : String :=
  if f.isNaN then s.nan
  else
    let sign := if f.toBits < 0x8000000000000000 then "" else "-"
    let magnitude := match Binary.ofFloat? f with
      | some b => s.decimal (b.shortest s.tie)
      | none => if f.isInf then s.infinity else if s.wholeFraction then "0.0" else "0"
    sign ++ magnitude

end FlowNest.Decimal
