/-!
# FlowNest — the number nearest to a decimal

Reading a decimal rounds it to the nearest floating-point number. The exponent
of a written decimal has no bound, so magnitudes far outside the range are
settled before any power of ten is formed.
-/

namespace FlowNest.Decimal

/-- The floating-point number nearest to `digits · 10 ^ exponent`; beyond the
range it is infinite. -/
def nearest (digits : Nat) (exponent : Int) : Float :=
  if digits = 0 then 0
  else
    -- the exponent of the leading digit, give or take one
    let leading := (Nat.log2 digits : Int) * 30103 / 100000 + exponent
    if 310 < leading then 1.0 / 0.0
    else if leading < -400 then 0
    else Float.ofScientific digits (exponent < 0) exponent.natAbs

/-- The value of a run of decimal digits. -/
def ofDigits (ds : List Char) : Nat :=
  ds.foldl (fun n c => 10 * n + (c.toNat - '0'.toNat)) 0

end FlowNest.Decimal
