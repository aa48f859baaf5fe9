/-!
# FlowNest — the shortest decimal that reads back

A binary number `m · 2 ^ q` stands for every real number that rounds to it.
Among the decimals in that interval the one written is the one on the
coarsest grid of tens, and of two on that grid the nearer. All arithmetic is
on natural numbers, so nothing here rounds.

* `Binary.ofFloat?`  — the exact value of a finite number, with its gap below;
* `Binary.shortest`  — the decimal that is written for it.
-/

namespace FlowNest

/-- A decimal number `digits · 10 ^ exponent`. -/
structure Decimal where
  digits : Nat
  exponent : Int
deriving DecidableEq

/-- What is done with a value halfway between two decimals of equal length. -/
inductive Decimal.Tie where
  | up
  | toEven
deriving DecidableEq

/-- A positive binary number `mantissa · 2 ^ exponent`. The gap to the next
smaller one is half as wide as the gap above when `narrowBelow` holds. -/
structure Binary where
  mantissa : Nat
  exponent : Int
  narrowBelow : Bool
deriving DecidableEq

namespace Binary

/-- The least mantissa of a number in normal range, two to the power of 52. -/
def leastNormal : Nat := 0x10000000000000

/-- The magnitude of a finite number; `none` for zero, infinities and NaN. -/
def ofFloat? (f : Float) : Option Binary :=
  let bits := f.toBits.toNat
  let fraction : Nat := bits % leastNormal
  let biased : Nat := bits / leastNormal % 2048
  if biased = 2047 then none
  -- subnormal numbers have the exponent of the least normal ones
  else if biased = 0 then
    if fraction = 0 then none else some ⟨fraction, -1074, false⟩
  else some ⟨leastNormal + fraction, (biased : Int) - 1075, fraction = 0 && 1 < biased⟩

/-- A grid of tens laid over the number: everything is scaled by the same
factor, so that the grid's step, the number and a quarter of its last binary
place are natural numbers. -/
structure Scaled where
  step : Nat
  value : Nat
  quarter : Nat

/-- The number seen on the grid of step `10 ^ e`. -/
def onGrid (b : Binary) (e : Int) : Scaled :=
  let quarter := Nat.pow 2 (b.exponent - 2).toNat * Nat.pow 10 (-e).toNat
  { step := Nat.pow 10 e.toNat * Nat.pow 2 (2 - b.exponent).toNat
    value := 4 * b.mantissa * quarter
    quarter }

/-- Does the `k`-th point of the grid round to the number? The ends of the
interval do so exactly when the mantissa is even. -/
def holds (b : Binary) (s : Scaled) (k : Nat) : Bool :=
  let point := k * s.step
  let low := s.value - (if b.narrowBelow then 1 else 2) * s.quarter
  let high := s.value + 2 * s.quarter
  if b.mantissa % 2 = 0 then low ≤ point && point ≤ high else low < point && point < high

/-- The point of the grid of step `10 ^ e` that is written for the number, if
one of the two points around it rounds to it. -/
def hit? (b : Binary) (tie : Decimal.Tie) (e : Int) : Option Nat :=
  let s := b.onGrid e
  -- the number lies between the points k and k + 1
  let k := s.value / s.step
  let excess := s.value % s.step
  match b.holds s k, excess != 0 && b.holds s (k + 1) with
  | true, false => some k
  | false, true => some (k + 1)
  | false, false => none
  | true, true =>
    if 2 * excess < s.step then some k
    else if s.step < 2 * excess then some (k + 1)
    else match tie with
      | .up => some (k + 1)
      | .toEven => some (if k % 2 = 0 then k else k + 1)

/-- An exponent of ten whose power is above the number. -/
def topExponent (b : Binary) : Int :=
  ((b.mantissa.log2 : Int) + 1 + b.exponent) * 30103 / 100000 + 2

/-- The shortest decimal that rounds to the number. Seventeen digits are always
enough, so one of the grids tried has a point. -/
def shortest (b : Binary) (tie : Decimal.Tie) : Decimal :=
  ((List.range 24).findSome? fun (i : Nat) =>
    let e := b.topExponent - i
    (b.hit? tie e).map fun k => (⟨k, e⟩ : Decimal)).getD ⟨0, 0⟩

end Binary

end FlowNest
