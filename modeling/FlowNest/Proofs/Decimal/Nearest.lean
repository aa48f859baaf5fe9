import Mathlib
import FlowNest.Decimal.Nearest

/-!
# FlowNest — the nearest number is a number

Reading a decimal may go beyond the range, but it never gives something that is no number:
both operations that the rounding is made of stay clear of that, and so do the powers of
ten they are applied to.

* `Decimal.isNaN_nearest` — the nearest number is one.
-/

namespace FlowNest.Decimal

open Float.Model
open Float.Model.UnpackedFloat

variable {u v : UnpackedFloat}

/-- Only what is no number is packed as such. -/
theorem isNaN_unpack_pack (h : u.isNaN = false) : (Float.Model.pack u).unpack.isNaN = false := by
  show (unpack .binary64 (UnpackedFloat.pack .binary64 u)).isNaN = false
  -- a number that is packed with the highest exponent is infinite
  have hInfinite : unpackExponent (UnpackedFloat.pack .binary64 u) = -1#11 →
      unpackMantissa (UnpackedFloat.pack .binary64 u) = 0#52 := by
    unfold UnpackedFloat.pack
    cases u with
    | notANumber => cases h
    | infinity s => simp [packedInfinity]
    | zero s => simp [packedZero]
    | finite s m e hm =>
      dsimp only
      split
      · simp [packedInfinity]
      · next hExponent =>
        split
        · rw [unpackExponent_packComponents]
          intro hHighest
          have hBits := congrArg BitVec.toNat hHighest
          simp at hBits hExponent
          omega
        · simp
  unfold UnpackedFloat.unpack
  dsimp only
  split
  · next hExponent =>
    rw [if_pos (hInfinite hExponent)]
    rfl
  · split
    · split <;> rfl
    · rfl

/-- Is the number finite, and not zero? -/
def isProper : UnpackedFloat → Bool
  | .finite .. => true
  | _ => false

/-- A mantissa is never rounded to a NaN. -/
theorem isNaN_roundWithAccuracy (s : Sign) (m : Nat) (e : Int) (acc : Accuracy) :
    (roundWithAccuracy .binary64 s m e acc).isNaN = false := by
  unfold roundWithAccuracy
  dsimp only
  split <;> rfl

/-- A product with a proper number is a NaN only if the other factor is. -/
theorem isNaN_mul (hu : u.isNaN = false) (hv : isProper v = true) :
    (UnpackedFloat.mul .binary64 u v).isNaN = false := by
  cases v with
  | finite =>
    cases u with
    | notANumber => cases hu
    | infinity => rfl
    | zero => rfl
    | finite => exact isNaN_roundWithAccuracy _ _ _ _
  | _ => cases hv

/-- A quotient by a proper number is a NaN only if the dividend is. -/
theorem isNaN_div (hu : u.isNaN = false) (hv : isProper v = true) :
    (UnpackedFloat.div .binary64 u v).isNaN = false := by
  cases v with
  | finite =>
    cases u with
    | notANumber => cases hu
    | infinity => rfl
    | zero => rfl
    | finite => exact isNaN_roundWithAccuracy _ _ _ _
  | _ => cases hv

/-- The powers of ten that are numbers themselves are proper ones. -/
theorem isProper_powers (e : Nat) (h : e < Float.exactlyRepresentablePowersOfTen.size) :
    isProper (Float.exactlyRepresentablePowersOfTen[e].toModel.unpack) = true := by
  have hAll : ∀ f ∈ Float.exactlyRepresentablePowersOfTen, isProper f.toModel.unpack = true := by
    decide +kernel
  exact hAll _ (Array.getElem_mem h)

/-- A machine word is no NaN. -/
theorem isNaN_toFloat (n : UInt64) : n.toFloat.toModel.unpack.isNaN = false := by
  refine isNaN_unpack_pack ?_
  unfold UnpackedFloat.ofUInt64 UnpackedFloat.ofNat UnpackedFloat.ofInt UnpackedFloat.normalize
  split
  · exact isNaN_roundWithAccuracy _ _ _ _
  · rfl
  · exact isNaN_roundWithAccuracy _ _ _ _

/-- A decimal in exact form is no NaN. -/
theorem isNaN_scaled (m : Nat) (e : Int) :
    (UnpackedFloat.ofScientific .binary64 m e).isNaN = false := by
  unfold UnpackedFloat.ofScientific
  split
  · rfl
  · split
    · rfl
    · split
      · rfl
      · split
        · exact isNaN_roundWithAccuracy _ _ _ _
        · exact isNaN_roundWithAccuracy _ _ _ _

/-- A decimal is no NaN, in either sign of its exponent. -/
theorem isNaN_ofScientific (m : Nat) (s : Bool) (e : Nat) :
    (Float.ofScientific m s e).isNaN = false := by
  unfold Float.ofScientific
  split
  · next h =>
    have hPower := isProper_powers e (Nat.lt_succ_of_le h.2)
    dsimp only
    split
    · exact isNaN_unpack_pack (isNaN_div (isNaN_toFloat _) hPower)
    · exact isNaN_unpack_pack (isNaN_mul (isNaN_toFloat _) hPower)
  · exact isNaN_unpack_pack (isNaN_scaled _ _)

/-- The nearest number is one. -/
theorem isNaN_nearest (digits : Nat) (exponent : Int) :
    (nearest digits exponent).isNaN = false := by
  unfold nearest
  split
  · decide
  · dsimp only
    split
    · decide
    · split
      · decide
      · exact isNaN_ofScientific _ _ _

/-- What is no number is neither finite nor infinite, and all else is one of both. -/
theorem isFinite_of_isInf {f : Float} (hNaN : f.isNaN = false) (hInf : f.isInf = false) :
    f.isFinite = true := by
  have hNaN : f.toModel.unpack.isNaN = false := hNaN
  have hInf : f.toModel.unpack.isInf = false := hInf
  show f.toModel.unpack.isFinite = true
  cases hModel : f.toModel.unpack <;> simp_all [UnpackedFloat.isNaN, UnpackedFloat.isInf,
    UnpackedFloat.isFinite]

end FlowNest.Decimal
