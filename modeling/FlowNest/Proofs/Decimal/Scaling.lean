import FlowNest.Decimal.Nearest
import FlowNest.Proofs.Decimal.Rounding

/-!
# FlowNest — reading a decimal near a number

A decimal that lies near a number is read as that number: multiplying by a power of ten, or
dividing by one, rounds once and to the number, whichever of the two ways is taken. The
bounds that keep the powers of ten small are far from every number.

* `mul_of_near`, `div_of_near` — products and quotients are rounded to the number near by;
* `unpack_nearest`             — so is a decimal.
-/

namespace FlowNest.Decimal

open Float.Model
open Float.Model.UnpackedFloat

/-! ## Products and quotients -/

/-- A mantissa without a rest describes itself. -/
theorem describes_exact (m : Nat) : Describes (.ofMantissaAndAccuracy m .exact) m :=
  sub_self (m : ℚ)

/-- A mantissa with a fraction as its rest describes the sum of the two. -/
theorem describes_fraction (m : Nat) {a b : Nat} (h : a < b) :
    Describes (.ofMantissaAndAccuracy m (accuracyOfFraction a b)) (m + a / b) := by
  have hPos : (0 : ℚ) < b := by exact_mod_cast Nat.zero_lt_of_lt h
  have hBelow : (a : ℚ) / b < 1 := (div_lt_one hPos).mpr (by exact_mod_cast h)
  unfold accuracyOfFraction Describes
  split
  · next hZero => simp [hZero, ExtendedMantissa.ofMantissaAndAccuracy, Residue]
  · next hNonzero =>
    have hAbove : (0 : ℚ) < a / b :=
      div_pos (by exact_mod_cast Nat.pos_of_ne_zero hNonzero) hPos
    -- the bits say on which side of one half the fraction lies, or that it is one half
    cases hOrder : compare (2 * a) b with
    | lt =>
      have : (2 * a : ℚ) < b := by exact_mod_cast Nat.compare_eq_lt.mp hOrder
      show Residue false true (m + a / b - m)
      rw [add_sub_cancel_left]
      exact ⟨hAbove, (div_lt_iff₀ hPos).mpr (by linarith)⟩
    | eq =>
      have : (2 * a : ℚ) = b := by exact_mod_cast Nat.compare_eq_eq.mp hOrder
      show Residue true false (m + a / b - m)
      rw [add_sub_cancel_left]
      exact (div_eq_iff hPos.ne').mpr (by linarith)
    | gt =>
      have : (b : ℚ) < 2 * a := by exact_mod_cast Nat.compare_eq_gt.mp hOrder
      show Residue true true (m + a / b - m)
      rw [add_sub_cancel_left]
      exact ⟨(lt_div_iff₀ hPos).mpr (by linarith), hBelow⟩

variable {s₁ s₂ : Sign} {m₁ m₂ m : Nat} {e₁ e₂ q : Int} {h₁ : 0 < m₁} {h₂ : 0 < m₂} {hm : 0 < m}

/-- A product is the number that the exact one lies near, if it has bits enough. -/
theorem mul_of_near (hForm : Canonical m q) (hNear : Near m q (m₁ * 2 ^ e₁ * (m₂ * 2 ^ e₂)))
    (hEnough : 2 ^ 52 ≤ m₁ * m₂) :
    UnpackedFloat.mul .binary64 (.finite s₁ m₁ e₁ h₁) (.finite s₂ m₂ e₂ h₂) =
      .finite (s₁ * s₂) m q hm := by
  refine round_of_near hForm hNear ?_ (.inl hEnough)
  have hPlaces : (m₁ * 2 ^ e₁ * (m₂ * 2 ^ e₂) : ℚ) / 2 ^ (e₁ + e₂) = (m₁ * m₂ : Nat) := by
    rw [zpow_add₀ two_ne_zero, div_eq_iff (mul_pos (two_zpow_pos _) (two_zpow_pos _)).ne']
    push_cast
    exact mul_mul_mul_comm _ _ _ _
  rw [hPlaces]
  exact describes_exact (m₁ * m₂)

/-- A quotient is the number that the exact one lies near. -/
theorem div_of_near (hForm : Canonical m q) (hNear : Near m q (m₁ * 2 ^ e₁ / (m₂ * 2 ^ e₂))) :
    UnpackedFloat.div .binary64 (.finite s₁ m₁ e₁ h₁) (.finite s₂ m₂ e₂ h₂) =
      .finite (s₁ / s₂) m q hm := by
  obtain ⟨τ, hτ⟩ : ∃ τ, min (e₁ - e₂)
      (max ((m₁.log2 : Int) + 1 + e₁ - ((m₂.log2 : Int) + 1 + e₂) - 53) (-1074)) = τ := ⟨_, rfl⟩
  obtain ⟨n, hn⟩ : ∃ n : Nat, e₁ - e₂ = τ + n := ⟨(e₁ - e₂ - τ).toNat, by omega⟩
  have hShift : (e₁ - e₂ - τ).toNat = n := by omega
  have hCore : divCore .binary64 m₁ e₁ m₂ e₂ =
      (m₁ * 2 ^ n / m₂, τ, accuracyOfFraction (m₁ * 2 ^ n % m₂) m₂) := by
    unfold divCore totalExponent
    rw [targetExponent_binary64, hτ]
    dsimp only
    rw [hShift, Nat.shiftLeft_eq]
  show (let (m, e, acc) := divCore .binary64 m₁ e₁ m₂ e₂
    roundWithAccuracy .binary64 (s₁ / s₂) m e acc) = _
  rw [hCore]
  refine round_of_near hForm hNear ?_ ?_
  · have hPlaces : (m₁ * 2 ^ e₁ / (m₂ * 2 ^ e₂) : ℚ) / 2 ^ τ =
        (m₁ * 2 ^ n / m₂ : Nat) + (m₁ * 2 ^ n % m₂ : Nat) / m₂ := by
      have hPos : (m₂ : ℚ) ≠ 0 := by exact_mod_cast Nat.ne_of_gt h₂
      have hDivide : (m₂ : ℚ) * (m₁ * 2 ^ n / m₂ : Nat) + (m₁ * 2 ^ n % m₂ : Nat) = m₁ * 2 ^ n := by
        exact_mod_cast Nat.div_add_mod (m₁ * 2 ^ n) m₂
      have hSum : e₁ = e₂ + τ + n := by omega
      rw [hSum, two_zpow_add, zpow_add₀ two_ne_zero]
      have := two_zpow_pos e₂
      have := two_zpow_pos τ
      field_simp
      linarith
    rw [hPlaces]
    exact describes_fraction _ (Nat.mod_lt _ h₂)
  · refine or_iff_not_imp_right.mpr fun hTiny => ?_
    -- the quotient has a place for each that the dividend was given
    have hPlaces : m₂.log2 + 53 ≤ m₁.log2 + n := by omega
    have hDividend : 2 ^ (m₁.log2 + n) ≤ m₁ * 2 ^ n := by
      rw [Nat.pow_add]
      exact Nat.mul_le_mul_right _ (Nat.log2_self_le (Nat.ne_of_gt h₁))
    have hDivisor : m₂ ≤ 2 ^ (m₂.log2 + 1) := Nat.le_of_lt Nat.lt_log2_self
    refine (Nat.le_div_iff_mul_le h₂).mpr ?_
    calc 2 ^ 52 * m₂ ≤ 2 ^ 52 * 2 ^ (m₂.log2 + 1) := Nat.mul_le_mul_left _ hDivisor
      _ = 2 ^ (m₂.log2 + 53) := by rw [← Nat.pow_add]; congr 1; omega
      _ ≤ 2 ^ (m₁.log2 + n) := Nat.pow_le_pow_right (by decide) hPlaces
      _ ≤ m₁ * 2 ^ n := hDividend

/-! ## Whole numbers and powers of ten -/

theorem zpow_eq_div {a : ℚ} (ha : a ≠ 0) (r : Int) : a ^ r = a ^ r.toNat / a ^ (-r).toNat := by
  conv_lhs => rw [← Int.toNat_sub_toNat_neg r]
  rw [zpow_sub₀ ha, zpow_natCast, zpow_natCast]

/-- A number lies near itself. -/
theorem near_self (m : Nat) (q : Int) : Near m q (m * 2 ^ q) := by
  have hGap := gap_pos m q
  have hPos := two_zpow_pos q
  have hBelow : ((m : ℚ) - gap m q) * 2 ^ q < m * 2 ^ q :=
    mul_lt_mul_of_pos_right (by linarith) hPos
  have hAbove : (m : ℚ) * 2 ^ q < (m + 1 / 2) * 2 ^ q :=
    mul_lt_mul_of_pos_right (by linarith) hPos
  exact ⟨hBelow.le, hAbove.le, fun _ => ⟨hBelow, hAbove⟩⟩

/-- A canonical number is not changed by rounding. -/
theorem round_canonical {s : Sign} (hForm : Canonical m q) :
    roundWithAccuracy .binary64 s m q .exact = .finite s m q hm := by
  refine round_of_near hForm (near_self m q) ?_ (hForm.normal.imp_right Int.le_of_eq)
  rw [mul_div_assoc, div_self (two_zpow_pos q).ne', mul_one]
  exact describes_exact m

/-- A whole number of 53 bits becomes a floating-point number without rounding. -/
theorem unpack_toFloat {n : Nat} (hn : 0 < n) (hSmall : n < 2 ^ 53) :
    ∃ (m : Nat) (q : Int) (hm : 0 < m),
      n.toUInt64.toFloat.toModel.unpack = .finite .positive m q hm ∧
        2 ^ 52 ≤ m ∧ (m : ℚ) * 2 ^ q = n := by
  have hLog : n.log2 < 53 := (Nat.log2_lt (Nat.ne_of_gt hn)).mpr hSmall
  obtain ⟨k, hk⟩ : ∃ k, n.log2 + k = 52 := ⟨52 - n.log2, by omega⟩
  have hBits : 2 ^ 52 ≤ n * 2 ^ k := by
    rw [← hk, Nat.pow_add]
    exact Nat.mul_le_mul_right _ (Nat.log2_self_le (Nat.ne_of_gt hn))
  have hFull : n * 2 ^ k < 2 ^ 53 := by
    have : (n + 1) * 2 ^ k ≤ 2 ^ (n.log2 + 1) * 2 ^ k := Nat.mul_le_mul_right _ Nat.lt_log2_self
    rw [← Nat.pow_add, show n.log2 + 1 + k = 53 by omega] at this
    have := Nat.two_pow_pos k
    nlinarith
  -- the mantissa is filled up with zeros
  have hm : 0 < n * 2 ^ k := Nat.lt_of_lt_of_le (by decide) hBits
  have hForm : Canonical (n * 2 ^ k) (-k) := ⟨hFull, by omega, by omega, .inl hBits⟩
  refine ⟨n * 2 ^ k, -k, hm, ?_, hBits, ?_⟩
  · have hWord : n.toUInt64.toNat = n :=
      UInt64.toNat_ofNat_of_lt (Nat.lt_trans hSmall (by decide))
    have hPositive : compare (n : Int) 0 = .gt := compare_gt_iff_gt.mpr (by exact_mod_cast hn)
    have hTarget : max ((n.log2 : Int) + 1 + 0 - 53) (-1074) = -k := by omega
    have hRound : UnpackedFloat.ofUInt64 .binary64 n.toUInt64 =
        .finite .positive (n * 2 ^ k) (-k) hm := by
      unfold UnpackedFloat.ofUInt64 UnpackedFloat.ofNat UnpackedFloat.ofInt
        UnpackedFloat.normalize
      rw [hWord, hPositive]
      unfold UnpackedFloat.round decreaseExponent totalExponent
      dsimp only
      rw [Int.toNat_natCast, targetExponent_binary64, hTarget, Nat.shiftLeft_eq,
        show (0 - -(k : Int)).toNat = k by omega, Int.zero_sub]
      exact round_canonical hForm
    show (Float.Model.pack (UnpackedFloat.ofUInt64 .binary64 n.toUInt64)).unpack = _
    rw [hRound]
    exact unpack_pack hForm
  · push_cast
    rw [zpow_neg, zpow_natCast, mul_assoc, mul_inv_cancel₀ (by positivity), mul_one]

/-- Is the number this power of ten, with all the bits of its mantissa? -/
def isPowerOfTen (e : Nat) : UnpackedFloat → Bool
  | .finite .positive p r _ => 2 ^ 52 ≤ p && p * 2 ^ r.toNat == 10 ^ e * 2 ^ (-r).toNat
  | _ => false

/-- The powers of ten up to the twenty-second are exact. -/
theorem isPowerOfTen_powers : ∀ e : Fin 23,
    isPowerOfTen e (Float.exactlyRepresentablePowersOfTen[e].toModel.unpack) = true := by
  decide +kernel

/-- So each of them is a number of its own, with all bits of its mantissa. -/
theorem unpack_power (e : Nat) (h : e < 23) :
    ∃ (p : Nat) (r : Int) (hp : 0 < p),
      Float.exactlyRepresentablePowersOfTen[e].toModel.unpack = .finite .positive p r hp ∧
        2 ^ 52 ≤ p ∧ (p : ℚ) * 2 ^ r = 10 ^ e := by
  have hPower := isPowerOfTen_powers ⟨e, h⟩
  unfold isPowerOfTen at hPower
  split at hPower
  · next p r hp hParts =>
    obtain ⟨hBits, hValue⟩ := Bool.and_eq_true_iff.mp hPower
    refine ⟨p, r, hp, hParts, of_decide_eq_true hBits, ?_⟩
    have hValue : (p : ℚ) * 2 ^ r.toNat = 10 ^ e * 2 ^ (-r).toNat := by
      exact_mod_cast beq_iff_eq.mp hValue
    -- the exponent may be negative, so the table was checked with the power moved to the other
    -- side
    rw [zpow_eq_div two_ne_zero, ← mul_div_assoc, hValue, mul_div_cancel_right₀]
    positivity
  · cases hPower

/-! ## Decimals -/

variable {D : Nat} {E : Int}

theorem ten_zpow_of_nonneg (h : 0 ≤ E) : (10 : ℚ) ^ E = 10 ^ E.natAbs := by
  conv_lhs => rw [← Int.natAbs_of_nonneg h]
  exact zpow_natCast _ _

theorem ten_zpow_of_neg (h : E < 0) : (10 : ℚ) ^ E = 1 / 10 ^ E.natAbs := by
  have hNeg : E = -(E.natAbs : Int) := by omega
  conv_lhs => rw [hNeg, zpow_neg, zpow_natCast]
  exact (one_div _).symm

theorem shiftLeft_mul_zpow (n k : Nat) : ((n <<< k : Nat) : ℚ) * 2 ^ (-(k : Int)) = n := by
  rw [Nat.shiftLeft_eq, zpow_neg, zpow_natCast]
  push_cast
  rw [mul_assoc, mul_inv_cancel₀ (by positivity), mul_one]

/-- The way by large whole numbers. -/
theorem ofScientific_of_near (hForm : Canonical m q) (hNear : Near m q (D * 10 ^ E)) (hD : 0 < D)
    (hLow : -(2048 + (D.log2 : Int)) ≤ E) (hHigh : E ≤ 2048) :
    UnpackedFloat.ofScientific .binary64 D E = .finite .positive m q hm := by
  have hNotHigh : ¬E > 2 ^ Format.binary64.exponentBits := by
    show ¬E > 2048
    omega
  have hNotLow : ¬E < -((2 ^ Format.binary64.exponentBits : Int) + D.log2) := by
    show ¬E < -(2048 + (D.log2 : Int))
    omega
  unfold UnpackedFloat.ofScientific
  rw [dif_neg (Nat.ne_of_gt hD), if_neg hNotHigh, if_neg hNotLow]
  -- a power of ten to multiply by is exact, one to divide by leaves a residue
  split
  · next hSign =>
    have hTen : 0 < 10 ^ E.toNat := Nat.pow_pos (by decide)
    have hBits : 2 ^ 52 ≤ D <<< 53 * 10 ^ E.toNat := by
      rw [Nat.shiftLeft_eq]
      refine Nat.le_trans ?_ (Nat.le_mul_of_pos_right _ hTen)
      exact Nat.le_trans (by decide) (Nat.le_mul_of_pos_left _ hD)
    refine mul_of_near hForm ?_ hBits
    rw [shiftLeft_mul_zpow, zpow_zero, mul_one]
    rw [ten_zpow_of_nonneg hSign, show E.natAbs = E.toNat by omega] at hNear
    exact_mod_cast hNear
  · next hSign =>
    refine div_of_near hForm ?_
    rw [zpow_zero, mul_one, mul_one]
    rw [ten_zpow_of_neg (by omega), show E.natAbs = (-E).toNat by omega, mul_one_div] at hNear
    exact_mod_cast hNear

/-- A decimal near a number has the parts of that number, whichever way it is read. -/
theorem unpack_ofScientific (hForm : Canonical m q) (hNear : Near m q (D * 10 ^ E)) (hD : 0 < D)
    (hLow : -(2048 + (D.log2 : Int)) ≤ E) (hHigh : E ≤ 2048) :
    (Float.ofScientific D (E < 0) E.natAbs).toModel.unpack = .finite .positive m q hm := by
  unfold Float.ofScientific
  split
  -- both numbers are exact, and one operation rounds
  · next hSmall =>
    have hIndex : E.natAbs < Float.exactlyRepresentablePowersOfTen.size :=
      Nat.lt_succ_of_le hSmall.2
    obtain ⟨m₁, q₁, h₁, hWhole, hBits₁, hValue₁⟩ := unpack_toFloat hD hSmall.1
    obtain ⟨p, r, hp, hPower, hBits₂, hValue₂⟩ := unpack_power E.natAbs hIndex
    rw [← hValue₁] at hNear
    dsimp only
    split
    · next hSign =>
      rw [ten_zpow_of_neg (of_decide_eq_true hSign), ← hValue₂, mul_one_div] at hNear
      show (Float.Model.pack (UnpackedFloat.div .binary64 D.toUInt64.toFloat.toModel.unpack
        (Float.exactlyRepresentablePowersOfTen[E.natAbs].toModel.unpack))).unpack = _
      rw [hWhole, hPower, div_of_near hForm hNear]
      exact unpack_pack hForm
    · next hSign =>
      have hSign : 0 ≤ E := Int.not_lt.mp fun h => hSign (decide_eq_true h)
      have hBits : 2 ^ 52 ≤ m₁ * p := Nat.le_trans hBits₁ (Nat.le_mul_of_pos_right _ hp)
      rw [ten_zpow_of_nonneg hSign, ← hValue₂] at hNear
      show (Float.Model.pack (UnpackedFloat.mul .binary64 D.toUInt64.toFloat.toModel.unpack
        (Float.exactlyRepresentablePowersOfTen[E.natAbs].toModel.unpack))).unpack = _
      rw [hWhole, hPower, mul_of_near hForm hNear hBits]
      exact unpack_pack hForm
  · have hExponent : (if decide (E < 0) = true then Int.negOfNat E.natAbs
        else Int.ofNat E.natAbs) = E := by
      by_cases hSign : E < 0
      · rw [if_pos (decide_eq_true hSign), Int.negOfNat_eq]
        show -(E.natAbs : Int) = E
        omega
      · rw [if_neg (by simpa using hSign)]
        show (E.natAbs : Int) = E
        omega
    show (Float.Model.pack (UnpackedFloat.ofScientific .binary64 D (if decide (E < 0) = true then
      Int.negOfNat E.natAbs else Int.ofNat E.natAbs))).unpack = _
    rw [hExponent, ofScientific_of_near hForm hNear hD hLow hHigh]
    exact unpack_pack hForm

/-! ## The nearest number -/

/-- What is near a number is within the range of numbers. -/
theorem bounds_of_near (hForm : Canonical m q) (hm : 0 < m) {x : ℚ} (h : Near m q x) :
    (2 : ℚ) ^ (-1075 : Int) ≤ x ∧ x < 2 ^ (1024 : Int) := by
  obtain ⟨hSmall, hLeast, hHigh, -⟩ := hForm
  have hGap := gap_le m q
  have hPos := two_zpow_pos q
  have hSmall : (m : ℚ) + 1 ≤ 2 ^ 53 := by exact_mod_cast hSmall
  have hOne : (1 : ℚ) ≤ m := by exact_mod_cast hm
  -- near the least number `x` is at least half of it, near the greatest it stays below the next
  -- power
  constructor
  · calc (2 : ℚ) ^ (-1075 : Int) ≤ 2 ^ (q - 1) := zpow_le_zpow_right₀ one_le_two (by omega)
      _ = 2⁻¹ * 2 ^ q := by rw [zpow_sub_one₀ two_ne_zero, mul_comm]
      _ ≤ (m - gap m q) * 2 ^ q := mul_le_mul_of_nonneg_right (by linarith) hPos.le
      _ ≤ x := h.low
  · calc x ≤ (m + 1 / 2) * 2 ^ q := h.high
      _ < 2 ^ 53 * 2 ^ q := mul_lt_mul_of_pos_right (by linarith) hPos
      _ = 2 ^ (q + (53 : Nat)) := (two_zpow_add q 53).symm
      _ ≤ 2 ^ (1024 : Int) := zpow_le_zpow_right₀ one_le_two (by omega)

/-- Above the range that is looked at, a decimal is too large for any number. -/
theorem large_of_leading : ∀ k < 100, 2 ^ 1024 ≤ 2 ^ k * 10 ^ (311 - k * 30103 / 100000) := by
  decide +kernel

/-- Below the range, it is too small. -/
theorem small_of_leading : ∀ k < 100, 2 ^ (k + 1) * 2 ^ 1075 ≤ 10 ^ (401 + k * 30103 / 100000) := by
  decide +kernel

/-- A decimal near a number is read as that number. -/
theorem unpack_nearest (hForm : Canonical m q) (hNear : Near m q (D * 10 ^ E)) (hD : 0 < D)
    (hDigits : D < 2 ^ 100) : (nearest D E).toModel.unpack = .finite .positive m q hm := by
  obtain ⟨hAboveTiny, hBelowHuge⟩ := bounds_of_near hForm hm hNear
  have hLog : D.log2 < 100 := (Nat.log2_lt (Nat.ne_of_gt hD)).mpr hDigits
  have hFrom : (2 : ℚ) ^ D.log2 ≤ D := by exact_mod_cast Nat.log2_self_le (Nat.ne_of_gt hD)
  have hTo : (D : ℚ) < 2 ^ (D.log2 + 1) := by exact_mod_cast Nat.lt_log2_self
  obtain ⟨c, hc⟩ : ∃ c, D.log2 * 30103 / 100000 = c := ⟨_, rfl⟩
  -- whatever is near a number is not so large, nor so small, as to be left out at once
  have hHigh : (c : Int) + E ≤ 310 := by
    by_contra hOver
    have hLarge := large_of_leading D.log2 hLog
    rw [hc] at hLarge
    have hTen : (10 : ℚ) ^ (311 - c) ≤ 10 ^ E := by
      rw [← zpow_natCast]
      exact zpow_le_zpow_right₀ (by norm_num) (by omega)
    refine absurd hBelowHuge (not_lt.mpr ?_)
    calc (2 : ℚ) ^ (1024 : Int) = (2 ^ 1024 : Nat) := by rw [Nat.cast_pow]; rfl
      _ ≤ (2 ^ D.log2 * 10 ^ (311 - c) : Nat) := Nat.cast_le.mpr hLarge
      _ = 2 ^ D.log2 * 10 ^ (311 - c) := by push_cast; rfl
      _ ≤ D * 10 ^ E := mul_le_mul hFrom hTen (by positivity) (Nat.cast_nonneg D)
  have hLow : -400 ≤ (c : Int) + E := by
    by_contra hUnder
    have hSmall := small_of_leading D.log2 hLog
    rw [hc] at hSmall
    have hTen : (10 : ℚ) ^ E ≤ 10 ^ (-((401 + c : Nat) : Int)) :=
      zpow_le_zpow_right₀ (by norm_num) (by omega)
    have hPower : (0 : ℚ) < 10 ^ (401 + c) := by positivity
    refine absurd hAboveTiny (not_le.mpr ?_)
    calc (D * 10 ^ E : ℚ) < 2 ^ (D.log2 + 1) * 10 ^ (-((401 + c : Nat) : Int)) :=
          mul_lt_mul hTo hTen (by positivity) (by positivity)
      _ = 2 ^ (D.log2 + 1) / 10 ^ (401 + c) := by rw [zpow_neg, zpow_natCast, div_eq_mul_inv]
      _ ≤ 2 ^ (-1075 : Int) := by
        rw [div_le_iff₀ hPower, show (-1075 : Int) = -(1075 : Nat) by rfl, zpow_neg, zpow_natCast,
          ← div_eq_inv_mul, le_div_iff₀ (by positivity)]
        exact_mod_cast hSmall
  have hLeading : (D.log2 : Int) * 30103 / 100000 + E = c + E := by
    rw [← hc]
    rfl
  unfold nearest
  dsimp only
  rw [if_neg (Nat.ne_of_gt hD), hLeading, if_neg (by omega), if_neg (by omega)]
  exact unpack_ofScientific hForm hNear hD (by omega) (by omega)

end FlowNest.Decimal
