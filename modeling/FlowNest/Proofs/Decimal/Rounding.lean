import FlowNest.Proofs.Decimal.Packing

/-!
# FlowNest — rounding to the nearest number

A number that is not in canonical form, or lies between two that are, is rounded by shifting
its mantissa; two bits keep what falls off. They say enough about it to find the nearest
mantissa in the end. So whatever lies near a canonical number, within half of the gaps around
it, is rounded to just that number.

* `Describes`        — the number that a mantissa and its two bits stand for;
* `Near`             — lying within half of the gaps around a number;
* `round_of_near`    — what lies near a number is rounded to it.
-/

namespace FlowNest.Decimal

open Float.Model
open Float.Model.UnpackedFloat

/-! ## Mantissas with residual bits -/

/-- The part of a last place that the two bits stand for. -/
def Residue (roundBit stickyBit : Bool) (δ : ℚ) : Prop :=
  match roundBit, stickyBit with
  | false, false => δ = 0
  | false, true => 0 < δ ∧ δ < 1 / 2
  | true, false => δ = 1 / 2
  | true, true => 1 / 2 < δ ∧ δ < 1

/-- The mantissa is `t` rounded down, and its bits tell the rest. -/
def Describes (em : ExtendedMantissa) (t : ℚ) : Prop :=
  Residue em.roundBit em.stickyBit (t - em.mantissa)

variable {em : ExtendedMantissa} {t : ℚ}

/-- A mantissa with residual bits describes a number up to the next mantissa. -/
theorem Describes.bounds (h : Describes em t) : (em.mantissa : ℚ) ≤ t ∧ t < em.mantissa + 1 := by
  obtain ⟨m, r, s⟩ := em
  unfold Describes at h
  cases r <;> cases s <;> simp only [Residue] at h ⊢ <;> constructor <;> linarith

/-- Shifted by one place, the mantissa describes half of the number: the bit that falls out is
kept as a residual. -/
theorem describes_shiftRightOne (h : Describes em t) : Describes em.shiftRightOne (t / 2) := by
  obtain ⟨m, r, s⟩ := em
  unfold Describes ExtendedMantissa.shiftRightOne at *
  dsimp only at h ⊢
  -- the last bit of the mantissa becomes the round bit
  have hSplit : (m : ℚ) = 2 * (m / 2 : Nat) + (m % 2 : Nat) := by
    exact_mod_cast (Nat.div_add_mod m 2).symm
  rcases Nat.mod_two_eq_zero_or_one m with hBit | hBit
  · rw [hBit] at hSplit ⊢
    cases r <;> cases s <;> simp [Residue] at h hSplit ⊢ <;> (try constructor) <;> linarith
  · rw [hBit] at hSplit ⊢
    cases r <;> cases s <;> simp [Residue] at h hSplit ⊢ <;> (try constructor) <;> linarith

/-- Shifted by some places, the mantissa describes the number over that power of two. -/
theorem describes_shiftRight (h : Describes em t) (n : Nat) : Describes (em >>> n) (t / 2 ^ n) := by
  show Describes (n.repeat ExtendedMantissa.shiftRightOne em) (t / 2 ^ n)
  induction n with
  | zero => simpa [Nat.repeat] using h
  | succ n ih =>
    have hNext := describes_shiftRightOne ih
    rw [div_div, ← pow_succ] at hNext
    exact hNext

/-- Within half a place of `k`; the ends count for an even `k` only. -/
structure Rounds (k : Nat) (t : ℚ) : Prop where
  low : (k : ℚ) - 1 / 2 ≤ t
  high : t ≤ k + 1 / 2
  strict : k % 2 = 1 → (k : ℚ) - 1 / 2 < t ∧ t < k + 1 / 2

/-- The mantissa is rounded to where the number rounds, as ties can be told by the residual bits.
-/
theorem roundedMantissa_of_rounds {k : Nat} (h : Describes em t) (hk : Rounds k t) :
    em.roundedMantissa = k := by
  obtain ⟨m, r, s⟩ := em
  obtain ⟨hLow, hHigh, hStrict⟩ := hk
  unfold Describes at h
  unfold ExtendedMantissa.roundedMantissa ExtendedMantissa.accuracy Accuracy.roundToNearestEven
  have hAtMost (n : Nat) (h : (k : ℚ) < n + 1) : k ≤ n := by
    have : k < n + 1 := by exact_mod_cast h
    omega
  have hAtLeast (n : Nat) (h : (n : ℚ) < k + 1) : n ≤ k := by
    have : n < k + 1 := by exact_mod_cast h
    omega
  cases r with
  | false =>
    have hBelow : (m : ℚ) ≤ t ∧ t < m + 1 / 2 := by
      cases s <;> simp only [Residue] at h <;> constructor <;> linarith
    have hEq : m = k :=
      Nat.le_antisymm (hAtLeast m (by linarith)) (hAtMost m (by linarith))
    cases s <;> exact hEq
  | true =>
    cases s with
    | false =>
      have hHalf : t = m + 1 / 2 := by
        simp only [Residue] at h
        linarith
      have hFrom := hAtLeast m (by linarith)
      have hTo := hAtMost (m + 1) (by push_cast; linarith)
      show m + m % 2 = k
      -- of the two mantissas around a half the even one is taken
      rcases Nat.lt_or_ge m k with hUp | hDown
      · obtain rfl : k = m + 1 := by omega
        have hEven : ¬(m + 1) % 2 = 1 := fun hOdd => by
          have := (hStrict hOdd).1
          push_cast at this
          linarith
        omega
      · obtain rfl : k = m := by omega
        have hEven : ¬k % 2 = 1 := fun hOdd => by
          have := (hStrict hOdd).2
          linarith
        omega
    | true =>
      simp only [Residue] at h
      have hFrom := hAtLeast (m + 1) (by push_cast; linarith)
      have hTo := hAtMost (m + 1) (by push_cast; linarith)
      show m + 1 = k
      omega

/-! ## The neighbourhood of a number -/

/-- How far a number reaches down, in its last places: just above a power of two the numbers
below lie twice as close. -/
def gap (m : Nat) (q : Int) : ℚ :=
  if m = 2 ^ 52 ∧ -1074 < q then 1 / 4 else 1 / 2

/-- Within half of the gaps around the number `m · 2 ^ q`; the ends count for an even
mantissa only. -/
structure Near (m : Nat) (q : Int) (x : ℚ) : Prop where
  low : (m - gap m q) * 2 ^ q ≤ x
  high : x ≤ (m + 1 / 2) * 2 ^ q
  strict : m % 2 = 1 → (m - gap m q) * 2 ^ q < x ∧ x < (m + 1 / 2) * 2 ^ q

variable {m : Nat} {q : Int} {x : ℚ} {E : Int}

/-- A number reaches down by half of its last place at most. -/
theorem gap_le (m : Nat) (q : Int) : gap m q ≤ 1 / 2 := by
  unfold gap
  split <;> norm_num

/-- A number reaches down some way. -/
theorem gap_pos (m : Nat) (q : Int) : 0 < gap m q := by
  unfold gap
  split <;> norm_num

theorem two_zpow_pos (q : Int) : (0 : ℚ) < 2 ^ q :=
  zpow_pos two_pos q

/-- In places of its own exponent, what is near the number rounds to the mantissa. -/
theorem rounds_of_near (h : Near m q x) : Rounds m (x / 2 ^ q) := by
  -- the gap below is never wider than half a step, so near is near enough to round
  have hGap := gap_le m q
  have hPos := two_zpow_pos q
  refine ⟨?_, ?_, fun hOdd => ⟨?_, ?_⟩⟩
  · rw [le_div_iff₀ hPos]
    exact le_trans (mul_le_mul_of_nonneg_right (by linarith) hPos.le) h.low
  · rw [div_le_iff₀ hPos]
    exact h.high
  · rw [lt_div_iff₀ hPos]
    exact lt_of_le_of_lt (mul_le_mul_of_nonneg_right (by linarith) hPos.le) (h.strict hOdd).1
  · rw [div_lt_iff₀ hPos]
    exact (h.strict hOdd).2

theorem two_zpow_add (q : Int) (n : Nat) : (2 : ℚ) ^ (q + n) = 2 ^ n * 2 ^ q := by
  rw [zpow_add₀ two_ne_zero, zpow_natCast, mul_comm]

theorem lt_of_two_zpow_lt {a b : Int} (h : (2 : ℚ) ^ a < 2 ^ b) : a < b :=
  (zpow_lt_zpow_iff_right₀ one_lt_two).mp h

/-- The exponent that a number near `m · 2 ^ q` is rounded with: it is `q`, or the one below
when the number lies below a power of two. -/
theorem exponent_of_near (hForm : Canonical m q) (h : Near m q x) (hLow : -1074 ≤ E)
    (hAbove : x < 2 ^ (E + 53)) (hBelow : E = -1074 ∨ (2 : ℚ) ^ (E + 52) ≤ x) :
    E = q ∨ E = q - 1 ∧ m = 2 ^ 52 ∧ -1074 < q ∧ x < 2 ^ (q + 52) := by
  obtain ⟨hSmall, hLeast, -, hNormal⟩ := hForm
  have hPos := two_zpow_pos q
  have hSmall : (m : ℚ) + 1 ≤ 2 ^ 53 := by exact_mod_cast hSmall
  have hUp : x < 2 ^ (q + 53) := by
    refine lt_of_le_of_lt h.high ?_
    rw [show q + 53 = q + (53 : Nat) from rfl, two_zpow_add]
    exact mul_lt_mul_of_pos_right (by linarith) hPos
  have hAtMost : E ≤ q := by
    rcases hBelow with rfl | hBelow
    · exact hLeast
    · have := lt_of_two_zpow_lt (lt_of_le_of_lt hBelow hUp)
      omega
  rcases Int.lt_or_eq_of_le hLeast with hAboveLeast | rfl
  swap
  · exact .inl (by omega)
  have hBits : 2 ^ 52 ≤ m := hNormal.resolve_right (by omega)
  rcases le_or_gt ((2 : ℚ) ^ (q + 52)) x with hIn | hUnder
  · have := lt_of_two_zpow_lt (lt_of_le_of_lt hIn hAbove)
    exact .inl (by omega)
  -- below the power of two only the least mantissa reaches
  · rw [show q + 52 = q + (52 : Nat) from rfl, two_zpow_add] at hUnder
    have hGap := gap_le m q
    have hLeastBits : m = 2 ^ 52 := by
      have hReach := lt_of_mul_lt_mul_right (lt_of_le_of_lt h.low hUnder) hPos.le
      have : (m : ℚ) < (2 ^ 52 + 1 : Nat) := by
        push_cast
        linarith
      have : m < 2 ^ 52 + 1 := by exact_mod_cast this
      omega
    have hFrom : (2 : ℚ) ^ (q + (51 : Nat)) ≤ x := by
      rw [two_zpow_add]
      refine le_trans (mul_le_mul_of_nonneg_right ?_ hPos.le) h.low
      rw [hLeastBits] at hGap ⊢
      push_cast
      linarith
    have hAtLeast := lt_of_two_zpow_lt (lt_of_le_of_lt hFrom hAbove)
    rcases hBelow with rfl | hBelow
    · exact .inr ⟨by omega, hLeastBits, hAboveLeast, two_zpow_add q 52 ▸ hUnder⟩
    · have := lt_of_two_zpow_lt (lt_of_le_of_lt hBelow (two_zpow_add q 52 ▸ hUnder))
      exact .inr ⟨by omega, hLeastBits, hAboveLeast, two_zpow_add q 52 ▸ hUnder⟩

/-- Just below a power of two, in places of half the size, what is near rounds up to it. -/
theorem rounds_of_near_below (h : Near (2 ^ 52) q x) (hq : -1074 < q) (hUnder : x < 2 ^ (q + 52)) :
    Rounds (2 ^ 53) (x / 2 ^ (q - 1)) := by
  have hPos := two_zpow_pos (q - 1)
  -- just under a power of two the steps are half as wide, and `m` counts as twice as many of them
  have hTwice : (2 : ℚ) ^ q = 2 * 2 ^ (q - 1) := by
    rw [← zpow_one_add₀ two_ne_zero]
    congr 1
    omega
  have hLow := h.low
  rw [gap, if_pos ⟨rfl, hq⟩, hTwice] at hLow
  rw [show q + 52 = q + (52 : Nat) from rfl, two_zpow_add, hTwice] at hUnder
  refine ⟨?_, ?_, fun hOdd => absurd hOdd (by norm_num)⟩
  · rw [le_div_iff₀ hPos]
    push_cast at hLow ⊢
    linarith
  · rw [div_le_iff₀ hPos]
    push_cast at hUnder ⊢
    linarith

/-! ## Rounding -/

/-- A double has 53 bits, unless it is too small for that. -/
theorem targetExponent_binary64 (e : Int) :
    Format.binary64.targetExponent e = max (e - 53) (-1074) := rfl

/-- A mantissa is shifted to the exponent that doubles of its size have. -/
theorem shiftToTargetExponent_eq {m : Nat} {e : Int} {acc : Accuracy}
    (hE : max ((m.log2 : Int) + 1 + e - 53) (-1074) = E) (h : e ≤ E) :
    shiftToTargetExponent .binary64 m e acc =
      (ExtendedMantissa.ofMantissaAndAccuracy m acc >>> (E - e).toNat, E) := by
  unfold shiftToTargetExponent shiftToExponent totalExponent
  rw [targetExponent_binary64, hE]
  refine Prod.ext rfl ?_
  show e + ((E - e).toNat : Int) = E
  omega

/-- A canonical number has the exponent that it would be rounded with. -/
theorem max_exponent_of_canonical {m : Nat} {q : Int} (h : Canonical m q) (hm : 0 < m) :
    max ((m.log2 : Int) + 1 + q - 53) (-1074) = q := by
  obtain ⟨hSmall, hLow, -, hNormal⟩ := h
  have hAbove := (Nat.log2_lt (Nat.ne_of_gt hm)).mpr hSmall
  rcases hNormal with hBits | rfl
  · have hBelow := (Nat.le_log2 (Nat.ne_of_gt hm)).mpr hBits
    omega
  · omega

variable {s : Sign} {hm : 0 < m} {m₀ : Nat} {e₀ : Int} {acc : Accuracy}

/-- What has the mantissa rounded down lies between two powers next to its exponent. -/
theorem bounds_of_exponent (hE : max ((m₀.log2 : Int) + 1 + e₀ - 53) (-1074) = E)
    (hFrom : (m₀ : ℚ) * 2 ^ e₀ ≤ x) (hTo : x < (m₀ + 1) * 2 ^ e₀)
    (hEnough : 2 ^ 52 ≤ m₀ ∨ e₀ ≤ -1074) :
    x < 2 ^ (E + 53) ∧ (E = -1074 ∨ (2 : ℚ) ^ (E + 52) ≤ x) := by
  have hPos := two_zpow_pos e₀
  -- the exponent leaves 53 bits for the mantissa, or is the least one there is
  constructor
  · have hLog : (m₀ : ℚ) + 1 ≤ 2 ^ (m₀.log2 + 1) := by exact_mod_cast Nat.lt_log2_self
    refine lt_of_lt_of_le hTo (le_trans (mul_le_mul_of_nonneg_right hLog hPos.le) ?_)
    rw [← two_zpow_add]
    exact zpow_le_zpow_right₀ one_le_two (by push_cast; omega)
  · rcases Nat.eq_zero_or_pos m₀ with rfl | hMantissaPos
    · have : Nat.log2 0 = 0 := by decide
      omega
    · refine or_iff_not_imp_left.mpr fun hNotLeast => le_trans ?_ hFrom
      have hLog : (2 : ℚ) ^ m₀.log2 ≤ m₀ := by
        exact_mod_cast Nat.log2_self_le (Nat.ne_of_gt hMantissaPos)
      have hSum : E + 52 = e₀ + (m₀.log2 : Nat) := by omega
      rw [hSum, two_zpow_add]
      exact mul_le_mul_of_nonneg_right hLog hPos.le

/-- What lies near a number is rounded to it, if the mantissa to be rounded has bits enough. -/
theorem round_of_near (hForm : Canonical m q) (hNear : Near m q x)
    (hDescribes : Describes (.ofMantissaAndAccuracy m₀ acc) (x / 2 ^ e₀))
    (hEnough : 2 ^ 52 ≤ m₀ ∨ e₀ ≤ -1074) :
    roundWithAccuracy .binary64 s m₀ e₀ acc = .finite s m q hm := by
  have hMantissa : (ExtendedMantissa.ofMantissaAndAccuracy m₀ acc).mantissa = m₀ := by
    unfold ExtendedMantissa.ofMantissaAndAccuracy
    split <;> rfl
  obtain ⟨hFrom, hTo⟩ := hDescribes.bounds
  rw [hMantissa] at hFrom hTo
  have hPos := two_zpow_pos e₀
  rw [le_div_iff₀ hPos] at hFrom
  rw [div_lt_iff₀ hPos] at hTo
  obtain ⟨E, hE⟩ : ∃ E, max ((m₀.log2 : Int) + 1 + e₀ - 53) (-1074) = E := ⟨_, rfl⟩
  have hSteps : e₀ ≤ E := by
    rcases hEnough with hBits | hTiny
    · have := (Nat.le_log2 (Nat.ne_of_gt (Nat.lt_of_lt_of_le (by decide) hBits))).mpr hBits
      omega
    · omega
  obtain ⟨hAbove, hBelow⟩ := bounds_of_exponent hE hFrom hTo hEnough
  have hShifted : Describes (ExtendedMantissa.ofMantissaAndAccuracy m₀ acc >>> (E - e₀).toNat)
      (x / 2 ^ E) := by
    have hSum : E = e₀ + ((E - e₀).toNat : Int) := by omega
    have hPlaces : x / 2 ^ e₀ / 2 ^ (E - e₀).toNat = x / 2 ^ E := by
      conv_rhs => rw [hSum, two_zpow_add, mul_comm]
      exact div_div _ _ _
    exact hPlaces ▸ describes_shiftRight hDescribes (E - e₀).toNat
  unfold roundWithAccuracy
  rw [shiftToTargetExponent_eq hE hSteps]
  dsimp only
  -- from just below a power of two the mantissa rounds up to it, and is shifted once more
  rcases exponent_of_near hForm hNear (by omega) hAbove hBelow with rfl | ⟨rfl, rfl, hq, hUnder⟩
  · rw [roundedMantissa_of_rounds hShifted (rounds_of_near hNear),
      shiftToTargetExponent_eq (max_exponent_of_canonical hForm hm) (Int.le_refl _), Int.sub_self]
    exact dif_neg (Nat.ne_of_gt hm)
  · rw [roundedMantissa_of_rounds hShifted (rounds_of_near_below hNear hq hUnder),
      shiftToTargetExponent_eq (E := q) (by rw [Nat.log2_two_pow]; omega) (by omega),
      show q - (q - 1) = 1 by omega]
    rfl

end FlowNest.Decimal
