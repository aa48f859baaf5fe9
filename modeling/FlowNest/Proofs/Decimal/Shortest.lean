import FlowNest.Decimal.Shortest
import FlowNest.Proofs.Decimal.Scaling

/-!
# FlowNest — the shortest decimal lies near

Everything on a grid is scaled by one factor, so a point of it that holds lies near the
number. The grids that are tried go from a step above the number down to one so fine that a
point must hold: one of them has a point, and that has no more digits than there are grids.

* `near_of_holds`    — a point that holds lies near the number;
* `exists_shortest`  — one of the grids has one;
* `near_shortest`    — the shortest decimal lies near the number.
-/

namespace FlowNest.Binary

open FlowNest.Decimal
open Float.Model
open Float.Model.UnpackedFloat (Sign)

/-- The binary number that a floating-point number is, sign apart. -/
def ofParts (m : Nat) (q : Int) : Binary :=
  ⟨m, q, m = 2 ^ 52 && -1074 < q⟩

/-- A finite number is taken apart into mantissa and exponent. -/
theorem ofFloat?_of_unpack {f : Float} {s : Sign} {m : Nat} {q : Int} {hm : 0 < m}
    (h : f.toModel.unpack = .finite s m q hm) : ofFloat? f = some (ofParts m q) := by
  obtain ⟨hSmall, hLow, hHigh, hNormal⟩ := canonical_of_unpack h
  have hBits : f.toBits.toNat = _ := toNat_of_unpack h
  have hSign : s.toBitVec.toNat < 2 := s.toBitVec.isLt
  unfold ofFloat? ofParts leastNormal
  rw [hBits]
  dsimp only
  rcases Nat.lt_or_ge m (2 ^ 52) with hFew | hAll
  -- a subnormal number has no exponent of its own
  · obtain rfl : q = -1074 := hNormal.resolve_left (Nat.not_le_of_lt hFew)
    rw [if_pos hFew]
    have hFraction : (s.toBitVec.toNat * 2 ^ 63 + m) % 0x10000000000000 = m := by omega
    have hBiased : (s.toBitVec.toNat * 2 ^ 63 + m) / 0x10000000000000 % 2048 = 0 := by omega
    rw [hFraction, hBiased, if_neg (by decide), if_pos rfl, if_neg (Nat.ne_of_gt hm)]
    simp
  · rw [if_neg (Nat.not_lt_of_ge hAll)]
    obtain ⟨B, hB⟩ : ∃ B, (q + 1075).toNat = B := ⟨_, rfl⟩
    have hFraction : (s.toBitVec.toNat * 2 ^ 63 + (B * 2 ^ 52 + (m - 2 ^ 52))) %
        0x10000000000000 = m - 2 ^ 52 := by omega
    have hBiased : (s.toBitVec.toNat * 2 ^ 63 + (B * 2 ^ 52 + (m - 2 ^ 52))) /
        0x10000000000000 % 2048 = B := by omega
    rw [hB, hFraction, hBiased, if_neg (by omega), if_neg (by omega), Option.some.injEq,
      Binary.mk.injEq]
    refine ⟨by omega, by omega, ?_⟩
    rw [Bool.eq_iff_iff]
    simp only [Bool.and_eq_true, decide_eq_true_eq]
    omega

/-- Zero has no digits to look for. -/
theorem ofFloat?_of_unpack_zero {f : Float} {s : Sign} (h : f.toModel.unpack = .zero s) :
    ofFloat? f = none := by
  have hBits : f.toBits.toNat = _ := toNat_of_unpack_zero h
  have hSign : s.toBitVec.toNat < 2 := s.toBitVec.isLt
  have hFraction : s.toBitVec.toNat * 2 ^ 63 % 0x10000000000000 = 0 := by omega
  have hBiased : s.toBitVec.toNat * 2 ^ 63 / 0x10000000000000 % 2048 = 0 := by omega
  unfold ofFloat? leastNormal
  rw [hBits]
  dsimp only
  rw [hFraction, hBiased, if_neg (by decide), if_pos rfl, if_pos rfl]

variable {m : Nat} {q e : Int} {k : Nat}

/-- The factor by which a grid is scaled. -/
def scale (q e : Int) : ℚ :=
  10 ^ (-e).toNat * 2 ^ (2 - q).toNat

/-- The scale of a grid is positive. -/
theorem scale_pos (q e : Int) : 0 < scale q e := by
  unfold scale
  positivity

/-- The step of a grid is its power of ten, to scale. -/
theorem step_onGrid (m : Nat) (q e : Int) :
    (((ofParts m q).onGrid e).step : ℚ) = 10 ^ e * scale q e := by
  unfold onGrid scale ofParts
  simp only [Nat.pow_eq]
  rw [zpow_eq_div (by norm_num) e]
  push_cast
  field_simp

/-- The quarter of a grid is that of the number's last place, to scale. -/
theorem quarter_onGrid (m : Nat) (q e : Int) :
    (((ofParts m q).onGrid e).quarter : ℚ) = 2 ^ q / 4 * scale q e := by
  have hQuarter : (2 : ℚ) ^ q / 4 = 2 ^ (q - 2).toNat / 2 ^ (2 - q).toNat := by
    have := zpow_eq_div (two_ne_zero (α := ℚ)) (q - 2)
    rw [Int.neg_sub, zpow_sub₀ two_ne_zero] at this
    exact_mod_cast this
  unfold onGrid scale ofParts
  simp only [Nat.pow_eq]
  rw [hQuarter]
  push_cast
  field_simp

/-- The value of the number is four quarters for each unit of its mantissa. -/
theorem value_onGrid (m : Nat) (q e : Int) :
    ((ofParts m q).onGrid e).value = 4 * m * ((ofParts m q).onGrid e).quarter := rfl

/-- A point of a grid that holds lies near the number. -/
theorem near_of_holds (h : (ofParts m q).holds ((ofParts m q).onGrid e) k = true) :
    Near m q (k * 10 ^ e) := by
  obtain ⟨w, hw⟩ : ∃ w : Nat, (if (ofParts m q).narrowBelow then 1 else 2) = w := ⟨_, rfl⟩
  have hGap : gap m q = w / 4 := by
    rw [← hw]
    unfold gap ofParts
    by_cases hNarrow : m = 2 ^ 52 ∧ -1074 < q
    · simp [hNarrow]
    · rw [if_neg hNarrow, if_neg (by simpa using hNarrow)]
      norm_num
  have hScale := scale_pos q e
  have hStep := step_onGrid m q e
  have hQuarter := quarter_onGrid m q e
  -- both sides of each comparison are scaled by the same factor
  have hLow : ((m : ℚ) - gap m q) * 2 ^ q * scale q e =
      4 * m * ((ofParts m q).onGrid e).quarter - w * ((ofParts m q).onGrid e).quarter := by
    rw [hGap, hQuarter]
    ring
  have hHigh : ((m : ℚ) + 1 / 2) * 2 ^ q * scale q e =
      4 * m * ((ofParts m q).onGrid e).quarter + 2 * ((ofParts m q).onGrid e).quarter := by
    rw [hQuarter]
    ring
  have hPoint : (k * 10 ^ e : ℚ) * scale q e = k * ((ofParts m q).onGrid e).step := by
    rw [hStep]
    ring
  unfold holds at h
  rw [hw, value_onGrid] at h
  generalize ((ofParts m q).onGrid e).quarter = Q at h hLow hHigh
  generalize ((ofParts m q).onGrid e).step = S at h hPoint
  dsimp only at h
  have hMantissa : (ofParts m q).mantissa = m := rfl
  rw [hMantissa] at h
  split at h
  · next hEven =>
    simp only [Bool.and_eq_true, decide_eq_true_eq] at h
    have hFrom : (4 * m * Q : ℚ) ≤ k * S + w * Q := by
      exact_mod_cast Nat.sub_le_iff_le_add.mp h.1
    have hTo : (k * S : ℚ) ≤ 4 * m * Q + 2 * Q := by exact_mod_cast h.2
    refine ⟨le_of_mul_le_mul_right ?_ hScale, le_of_mul_le_mul_right ?_ hScale, fun hOdd => ?_⟩
    · linarith
    · linarith
    · omega
  · simp only [Bool.and_eq_true, decide_eq_true_eq] at h
    have hFrom : (4 * m * Q : ℚ) < k * S + w * Q := by
      have : 4 * m * Q < k * S + w * Q := by omega
      exact_mod_cast this
    have hTo : (k * S : ℚ) < 4 * m * Q + 2 * Q := by exact_mod_cast h.2
    have hBetween : ((m : ℚ) - gap m q) * 2 ^ q < k * 10 ^ e ∧
        (k * 10 ^ e : ℚ) < (m + 1 / 2) * 2 ^ q :=
      ⟨lt_of_mul_lt_mul_right (by linarith) hScale.le,
        lt_of_mul_lt_mul_right (by linarith) hScale.le⟩
    exact ⟨hBetween.1.le, hBetween.2.le, fun _ => hBetween⟩

/-! ## The grids that are tried -/

variable {b : Binary} {tie : Decimal.Tie}

/-- What is hit on a grid lies around the number. -/
theorem holds_of_hit? (h : b.hit? tie e = some k) : b.holds (b.onGrid e) k = true := by
  unfold hit? at h
  dsimp only at h
  -- of two candidates the nearer one is taken, and each was tested before
  split at h
  · next hLower hUpper =>
    cases h
    exact hLower
  · next hLower hUpper =>
    cases h
    exact (Bool.and_eq_true_iff.mp hUpper).2
  · cases h
  · next hLower hUpper =>
    have hUpper := (Bool.and_eq_true_iff.mp hUpper).2
    split at h
    · cases h; exact hLower
    · split at h
      · cases h; exact hUpper
      · split at h
        · cases h; exact hUpper
        · cases h
          split
          · exact hLower
          · exact hUpper

/-- What lies strictly between the neighbouring bounds lies around the number. -/
theorem holds_of_between (hm : 0 < m)
    (hFrom : ((ofParts m q).onGrid e).value <
      k * ((ofParts m q).onGrid e).step + ((ofParts m q).onGrid e).quarter)
    (hTo : k * ((ofParts m q).onGrid e).step <
      ((ofParts m q).onGrid e).value + 2 * ((ofParts m q).onGrid e).quarter) :
    (ofParts m q).holds ((ofParts m q).onGrid e) k = true := by
  -- the value is far enough above zero for the differences of naturals to be differences
  have hReach : 2 * ((ofParts m q).onGrid e).quarter ≤ ((ofParts m q).onGrid e).value := by
    rw [value_onGrid]
    exact Nat.mul_le_mul_right _ (by omega)
  unfold holds
  generalize ((ofParts m q).onGrid e).quarter = Q at *
  generalize ((ofParts m q).onGrid e).value = V at *
  dsimp only
  split
  · split <;> simp only [Bool.and_eq_true, decide_eq_true_eq] <;> omega
  · split <;> simp only [Bool.and_eq_true, decide_eq_true_eq] <;> omega

/-- On a grid as fine as half a place of the number one of the points around it holds. -/
theorem exists_hit? (hm : 0 < m)
    (hFine : ((ofParts m q).onGrid e).step ≤ 2 * ((ofParts m q).onGrid e).quarter) :
    ∃ k, (ofParts m q).hit? tie e = some k := by
  have hStep : 0 < ((ofParts m q).onGrid e).step :=
    Nat.mul_pos (Nat.pow_pos (by decide)) (Nat.pow_pos (by decide))
  have hDivide := Nat.div_add_mod' ((ofParts m q).onGrid e).value ((ofParts m q).onGrid e).step
  have hExcess := Nat.mod_lt ((ofParts m q).onGrid e).value hStep
  unfold hit?
  dsimp only
  rcases Nat.eq_zero_or_pos (((ofParts m q).onGrid e).value % ((ofParts m q).onGrid e).step)
    with hNone | hSome
  -- the number is a point of the grid itself
  · have hHolds := holds_of_between (q := q) (e := e) hm
      (k := ((ofParts m q).onGrid e).value / ((ofParts m q).onGrid e).step) (by omega) (by omega)
    rw [hHolds, hNone]
    exact ⟨_, rfl⟩
  · have hHolds := holds_of_between (q := q) (e := e) hm
      (k := ((ofParts m q).onGrid e).value / ((ofParts m q).onGrid e).step + 1)
      (by rw [Nat.succ_mul]; omega) (by rw [Nat.succ_mul]; omega)
    rw [hHolds, bne_iff_ne.mpr (Nat.ne_of_gt hSome), Bool.and_self]
    cases (ofParts m q).holds ((ofParts m q).onGrid e) _ with
    | false => exact ⟨_, rfl⟩
    | true =>
      dsimp only
      split
      · exact ⟨_, rfl⟩
      · split
        · exact ⟨_, rfl⟩
        · cases tie <;> exact ⟨_, rfl⟩

/-- On a grid that is fine enough, a step is half of the last place at most. -/
theorem step_le_of_zpow_le (h : (10 : ℚ) ^ e ≤ 2 ^ q / 2) :
    ((ofParts m q).onGrid e).step ≤ 2 * ((ofParts m q).onGrid e).quarter := by
  have hScaled := mul_le_mul_of_nonneg_right h (scale_pos q e).le
  rw [← step_onGrid m q e] at hScaled
  have hQuarter := quarter_onGrid m q e
  have hStep : (((ofParts m q).onGrid e).step : ℚ) ≤
      (2 * ((ofParts m q).onGrid e).quarter : Nat) := by
    push_cast
    linarith
  exact_mod_cast hStep

/-- For a number with its leading place at `t`: the coarsest grid lies above it, and the
finest one is finer than half a place. -/
def spans (t : Int) : Bool :=
  let top := t * 30103 / 100000 + 2
  2 ^ t.toNat * 10 ^ (-top).toNat ≤ 10 ^ top.toNat * 2 ^ (-t).toNat &&
    10 ^ (top - 23).toNat * 2 ^ (54 - t).toNat ≤ 2 ^ (t - 54).toNat * 10 ^ (23 - top).toNat

/-- The grids reach so far for every place that a double may lead with. -/
theorem spans_all : ∀ i ∈ List.range 2100, spans (i - 1074) = true := by
  decide +kernel

/-- What spanning means, in numbers. -/
theorem bounds_of_spans {t : Int} (hLow : -1074 ≤ t) (hHigh : t ≤ 1024) :
    (2 : ℚ) ^ t ≤ 10 ^ (t * 30103 / 100000 + 2) ∧
      (10 : ℚ) ^ (t * 30103 / 100000 + 2 - 23) ≤ 2 ^ (t - 54) := by
  -- the bounds were checked for every exponent there is, with the negative powers moved across
  have hSpans := spans_all (t + 1074).toNat (List.mem_range.mpr (by omega))
  have hPlace : (((t + 1074).toNat : Nat) : Int) - 1074 = t := by omega
  rw [hPlace] at hSpans
  unfold spans at hSpans
  generalize t * 30103 / 100000 + 2 = top at *
  simp only [Bool.and_eq_true, decide_eq_true_eq] at hSpans
  obtain ⟨hTop, hFine⟩ := hSpans
  constructor
  · rw [zpow_eq_div two_ne_zero t, zpow_eq_div (by norm_num) top,
      div_le_div_iff₀ (by positivity) (by positivity)]
    exact_mod_cast hTop
  · rw [zpow_eq_div two_ne_zero (t - 54), zpow_eq_div (by norm_num) (top - 23),
      div_le_div_iff₀ (by positivity) (by positivity), Int.neg_sub, Int.neg_sub]
    exact_mod_cast hFine

/-- The number is below the step of its coarsest grid. -/
theorem lt_topExponent (hForm : Canonical m q) (hm : 0 < m) :
    (m : ℚ) * 2 ^ q < 10 ^ (ofParts m q).topExponent := by
  obtain ⟨hSmall, hLeast, hHigh, -⟩ := hForm
  have hLog : m.log2 < 53 := (Nat.log2_lt (Nat.ne_of_gt hm)).mpr hSmall
  have hBits : (m : ℚ) < 2 ^ (m.log2 + 1) := by exact_mod_cast Nat.lt_log2_self
  obtain ⟨hTop, -⟩ := bounds_of_spans (t := (m.log2 : Int) + 1 + q) (by omega) (by omega)
  refine lt_of_lt_of_le ?_ hTop
  rw [show (m.log2 : Int) + 1 + q = q + (m.log2 + 1 : Nat) by push_cast; ring, two_zpow_add]
  exact mul_lt_mul_of_pos_right hBits (two_zpow_pos q)

/-- On the finest grid that is tried there is a point. -/
theorem exists_hit?_finest (hForm : Canonical m q) (hm : 0 < m) :
    ∃ k, (ofParts m q).hit? tie ((ofParts m q).topExponent - 23) = some k := by
  obtain ⟨hSmall, hLeast, hHigh, -⟩ := hForm
  have hLog : m.log2 < 53 := (Nat.log2_lt (Nat.ne_of_gt hm)).mpr hSmall
  obtain ⟨-, hFine⟩ := bounds_of_spans (t := (m.log2 : Int) + 1 + q) (by omega) (by omega)
  refine exists_hit? hm (step_le_of_zpow_le (le_trans hFine ?_))
  rw [div_eq_mul_inv, ← zpow_sub_one₀ two_ne_zero]
  exact zpow_le_zpow_right₀ one_le_two (by omega)

/-- The shortest decimal is a point of one of the grids. -/
theorem exists_shortest (hForm : Canonical m q) (hm : 0 < m) :
    ∃ i < 24, ∃ k, (ofParts m q).hit? tie ((ofParts m q).topExponent - (i : Nat)) = some k ∧
      (ofParts m q).shortest tie = ⟨k, (ofParts m q).topExponent - (i : Nat)⟩ := by
  obtain ⟨finest, hFinest⟩ := exists_hit?_finest hForm hm
  obtain ⟨d, hd⟩ : ∃ d, (List.range 24).findSome? (fun (i : Nat) =>
      let e := (ofParts m q).topExponent - i
      ((ofParts m q).hit? tie e).map fun k => (⟨k, e⟩ : Decimal)) = some d := by
    refine Option.isSome_iff_exists.mp (List.findSome?_isSome_iff.mpr ⟨23, by decide, ?_⟩)
    show (((ofParts m q).hit? tie ((ofParts m q).topExponent - 23)).map _).isSome = true
    rw [hFinest]
    rfl
  -- what is found first is a point of its own grid, whichever that is
  obtain ⟨i, hi, hFound⟩ := List.exists_of_findSome?_eq_some hd
  obtain ⟨k, hHit, rfl⟩ := Option.map_eq_some_iff.mp hFound
  exact ⟨i, List.mem_range.mp hi, k, hHit, congrArg (·.getD ⟨0, 0⟩) hd⟩

/-- What lies near a positive number is positive. -/
theorem pos_of_near (hm : 0 < m) (h : Near m q (k * 10 ^ e)) : 0 < k := by
  refine Nat.pos_of_ne_zero fun hNone => ?_
  have hGap := gap_le m q
  have hOne : (1 : ℚ) ≤ m := by exact_mod_cast hm
  have hLow := h.low
  rw [hNone, Nat.cast_zero, zero_mul] at hLow
  have hAbove : 0 < ((m : ℚ) - gap m q) * 2 ^ q := mul_pos (by linarith) (two_zpow_pos q)
  linarith

/-- As many steps below the coarsest grid, a point near the number has as many digits. -/
theorem lt_of_near {i : Nat} (hForm : Canonical m q) (hm : 0 < m)
    (h : Near m q (k * 10 ^ ((ofParts m q).topExponent - i))) : k < 2 * 10 ^ i := by
  have hBelow := lt_topExponent hForm hm
  have hOne : (1 : ℚ) ≤ m := by exact_mod_cast hm
  have hTen : (0 : ℚ) < 10 ^ ((ofParts m q).topExponent - i) := zpow_pos (by norm_num) _
  -- `i` places below the top there is room for `i` digits
  have hSteps : (10 : ℚ) ^ (ofParts m q).topExponent =
      10 ^ i * 10 ^ ((ofParts m q).topExponent - i) := by
    rw [← zpow_natCast, ← zpow_add₀ (by norm_num)]
    congr 1
    omega
  have hTwice : ((m : ℚ) + 1 / 2) * 2 ^ q ≤ 2 * (m * 2 ^ q) := by
    rw [← mul_assoc]
    exact mul_le_mul_of_nonneg_right (by linarith) (two_zpow_pos q).le
  have hDigits : (k : ℚ) < 2 * 10 ^ i := by
    refine lt_of_mul_lt_mul_right (lt_of_le_of_lt h.high ?_) hTen.le
    rw [mul_assoc, ← hSteps]
    linarith
  exact_mod_cast hDigits

/-- The shortest decimal lies near the number, and has no more digits than there are grids. -/
theorem near_shortest {m : Nat} {q : Int} (hForm : Canonical m q) (hm : 0 < m) :
    ∃ (k : Nat) (e : Int), (ofParts m q).shortest tie = ⟨k, e⟩ ∧ Near m q (k * 10 ^ e) ∧ 0 < k ∧
      k < 10 ^ 24 := by
  obtain ⟨i, hi, k, hHit, hShortest⟩ := exists_shortest hForm hm
  have hNear := near_of_holds (holds_of_hit? hHit)
  refine ⟨k, _, hShortest, hNear, pos_of_near hm hNear, ?_⟩
  calc k < 2 * 10 ^ i := lt_of_near hForm hm hNear
    _ ≤ 2 * 10 ^ 23 := Nat.mul_le_mul_left _ (Nat.pow_le_pow_right (by decide) (by omega))
    _ < 10 ^ 24 := by norm_num

end FlowNest.Binary
