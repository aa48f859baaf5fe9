import Mathlib

/-!
# FlowNest — floating-point numbers and their parts

A finite floating-point number has one canonical form, a sign, a mantissa and an exponent:
either the mantissa has all its 53 bits, or the exponent is the least one. Packing such a
form and taking it apart again gives it back, and there is one number only of each form.

* `Canonical`    — the forms that numbers have;
* `unpack_pack`  — a form that is packed is the form of the number;
* `eq_of_unpack` — numbers of one form are the same;
* `unpack_neg`   — the negative of a number has its form, but for the sign.
-/

namespace FlowNest.Decimal

open Float.Model
open Float.Model.UnpackedFloat

/-- The number `m · 2 ^ q` in the form a floating-point number has. -/
structure Canonical (m : Nat) (q : Int) : Prop where
  small : m < 2 ^ 53
  low : -1074 ≤ q
  high : q ≤ 971
  normal : 2 ^ 52 ≤ m ∨ q = -1074

variable {s : Sign} {m : Nat} {q : Int} {hm : 0 < m}

/-! ## Bits -/

/-- The mantissa is in the low 52 bits. -/
theorem toNat_unpackMantissa (b : BitVec 64) :
    (@unpackMantissa .binary64 b).toNat = b.toNat % 2 ^ 52 := by
  simp [unpackMantissa]

/-- The exponent is in the eleven bits above. -/
theorem toNat_unpackExponent (b : BitVec 64) :
    (@unpackExponent .binary64 b).toNat = b.toNat / 2 ^ 52 % 2 ^ 11 := by
  simp [unpackExponent, Nat.shiftRight_eq_div_pow]

/-- The sign is the bit on top. -/
theorem toNat_unpackSign (b : BitVec 64) :
    (@unpackSign .binary64 b).toNat = b.toNat / 2 ^ 63 := by
  have hBits : b.toNat < 2 ^ 64 := b.isLt
  simp [unpackSign, Nat.shiftRight_eq_div_pow]
  omega

/-- The bit that is not stored stands above the others. -/
theorem toNat_withImplicit (f : BitVec 52) : (1#1 ++ f).toNat = 2 ^ 52 + f.toNat := by
  rw [BitVec.toNat_append, ← Nat.shiftLeft_add_eq_or_of_lt f.isLt]
  simp [Nat.shiftLeft_eq]

/-! ## Parts -/

theorem exponentBias_binary64 : Format.binary64.exponentBias = 1023 := rfl

/-- The exponent of a number that is no infinity. -/
theorem lt_of_ne_highest {e : BitVec 11} (h : e ≠ -1#11) : e.toNat < 2047 := by
  have hBits := e.isLt
  have hHighest : e.toNat ≠ 2047 := fun h' => h (BitVec.eq_of_toNat_eq h')
  omega

theorem pos_of_ne_zero {w : Nat} {b : BitVec w} (h : b ≠ 0#w) : 0 < b.toNat :=
  Nat.pos_of_ne_zero fun h' => h (BitVec.eq_of_toNat_eq (by simpa using h'))

/-- The parts of a number are canonical. -/
theorem canonical_of_unpack {f : Float.Model} (h : f.unpack = .finite s m q hm) :
    Canonical m q := by
  obtain ⟨bits, hValid⟩ := f
  change unpack .binary64 bits.toBitVec = _ at h
  unfold UnpackedFloat.unpack at h
  dsimp only at h
  rw [exponentBias_binary64] at h
  have hMantissa : (@unpackMantissa .binary64 bits.toBitVec).toNat < 2 ^ 52 := BitVec.isLt _
  split at h
  · split at h <;> cases h
  · next hNotHighest =>
    have hHigh := lt_of_ne_highest hNotHighest
    split at h
    · next hZero =>
      split at h
      · cases h
      · -- without the implicit bit, the exponent is the least one
        cases h
        rw [hZero]
        refine ⟨by omega, ?_, ?_, .inr ?_⟩ <;> decide
    · next hNotZero =>
      have hLow := pos_of_ne_zero hNotZero
      cases h
      rw [toNat_withImplicit]
      refine ⟨by omega, ?_, ?_, .inl (Nat.le_add_right _ _)⟩
      · simp; omega
      · simp; omega

/-- Packing a canonical form keeps it. -/
theorem unpack_pack (h : Canonical m q) :
    (Float.Model.pack (.finite s m q hm)).unpack = .finite s m q hm := by
  obtain ⟨hSmall, hLow, hHigh, hNormal⟩ := h
  have hBiased : ¬2 ^ 11 ≤ (q + (1023 : Nat) + (52 : Nat)).toNat + 1 := by omega
  show unpack .binary64 (UnpackedFloat.pack .binary64 (.finite s m q hm)) = _
  unfold UnpackedFloat.pack
  dsimp only
  rw [exponentBias_binary64, if_neg hBiased]
  split
  · next hLog =>
    -- the mantissa loses its first bit, and gets it back
    have hBits : 2 ^ 52 ≤ m :=
      (Nat.le_log2 (Nat.ne_of_gt hm)).mp (Nat.le_of_eq (Nat.succ.inj hLog).symm)
    have hExponent : (BitVec.ofNat 11 (q + (1023 : Nat) + (52 : Nat)).toNat).toNat =
        (q + (1023 : Nat) + (52 : Nat)).toNat := by
      rw [BitVec.toNat_ofNat, Nat.mod_eq_of_lt (by omega)]
    have hHighest : BitVec.ofNat 11 (q + (1023 : Nat) + (52 : Nat)).toNat ≠ -1#11 := by
      intro h
      have hBits := hExponent.symm.trans (congrArg BitVec.toNat h)
      simp at hBits
      omega
    have hZero : BitVec.ofNat 11 (q + (1023 : Nat) + (52 : Nat)).toNat ≠ 0#11 := by
      intro h
      have hBits := hExponent.symm.trans (congrArg BitVec.toNat h)
      simp at hBits
      omega
    have hMantissa : (1#1 ++ BitVec.ofNat 52 m).toNat = m := by
      rw [toNat_withImplicit, BitVec.toNat_ofNat]
      omega
    unfold UnpackedFloat.unpack
    simp only [unpackMantissa_packComponents, unpackExponent_packComponents]
    rw [if_neg hHighest, if_neg hZero, UnpackedFloat.finite.injEq]
    refine ⟨?_, hMantissa, ?_⟩
    · rw [unpackSign_packComponents, Sign.ofBitVec_toBitVec]
    · rw [hExponent, exponentBias_binary64]
      omega
  · next hLog =>
    have hBits : m < 2 ^ 52 := by
      refine Nat.lt_of_not_le fun hBits => hLog ?_
      have hAbove := (Nat.le_log2 (Nat.ne_of_gt hm)).mpr hBits
      have hBelow := (Nat.log2_lt (Nat.ne_of_gt hm)).mpr hSmall
      show m.log2 + 1 = 53
      omega
    have hMantissa : (BitVec.ofNat 52 m).toNat = m := by
      rw [BitVec.toNat_ofNat, Nat.mod_eq_of_lt hBits]
    have hZero : BitVec.ofNat 52 m ≠ 0#52 := by
      intro h
      have hBits := hMantissa.symm.trans (congrArg BitVec.toNat h)
      exact Nat.ne_of_gt hm hBits
    unfold UnpackedFloat.unpack
    simp only [unpackMantissa_packComponents, unpackExponent_packComponents]
    rw [if_neg (by decide), if_pos trivial, dif_neg hZero, UnpackedFloat.finite.injEq]
    refine ⟨?_, hMantissa, ?_⟩
    · rw [unpackSign_packComponents, Sign.ofBitVec_toBitVec]
    · rw [hNormal.resolve_left (Nat.not_le_of_lt hBits)]
      rfl

/-- A zero keeps its sign. -/
theorem unpack_pack_zero (s : Sign) : (Float.Model.pack (.zero s)).unpack = .zero s := by
  cases s <;> rfl

/-- The bits of a number, from its parts. -/
theorem toNat_of_unpack {f : Float.Model} (h : f.unpack = .finite s m q hm) :
    f.toBits.toNat = s.toBitVec.toNat * 2 ^ 63 +
      (if m < 2 ^ 52 then m else (q + 1075).toNat * 2 ^ 52 + (m - 2 ^ 52)) := by
  obtain ⟨bits, hValid⟩ := f
  have hBits : bits.toBitVec.toNat < 2 ^ 64 := bits.toBitVec.isLt
  have hMantissa := toNat_unpackMantissa bits.toBitVec
  have hExponent := toNat_unpackExponent bits.toBitVec
  have hSign := toNat_unpackSign bits.toBitVec
  change unpack .binary64 bits.toBitVec = _ at h
  show bits.toBitVec.toNat = _
  unfold UnpackedFloat.unpack at h
  dsimp only at h
  rw [exponentBias_binary64] at h
  -- an exponent of zero leaves the mantissa as it is, any other adds the implicit bit
  split at h
  · split at h <;> cases h
  · split at h
    · next hZero =>
      rw [hZero, BitVec.toNat_zero] at hExponent
      split at h
      · cases h
      · cases h
        rw [Sign.toBitVec_ofBitVec, hSign, hMantissa, if_pos (Nat.mod_lt _ (by decide))]
        omega
    · cases h
      rw [Sign.toBitVec_ofBitVec, hSign, toNat_withImplicit, hMantissa, if_neg (by omega),
        hExponent]
      omega

/-- A zero has no bits but its sign. -/
theorem toNat_of_unpack_zero {f : Float.Model} (h : f.unpack = .zero s) :
    f.toBits.toNat = s.toBitVec.toNat * 2 ^ 63 := by
  obtain ⟨bits, hValid⟩ := f
  have hBits : bits.toBitVec.toNat < 2 ^ 64 := bits.toBitVec.isLt
  have hMantissa := toNat_unpackMantissa bits.toBitVec
  have hExponent := toNat_unpackExponent bits.toBitVec
  have hSign := toNat_unpackSign bits.toBitVec
  change unpack .binary64 bits.toBitVec = _ at h
  show bits.toBitVec.toNat = _
  unfold UnpackedFloat.unpack at h
  dsimp only at h
  -- only an all-zero exponent over an all-zero mantissa is unpacked as zero
  split at h
  · split at h <;> cases h
  · split at h
    · next hZero =>
      rw [hZero, BitVec.toNat_zero] at hExponent
      split at h
      · next hNone =>
        rw [hNone, BitVec.toNat_zero] at hMantissa
        cases h
        rw [Sign.toBitVec_ofBitVec, hSign]
        omega
      · cases h
    · cases h

/-- Numbers with the same parts are the same. -/
theorem eq_of_unpack {f g : Float} (h : f.toModel.unpack = g.toModel.unpack) : f = g := by
  obtain ⟨bits, hBits⟩ := f
  obtain ⟨bits', hBits'⟩ := g
  obtain rfl := UInt64.toBitVec_inj.mp ((unpack_inj_of_valid hBits hBits').mp h)
  rfl

/-- The negative of a finite number has its parts, but for the sign. -/
theorem unpack_neg {f : Float} (h : f.isFinite = true) :
    (-f).toModel.unpack = f.toModel.unpack.neg := by
  change f.toModel.unpack.isFinite = true at h
  show (Float.Model.pack f.toModel.unpack.neg).unpack = _
  cases hParts : f.toModel.unpack with
  | finite => exact unpack_pack (canonical_of_unpack hParts)
  | zero => exact unpack_pack_zero _
  | _ =>
    rw [hParts] at h
    cases h

/-- A finite number has a finite opposite. -/
theorem isFinite_neg {f : Float} (h : f.isFinite = true) : (-f).isFinite = true := by
  show (-f).toModel.unpack.isFinite = true
  rw [unpack_neg h]
  change f.toModel.unpack.isFinite = true at h
  cases hParts : f.toModel.unpack <;> rw [hParts] at h <;> first | rfl | cases h

end FlowNest.Decimal
