import FlowNest.Proofs.Decimal.Shortest
import FlowNest.Proofs.Json.Numerals

/-!
# FlowNest — written floating-point numbers read back

The shortest decimal of a finite number is written, and a decimal near a number is read as
that number: so every finite number reads back, the two zeros included.

* `unpack_signed`         — the sign stands in front of the parts;
* `readsBack_of_isFinite` — every finite number reads back.
-/

namespace FlowNest.Json

open Float.Model
open Float.Model.UnpackedFloat (Sign)
open FlowNest.Decimal

variable {f g : Float} {s : Sign} {m : Nat} {q : Int} {hm : 0 < m}

/-- The sign that is written. -/
def signText : Sign → List Char
  | .positive => []
  | .negative => ['-']

/-- The number with the sign in front. -/
def signed : Sign → Float → Float
  | .positive, f => f
  | .negative, f => -f

theorem sign_of_toBits {r : Nat} (h : f.toBits.toNat = s.toBitVec.toNat * 2 ^ 63 + r)
    (hr : r < 2 ^ 63) :
    (if f.toBits < 0x8000000000000000 then "" else "-").toList = signText s := by
  -- the sign is the top bit, so it can be read off by comparing with the word that has it alone
  have hWord : f.toBits < 0x8000000000000000 ↔ f.toBits.toNat < 2 ^ 63 := UInt64.lt_iff_toNat_lt
  cases s with
  | positive =>
    change f.toBits.toNat = 0 * 2 ^ 63 + r at h
    rw [if_pos (hWord.mpr (by omega))]
    rfl
  | negative =>
    change f.toBits.toNat = 1 * 2 ^ 63 + r at h
    rw [if_neg fun hLess => absurd (hWord.mp hLess) (by omega)]
    rfl

/-- A number that is written as a numeral behind its sign is read as what is nearest. -/
theorem readsBack_of_numeral {x : Numeral} (hForm : x.WellFormed)
    (hText : (writeLeaf (.float f)).toList = signText s ++ x.text)
    (hInf : (nearest x.digits x.exponent).isInf = false)
    (hValue : signed s (nearest x.digits x.exponent) = f) : ReadsBack f := by
  -- a numeral is ASCII, so the reader sees the characters as written
  have hSeen : seen (writeLeaf (.float f)) = signText s ++ x.text := by
    rw [← hText]
    refine seen_of_ascii ?_
    rw [hText]
    intro c hc
    rcases List.mem_append.mp hc with hc | hc
    · cases s with
      | positive => cases hc
      | negative =>
        rw [List.mem_singleton.mp hc]
        decide
    · exact ascii_text hForm c hc
  unfold ReadsBack
  rw [hSeen]
  cases s with
  | positive =>
    rw [signText, List.nil_append, scanNumber_of_head (head?_text hForm), scanUnsigned_text hForm,
      numberDraft_of_rounded hForm.rounded, hInf]
    exact congrArg (fun g => some (Draft.float g, [])) hValue
  | negative =>
    show scanNumber ('-' :: x.text) = _
    rw [scanNumber_minus, scanUnsigned_text hForm, numberDraft_of_rounded hForm.rounded, hInf]
    exact congrArg (fun g => some (Draft.float g, [])) hValue

/-- A number with its sign in front has that sign. -/
theorem unpack_signed (hg : g.toModel.unpack = .finite .positive m q hm) :
    (signed s g).toModel.unpack = .finite s m q hm := by
  cases s with
  | positive => exact hg
  | negative =>
    -- negation flips the sign of a finite number and of nothing else
    have hFinite : g.isFinite = true := by
      show g.toModel.unpack.isFinite = true
      rw [hg]
      rfl
    show (-g).toModel.unpack = _
    rw [unpack_neg hFinite, hg]
    rfl

theorem isNaN_of_isFinite (h : f.isFinite = true) : f.isNaN = false := by
  change f.toModel.unpack.isFinite = true at h
  show f.toModel.unpack.isNaN = false
  cases hf : f.toModel.unpack <;> rw [hf] at h <;> first | rfl | cases h

theorem isInf_of_isFinite (h : f.isFinite = true) : f.isInf = false := by
  change f.toModel.unpack.isFinite = true at h
  show f.toModel.unpack.isInf = false
  cases hf : f.toModel.unpack <;> rw [hf] at h <;> first | rfl | cases h

/-- How a finite number is written. -/
theorem writeLeaf_of_isFinite (h : f.isFinite = true) :
    writeLeaf (.float f) = (if f.toBits < 0x8000000000000000 then "" else "-") ++
      match Binary.ofFloat? f with
      | some b => numberStyle.decimal (b.shortest .toEven)
      | none => "0.0" := by
  show (if f.isFinite = true then numberStyle.float f else "null") = _
  rw [if_pos h]
  unfold Decimal.Style.float
  rw [isNaN_of_isFinite h, isInf_of_isFinite h]
  rfl

/-- A number with digits is written as its shortest decimal, which lies near it. -/
theorem readsBack_of_finite (hFinite : f.isFinite = true)
    (hf : f.toModel.unpack = .finite s m q hm) : ReadsBack f := by
  have hForm := canonical_of_unpack hf
  obtain ⟨hSmallest, hLow, hHigh, -⟩ := canonical_of_unpack hf
  obtain ⟨k, e, hShortest, hNear, hk, hDigits⟩ := @Binary.near_shortest .toEven m q hForm hm
  obtain ⟨x, hx, hText, hValue, hPos, hSmall⟩ := exists_numeral hk hDigits e
  -- the numeral has the value of the decimal, so it lies as near
  rw [← hValue] at hNear
  have hRead : (nearest x.digits x.exponent).toModel.unpack = .finite .positive m q hm :=
    unpack_nearest hForm hNear hPos hSmall
  refine readsBack_of_numeral hx ?_ ?_ ?_ (s := s)
  · rw [writeLeaf_of_isFinite hFinite, Binary.ofFloat?_of_unpack hf, String.toList_append,
      sign_of_toBits (toNat_of_unpack hf) (by split <;> omega)]
    show signText s ++ (numberStyle.decimal ((Binary.ofParts m q).shortest .toEven)).toList = _
    rw [hShortest, hText]
  · show (nearest x.digits x.exponent).toModel.unpack.isInf = false
    rw [hRead]
    rfl
  · exact eq_of_unpack ((unpack_signed hRead).trans hf.symm)

/-- The numeral that zero is written with. -/
def zeroNumeral : Numeral where
  whole := ['0']
  fraction := some ['0']
  power := none

theorem zeroNumeral_wellFormed : zeroNumeral.WellFormed where
  whole := ⟨List.cons_ne_nil _ _, List.forall_mem_singleton.mpr rfl⟩
  leading _ := rfl
  fraction := by
    rintro _ ⟨⟩
    exact ⟨List.cons_ne_nil _ _, List.forall_mem_singleton.mpr rfl⟩
  rounded := .inl rfl

/-- The two zeros are written with a point and a digit behind it. -/
theorem readsBack_of_zero (hFinite : f.isFinite = true) (hf : f.toModel.unpack = .zero s) :
    ReadsBack f := by
  have hBits : f.toBits.toNat = s.toBitVec.toNat * 2 ^ 63 + 0 :=
    (toNat_of_unpack_zero hf).trans (Nat.add_zero _).symm
  have hZero : (signed s (nearest 0 (-1))).toModel.unpack = .zero s := by
    cases s <;> rfl
  refine readsBack_of_numeral zeroNumeral_wellFormed ?_ rfl ?_ (s := s)
  · rw [writeLeaf_of_isFinite hFinite, Binary.ofFloat?_of_unpack_zero hf, String.toList_append,
      sign_of_toBits hBits (Nat.two_pow_pos 63)]
    rfl
  · exact eq_of_unpack (hZero.trans hf.symm)

/-- A finite number reads back. -/
theorem readsBack_of_isFinite (h : f.isFinite = true) : ReadsBack f := by
  have hParts : f.toModel.unpack.isFinite = true := h
  cases hf : f.toModel.unpack with
  | finite => exact readsBack_of_finite h hf
  | zero => exact readsBack_of_zero h hf
  | _ =>
    rw [hf] at hParts
    cases hParts

end FlowNest.Json
