import FlowNest.Proofs.Decimal.Scaling
import FlowNest.Proofs.Json.Numbers

/-!
# FlowNest — numerals

A number in JSON text has digits in front of the point, digits behind it and a power of ten.
A decimal is written with a fraction or a power, so it is never taken for a whole number, and
what is scanned is the decimal again, with zeros moved between its digits and its exponent.

* `Numeral`         — the three parts of a number in text;
* `scanUnsigned_text` — the scanner takes a text apart into them;
* `exists_numeral`  — the text of a decimal is that of a numeral of its value.
-/

namespace FlowNest.Json

open FlowNest.Decimal (ofDigits nearest)

/-- The parts of a number in text. -/
structure Numeral where
  whole : List Char
  fraction : Option (List Char)
  power : Option Int

namespace Numeral

def fractionText : Option (List Char) → List Char
  | none => []
  | some ds => '.' :: ds

def powerText : Option Int → List Char
  | none => []
  | some p => 'e' :: (if p < 0 then '-' else '+') :: Nat.toDigits 10 p.natAbs

def text (x : Numeral) : List Char :=
  x.whole ++ (fractionText x.fraction ++ powerText x.power)

/-- All the digits, as one number. -/
def digits (x : Numeral) : Nat :=
  ofDigits (x.whole ++ x.fraction.getD [])

/-- The power of ten that they count in. -/
def exponent (x : Numeral) : Int :=
  x.power.getD 0 - (x.fraction.getD []).length

/-- The numeral follows the grammar, and is not that of a whole number. -/
structure WellFormed (x : Numeral) : Prop where
  whole : x.whole ≠ [] ∧ ∀ c ∈ x.whole, c.isDigit
  leading : x.whole.head? = some '0' → x.whole.length = 1
  fraction : ∀ ds ∈ x.fraction, ds ≠ [] ∧ ∀ c ∈ ds, c.isDigit
  rounded : x.fraction.isSome ∨ x.power.isSome

end Numeral

open Numeral

variable {x : Numeral}

/-! ## Scanning -/

/-- A power starts with its letter, if there is one. -/
theorem head?_powerText (p : Option Int) : ∀ c ∈ (powerText p).head?, c = 'e' := by
  cases p with
  | none => exact fun c hc => nomatch hc
  | some p =>
    rintro _ ⟨⟩
    rfl

/-- What follows the whole part starts with a point or with the letter of a power. -/
theorem head?_fractionText (ds : Option (List Char)) (p : Option Int) :
    ∀ c ∈ (fractionText ds ++ powerText p).head?, c = '.' ∨ c = 'e' := by
  cases ds with
  | none => exact fun c hc => .inr (head?_powerText p c hc)
  | some ds =>
    rintro _ ⟨⟩
    exact .inl rfl

/-- The digits of a number are digits to the scanner, too. -/
theorem isDigit_of_mem_toDigits {n : Nat} {c : Char} (h : c ∈ Nat.toDigits 10 n) :
    c.isDigit = true :=
  Nat.isDigit_of_mem_toDigits (by decide) (by decide) h

/-- A power is scanned as it was written. -/
theorem scanPower_text (p : Option Int) : scanPower (powerText p) = some (p, []) := by
  cases p with
  | none => rfl
  | some p =>
    -- the sign is always written, so only the digits are left to scan
    have hDigits : scanDigits (Nat.toDigits 10 p.natAbs) = some (Nat.toDigits 10 p.natAbs, []) :=
      scanDigits_eq_some_iff.mpr ⟨(List.append_nil _).symm, Nat.toDigits_ne_nil,
        fun _ => isDigit_of_mem_toDigits, by simp⟩
    show scanPower ('e' :: (if p < 0 then '-' else '+') :: Nat.toDigits 10 p.natAbs) = _
    split
    · rw [scanPower]
      dsimp only
      rw [hDigits]
      show some (some (-((ofDigits (Nat.toDigits 10 p.natAbs) : Nat) : Int)), []) = _
      rw [Decimal.ofDigits_toDigits, show -(p.natAbs : Int) = p by omega]
    · rw [scanPower]
      dsimp only
      rw [hDigits]
      show some (some ((ofDigits (Nat.toDigits 10 p.natAbs) : Nat) : Int), []) = _
      rw [Decimal.ofDigits_toDigits, show (p.natAbs : Int) = p by omega]

/-- A fraction is scanned as it was written, up to the power behind it. -/
theorem scanFraction_text (h : ∀ ds ∈ x.fraction, ds ≠ [] ∧ ∀ c ∈ ds, c.isDigit) :
    scanFraction (fractionText x.fraction ++ powerText x.power) =
      some (x.fraction, powerText x.power) := by
  cases hFraction : x.fraction with
  | none =>
    refine scanFraction_none fun c hc => ?_
    rw [head?_powerText x.power c hc]
    decide
  | some ds =>
    obtain ⟨hSome, hDigits⟩ := h ds hFraction
    -- the digits end where the power starts, or the text
    have hScan : scanDigits (ds ++ powerText x.power) = some (ds, powerText x.power) :=
      scanDigits_eq_some_iff.mpr ⟨rfl, hSome, hDigits, fun c hc => by
        rw [head?_powerText x.power c hc]
        rfl⟩
    unfold fractionText
    rw [List.cons_append, scanFraction, hScan]
    rfl

/-- The scanner takes a numeral apart. -/
theorem scanUnsigned_text (h : x.WellFormed) (negative : Bool) :
    scanUnsigned negative x.text =
      some (numberDraft negative x.whole x.fraction x.power, []) := by
  obtain ⟨⟨hSome, hDigits⟩, hLeading, hFraction, -⟩ := h
  -- the whole part ends where the fraction or the power starts, or the text
  have hRun : scanDigits x.text =
      some (x.whole, fractionText x.fraction ++ powerText x.power) :=
    scanDigits_eq_some_iff.mpr ⟨rfl, hSome, hDigits, fun c hc => by
      rcases head?_fractionText x.fraction x.power c hc with rfl | rfl <;> rfl⟩
  have hWhole : scanWhole x.text =
      some (x.whole, fractionText x.fraction ++ powerText x.power) := by
    rw [scanWhole, hRun]
    exact if_neg fun h => h.2 (hLeading h.1)
  simp only [scanUnsigned, hWhole, scanFraction_text hFraction, scanPower_text,
    Option.bind_eq_bind, Option.bind_some]
  rfl

/-- The text of a numeral is all ASCII. -/
theorem ascii_text (h : x.WellFormed) : ∀ c ∈ x.text, c.toNat < 128 := by
  obtain ⟨⟨-, hDigits⟩, -, hFraction, -⟩ := h
  intro c hc
  -- a digit of the whole part, or something behind it
  rcases List.mem_append.mp hc with hc | hc
  · exact toNat_lt_of_isDigit (hDigits c hc)
  · rcases List.mem_append.mp hc with hc | hc
    · cases hF : x.fraction with
      | none =>
        rw [hF] at hc
        cases hc
      | some ds =>
        rw [hF] at hc
        rcases List.mem_cons.mp hc with rfl | hc
        · decide
        · exact toNat_lt_of_isDigit ((hFraction ds hF).2 c hc)
    · cases hP : x.power with
      | none =>
        rw [hP] at hc
        cases hc
      | some p =>
        rw [hP] at hc
        rcases List.mem_cons.mp hc with rfl | hc
        · decide
        · rcases List.mem_cons.mp hc with rfl | hc
          · split <;> decide
          · exact toNat_lt_of_isDigit (isDigit_of_mem_toDigits hc)

/-- A numeral has no sign. -/
theorem head?_text (h : x.WellFormed) : ∀ c ∈ x.text.head?, c ≠ '-' := by
  obtain ⟨⟨hSome, hDigits⟩, -, -, -⟩ := h
  rintro _ hc rfl
  rw [text, List.head?_append_of_ne_nil _ hSome] at hc
  have hDigit := hDigits '-' (List.mem_of_mem_head? hc)
  cases hDigit

/-- A numeral is rounded to the nearest number. -/
theorem numberDraft_of_rounded (h : x.fraction.isSome ∨ x.power.isSome) (negative : Bool) :
    numberDraft negative x.whole x.fraction x.power =
      if (nearest x.digits x.exponent).isInf then .unfit
      else .float (if negative then -nearest x.digits x.exponent
        else nearest x.digits x.exponent) := by
  have hNot : (x.fraction.isNone && x.power.isNone) = false := by
    cases hF : x.fraction <;> cases hP : x.power <;> simp_all
  unfold numberDraft
  simp only [hNot, Bool.false_and]
  rfl

/-! ## Decimals as numerals -/

/-- Each zero behind the digits makes the number ten times as great. -/
theorem ofDigits_append_zeros (ds : List Char) (n : Nat) :
    ofDigits (ds ++ List.replicate n '0') = 10 ^ n * ofDigits ds := by
  show Nat.ofDigitChars 10 (ds ++ List.replicate n '0') 0 = 10 ^ n * Nat.ofDigitChars 10 ds 0
  rw [Nat.ofDigitChars_append, Nat.ofDigitChars_replicate_zero]

/-- Zeros in front of the digits do not count. -/
theorem ofDigits_zeros_append (ds : List Char) (n : Nat) :
    ofDigits (List.replicate n '0' ++ ds) = ofDigits ds := by
  show Nat.ofDigitChars 10 (List.replicate n '0' ++ ds) 0 = Nat.ofDigitChars 10 ds 0
  rw [Nat.ofDigitChars_append, Nat.ofDigitChars_replicate_zero, Nat.mul_zero]

variable {k : Nat} {e : Int}

/-- A number is written in its decimal digits. -/
theorem toList_toString (k : Nat) : (toString k).toList = Nat.toDigits 10 k :=
  Nat.toList_repr

/-- Zeros are digits. -/
theorem isDigit_of_mem_zeros {n : Nat} {c : Char} (h : c ∈ List.replicate n '0') :
    c.isDigit = true := by
  rw [List.eq_of_mem_replicate h]
  rfl

/-- Below one: zeros stand between the point and the digits. -/
def smallNumeral (k : Nat) (e : Int) : Numeral where
  whole := ['0']
  fraction := some (List.replicate (-((Nat.toDigits 10 k).length + e)).toNat '0' ++
    Nat.toDigits 10 k)
  power := none

/-- With the point among the digits. -/
def mixedNumeral (k : Nat) (e : Int) : Numeral where
  whole := (Nat.toDigits 10 k).take ((Nat.toDigits 10 k).length + e).toNat
  fraction := some ((Nat.toDigits 10 k).drop ((Nat.toDigits 10 k).length + e).toNat)
  power := none

/-- A whole number: zeros up to the point and one behind it. -/
def wholeNumeral (k : Nat) (e : Int) : Numeral where
  whole := Nat.toDigits 10 k ++ List.replicate e.toNat '0'
  fraction := some ['0']
  power := none

/-- With a power of ten, and no point when there is one digit only. -/
def powerNumeral (k : Nat) (e : Int) : Numeral where
  whole := (Nat.toDigits 10 k).take 1
  fraction := if (Nat.toDigits 10 k).length = 1 then none else some ((Nat.toDigits 10 k).drop 1)
  power := some ((Nat.toDigits 10 k).length + e - 1)

/-- A number whose digits all stand behind the point is written with zeros before them. -/
theorem smallNumeral_spec (h : (Nat.toDigits 10 k).length + e ≤ 0) :
    (smallNumeral k e).WellFormed ∧ (smallNumeral k e).digits = k ∧
      (smallNumeral k e).exponent = e := by
  refine ⟨⟨by simp [smallNumeral], fun _ => rfl, ?_, .inl rfl⟩, ?_, ?_⟩
  · rintro _ ⟨⟩
    refine ⟨by simp [Nat.toDigits_ne_nil], fun c hc => ?_⟩
    rcases List.mem_append.mp hc with hc | hc
    · exact isDigit_of_mem_zeros hc
    · exact isDigit_of_mem_toDigits hc
  · show ofDigits (List.replicate 1 '0' ++ (List.replicate _ '0' ++ Nat.toDigits 10 k)) = k
    -- neither the zero before the point nor those behind it count
    rw [ofDigits_zeros_append, ofDigits_zeros_append, Decimal.ofDigits_toDigits]
  · unfold smallNumeral exponent
    simp only [Option.getD_none, Option.getD_some, List.length_append, List.length_replicate]
    omega

/-- A number with digits on both sides of the point is written with the point between them. -/
theorem mixedNumeral_spec (hk : 0 < k) (h : 0 < (Nat.toDigits 10 k).length + e) (he : e < 0) :
    (mixedNumeral k e).WellFormed ∧ (mixedNumeral k e).digits = k ∧
      (mixedNumeral k e).exponent = e := by
  -- there is at least one digit on each side of the point
  have hLength : (Nat.toDigits 10 k).length ≠ 0 := fun h =>
    Nat.toDigits_ne_nil (List.length_eq_zero_iff.mp h)
  refine ⟨⟨⟨?_, fun c hc => isDigit_of_mem_toDigits (List.mem_of_mem_take hc)⟩, ?_, ?_, .inl rfl⟩,
    ?_, ?_⟩
  · simp only [mixedNumeral, ne_eq, List.take_eq_nil_iff, not_or]
    exact ⟨by omega, Nat.toDigits_ne_nil⟩
  · intro hZero
    rw [mixedNumeral, List.head?_take, if_neg (by omega)] at hZero
    exact absurd hZero (Decimal.head?_toDigits hk)
  · rintro _ ⟨⟩
    refine ⟨?_, fun c hc => isDigit_of_mem_toDigits (List.mem_of_mem_drop hc)⟩
    rw [ne_eq, List.drop_eq_nil_iff]
    omega
  · show ofDigits (List.take _ _ ++ List.drop _ _) = k
    rw [List.take_append_drop, Decimal.ofDigits_toDigits]
  · unfold mixedNumeral exponent
    simp only [Option.getD_none, Option.getD_some, List.length_drop]
    omega

/-- A whole number is written with zeros behind its digits, and one more behind the point. -/
theorem wholeNumeral_spec (hk : 0 < k) :
    (wholeNumeral k e).WellFormed ∧ (wholeNumeral k e).digits = 10 ^ (e.toNat + 1) * k ∧
      (wholeNumeral k e).exponent = -1 := by
  refine ⟨⟨⟨by simp [wholeNumeral, Nat.toDigits_ne_nil], fun c hc => ?_⟩, ?_, ?_, .inl rfl⟩,
    ?_, rfl⟩
  · rcases List.mem_append.mp hc with hc | hc
    · exact isDigit_of_mem_toDigits hc
    · exact isDigit_of_mem_zeros hc
  · intro hZero
    rw [wholeNumeral, List.head?_append_of_ne_nil _ Nat.toDigits_ne_nil] at hZero
    exact absurd hZero (Decimal.head?_toDigits hk)
  · rintro _ ⟨⟩
    simp
  · show ofDigits ((Nat.toDigits 10 k ++ List.replicate e.toNat '0') ++ List.replicate 1 '0') = _
    -- each zero behind the digits counts, also the one behind the point
    rw [ofDigits_append_zeros, ofDigits_append_zeros, Decimal.ofDigits_toDigits, ← mul_assoc,
      ← pow_add, Nat.add_comm]

/-- With a power, the point stands behind the first digit. -/
theorem powerNumeral_spec (hk : 0 < k) :
    (powerNumeral k e).WellFormed ∧ (powerNumeral k e).digits = k ∧
      (powerNumeral k e).exponent = e := by
  -- the first digit stands alone, and there may be no others
  have hLength : 0 < (Nat.toDigits 10 k).length := Nat.length_toDigits_pos
  refine ⟨⟨⟨?_, fun c hc => isDigit_of_mem_toDigits (List.mem_of_mem_take hc)⟩, ?_, ?_, .inr rfl⟩,
    ?_, ?_⟩
  · simp only [powerNumeral, ne_eq, List.take_eq_nil_iff, not_or]
    exact ⟨by omega, Nat.toDigits_ne_nil⟩
  · intro hZero
    rw [powerNumeral, List.head?_take, if_neg (by omega)] at hZero
    exact absurd hZero (Decimal.head?_toDigits hk)
  · intro ds hds
    unfold powerNumeral at hds
    dsimp only at hds
    split at hds
    · cases hds
    · next hMore =>
      cases hds
      refine ⟨?_, fun c hc => isDigit_of_mem_toDigits (List.mem_of_mem_drop hc)⟩
      rw [ne_eq, List.drop_eq_nil_iff]
      omega
  · unfold powerNumeral digits
    dsimp only
    split
    · next hOne =>
      rw [List.take_of_length_le (by omega), Option.getD_none, List.append_nil,
        Decimal.ofDigits_toDigits]
    · rw [Option.getD_some, List.take_append_drop, Decimal.ofDigits_toDigits]
  · unfold powerNumeral exponent
    dsimp only
    split
    · simp only [Option.getD_none, Option.getD_some, List.length_nil]
      omega
    · simp only [Option.getD_some, List.length_drop]
      omega

/-! ## The text of a decimal -/

/-- The leading digit stands as many places before the last one as there are digits. -/
theorem leading_eq (k : Nat) (e : Int) :
    (⟨k, e⟩ : Decimal).leading = (Nat.toDigits 10 k).length + e - 1 := by
  unfold Decimal.leading
  rw [← String.length_toList, toList_toString]

/-- The text of a decimal with a power is that of its numeral. -/
theorem toList_exponentText (k : Nat) (e : Int) :
    (⟨k, e⟩ : Decimal).exponentText.toList = (powerNumeral k e).text := by
  have hSign (p : Int) : (if p < 0 then "-" else "+").toList = [if p < 0 then '-' else '+'] := by
    split <;> rfl
  unfold Decimal.exponentText powerNumeral
  simp only [leading_eq, String.toList_append, hSign, toList_toString]
  -- whether there is a point depends on the number of digits
  match h : Nat.toDigits 10 k with
  | [] => exact absurd h Nat.toDigits_ne_nil
  | [c] => simp [text, fractionText, powerText]
  | c :: c' :: rest => simp [text, fractionText, powerText]

/-- The text of a decimal without a power is that of its numeral, depending on where the point
falls. -/
theorem toList_plainText (k : Nat) (e : Int) :
    ((⟨k, e⟩ : Decimal).plainText true).toList =
      (if (Nat.toDigits 10 k).length + e ≤ 0 then smallNumeral k e
        else if e < 0 then mixedNumeral k e else wholeNumeral k e).text := by
  unfold Decimal.plainText
  dsimp only
  rw [String.toList_ofList, toList_toString]
  -- where the point falls: before the digits, among them or behind
  split
  · simp [smallNumeral, text, fractionText, powerText]
  · split
    · simp [mixedNumeral, text, fractionText, powerText]
    · simp [wholeNumeral, text, fractionText, powerText]

/-- The text of a decimal is that of a numeral of its value. -/
theorem exists_numeral (hk : 0 < k) (hDigits : k < 10 ^ 24) (e : Int) :
    ∃ x : Numeral, x.WellFormed ∧ (numberStyle.decimal ⟨k, e⟩).toList = x.text ∧
      (x.digits : ℚ) * 10 ^ x.exponent = k * 10 ^ e ∧ 0 < x.digits ∧ x.digits < 2 ^ 100 := by
  have hBound : k < 2 ^ 100 := Nat.lt_trans hDigits (by norm_num)
  -- a numeral with the digits of the decimal
  have hSame (x : Numeral) (hText : (numberStyle.decimal ⟨k, e⟩).toList = x.text)
      (h : x.WellFormed ∧ x.digits = k ∧ x.exponent = e) :
      ∃ x : Numeral, x.WellFormed ∧ (numberStyle.decimal ⟨k, e⟩).toList = x.text ∧
        (x.digits : ℚ) * 10 ^ x.exponent = k * 10 ^ e ∧ 0 < x.digits ∧ x.digits < 2 ^ 100 := by
    obtain ⟨hForm, hDigits, hExponent⟩ := h
    exact ⟨x, hForm, hText, by rw [hDigits, hExponent], hDigits ▸ hk, hDigits ▸ hBound⟩
  have hStyle : numberStyle.decimal ⟨k, e⟩ =
      if -5 ≤ (⟨k, e⟩ : Decimal).leading ∧ (⟨k, e⟩ : Decimal).leading ≤ 15 then
        (⟨k, e⟩ : Decimal).plainText true else (⟨k, e⟩ : Decimal).exponentText := rfl
  rw [leading_eq] at hStyle
  by_cases hPlain : -5 ≤ (Nat.toDigits 10 k).length + e - 1 ∧
      (Nat.toDigits 10 k).length + e - 1 ≤ 15
  · rw [if_pos hPlain] at hStyle
    have hText := (congrArg String.toList hStyle).trans (toList_plainText k e)
    by_cases hWhole : (Nat.toDigits 10 k).length + e ≤ 0
    · rw [if_pos hWhole] at hText
      exact hSame _ hText (smallNumeral_spec hWhole)
    · rw [if_neg hWhole] at hText
      by_cases hPoint : e < 0
      · rw [if_pos hPoint] at hText
        exact hSame _ hText (mixedNumeral_spec hk (by omega) hPoint)
      · rw [if_neg hPoint] at hText
        obtain ⟨hForm, hValue, hExponent⟩ := wholeNumeral_spec (e := e) hk
        refine ⟨_, hForm, hText, ?_, ?_, ?_⟩
        · rw [hValue, hExponent, zpow_neg_one, Decimal.ten_zpow_of_nonneg (by omega),
            show e.natAbs = e.toNat by omega]
          push_cast
          rw [pow_succ]
          field_simp
        · rw [hValue]
          positivity
        · have hLength : k < 10 ^ (Nat.toDigits 10 k).length :=
            (Nat.length_toDigits_le_iff (by decide) Nat.length_toDigits_pos).mp (Nat.le_refl _)
          rw [hValue]
          calc 10 ^ (e.toNat + 1) * k
              < 10 ^ (e.toNat + 1) * 10 ^ (Nat.toDigits 10 k).length :=
                Nat.mul_lt_mul_of_pos_left hLength (by positivity)
            _ = 10 ^ (e.toNat + 1 + (Nat.toDigits 10 k).length) := (Nat.pow_add _ _ _).symm
            _ ≤ 10 ^ 17 := Nat.pow_le_pow_right (by decide) (by omega)
            _ < 2 ^ 100 := by norm_num
  · rw [if_neg hPlain] at hStyle
    exact hSame _ ((congrArg String.toList hStyle).trans (toList_exponentText k e))
      (powerNumeral_spec hk)

end FlowNest.Json
