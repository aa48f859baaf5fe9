import Mathlib.Data.List.TakeDrop
import Mathlib.Data.List.TakeWhile
import FlowNest.Proofs.Json.Strings

/-!
# FlowNest — written numbers read back

A scanner takes a number as far as it goes, so what it makes of it does not change when
something that cannot belong to a number comes behind it.

* `Stops`           — what can stand behind a number;
* `scanNumber_stop` — a number is the same whatever stands behind it;
* `scanNumber_int`  — a written whole number of 64 bits reads back;
* `ReadsBack`       — a written floating-point number reads back.
-/

namespace FlowNest

/-! ## Digits -/

namespace Decimal

/-- The digits of a number denote that number. -/
theorem ofDigits_toDigits (n : Nat) : ofDigits (Nat.toDigits 10 n) = n := by
  rw [ofDigits]
  exact Nat.ofDigitChars_ten_toDigits

/-- Only zero is written with a zero in front. -/
theorem head?_toDigits {n : Nat} (h : 0 < n) : (Nat.toDigits 10 n).head? ≠ some '0' := by
  induction n using Nat.base_induction 10 (by decide) with
  | single m hm =>
    have hDigit : ∀ m < 10, 0 < m → [m.digitChar].head? ≠ some '0' := by decide
    rw [Nat.toDigits_of_lt_base hm]
    exact hDigit m hm h
  | digit m k hk hm ih =>
    rw [← Nat.toDigits_append_toDigits (by decide) hm hk,
      List.head?_append_of_ne_nil _ Nat.toDigits_ne_nil]
    exact ih hm

end Decimal

namespace Json

/-- What can stand behind a number: nothing that would carry it on. -/
def Stops (rest : List Char) : Prop :=
  ∀ c ∈ rest.head?, c.isDigit = false ∧ c ≠ '.' ∧ c ≠ 'e' ∧ c ≠ 'E'

/-- At the end of a text a number stops. -/
theorem stops_nil : Stops [] := by
  simp [Stops]

variable {s rest left : List Char}

/-- A run of digits is taken up to the first character that is none. -/
theorem scanDigits_eq_some_iff {ds : List Char} :
    scanDigits s = some (ds, left) ↔ s = ds ++ left ∧ ds ≠ [] ∧ (∀ c ∈ ds, c.isDigit) ∧
      ∀ c ∈ left.head?, c.isDigit = false := by
  rw [scanDigits, List.span_eq_takeWhile_dropWhile]
  constructor
  · intro h
    split at h
    · cases h
    · next hRun =>
      cases h
      refine ⟨List.takeWhile_append_dropWhile.symm, fun hNil => hRun _ (by rw [hNil]),
        fun c hc => List.mem_takeWhile_imp hc, fun c hc => ?_⟩
      have hHead := List.head?_dropWhile_not Char.isDigit s
      rw [hc] at hHead
      exact hHead
  · rintro ⟨rfl, hNil, hDigits, hEnd⟩
    -- what is left starts with no digit, so the run of digits ends before it
    have hTake : left.takeWhile Char.isDigit = [] := by
      cases left with
      | nil => rfl
      | cons c left => exact List.takeWhile_cons_of_neg (by simp [hEnd c rfl])
    have hDrop : left.dropWhile Char.isDigit = left := by
      cases left with
      | nil => rfl
      | cons c left => exact List.dropWhile_cons_of_neg (by simp [hEnd c rfl])
    rw [List.takeWhile_append_of_pos hDigits, List.dropWhile_append_of_pos hDigits, hTake, hDrop,
      List.append_nil]
    split
    · next hRun =>
      cases hRun
      exact absurd rfl hNil
    · rfl

/-- What holds of the first character of either part holds of the first one of both. -/
theorem head?_append_of {P : Char → Prop} (hLeft : ∀ c ∈ left.head?, P c)
    (hRest : ∀ c ∈ rest.head?, P c) : ∀ c ∈ (left ++ rest).head?, P c := by
  cases left with
  | nil => exact hRest
  | cons c left => exact hLeft

/-- Digits are scanned the same, whatever a number stops at behind them. -/
theorem scanDigits_stop {ds : List Char} (h : Stops rest) (hScan : scanDigits s = some (ds, left)) :
    scanDigits (s ++ rest) = some (ds, left ++ rest) := by
  obtain ⟨rfl, hNil, hDigits, hEnd⟩ := scanDigits_eq_some_iff.mp hScan
  exact scanDigits_eq_some_iff.mpr ⟨List.append_assoc _ _ _, hNil, hDigits,
    head?_append_of hEnd fun c hc => (h c hc).1⟩

/-- A whole part is scanned the same, whatever a number stops at behind it. -/
theorem scanWhole_stop {ds : List Char} (h : Stops rest) (hScan : scanWhole s = some (ds, left)) :
    scanWhole (s ++ rest) = some (ds, left ++ rest) := by
  obtain ⟨⟨run, behind⟩, hRun, hScan⟩ := Option.bind_eq_some_iff.mp hScan
  obtain ⟨hZero, hScan⟩ := Option.ite_none_left_eq_some.mp hScan
  cases hScan
  rw [scanWhole, scanDigits_stop h hRun]
  exact if_neg hZero

/-- Without a point there is no fraction. -/
theorem scanFraction_none (h : ∀ c ∈ s.head?, c ≠ '.') : scanFraction s = some (none, s) := by
  unfold scanFraction
  split
  · exact absurd rfl (h '.' rfl)
  · rfl

/-- A fraction is scanned the same, whatever a number stops at behind it. -/
theorem scanFraction_stop {fraction : Option (List Char)} (h : Stops rest)
    (hScan : scanFraction s = some (fraction, left)) :
    scanFraction (s ++ rest) = some (fraction, left ++ rest) := by
  unfold scanFraction at hScan
  split at hScan
  · obtain ⟨⟨ds, behind⟩, hRun, hScan⟩ := Option.bind_eq_some_iff.mp hScan
    cases hScan
    rw [List.cons_append, scanFraction, scanDigits_stop h hRun]
    rfl
  -- without a point there is no fraction, and none begins where the number stops
  · next hPoint =>
    cases hScan
    refine scanFraction_none (head?_append_of (fun c hc => ?_) fun c hc => (h c hc).2.1)
    rintro rfl
    obtain ⟨others, hs⟩ := List.head?_eq_some_iff.mp hc
    exact hPoint others hs

/-- Without its letter there is no power. -/
theorem scanPower_none (h : ∀ c ∈ s.head?, c ≠ 'e' ∧ c ≠ 'E') :
    scanPower s = some (none, s) := by
  unfold scanPower
  dsimp only
  split
  case h_7 => rfl
  all_goals simp at h

/-- Where digits stand there is no sign. -/
theorem ne_sign_of_scanDigits {ds : List Char} {sign : Char}
    (hScan : scanDigits s = some (ds, left)) (hSign : sign.isDigit = false) :
    ∀ others, s ++ rest ≠ sign :: others := by
  obtain ⟨rfl, hNil, hDigits, -⟩ := scanDigits_eq_some_iff.mp hScan
  intro others h
  cases ds with
  | nil => exact hNil rfl
  | cons c ds =>
    cases h
    rw [hDigits sign List.mem_cons_self] at hSign
    cases hSign

/-- A power is scanned the same, whatever a number stops at behind it. -/
theorem scanPower_stop {power : Option Int} (h : Stops rest)
    (hScan : scanPower s = some (power, left)) :
    scanPower (s ++ rest) = some (power, left ++ rest) := by
  unfold scanPower at hScan
  dsimp only at hScan
  split at hScan
  -- no `e` here, and none begins where the number stops
  case h_7 hMinus hMinus' hPlus hPlus' hSmall hBig =>
    cases hScan
    refine scanPower_none (head?_append_of (fun c hc => ?_) fun c hc => (h c hc).2.2)
    obtain ⟨others, hs⟩ := List.head?_eq_some_iff.mp hc
    constructor
    · rintro rfl
      exact hSmall others hs
    · rintro rfl
      exact hBig others hs
  all_goals
    obtain ⟨⟨ds, behind⟩, hRun, hScan⟩ := Option.bind_eq_some_iff.mp hScan
    cases hScan
    simp only [List.cons_append]
    rw [scanPower]
  -- the digits come right behind the `e`, so there is no sign that an earlier case would take
  case h_5.refl.x | h_6.refl.x => exact ne_sign_of_scanDigits hRun rfl
  case h_5.refl.x_1 | h_6.refl.x_1 => exact ne_sign_of_scanDigits hRun rfl
  all_goals
    simp only [scanDigits_stop h hRun]
    rfl

/-- A number behind its sign. -/
def scanUnsigned (negative : Bool) (s : List Char) : Option (Draft × List Char) := do
  let (whole, s) ← scanWhole s
  let (fraction, s) ← scanFraction s
  let (power, s) ← scanPower s
  return (numberDraft negative whole fraction power, s)

/-- A minus makes a number negative. -/
theorem scanNumber_minus (s : List Char) : scanNumber ('-' :: s) = scanUnsigned true s := rfl

/-- Without a minus a number is not negative. -/
theorem scanNumber_of_head (h : ∀ c ∈ s.head?, c ≠ '-') : scanNumber s = scanUnsigned false s := by
  unfold scanNumber
  split
  next negative behind hSign =>
    split at hSign
    · exact absurd rfl (h '-' rfl)
    · cases hSign
      rfl

/-- A number is scanned the same, whatever it stops at. -/
theorem scanUnsigned_stop {negative : Bool} {d : Draft} (h : Stops rest)
    (hScan : scanUnsigned negative s = some (d, left)) :
    scanUnsigned negative (s ++ rest) = some (d, left ++ rest) := by
  obtain ⟨⟨whole, s₁⟩, hWhole, hScan⟩ := Option.bind_eq_some_iff.mp hScan
  obtain ⟨⟨fraction, s₂⟩, hFraction, hScan⟩ := Option.bind_eq_some_iff.mp hScan
  obtain ⟨⟨power, s₃⟩, hPower, hScan⟩ := Option.bind_eq_some_iff.mp hScan
  cases hScan
  simp only [scanUnsigned, scanWhole_stop h hWhole, scanFraction_stop h hFraction,
    scanPower_stop h hPower, Option.bind_eq_bind, Option.bind_some]
  rfl

/-- A number is the same whatever stands behind it. -/
theorem scanNumber_stop {d : Draft} (h : Stops rest) (hScan : scanNumber s = some (d, left)) :
    scanNumber (s ++ rest) = some (d, left ++ rest) := by
  cases s with
  | nil => cases hScan
  | cons c s =>
    -- only a leading minus matters, all else is the unsigned scan
    by_cases hMinus : c = '-'
    · subst hMinus
      rw [scanNumber_minus] at hScan
      rw [List.cons_append, scanNumber_minus, scanUnsigned_stop h hScan]
    · have hHead (others : List Char) : ∀ x ∈ (c :: others).head?, x ≠ '-' := by
        simpa using hMinus
      rw [scanNumber_of_head (hHead s)] at hScan
      rw [List.cons_append, scanNumber_of_head (hHead _), ← List.cons_append,
        scanUnsigned_stop h hScan]

/-! ## Whole numbers -/

/-- The digits of a number are taken as they are, for only a zero starts with one. -/
theorem scanWhole_toDigits (n : Nat) :
    scanWhole (Nat.toDigits 10 n) = some (Nat.toDigits 10 n, []) := by
  have hDigits : scanDigits (Nat.toDigits 10 n) = some (Nat.toDigits 10 n, []) :=
    scanDigits_eq_some_iff.mpr ⟨(List.append_nil _).symm, Nat.toDigits_ne_nil,
      fun c hc => Nat.isDigit_of_mem_toDigits (by decide) (by decide) hc, by simp⟩
  rw [scanWhole, hDigits]
  refine if_neg ?_
  rintro ⟨hZero, hLong⟩
  rcases Nat.eq_zero_or_pos n with rfl | hn
  · exact hLong rfl
  · exact Decimal.head?_toDigits hn hZero

/-- The digits of a number are scanned as its whole part, and nothing is left. -/
theorem scanUnsigned_toDigits (negative : Bool) (n : Nat) :
    scanUnsigned negative (Nat.toDigits 10 n) =
      some (numberDraft negative (Nat.toDigits 10 n) none none, []) := by
  simp only [scanUnsigned, scanWhole_toDigits, Option.bind_eq_bind, Option.bind_some]
  rfl

/-- A whole number fits 64 bits, with a sign or without. -/
def Fits (n : Int) : Prop :=
  -((UInt64.size / 2 : Nat) : Int) ≤ n ∧ n < UInt64.size

instance : DecidablePred Fits := fun _ => instDecidableAnd

/-- A written whole number reads back. -/
theorem scanNumber_int {n : Int} (h : Fits n) :
    scanNumber (toString n).toList = some (.int n, []) := by
  obtain ⟨hLow, hHigh⟩ := h
  rw [Int.toString_eq_repr, Int.repr_eq_if]
  split
  · next hSign =>
    have hHead : ∀ c ∈ (Nat.toDigits 10 n.toNat).head?, c ≠ '-' := by
      rintro _ hc rfl
      have hDigit := Nat.isDigit_of_mem_toDigits (b := 10) (by decide) (by decide)
        (List.mem_of_mem_head? hc)
      cases hDigit
    rw [Nat.toList_repr, scanNumber_of_head hHead, scanUnsigned_toDigits, numberDraft,
      Decimal.ofDigits_toDigits, if_pos (by simp; omega), Int.toNat_of_nonneg hSign]
  · next hSign =>
    have hText : ("-" ++ (-n).toNat.repr).toList = '-' :: Nat.toDigits 10 (-n).toNat := by
      rw [String.toList_append, Nat.toList_repr]
      rfl
    have hPositive : 0 < (-n).toNat := by omega
    -- a negative number may go down to the least of the signed ones
    have hMagnitude : (-n).toNat ≤ UInt64.size / 2 := by omega
    rw [hText, scanNumber_minus, scanUnsigned_toDigits, numberDraft, Decimal.ofDigits_toDigits,
      if_neg (by simp), if_pos (by simp only [hPositive, hMagnitude]; rfl),
      Int.toNat_of_nonneg (by omega), Int.neg_neg]

/-- Digits are ASCII characters. -/
theorem toNat_lt_of_isDigit {c : Char} (h : c.isDigit = true) : c.toNat < 128 := by
  simp only [Char.isDigit, Bool.and_eq_true, decide_eq_true_eq] at h
  exact Nat.lt_of_le_of_lt h.2 (by decide)

/-- The text of a whole number is all ASCII. -/
theorem seen_int (n : Int) : seen (toString n) = (toString n).toList := by
  -- digits and the minus are ASCII, which is seen as it is written
  have hDigits (n : Nat) : ∀ c ∈ n.repr.toList, c.toNat < 128 := by
    intro c hc
    rw [Nat.toList_repr] at hc
    exact toNat_lt_of_isDigit (Nat.isDigit_of_mem_toDigits (by decide) (by decide) hc)
  refine seen_of_ascii ?_
  rw [Int.toString_eq_repr, Int.repr_eq_if]
  split
  · exact hDigits _
  · rw [String.toList_append]
    intro c hc
    rcases List.mem_append.mp hc with hMinus | hc
    · rw [List.mem_singleton.mp hMinus]
      decide
    · exact hDigits _ c hc

/-! ## Floating-point numbers -/

/-- What is written for the number is read as that number. -/
def ReadsBack (f : Float) : Prop :=
  scanNumber (seen (writeLeaf (.float f))) = some (.float f, [])

end Json

end FlowNest
