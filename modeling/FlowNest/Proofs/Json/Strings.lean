import Mathlib.Data.List.Basic
import FlowNest.Json.Text
import FlowNest.Json.Written

/-!
# FlowNest — written strings read back

A scanner sees the bytes of a text, each as the character with its code. Behind the
opening quote of a written string it takes one character after the other, whether that
was escaped or stands as its own bytes, and what it has in the end is the string.

* `seen`             — a text as a scanner sees it;
* `spells_writeChar` — one written character gives the pieces of its bytes;
* `scanString_seen`  — a written string reads back, whatever stands behind it.
-/

namespace FlowNest.Json

/-! ## Bytes -/

/-- What the loop over the bytes has gathered comes before the bytes not reached yet. -/
theorem gathered_eq (bs : ByteArray) (i : Nat) (done : List UInt8) :
    ByteArray.toList.loop bs i done = done.reverse ++ bs.data.toList.drop i := by
  fun_induction ByteArray.toList.loop bs i done with
  | case1 i done hMore ih =>
    have hNext : bs.data.toList.drop i = bs.get! i :: bs.data.toList.drop (i + 1) := by
      rw [List.drop_eq_getElem_cons (by simpa using hMore), Array.getElem_toList]
      exact congrArg (· :: _) (getElem!_pos bs.data i hMore).symm
    rw [ih, hNext, List.reverse_cons, List.append_assoc, List.singleton_append]
  | case2 i done hEnd =>
    rw [List.drop_eq_nil_of_le (Nat.le_of_not_lt hEnd), List.append_nil]

theorem toList_byteArray (bs : ByteArray) : bs.toList = bs.data.toList := by
  rw [ByteArray.toList, gathered_eq, List.reverse_nil, List.nil_append, List.drop_zero]

/-- A text is encoded character by character. -/
theorem toList_toUTF8 (s : String) :
    s.toUTF8.toList = s.toList.flatMap String.utf8EncodeChar := by
  have hBytes : s.toUTF8 = s.toList.utf8Encode := by
    rw [← String.toByteArray_ofList, String.ofList_toList]
    rfl
  rw [toList_byteArray, hBytes]
  exact List.toList_data_toByteArray

/-- A byte as a scanner sees it. -/
def seenByte (b : UInt8) : Char :=
  Char.ofNat b.toNat

/-- A text as a scanner sees it. -/
def seen (s : String) : List Char :=
  s.toUTF8.toList.map seenByte

/-- A character as a scanner sees it. -/
def seenChar (c : Char) : List Char :=
  (String.utf8EncodeChar c).map seenByte

/-- A text is seen character by character. -/
theorem seen_eq (s : String) : seen s = s.toList.flatMap seenChar := by
  rw [seen, toList_toUTF8, List.map_flatMap]
  rfl

@[simp] theorem seen_append (s t : String) : seen (s ++ t) = seen s ++ seen t := by
  rw [seen_eq, seen_eq, seen_eq, String.toList_append, List.flatMap_append]

/-- A byte is seen as the character with its code. -/
theorem toNat_seenByte (b : UInt8) : (seenByte b).toNat = b.toNat := by
  rw [seenByte, Char.ofNat, dif_pos (.inl (Nat.lt_trans b.toNat_lt (by decide)))]
  rfl

/-- A byte can be told from how it is seen. -/
theorem toUInt8_seenByte (b : UInt8) : (seenByte b).toUInt8 = b :=
  UInt8.toNat.inj <| by
    show (seenByte b).toNat % 256 = b.toNat
    rw [toNat_seenByte, Nat.mod_eq_of_lt b.toNat_lt]

/-- An ASCII character is seen as it is. -/
theorem seenChar_of_lt {c : Char} (h : c.toNat < 128) : seenChar c = [c] := by
  have hBytes : String.utf8EncodeChar c = [UInt8.ofNat c.toNat] := by
    rw [String.utf8EncodeChar]
    exact if_pos (Nat.le_of_lt_succ h)
  have hByte : c.toNat < UInt8.size := Nat.lt_trans h (by decide)
  rw [seenChar, hBytes, List.map_singleton, seenByte, UInt8.toNat_ofNat_of_lt' hByte,
    Char.ofNat_toNat]

/-- Of any other character all bytes are beyond ASCII. -/
theorem le_of_mem_seenChar {c x : Char} (h : 128 ≤ c.toNat) (hx : x ∈ seenChar c) :
    128 ≤ x.toNat := by
  obtain ⟨b, hb, rfl⟩ := List.mem_map.mp hx
  rw [toNat_seenByte]
  have hLong : ¬c.val.toNat ≤ 127 := Nat.not_le_of_lt h
  simp only [String.utf8EncodeChar, if_neg hLong] at hb
  -- a character past ASCII takes two, three or four bytes, each with its high bit set
  split at hb
  · simp only [List.mem_cons, List.not_mem_nil, or_false] at hb
    rcases hb with rfl | rfl <;> simp <;> omega
  · split at hb
    · simp only [List.mem_cons, List.not_mem_nil, or_false] at hb
      rcases hb with rfl | rfl | rfl <;> simp <;> omega
    · simp only [List.mem_cons, List.not_mem_nil, or_false] at hb
      rcases hb with rfl | rfl | rfl | rfl <;> simp <;> omega

/-- ASCII characters are seen as they are. -/
theorem flatMap_seenChar {cs : List Char} (h : ∀ c ∈ cs, c.toNat < 128) :
    cs.flatMap seenChar = cs := by
  rw [List.flatMap_congr fun c hc => seenChar_of_lt (h c hc), List.flatMap_singleton']

/-- A text in ASCII is seen as it is. -/
theorem seen_of_ascii {s : String} (h : ∀ c ∈ s.toList, c.toNat < 128) : seen s = s.toList := by
  rw [seen_eq, flatMap_seenChar h]

/-! ## Pieces -/

/-- Inside a string the text stands for the bytes, whatever comes behind it. -/
def Spells (text : List Char) (bytes : List UInt8) : Prop :=
  ∃ pieces, (∀ rest, scanPieces (text ++ rest) =
      (scanPieces rest).map fun (others, end_) => (pieces ++ others, end_)) ∧
    ∀ others, pieceBytes (pieces ++ others) = (pieceBytes others).map (bytes ++ ·)

/-- Nothing spells nothing. -/
theorem spells_nil : Spells [] [] :=
  ⟨[], by simp, by simp⟩

/-- Pieces one after the other spell their bytes one after the other. -/
theorem Spells.append {s t : List Char} {as bs : List UInt8} (hs : Spells s as)
    (ht : Spells t bs) : Spells (s ++ t) (as ++ bs) := by
  obtain ⟨ps, hScan, hBytes⟩ := hs
  obtain ⟨qs, hScan', hBytes'⟩ := ht
  refine ⟨ps ++ qs, fun rest => ?_, fun others => ?_⟩
  · rw [List.append_assoc, hScan, hScan', Option.map_map]
    simp [Function.comp_def]
  · rw [List.append_assoc, hBytes, hBytes', Option.map_map]
    simp [Function.comp_def]

/-- Bytes that need no escape stand for themselves. -/
theorem spells_bytes {bytes : List UInt8}
    (h : ∀ x ∈ bytes.map seenByte, x ≠ '"' ∧ x ≠ '\\' ∧ ¬x < ' ') :
    Spells (bytes.map seenByte) bytes := by
  induction bytes with
  | nil => exact spells_nil
  | cons b rest ih =>
    obtain ⟨⟨hQuote, hSlash, hControl⟩, hRest⟩ := List.forall_mem_cons.mp h
    -- such a byte ends nothing and escapes nothing, so it stands for itself
    have hHead : Spells [seenByte b] [b] := by
      refine ⟨[.byte b], fun rest => ?_, fun _ => rfl⟩
      rw [List.singleton_append, scanPieces, if_neg hControl, toUInt8_seenByte]
      · cases scanPieces rest <;> rfl
      · exact hQuote
      · exact fun _ _ _ _ _ h _ => hSlash h
      · exact fun _ _ h _ => hSlash h
    exact hHead.append (ih hRest)

/-- A letter behind a backslash stands for the byte it escapes. -/
theorem spells_escape {x : Char} {b : UInt8} (h : escapedByte x = some b) (hx : x ≠ 'u') :
    Spells ['\\', x] [b] := by
  refine ⟨[.byte b], fun rest => ?_, fun others => rfl⟩
  rw [List.cons_append, List.singleton_append, scanPieces, h]
  · cases scanPieces rest <;> rfl
  · exact fun _ _ _ _ _ h _ => hx h

/-- A hexadecimal digit is read as it was written. -/
theorem hexDigit_hexChar : ∀ n < 16, hexDigit (hexChar n) = some n := by
  decide

theorem hexChar_ascii : ∀ n < 16, (hexChar n).toNat < 128 := by
  decide

/-- A control character in four digits stands for itself. -/
theorem spells_control {c : Char} (h : c < ' ') :
    Spells ['\\', 'u', '0', '0', hexChar (c.toNat / 16), hexChar (c.toNat % 16)]
      (String.utf8EncodeChar c) := by
  have hSmall : c.toNat < 32 := h
  refine ⟨[.unit c.toNat], fun rest => ?_, fun others => ?_⟩
  · have hHigh := hexDigit_hexChar (c.toNat / 16) (by omega)
    have hLow := hexDigit_hexChar (c.toNat % 16) (by omega)
    have hUnit : ((0 * 16 + 0) * 16 + c.toNat / 16) * 16 + c.toNat % 16 = c.toNat := by omega
    have hZero : hexDigit '0' = some 0 := rfl
    simp only [List.cons_append, List.nil_append, scanPieces, hHigh, hLow, hZero,
      Option.bind_eq_bind, Option.bind_some, hUnit]
    cases scanPieces rest <;> rfl
  · have hBytes : (Char.ofNat c.toNat).toString.toUTF8.toList = String.utf8EncodeChar c := by
      rw [Char.ofNat_toNat, toList_toUTF8, Char.toString, String.toList_singleton,
        List.flatMap_singleton]
    -- it is no half of a surrogate pair, whatever comes next
    have hFirst : ¬(0xd800 ≤ c.toNat ∧ c.toNat < 0xdc00) := by omega
    have hSecond : ¬(0xdc00 ≤ c.toNat ∧ c.toNat < 0xe000) := by omega
    have hHalf : ¬(0xd800 ≤ c.toNat ∧ c.toNat < 0xe000) := by omega
    cases others with
    | nil => simp only [List.append_nil, pieceBytes, if_neg hHalf, hBytes]
    | cons next others =>
      cases next with
      | byte b => simp only [List.singleton_append, pieceBytes, if_neg hHalf, hBytes]
      | unit low =>
        simp only [List.singleton_append, pieceBytes, if_neg hFirst, if_neg hSecond, hBytes]

/-- A written character stands for itself. -/
theorem spells_writeChar (c : Char) :
    Spells ((writeChar c).flatMap seenChar) (String.utf8EncodeChar c) := by
  unfold writeChar
  split
  · exact spells_escape (x := '"') rfl (by decide)
  · exact spells_escape (x := '\\') rfl (by decide)
  · exact spells_escape (x := 'n') rfl (by decide)
  · exact spells_escape (x := 'r') rfl (by decide)
  · exact spells_escape (x := 't') rfl (by decide)
  · exact spells_escape (x := 'b') rfl (by decide)
  · exact spells_escape (x := 'f') rfl (by decide)
  · next hQuote hSlash _ _ _ _ _ =>
    split
    · next hControl =>
      have hSmall : c.toNat < 32 := hControl
      have hHigh := hexChar_ascii (c.toNat / 16) (by omega)
      have hLow := hexChar_ascii (c.toNat % 16) (by omega)
      rw [flatMap_seenChar (by simp [hHigh, hLow])]
      exact spells_control hControl
    · next hControl =>
      rw [List.flatMap_singleton]
      refine spells_bytes fun x hx => ?_
      change x ∈ seenChar c at hx
      -- a character past ASCII is written as it is, in bytes none of which is special
      by_cases hAscii : c.toNat < 128
      · rw [seenChar_of_lt hAscii, List.mem_singleton] at hx
        exact hx ▸ ⟨hQuote, hSlash, hControl⟩
      · have hBeyond := le_of_mem_seenChar (Nat.le_of_not_lt hAscii) hx
        have hNot (y : Char) (hy : y.toNat < 128) : x ≠ y := fun h =>
          absurd (h ▸ hy) (Nat.not_lt_of_le hBeyond)
        have hControl : ¬x.toNat < 32 := by omega
        exact ⟨hNot _ (by decide), hNot _ (by decide), hControl⟩

/-! ## Strings -/

/-- The characters of a string are scanned up to the closing quote, and denote the bytes that they
have. -/
theorem scanPieces_seen (cs : List Char) (rest : List Char) :
    ∃ pieces, scanPieces ((cs.flatMap writeChar).flatMap seenChar ++ '"' :: rest) =
        some (pieces, rest) ∧
      pieceBytes pieces = some (cs.flatMap String.utf8EncodeChar) := by
  -- each character is spelled on its own, and spellings can be joined
  have hAll : Spells ((cs.flatMap writeChar).flatMap seenChar)
      (cs.flatMap String.utf8EncodeChar) := by
    induction cs with
    | nil => exact spells_nil
    | cons c cs ih =>
      rw [List.flatMap_cons, List.flatMap_append, List.flatMap_cons]
      exact (spells_writeChar c).append ih
  obtain ⟨pieces, hScan, hBytes⟩ := hAll
  refine ⟨pieces, ?_, ?_⟩
  · rw [hScan, scanPieces, Option.map_some]
    simp
  · rw [← List.append_nil pieces, hBytes, pieceBytes, Option.map_some, List.append_nil]

/-- Behind its opening quote a written string reads back, and its text ends with it. -/
theorem scanString_seen (s : String) :
    ∃ body, seen (quote s) = '"' :: body ∧
      ∀ rest, scanString (body ++ rest) = some (some s, rest) := by
  refine ⟨(s.toList.flatMap writeChar).flatMap seenChar ++ ['"'], ?_, fun rest => ?_⟩
  · have hQuote : seenChar '"' = ['"'] := rfl
    rw [seen_eq, quote, String.toList_ofList]
    simp only [List.cons_append, List.flatMap_cons, List.flatMap_append, List.flatMap_nil, hQuote,
      List.nil_append]
  · obtain ⟨pieces, hScan, hBytes⟩ := scanPieces_seen s.toList rest
    -- the bytes are those of a string, so they decode to it
    have hText : String.fromUTF8? ⟨(s.toList.flatMap String.utf8EncodeChar).toArray⟩ = some s := by
      rw [← toList_toUTF8, toList_byteArray, Array.toArray_toList]
      exact dif_pos s.isValidUTF8
    rw [scanString, List.append_assoc, List.singleton_append, hScan]
    simp only [Option.bind_eq_bind, Option.bind_some, hBytes, hText]
    rfl

end FlowNest.Json
