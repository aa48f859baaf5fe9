import FlowNest.Proofs.Json.Doubles
import FlowNest.Proofs.Json.Drafts

/-!
# FlowNest — written values read back

A value written in lines is read as it was, with what stands behind it left over. The
scanner may open as many containers as the value nests, and has steps enough when it has
two for each character.

* `Scans`          — a text is read as a value, from where it starts;
* `scans_pretty`   — a value written in lines is read as itself;
* `ofBytes_pretty` — so is a text that is nothing but a value.
-/

namespace FlowNest.Json

/-! ## Blanks -/

/-- May the character stand between tokens? -/
def isBlank (c : Char) : Bool :=
  c = ' ' || c = '\n' || c = '\r' || c = '\t'

variable {s rest : List Char} {c : Char} {d : Draft} {fuel room : Nat}

@[simp] theorem dropBlanks_cons_blank (h : isBlank c = true) (s : List Char) :
    dropBlanks (c :: s) = dropBlanks s :=
  List.dropWhile_cons_of_pos h

@[simp] theorem dropBlanks_cons (h : isBlank c = false) (s : List Char) :
    dropBlanks (c :: s) = c :: s :=
  List.dropWhile_cons_of_neg (Bool.not_eq_true _ ▸ h)

/-- Once blanks are dropped there are none in front. -/
@[simp] theorem dropBlanks_dropBlanks (s : List Char) :
    dropBlanks (dropBlanks s) = dropBlanks s := by
  induction s with
  | nil => rfl
  | cons c s ih =>
    cases h : isBlank c
    · simp [h]
    · simp [h, ih]

/-- An ASCII text is seen as its characters. -/
theorem seen_token (text : String) (cs : List Char) (h : text.toList = cs)
    (hAscii : cs.all (·.toNat < 128) = true) : seen text = cs := by
  subst h
  exact seen_of_ascii fun c hc => of_decide_eq_true (List.all_eq_true.mp hAscii c hc)

/-- A new line, with its indentation, is nothing but blanks. -/
@[simp] theorem dropBlanks_newline (level : Nat) (s : List Char) :
    dropBlanks (seen (newline level) ++ s) = dropBlanks s := by
  have hText : seen (newline level) = '\n' :: List.replicate (2 * level) ' ' := by
    refine seen_token _ _ (by simp [newline]) ?_
    rw [List.all_cons, List.all_replicate]
    split <;> rfl
  rw [hText, List.cons_append, dropBlanks_cons_blank rfl]
  induction 2 * level with
  | zero => rfl
  | succ n ih => rw [List.replicate_succ, List.cons_append, dropBlanks_cons_blank rfl, ih]

/-- Blanks in front of a value do not matter. -/
theorem scanValue_dropBlanks : scanValue fuel room (dropBlanks s) = scanValue fuel room s := by
  cases fuel with
  | zero => rfl
  | succ fuel => rw [scanValue, scanValue, dropBlanks_dropBlanks]

/-! ## Leaves -/

/-- A number starts with its sign or a digit. -/
theorem head_of_scanNumber (h : scanNumber s = some (d, rest)) :
    ∃ c behind, s = c :: behind ∧ (c = '-' ∨ c.isDigit = true) := by
  cases s with
  | nil => cases h
  | cons c s =>
    refine ⟨c, s, rfl, ?_⟩
    by_cases hMinus : c = '-'
    · exact .inl hMinus
    · rw [scanNumber_of_head (by simpa using hMinus)] at h
      obtain ⟨⟨whole, left⟩, hWhole, -⟩ := Option.bind_eq_some_iff.mp h
      obtain ⟨⟨ds, left'⟩, hDigits, -⟩ := Option.bind_eq_some_iff.mp hWhole
      obtain ⟨hText, hNil, hAll, -⟩ := scanDigits_eq_some_iff.mp hDigits
      -- a number has at least one digit, and without a sign it starts with it
      cases ds with
      | nil => exact absurd rfl hNil
      | cons x ds =>
        cases hText
        exact .inr (hAll c List.mem_cons_self)

/-- A text that starts a number is no container, string or word, so the number is what is scanned.
-/
theorem scanValue_number (h : scanNumber s = some (d, rest)) :
    scanValue (fuel + 1) room s = (d, some rest) := by
  obtain ⟨c, behind, rfl, hHead⟩ := head_of_scanNumber h
  have hNot (x : Char) (hx : (x != '-' && !x.isDigit) = true) : c ≠ x := by
    rintro rfl
    rcases hHead with rfl | hDigit
    · cases hx
    · simp [hDigit] at hx
  have hBlank : isBlank c = false := by
    simp [isBlank, hNot ' ' rfl, hNot '\n' rfl, hNot '\r' rfl, hNot '\t' rfl]
  rw [scanValue, dropBlanks_cons hBlank]
  split
  · next hText => cases hText; exact absurd rfl (hNot '[' rfl)
  · next hText => cases hText; exact absurd rfl (hNot '\x7b' rfl)
  · next hText => cases hText; exact absurd rfl (hNot '"' rfl)
  · -- nor is it one of the words
    have hWord (x : Char) (word : List Char) (hx : c ≠ x) :
        expect (x :: word) (c :: behind) = none := by
      simp [expect, Ne.symm hx]
    simp [hWord _ _ (hNot 'n' rfl), hWord _ _ (hNot 't' rfl), hWord _ _ (hNot 'f' rfl), h]

/-- The value is read as itself from where its text starts, and leaves what is behind. -/
def Scans (fuel room : Nat) (text : List Char) (j : Json) : Prop :=
  ∀ rest, Stops rest → scanValue fuel room (text ++ rest) = (Draft.ofJson j, some rest)

/-- Null is scanned as it was written. -/
theorem scans_null : Scans (fuel + 1) room (seen "null") .null := by
  intro rest _
  rw [seen_token "null" ['n', 'u', 'l', 'l'] rfl rfl]
  rfl

/-- A truth value is scanned as it was written. -/
theorem scans_bool (b : Bool) : Scans (fuel + 1) room (seen (writeLeaf (.bool b))) (.bool b) := by
  intro rest _
  cases b with
  | true =>
    rw [writeLeaf, seen_token "true" ['t', 'r', 'u', 'e'] rfl rfl]
    rfl
  | false =>
    rw [writeLeaf, seen_token "false" ['f', 'a', 'l', 's', 'e'] rfl rfl]
    rfl

/-- A whole number of 64 bits is scanned as it was written, whatever its sign. -/
theorem scans_int {n : Int} (h : Fits n) : Scans (fuel + 1) room (seen (toString n)) (.int n) := by
  intro rest hRest
  rw [seen_int, scanValue_number (scanNumber_stop hRest (scanNumber_int h))]
  rfl

/-- A double is scanned as it was written, if its text reads back. -/
theorem scans_float {f : Float} (h : ReadsBack f) :
    Scans (fuel + 1) room (seen (writeLeaf (.float f))) (.float f) := by
  intro rest hRest
  rw [scanValue_number (scanNumber_stop hRest h)]
  rfl

/-- A string is scanned as it was written. -/
theorem scans_str (s : String) : Scans (fuel + 1) room (seen (quote s)) (.str s) := by
  intro rest _
  obtain ⟨body, hText, hScan⟩ := scanString_seen s
  rw [hText, List.cons_append, scanValue, dropBlanks_cons rfl]
  simp only [hScan]
  rfl

/-! ## Containers -/

/-- A container that there is room for is what it is. -/
theorem contained_of_pos (h : 0 < room) (d : Draft) : contained room d = d :=
  if_neg (Nat.ne_of_gt h)

/-- A value does not start with the end of an array. -/
theorem dropBlanks_ne_of_scanValue (h : scanValue fuel room s = (d, some rest)) :
    ∀ behind, dropBlanks s ≠ ']' :: behind := by
  intro behind hEnd
  rw [← scanValue_dropBlanks, hEnd] at h
  cases fuel with
  | zero => cases h
  | succ fuel => cases h

variable {items : List Draft} {entries : List (Option String × Draft)} {key : Option String}
  {body behind : List Char} {left : Option (List Char)}

/-- The first item stands right behind the bracket. -/
theorem scanItems_first (hValue : scanValue fuel room s = (d, some rest))
    (hRest : scanItems fuel room false rest = (items, left)) :
    scanItems (fuel + 1) room true s = (d :: items, left) := by
  have hEnd := dropBlanks_ne_of_scanValue hValue
  rw [← scanValue_dropBlanks] at hValue
  unfold scanItems
  split
  · next hClose => exact absurd hClose (hEnd _)
  · contradiction
  · simp only [hValue, hRest]
  · contradiction

/-- Any other item stands behind a comma. -/
theorem scanItems_next (hValue : scanValue fuel room s = (d, some rest))
    (hRest : scanItems fuel room false rest = (items, left)) :
    scanItems (fuel + 1) room false (',' :: s) = (d :: items, left) := by
  unfold scanItems
  simp only [dropBlanks_cons (c := ',') rfl, hValue, hRest]

/-- A closing bracket ends the items. -/
theorem scanItems_end (h : dropBlanks s = ']' :: rest) (first : Bool) :
    scanItems (fuel + 1) room first s = ([], some rest) := by
  unfold scanItems
  simp only [h]

/-- An array is scanned in a bracket, with room for one container less. -/
theorem scanValue_array (hRoom : 0 < room)
    (h : scanItems fuel (room - 1) true s = (items, some rest)) :
    scanValue (fuel + 1) room ('[' :: s) = (.arr items, some rest) := by
  rw [scanValue, dropBlanks_cons rfl]
  simp only [h, contained_of_pos hRoom]

/-- The first entry stands right behind the brace: its key, a colon and its value. -/
theorem scanEntries_first (hOpen : dropBlanks s = '"' :: body)
    (hKey : scanString body = some (key, ':' :: behind))
    (hValue : scanValue fuel room behind = (d, some rest))
    (hRest : scanEntries fuel room false rest = (entries, left)) :
    scanEntries (fuel + 1) room true s = ((key, d) :: entries, left) := by
  unfold scanEntries
  rw [hOpen]
  -- the quote rules out the closing brace, and a first entry needs no comma
  split
  · next hClose => exact absurd (List.cons.inj hClose).1 (by decide)
  · contradiction
  · simp only [dropBlanks_cons (c := '"') rfl, hKey, dropBlanks_cons (c := ':') rfl, hValue, hRest]
  · contradiction

/-- Any other entry stands behind a comma. -/
theorem scanEntries_next (hOpen : dropBlanks s = '"' :: body)
    (hKey : scanString body = some (key, ':' :: behind))
    (hValue : scanValue fuel room behind = (d, some rest))
    (hRest : scanEntries fuel room false rest = (entries, left)) :
    scanEntries (fuel + 1) room false (',' :: s) = ((key, d) :: entries, left) := by
  unfold scanEntries
  simp only [dropBlanks_cons (c := ',') rfl, hOpen, hKey, dropBlanks_cons (c := ':') rfl, hValue,
    hRest]

/-- A closing brace ends the entries. -/
theorem scanEntries_end (h : dropBlanks s = '\x7d' :: rest) (first : Bool) :
    scanEntries (fuel + 1) room first s = ([], some rest) := by
  unfold scanEntries
  simp only [h]

/-- An object is scanned in a brace, with room for one container less. -/
theorem scanValue_object (hRoom : 0 < room)
    (h : scanEntries fuel (room - 1) true s = (entries, some rest)) :
    scanValue (fuel + 1) room ('\x7b' :: s) = (.obj entries, some rest) := by
  rw [scanValue, dropBlanks_cons rfl]
  simp only [h, contained_of_pos hRoom]

/-! ## Values -/

/-- A number stops at any character that is no part of one. -/
theorem stops_cons (h : (!c.isDigit && c != '.' && c != 'e' && c != 'E') = true)
    (s : List Char) : Stops (c :: s) := by
  rintro _ ⟨⟩
  simpa [and_assoc] using h

/-- A new line is indented by two blanks for each level. -/
theorem newline_eq (level : Nat) :
    newline level = "\n" ++ String.ofList (List.replicate (2 * level) ' ') := by
  rw [newline, ← List.singleton_append, String.ofList_append]

/-- What an array goes on with behind an item, or ends with, does not carry a number on. -/
theorem stops_items (level : Nat) (items : List Json) (rest : List Char) :
    Stops (seen (prettyItems level items) ++ rest) := by
  cases items with
  | nil =>
    rw [prettyItems, newline_eq, seen_append, seen_append, seen_token "\n" ['\n'] rfl rfl]
    exact stops_cons rfl _
  | cons j items =>
    simp only [prettyItems, seen_append, List.append_assoc]
    rw [seen_token "," [','] rfl rfl]
    exact stops_cons rfl _

/-- A number stops where further entries follow, or a brace does. -/
theorem stops_entries (level : Nat) (entries : List (String × Json)) (rest : List Char) :
    Stops (seen (prettyEntries level entries) ++ rest) := by
  cases entries with
  | nil =>
    rw [prettyEntries, newline_eq, seen_append, seen_append,
      seen_token "\n" ['\n'] rfl rfl]
    exact stops_cons rfl _
  | cons e entries =>
    simp only [prettyEntries, seen_append, List.append_assoc]
    rw [seen_token "," [','] rfl rfl]
    exact stops_cons rfl _

/-- A leaf takes one step, and its text is not empty. -/
theorem Scans.of_length {text : List Char} {j : Json} (h : ∀ fuel, Scans (fuel + 1) room text j)
    (hFuel : 2 * text.length ≤ fuel) : Scans fuel room text j := by
  cases fuel with
  | succ fuel => exact h fuel
  | zero =>
    obtain rfl : text = [] := List.length_eq_zero_iff.mp (by omega)
    -- without a text there is nothing to read
    have hNothing : (none : Option (List Char)) = some [] := congrArg Prod.snd (h 0 [] stops_nil)
    cases hNothing

/-- The text of an array that is not empty, piece by piece. -/
theorem seen_items (level : Nat) (j : Json) (items : List Json) :
    seen (prettyAt level (.arr (j :: items))) = '[' :: (seen (newline (level + 1)) ++
      (seen (prettyAt (level + 1) j) ++ seen (prettyItems level items))) := by
  simp only [prettyAt, seen_append, List.append_assoc]
  rw [seen_token "[" ['['] rfl rfl]
  rfl

/-- Further items are written behind a comma, each on a line of its own. -/
theorem seen_more_items (level : Nat) (j : Json) (items : List Json) :
    seen (prettyItems level (j :: items)) = ',' :: (seen (newline (level + 1)) ++
      (seen (prettyAt (level + 1) j) ++ seen (prettyItems level items))) := by
  simp only [prettyItems, seen_append, List.append_assoc]
  rw [seen_token "," [','] rfl rfl]
  rfl

/-- The text of an object that is not empty, piece by piece. -/
theorem seen_entries (level : Nat) (k : String) (j : Json) (entries : List (String × Json)) :
    seen (prettyAt level (.obj ((k, j) :: entries))) = '\x7b' :: (seen (newline (level + 1)) ++
      (seen (quote k) ++ ':' :: ' ' :: (seen (prettyAt (level + 1) j) ++
        seen (prettyEntries level entries)))) := by
  simp only [prettyAt, seen_append, List.append_assoc]
  rw [seen_token "\x7b" ['\x7b'] rfl rfl, seen_token ": " [':', ' '] rfl rfl]
  rfl

/-- Further entries are written behind a comma, each on a line of its own. -/
theorem seen_more_entries (level : Nat) (k : String) (j : Json) (entries : List (String × Json)) :
    seen (prettyEntries level ((k, j) :: entries)) = ',' :: (seen (newline (level + 1)) ++
      (seen (quote k) ++ ':' :: ' ' :: (seen (prettyAt (level + 1) j) ++
        seen (prettyEntries level entries)))) := by
  simp only [prettyEntries, seen_append, List.append_assoc]
  rw [seen_token "," [','] rfl rfl, seen_token ": " [':', ' '] rfl rfl]
  rfl

/-- Behind a new line the key of an entry comes first. -/
theorem dropBlanks_key (level : Nat) (s : List Char) :
    dropBlanks (seen (newline level) ++ '"' :: s) = '"' :: s := by
  rw [dropBlanks_newline, dropBlanks_cons rfl]

/-- A blank in front of a value is passed over. -/
theorem scanValue_blank (h : isBlank c = true) (s : List Char) :
    scanValue fuel room (c :: s) = scanValue fuel room s := by
  rw [← scanValue_dropBlanks, dropBlanks_cons_blank h, scanValue_dropBlanks]

/-- A new line in front of a value is passed over. -/
theorem scanValue_newline (level : Nat) (s : List Char) :
    scanValue fuel room (seen (newline level) ++ s) = scanValue fuel room s := by
  rw [← scanValue_dropBlanks, dropBlanks_newline, scanValue_dropBlanks]

mutual

/-- Two steps for each character are enough. -/
theorem scans_pretty (level : Nat) : ∀ j : Json, (Draft.ofJson j).Exact → ∀ fuel room : Nat,
    (Draft.ofJson j).depth ≤ room → 2 * (seen (prettyAt level j)).length ≤ fuel →
      Scans fuel room (seen (prettyAt level j)) j
  | .null, _, _, _, _, hFuel => .of_length (fun _ => scans_null) hFuel
  | .bool b, _, _, _, _, hFuel => .of_length (fun _ => scans_bool b) hFuel
  | .int _, hn, _, _, _, hFuel => .of_length (fun _ => scans_int hn) hFuel
  | .float _, hf, _, _, _, hFuel =>
    .of_length (fun _ => scans_float (readsBack_of_isFinite hf)) hFuel
  | .str s, _, _, _, _, hFuel => .of_length (fun _ => scans_str s) hFuel
  | .arr [], _, fuel, room, hRoom, hFuel => by
    intro rest _
    have hText : seen (prettyAt level (.arr [])) = ['[', ']'] :=
      seen_token _ _ (by simp [prettyAt, writeLeaf]) rfl
    rw [hText] at hFuel ⊢
    obtain ⟨fuel, rfl⟩ : ∃ n, fuel = n + 2 := Nat.exists_eq_add_of_le' (by simp at hFuel; omega)
    exact scanValue_array hRoom (scanItems_end (dropBlanks_cons rfl rest) true)
  | .obj [], _, fuel, room, hRoom, hFuel => by
    intro rest _
    have hText : seen (prettyAt level (.obj [])) = ['\x7b', '\x7d'] :=
      seen_token _ _ (by simp [prettyAt, writeLeaf]) rfl
    rw [hText] at hFuel ⊢
    obtain ⟨fuel, rfl⟩ : ∃ n, fuel = n + 2 := Nat.exists_eq_add_of_le' (by simp at hFuel; omega)
    exact scanValue_object hRoom (scanEntries_end (dropBlanks_cons rfl rest) true)
  | .arr (j :: items), hj, fuel, room, hRoom, hFuel => by
    obtain ⟨hj, hItems⟩ := hj
    intro rest _
    -- the array and its first item take a step each, and its text has more than one character
    rw [seen_items] at hFuel ⊢
    simp only [List.length_cons, List.length_append] at hFuel
    simp only [Draft.ofJson, Draft.ofItems, Draft.depth, Draft.depthItems] at hRoom ⊢
    obtain ⟨fuel, rfl⟩ : ∃ n, fuel = n + 2 := Nat.exists_eq_add_of_le' (by omega)
    have hValue := scans_pretty (level + 1) j hj fuel (room - 1) (by omega)
      (by omega) _ (stops_items level items rest)
    have hRest := scanItems_pretty level items hItems fuel (room - 1) (by omega)
      (by omega) rest
    rw [← scanValue_newline (level + 1)] at hValue
    simpa using scanValue_array (by omega) (scanItems_first hValue hRest)
  | .obj ((k, j) :: entries), hj, fuel, room, hRoom, hFuel => by
    obtain ⟨hj, hEntries⟩ := hj
    intro rest _
    rw [seen_entries] at hFuel ⊢
    simp only [List.length_cons, List.length_append] at hFuel
    simp only [Draft.ofJson, Draft.ofEntries, Draft.depth, Draft.depthEntries] at hRoom ⊢
    obtain ⟨fuel, rfl⟩ : ∃ n, fuel = n + 2 := Nat.exists_eq_add_of_le' (by omega)
    have hValue := scans_pretty (level + 1) j hj fuel (room - 1) (by omega)
      (by omega) _ (stops_entries level entries rest)
    have hRest := scanEntries_pretty level entries hEntries fuel (room - 1)
      (by omega) (by omega) rest
    obtain ⟨body, hQuote, hKey⟩ := scanString_seen k
    -- the blank behind the colon belongs to the value
    rw [← scanValue_blank (c := ' ') rfl] at hValue
    simpa [hQuote] using
      scanValue_object (by omega) (scanEntries_first (dropBlanks_key _ _) (hKey _) hValue hRest)

/-- Items in lines are scanned as they were written, up to the bracket. -/
theorem scanItems_pretty (level : Nat) : ∀ items : List Json,
    Draft.ExactItems (Draft.ofItems items) →
    ∀ fuel room : Nat, Draft.depthItems (Draft.ofItems items) ≤ room →
      2 * (seen (prettyItems level items)).length ≤ fuel → ∀ rest,
        scanItems fuel room false (seen (prettyItems level items) ++ rest) =
          (Draft.ofItems items, some rest)
  | [], _, fuel, room, _, hFuel, rest => by
    have hText : seen (prettyItems level []) = seen (newline level) ++ [']'] := by
      rw [prettyItems, seen_append, seen_token "]" [']'] rfl rfl]
    rw [hText] at hFuel ⊢
    -- the text of an item is longer than the one step it takes
    obtain ⟨fuel, rfl⟩ : ∃ n, fuel = n + 1 :=
      Nat.exists_eq_add_of_le' (by simp at hFuel; omega)
    refine scanItems_end ?_ false
    rw [List.append_assoc, dropBlanks_newline]
    exact dropBlanks_cons rfl _
  | j :: items, hj, fuel, room, hRoom, hFuel, rest => by
    obtain ⟨hj, hItems⟩ := hj
    rw [seen_more_items] at hFuel ⊢
    simp only [List.length_cons, List.length_append] at hFuel
    simp only [Draft.ofItems, Draft.depthItems] at hRoom ⊢
    obtain ⟨fuel, rfl⟩ : ∃ n, fuel = n + 1 := Nat.exists_eq_add_of_le' (by omega)
    have hValue := scans_pretty (level + 1) j hj fuel room (by omega)
      (by omega) _ (stops_items level items rest)
    have hRest := scanItems_pretty level items hItems fuel room (by omega)
      (by omega) rest
    rw [← scanValue_newline (level + 1)] at hValue
    simpa using scanItems_next hValue hRest

/-- Entries in lines are scanned as they were written, up to the brace. -/
theorem scanEntries_pretty (level : Nat) : ∀ entries : List (String × Json),
    Draft.ExactEntries (Draft.ofEntries entries) → ∀ fuel room : Nat,
      Draft.depthEntries (Draft.ofEntries entries) ≤ room →
        2 * (seen (prettyEntries level entries)).length ≤ fuel → ∀ rest,
          scanEntries fuel room false (seen (prettyEntries level entries) ++ rest) =
            (Draft.ofEntries entries, some rest)
  | [], _, fuel, room, _, hFuel, rest => by
    have hText : seen (prettyEntries level []) = seen (newline level) ++ ['\x7d'] := by
      rw [prettyEntries, seen_append, seen_token "\x7d" ['\x7d'] rfl rfl]
    rw [hText] at hFuel ⊢
    -- the text of an entry is longer than the one step it takes
    obtain ⟨fuel, rfl⟩ : ∃ n, fuel = n + 1 :=
      Nat.exists_eq_add_of_le' (by simp at hFuel; omega)
    refine scanEntries_end ?_ false
    rw [List.append_assoc, dropBlanks_newline]
    exact dropBlanks_cons rfl _
  | (k, j) :: entries, hj, fuel, room, hRoom, hFuel, rest => by
    obtain ⟨hj, hEntries⟩ := hj
    rw [seen_more_entries] at hFuel ⊢
    simp only [List.length_cons, List.length_append] at hFuel
    simp only [Draft.ofEntries, Draft.depthEntries] at hRoom ⊢
    obtain ⟨fuel, rfl⟩ : ∃ n, fuel = n + 1 := Nat.exists_eq_add_of_le' (by omega)
    have hValue := scans_pretty (level + 1) j hj fuel room (by omega)
      (by omega) _ (stops_entries level entries rest)
    have hRest := scanEntries_pretty level entries hEntries fuel room
      (by omega) (by omega) rest
    obtain ⟨body, hQuote, hKey⟩ := scanString_seen k
    rw [← scanValue_blank (c := ' ') rfl] at hValue
    simpa [hQuote] using scanEntries_next (dropBlanks_key _ _) (hKey _) hValue hRest

end

/-- A text in lines holds the value that was written, and nothing behind it. -/
theorem ofBytes_pretty {j : Json} (h : (Draft.ofJson j).Exact)
    (hDepth : (Draft.ofJson j).depth ≤ deepest) :
    Reading.ofBytes j.pretty.toUTF8.toList = ⟨Draft.ofJson j, true⟩ := by
  have hScan := scans_pretty 0 j h (2 * (seen j.pretty).length + 2) deepest hDepth
    (Nat.le_add_right _ _) [] stops_nil
  rw [List.append_nil, pretty] at hScan
  have hSeen : j.pretty.toUTF8.toList.map (fun b => Char.ofNat b.toNat) = seen j.pretty := rfl
  unfold Reading.ofBytes
  dsimp only
  rw [hSeen, pretty, hScan]
  rfl

end FlowNest.Json
