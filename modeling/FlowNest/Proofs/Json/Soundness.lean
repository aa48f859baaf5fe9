import FlowNest.Proofs.Decimal.Nearest
import FlowNest.Proofs.Decimal.Packing
import FlowNest.Proofs.Json.Drafts

/-!
# FlowNest — what a text can hold

Whatever a text is, the draft read from it nests no deeper than the scanner may go, and its
numbers are whole ones of 64 bits or finite ones.

* `Draft.Sound`           — a draft that nests so far, with such numbers;
* `scan_sound`            — so is whatever is scanned;
* `Reading.ofBytes_sound` — so is every draft that comes from a text.
-/

namespace FlowNest.Json

/-- The draft nests at most so many containers, and its numbers are exact. -/
structure Draft.Sound (room : Nat) (d : Draft) : Prop where
  exact : d.Exact
  depth : d.depth ≤ room

open Draft

/-- A number that is read is whole with 64 bits, or it is finite: one that rounds to infinity
denotes nothing. -/
theorem sound_numberDraft (room : Nat) (negative : Bool) (whole : List Char)
    (fraction : Option (List Char)) (power : Option Int) :
    (numberDraft negative whole fraction power).Sound room := by
  unfold numberDraft
  dsimp only
  -- a whole number that is not too great, one below zero, or a double
  split
  · next hWhole =>
    have hBelow : Decimal.ofDigits whole < UInt64.size := by simp_all
    exact ⟨⟨by omega, by exact_mod_cast hBelow⟩, Nat.zero_le _⟩
  · split
    · next hWhole =>
      have hBelow : Decimal.ofDigits whole ≤ UInt64.size / 2 := of_decide_eq_true (by simp_all)
      have hSize : 0 < UInt64.size := by decide
      exact ⟨⟨by omega, by omega⟩, Nat.zero_le _⟩
    · split
      · exact ⟨trivial, Nat.zero_le _⟩
      · next hInf =>
        have hFinite := Decimal.isFinite_of_isInf (Decimal.isNaN_nearest _ _)
          (Bool.not_eq_true _ ▸ hInf)
        cases negative with
        | false => exact ⟨hFinite, Nat.zero_le _⟩
        | true => exact ⟨Decimal.isFinite_neg hFinite, Nat.zero_le _⟩

/-- So a number that is scanned is exact. -/
theorem sound_of_scanNumber {s rest : List Char} {d : Draft} {room : Nat}
    (h : scanNumber s = some (d, rest)) : d.Sound room := by
  unfold scanNumber at h
  dsimp only at h
  obtain ⟨⟨whole, s₁⟩, -, h⟩ := Option.bind_eq_some_iff.mp h
  obtain ⟨⟨fraction, s₂⟩, -, h⟩ := Option.bind_eq_some_iff.mp h
  obtain ⟨⟨power, s₃⟩, -, h⟩ := Option.bind_eq_some_iff.mp h
  cases h
  exact sound_numberDraft _ _ _ _ _

/-- A container that there is no room for is no value, so only one with room has to be looked at.
-/
theorem sound_contained {room : Nat} {d : Draft} (h : 0 < room → d.Sound room) :
    (contained room d).Sound room := by
  unfold contained
  split
  · split
    · exact ⟨trivial, Nat.zero_le _⟩
    · exact ⟨trivial, Nat.zero_le _⟩
  · next hRoom => exact h (Nat.pos_of_ne_zero hRoom)

/-! ## Items and entries -/

/-- Items that nest at most so many containers, with exact numbers. -/
structure SoundItems (room : Nat) (items : List Draft) : Prop where
  exact : ExactItems items
  depth : depthItems items ≤ room

structure SoundEntries (room : Nat) (entries : List (Option String × Draft)) : Prop where
  exact : ExactEntries entries
  depth : depthEntries entries ≤ room

section

variable {room : Nat} {d : Draft} {items : List Draft} {key : Option String}
  {entries : List (Option String × Draft)}

/-- Where there are no items nothing is nested. -/
theorem soundItems_nil : SoundItems room [] := ⟨trivial, Nat.zero_le _⟩

/-- An item may be put in front of others. -/
theorem SoundItems.cons (h : d.Sound room) (hItems : SoundItems room items) :
    SoundItems room (d :: items) :=
  ⟨⟨h.exact, hItems.exact⟩, Nat.max_le.mpr ⟨h.depth, hItems.depth⟩⟩

/-- An array takes one container of the room, and leaves the rest to its items. -/
theorem SoundItems.contained (h : SoundItems (room - 1) items) :
    (contained room (.arr items)).Sound room := by
  refine sound_contained fun hRoom => ⟨h.exact, ?_⟩
  have hDepth := h.depth
  simp only [Draft.depth]
  omega

/-- Where there are no entries nothing is nested. -/
theorem soundEntries_nil : SoundEntries room [] := ⟨trivial, Nat.zero_le _⟩

/-- An entry may be put in front of others. -/
theorem SoundEntries.cons (h : d.Sound room) (hEntries : SoundEntries room entries) :
    SoundEntries room ((key, d) :: entries) :=
  ⟨⟨h.exact, hEntries.exact⟩, Nat.max_le.mpr ⟨h.depth, hEntries.depth⟩⟩

/-- An object takes one container of the room, and leaves the rest to its values. -/
theorem SoundEntries.contained (h : SoundEntries (room - 1) entries) :
    (contained room (.obj entries)).Sound room := by
  refine sound_contained fun hRoom => ⟨h.exact, ?_⟩
  have hDepth := h.depth
  simp only [Draft.depth]
  omega

/-- Where the text breaks, nothing is nested. -/
theorem sound_broken : broken.Sound room := ⟨trivial, Nat.zero_le _⟩

end

variable {fuel room : Nat}

/-- An item, and those behind it. -/
def scanItem (fuel room : Nat) (s : List Char) : List Draft × Option (List Char) :=
  match scanValue fuel room s with
  | (d, some rest) =>
    let (items, rest) := scanItems fuel room false rest
    (d :: items, rest)
  | (d, none) => ([d], none)

/-- An item that is scanned is sound with those behind it, if values and further items are. -/
theorem soundItems_scanItem (hValue : ∀ s, (scanValue fuel room s).1.Sound room)
    (hItems : ∀ s, SoundItems room (scanItems fuel room false s).1) (s : List Char) :
    SoundItems room (scanItem fuel room s).1 := by
  have hFirst := hValue s
  unfold scanItem
  -- the scan goes on behind a value, or stops at one that breaks off
  split
  · next d rest hScan =>
    rw [hScan] at hFirst
    exact .cons hFirst (hItems rest)
  · next d hScan =>
    rw [hScan] at hFirst
    exact .cons hFirst soundItems_nil

/-- The value of an entry, and the entries behind it. -/
def scanEntryValue (fuel room : Nat) (key : Option String) (s : List Char) :
    List (Option String × Draft) × Option (List Char) :=
  match dropBlanks s with
  | ':' :: s =>
    match scanValue fuel room s with
    | (d, some rest) =>
      let (entries, rest) := scanEntries fuel room false rest
      ((key, d) :: entries, rest)
    | (d, none) => ([(key, d)], none)
  | _ => ([(key, .broken)], none)

/-- An entry, and those behind it. -/
def scanEntry (fuel room : Nat) (s : List Char) :
    List (Option String × Draft) × Option (List Char) :=
  match dropBlanks s with
  | '"' :: s =>
    match scanString s with
    | none => ([(none, .broken)], none)
    | some (key, s) => scanEntryValue fuel room key s
  | _ => ([(none, .broken)], none)

/-- The value of an entry is sound with the entries behind it, if values and further entries are.
-/
theorem soundEntries_scanEntryValue (hValue : ∀ s, (scanValue fuel room s).1.Sound room)
    (hEntries : ∀ s, SoundEntries room (scanEntries fuel room false s).1) (key : Option String)
    (s : List Char) : SoundEntries room (scanEntryValue fuel room key s).1 := by
  unfold scanEntryValue
  -- without a colon the entry is broken, and so the scan ends
  split
  · next s _ =>
    have hFirst := hValue s
    split
    · next d rest hScan =>
      rw [hScan] at hFirst
      exact .cons hFirst (hEntries rest)
    · next d hScan =>
      rw [hScan] at hFirst
      exact .cons hFirst soundEntries_nil
  · exact .cons sound_broken soundEntries_nil

/-- An entry that is scanned is sound with those behind it, if values and further entries are. -/
theorem soundEntries_scanEntry (hValue : ∀ s, (scanValue fuel room s).1.Sound room)
    (hEntries : ∀ s, SoundEntries room (scanEntries fuel room false s).1) (s : List Char) :
    SoundEntries room (scanEntry fuel room s).1 := by
  unfold scanEntry
  split
  · split
    · exact .cons sound_broken soundEntries_nil
    · exact soundEntries_scanEntryValue hValue hEntries _ _
  · exact .cons sound_broken soundEntries_nil

/-! ## Texts -/

/-- What is scanned nests only as far as there is room. -/
theorem scan_sound (fuel : Nat) :
    (∀ room s, (scanValue fuel room s).1.Sound room) ∧
      (∀ room first s, SoundItems room (scanItems fuel room first s).1) ∧
      ∀ room first s, SoundEntries room (scanEntries fuel room first s).1 := by
  -- each scanner calls the others with one step less
  induction fuel with
  | zero =>
    refine ⟨fun _ _ => sound_broken, fun room first s => ?_, fun room first s => ?_⟩
    · rw [scanItems]
      exact .cons sound_broken soundItems_nil
    · rw [scanEntries]
      exact .cons sound_broken soundEntries_nil
  | succ fuel ih =>
    obtain ⟨hValue, hItems, hEntries⟩ := ih
    refine ⟨fun room s => ?_, fun room first s => ?_, fun room first s => ?_⟩
    · unfold scanValue
      split
      · exact (hItems (room - 1) true _).contained
      · exact (hEntries (room - 1) true _).contained
      · split <;> exact ⟨trivial, Nat.zero_le _⟩
      · dsimp only
        split
        -- a word, or else a number
        · next d rest hScan =>
          simp only [Option.orElse_eq_orElse, Option.orElse_eq_or, Option.or_eq_some_iff,
            Option.map_eq_some_iff, Prod.mk.injEq] at hScan
          obtain ⟨_, -, rfl, -⟩ | ⟨-, ⟨_, -, rfl, -⟩ | ⟨-, ⟨_, -, rfl, -⟩ | ⟨-, hNumber⟩⟩⟩ := hScan
          · exact ⟨trivial, Nat.zero_le _⟩
          · exact ⟨trivial, Nat.zero_le _⟩
          · exact ⟨trivial, Nat.zero_le _⟩
          · exact sound_of_scanNumber hNumber
        · exact sound_broken
    · have hItem := soundItems_scanItem (hValue room) (hItems room false)
      unfold scanItems
      split
      · exact soundItems_nil
      · exact hItem _
      · exact hItem _
      · exact .cons sound_broken soundItems_nil
    · have hEntry := soundEntries_scanEntry (hValue room) (hEntries room false)
      unfold scanEntries
      split
      · exact soundEntries_nil
      · exact hEntry _
      · exact hEntry _
      · exact .cons sound_broken soundEntries_nil

namespace Reading

/-- What a text holds nests no deeper than it may. -/
theorem ofBytes_sound (bytes : List UInt8) : (ofBytes bytes).draft.Sound deepest := by
  unfold ofBytes
  exact (scan_sound _).1 _ _

end Reading

end FlowNest.Json
