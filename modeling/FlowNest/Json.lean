/-!
# FlowNest — JSON values

A JSON value keeps the entries of an object in the order in which they were
written. Where only the content counts, as in a constant that a port carries,
the value is put into normal form first: in every object the keys ascend and
each occurs once, the last of equal keys having won.

* `Json.normalize_normalize` — a normal form is its own normal form;
* `Constant`                 — a value in normal form.
-/

namespace FlowNest

/-- A JSON value. Whole numbers are kept apart from floating-point ones. -/
inductive Json where
  | null
  | bool (value : Bool)
  | int (value : Int)
  | float (value : Float)
  | str (value : String)
  | arr (items : List Json)
  | obj (entries : List (String × Json))
deriving Inhabited

namespace Json

/-- The value of an object's first entry with this key. -/
def get? : Json → String → Option Json
  | .obj entries, key => entries.lookup key
  | _, _ => none

mutual

/-- Equality of values: numbers compare as numbers, so the two zeros are equal. -/
def beq : Json → Json → Bool
  | .null, .null => true
  | .bool a, .bool b => a == b
  | .int a, .int b => a == b
  | .float a, .float b => a == b
  | .str a, .str b => a == b
  | .arr a, .arr b => beqItems a b
  | .obj a, .obj b => beqEntries a b
  | _, _ => false

def beqItems : List Json → List Json → Bool
  | [], [] => true
  | a :: as, b :: bs => beq a b && beqItems as bs
  | _, _ => false

def beqEntries : List (String × Json) → List (String × Json) → Bool
  | [], [] => true
  | (j, a) :: as, (k, b) :: bs => j == k && beq a b && beqEntries as bs
  | _, _ => false

end

instance : BEq Json := ⟨beq⟩

/-! ## Normal form -/

/-- Puts an entry in its place, unless its key is there already. -/
def addEntry (key : String) (value : Json) : List (String × Json) → List (String × Json)
  | [] => [(key, value)]
  | (k, v) :: rest =>
    if key < k then (key, value) :: (k, v) :: rest
    else if key = k then (k, v) :: rest
    else (k, v) :: addEntry key value rest

mutual

/-- The normal form: keys ascend and occur once, the last of equal keys wins. -/
def normalize : Json → Json
  | .arr items => .arr (normalizeItems items)
  | .obj entries => .obj (normalizeEntries entries)
  | j => j

def normalizeItems : List Json → List Json
  | [] => []
  | j :: rest => normalize j :: normalizeItems rest

def normalizeEntries : List (String × Json) → List (String × Json)
  | [] => []
  | (k, j) :: rest => addEntry k (normalize j) (normalizeEntries rest)

end

/-- Keys strictly ascend. -/
def Ascending (entries : List (String × Json)) : Prop :=
  entries.Pairwise (·.1 < ·.1)

/-- An entry that is added may be lost to one with its key, and nothing else comes in. -/
theorem mem_addEntry {key : String} {value : Json} {e : String × Json} :
    ∀ {entries : List (String × Json)}, e ∈ addEntry key value entries →
      e = (key, value) ∨ e ∈ entries
  | [], h => by simpa [addEntry] using h
  | (k, v) :: rest, h => by
    unfold addEntry at h
    split at h
    · simpa using h
    · split at h
      · exact .inr h
      · rcases List.mem_cons.1 h with rfl | h
        · simp
        · rcases mem_addEntry h with h | h <;> simp [h]

/-- The place of an entry is where it keeps the keys ascending. -/
theorem Ascending.addEntry {key : String} {value : Json} :
    ∀ {entries : List (String × Json)}, Ascending entries →
      Ascending (addEntry key value entries)
  | [], _ => by simp [Json.addEntry, Ascending]
  | (k, v) :: rest, h => by
    have ⟨hk, hrest⟩ := List.pairwise_cons.1 h
    unfold Json.addEntry
    split
    · next hlt =>
      refine List.pairwise_cons.2 ⟨fun e he => ?_, h⟩
      rcases List.mem_cons.1 he with rfl | he
      · exact hlt
      · exact String.lt_trans hlt (hk e he)
    · split
      · exact h
      -- the new key is greater than the first one, so it goes somewhere behind it
      · next hnot hne =>
        refine List.pairwise_cons.2 ⟨fun e he => ?_, Ascending.addEntry hrest⟩
        rcases mem_addEntry he with rfl | he
        · exact Std.lt_of_le_of_ne (Std.not_lt.1 hnot) (Ne.symm hne)
        · exact hk e he

/-- The keys of a normal form ascend, whatever the order of the entries was. -/
theorem ascending_normalizeEntries :
    ∀ entries : List (String × Json), Ascending (normalizeEntries entries)
  | [] => by simp [normalizeEntries, Ascending]
  | (k, j) :: rest => by
    unfold normalizeEntries
    exact (ascending_normalizeEntries rest).addEntry

/-- An ascending list of entries in normal form is its own normal form. -/
theorem normalizeEntries_eq_self :
    ∀ {entries : List (String × Json)}, Ascending entries →
      (∀ e ∈ entries, e.2.normalize = e.2) → normalizeEntries entries = entries
  | [], _, _ => rfl
  | (k, j) :: rest, h, hnorm => by
    have ⟨hk, hrest⟩ := List.pairwise_cons.1 h
    rw [normalizeEntries, normalizeEntries_eq_self hrest fun e he => hnorm e (by simp [he]),
      hnorm (k, j) (by simp)]
    cases rest with
    | nil => rfl
    | cons e rest => simp [Json.addEntry, hk e (by simp)]

mutual

/-- A normal form is its own normal form. -/
theorem normalize_normalize : ∀ j : Json, j.normalize.normalize = j.normalize
  | .null | .bool _ | .int _ | .float _ | .str _ => rfl
  | .arr items => by simp [normalize, normalizeItems_normalizeItems items]
  | .obj entries => by
    simp only [normalize, Json.obj.injEq]
    exact normalizeEntries_eq_self (ascending_normalizeEntries entries)
      (normalize_of_mem_normalizeEntries entries)

/-- So are items that have been put into normal form. -/
theorem normalizeItems_normalizeItems :
    ∀ items : List Json, normalizeItems (normalizeItems items) = normalizeItems items
  | [] => rfl
  | j :: rest => by
    simp [normalizeItems, normalize_normalize j, normalizeItems_normalizeItems rest]

/-- The values of an object in normal form are in normal form. -/
theorem normalize_of_mem_normalizeEntries :
    ∀ (entries : List (String × Json)), ∀ e ∈ normalizeEntries entries, e.2.normalize = e.2
  | [], e, h => by simp [normalizeEntries] at h
  | (k, j) :: rest, e, h => by
    rcases mem_addEntry h with rfl | h
    · exact normalize_normalize j
    · exact normalize_of_mem_normalizeEntries rest e h

end

end Json

/-- A JSON value in normal form. -/
structure Constant where
  json : Json
  normal : json.normalize = json

namespace Constant

/-- The constant with the content of `json`. -/
def ofJson (json : Json) : Constant :=
  ⟨json.normalize, json.normalize_normalize⟩

/-- A constant is determined by its JSON. -/
theorem ofJson_json (c : Constant) : ofJson c.json = c := by
  cases c with
  | mk json normal => simp [ofJson, normal]

instance : BEq Constant := ⟨fun a b => a.json == b.json⟩

end Constant

end FlowNest
