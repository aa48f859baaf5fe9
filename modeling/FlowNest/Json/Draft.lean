import FlowNest.Json

/-!
# FlowNest — drafts of JSON values

What a text turns out to hold before anyone asks it for a value. A draft is a
JSON value with two more leaves:

* `unfit`  — a well-formed piece of text that denotes no value, such as a
  number beyond the range or half of a surrogate pair. A reader may pass over
  it, but not read it.
* `broken` — the place where the text stops being JSON. Nothing follows it.

So a reader that works through a draft from left to right fails exactly where a
reader of the text would.
-/

namespace FlowNest.Json

/-- A JSON value as far as its text goes. The key of an entry is `none` when its
text denotes no string. -/
inductive Draft where
  | null
  | bool (value : Bool)
  | int (value : Int)
  | float (value : Float)
  | str (value : String)
  | arr (items : List Draft)
  | obj (entries : List (Option String × Draft))
  | unfit
  | broken
deriving Inhabited

namespace Draft

mutual

/-- A value as a draft of itself. -/
def ofJson : Json → Draft
  | .null => .null
  | .bool b => .bool b
  | .int n => .int n
  | .float f => .float f
  | .str s => .str s
  | .arr items => .arr (ofItems items)
  | .obj entries => .obj (ofEntries entries)

def ofItems : List Json → List Draft
  | [] => []
  | j :: rest => ofJson j :: ofItems rest

def ofEntries : List (String × Json) → List (Option String × Draft)
  | [] => []
  | (k, j) :: rest => (some k, ofJson j) :: ofEntries rest

end

mutual

/-- The value a draft denotes, if all of it does. -/
def json? : Draft → Option Json
  | .null => some .null
  | .bool b => some (.bool b)
  | .int n => some (.int n)
  | .float f => some (.float f)
  | .str s => some (.str s)
  | .arr items => (items? items).map .arr
  | .obj entries => (entries? entries).map .obj
  | .unfit | .broken => none

def items? : List Draft → Option (List Json)
  | [] => some []
  | d :: rest => do return (← json? d) :: (← items? rest)

def entries? : List (Option String × Draft) → Option (List (String × Json))
  | [] => some []
  | (k, d) :: rest => do
    let j ← json? d
    return (← k, j) :: (← entries? rest)

end

mutual

/-- Can a reader pass over the draft? Only a break in the text stops it. -/
def passable : Draft → Bool
  | .arr items => passableItems items
  | .obj entries => passableEntries entries
  | .broken => false
  | _ => true

def passableItems : List Draft → Bool
  | [] => true
  | d :: rest => passable d && passableItems rest

def passableEntries : List (Option String × Draft) → Bool
  | [] => true
  | (_, d) :: rest => passable d && passableEntries rest

end

mutual

/-- How deep the containers of a draft are nested. -/
def depth : Draft → Nat
  | .arr items => depthItems items + 1
  | .obj entries => depthEntries entries + 1
  | _ => 0

def depthItems : List Draft → Nat
  | [] => 0
  | d :: rest => max (depth d) (depthItems rest)

def depthEntries : List (Option String × Draft) → Nat
  | [] => 0
  | (_, d) :: rest => max (depth d) (depthEntries rest)

end

/-! ## Drafts of values -/

mutual

/-- The draft of a value denotes that value. -/
theorem json?_ofJson : ∀ j : Json, (ofJson j).json? = some j
  | .null | .bool _ | .int _ | .float _ | .str _ => rfl
  | .arr items => by simp [ofJson, json?, items?_ofItems items]
  | .obj entries => by simp [ofJson, json?, entries?_ofEntries entries]

/-- The drafts of items denote these items. -/
theorem items?_ofItems : ∀ items : List Json, items? (ofItems items) = some items
  | [] => rfl
  | j :: rest => by simp [ofItems, items?, json?_ofJson j, items?_ofItems rest]

/-- The drafts of entries denote these entries. -/
theorem entries?_ofEntries :
    ∀ entries : List (String × Json), entries? (ofEntries entries) = some entries
  | [] => rfl
  | (k, j) :: rest => by
    simp [ofEntries, entries?, json?_ofJson j, entries?_ofEntries rest]

end

mutual

/-- A reader can pass over the draft of a value, as it breaks nowhere. -/
theorem passable_ofJson : ∀ j : Json, (ofJson j).passable
  | .null | .bool _ | .int _ | .float _ | .str _ => rfl
  | .arr items => by simp [ofJson, passable, passable_ofItems items]
  | .obj entries => by simp [ofJson, passable, passable_ofEntries entries]

/-- A reader can pass over the drafts of items. -/
theorem passable_ofItems : ∀ items : List Json, passableItems (ofItems items)
  | [] => rfl
  | j :: rest => by simp [ofItems, passableItems, passable_ofJson j, passable_ofItems rest]

/-- A reader can pass over the drafts of entries. -/
theorem passable_ofEntries :
    ∀ entries : List (String × Json), passableEntries (ofEntries entries)
  | [] => rfl
  | (_, j) :: rest => by
    simp [ofEntries, passableEntries, passable_ofJson j, passable_ofEntries rest]

end

end Draft

end FlowNest.Json
