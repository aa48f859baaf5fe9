import FlowNest.Proofs.Json.Numbers

/-!
# FlowNest — drafts side by side

What a value that was read looks like when it is written again, compared with the draft it
was read from: it nests no deeper, and where the numbers of the draft can be written so can
its own. Putting a value into normal form keeps to that as well.

* `Draft.Exact`   — all numbers of a draft can be written;
* `Draft.NoWorse` — a draft is no worse than another one;
* `Draft.Inside`  — it is no worse than something inside the other one;
* `noWorse_normalize` — a normal form is no worse than the value.
-/

namespace FlowNest.Json

namespace Draft

mutual

/-- All numbers are whole ones of 64 bits or finite ones. -/
def Exact : Draft → Prop
  | .int n => Fits n
  | .float f => f.isFinite = true
  | .arr items => ExactItems items
  | .obj entries => ExactEntries entries
  | _ => True

def ExactItems : List Draft → Prop
  | [] => True
  | d :: rest => Exact d ∧ ExactItems rest

def ExactEntries : List (Option String × Draft) → Prop
  | [] => True
  | (_, d) :: rest => Exact d ∧ ExactEntries rest

end

mutual

def decidableExact : ∀ d : Draft, Decidable d.Exact
  | .null | .bool _ | .str _ | .unfit | .broken => inferInstanceAs (Decidable True)
  | .int n => inferInstanceAs (Decidable (Fits n))
  | .float f => inferInstanceAs (Decidable (f.isFinite = true))
  | .arr items => decidableExactItems items
  | .obj entries => decidableExactEntries entries

def decidableExactItems : ∀ items : List Draft, Decidable (ExactItems items)
  | [] => inferInstanceAs (Decidable True)
  | d :: rest => @instDecidableAnd _ _ (decidableExact d) (decidableExactItems rest)

def decidableExactEntries : ∀ entries : List (Option String × Draft),
    Decidable (ExactEntries entries)
  | [] => inferInstanceAs (Decidable True)
  | (_, d) :: rest => @instDecidableAnd _ _ (decidableExact d) (decidableExactEntries rest)

end

instance : DecidablePred Exact := decidableExact

/-! ## Lists of drafts -/

/-- Of an array, each item is a draft of its own. -/
theorem ofItems_eq_map (items : List Json) : ofItems items = items.map ofJson := by
  induction items with
  | nil => rfl
  | cons j items ih => rw [ofItems, ih, List.map_cons]

/-- Of an object, each entry is a draft under its key. -/
theorem ofEntries_eq_map (entries : List (String × Json)) :
    ofEntries entries = entries.map fun e => (some e.1, ofJson e.2) := by
  induction entries with
  | nil => rfl
  | cons e entries ih => rw [ofEntries, ih, List.map_cons]

/-- An array is exact when its items are. -/
theorem exactItems_iff {items : List Draft} : ExactItems items ↔ ∀ d ∈ items, d.Exact := by
  induction items with
  | nil => simp [ExactItems]
  | cons d items ih => simp [ExactItems, ih]

/-- An object is exact when its values are. -/
theorem exactEntries_iff {entries : List (Option String × Draft)} :
    ExactEntries entries ↔ ∀ e ∈ entries, e.2.Exact := by
  induction entries with
  | nil => simp [ExactEntries]
  | cons e entries ih => simp [ExactEntries, ih]

/-- Items nest at most so deep when each of them does. -/
theorem depthItems_le_iff {items : List Draft} {n : Nat} :
    depthItems items ≤ n ↔ ∀ d ∈ items, d.depth ≤ n := by
  induction items with
  | nil => simp [depthItems]
  | cons d items ih => rw [depthItems, Nat.max_le, ih, List.forall_mem_cons]

/-- Entries nest at most so deep when each of their values does. -/
theorem depthEntries_le_iff {entries : List (Option String × Draft)} {n : Nat} :
    depthEntries entries ≤ n ↔ ∀ e ∈ entries, e.2.depth ≤ n := by
  induction entries with
  | nil => simp [depthEntries]
  | cons e entries ih => rw [depthEntries, Nat.max_le, ih, List.forall_mem_cons]

/-! ## Comparison -/

/-- A draft that nests no deeper than another one, and is exact when that is. -/
structure NoWorse (d' d : Draft) : Prop where
  depth : d'.depth ≤ d.depth
  exact : d.Exact → d'.Exact

/-- A draft that is no worse than what is inside another one. -/
structure Inside (d' d : Draft) : Prop where
  depth : d'.depth < d.depth
  exact : d.Exact → d'.Exact

/-- A draft is no worse than itself. -/
theorem NoWorse.refl (d : Draft) : d.NoWorse d := ⟨Nat.le_refl _, id⟩

variable {a b d : Draft}

/-- What is no worse than something inside a draft counts as inside it. -/
theorem NoWorse.inside (h : a.NoWorse b) (h' : b.Inside d) : a.Inside d :=
  ⟨Nat.lt_of_le_of_lt h.depth h'.depth, fun hd => h.exact (h'.exact hd)⟩

/-- What is inside a draft is no worse than it. -/
theorem Inside.noWorse (h : a.Inside b) : a.NoWorse b := ⟨Nat.le_of_lt h.depth, h.exact⟩

/-- What is inside of something inside a draft is inside it. -/
theorem Inside.trans (h : a.Inside b) (h' : b.Inside d) : a.Inside d := h.noWorse.inside h'

/-- The items of an array are inside it. -/
theorem inside_arr {items : List Draft} (h : d ∈ items) : d.Inside (.arr items) where
  depth := Nat.lt_succ_of_le (depthItems_le_iff.mp (Nat.le_refl _) d h)
  exact hd := exactItems_iff.mp hd d h

/-- The values of an object are inside it. -/
theorem inside_obj {entries : List (Option String × Draft)} {e : Option String × Draft}
    (h : e ∈ entries) : e.2.Inside (.obj entries) where
  depth := Nat.lt_succ_of_le (depthEntries_le_iff.mp (Nat.le_refl _) e h)
  exact hd := exactEntries_iff.mp hd e h

/-- An array is no worse than a draft that its items are inside of. -/
theorem noWorse_arr {items : List Draft} (hd : 0 < d.depth) (h : ∀ e ∈ items, e.Inside d) :
    (arr items).NoWorse d where
  depth := by
    -- the array takes the one level that its items leave
    have hItems : depthItems items ≤ d.depth - 1 :=
      depthItems_le_iff.mpr fun e he => Nat.le_sub_one_of_lt (h e he).depth
    simp only [depth]
    omega
  exact hExact := exactItems_iff.mpr fun e he => (h e he).exact hExact

/-- An object is no worse than a draft that its values are inside of. -/
theorem noWorse_obj {entries : List (Option String × Draft)} (hd : 0 < d.depth)
    (h : ∀ e ∈ entries, e.2.Inside d) : (obj entries).NoWorse d where
  depth := by
    have hEntries : depthEntries entries ≤ d.depth - 1 :=
      depthEntries_le_iff.mpr fun e he => Nat.le_sub_one_of_lt (h e he).depth
    simp only [depth]
    omega
  exact hExact := exactEntries_iff.mpr fun e he => (h e he).exact hExact

/-! ## Values -/

mutual

/-- A draft that denotes a value is the draft of that value. -/
theorem eq_ofJson_of_json? : ∀ {d : Draft} {j : Json}, d.json? = some j → d = ofJson j
  | .null, _, h | .bool _, _, h | .int _, _, h | .float _, _, h | .str _, _, h => by
    cases h
    rfl
  | .arr items, j, h => by
    obtain ⟨js, hItems, rfl⟩ := Option.map_eq_some_iff.mp h
    rw [ofJson, eq_ofItems_of_items? hItems]
  | .obj entries, j, h => by
    obtain ⟨js, hEntries, rfl⟩ := Option.map_eq_some_iff.mp h
    rw [ofJson, eq_ofEntries_of_entries? hEntries]
  | .unfit, _, h | .broken, _, h => by cases h

/-- Items that denote values are the drafts of these values. -/
theorem eq_ofItems_of_items? : ∀ {items : List Draft} {js : List Json},
    items? items = some js → items = ofItems js
  | [], _, h => by
    cases h
    rfl
  | d :: items, js, h => by
    obtain ⟨j, hj, h⟩ := Option.bind_eq_some_iff.mp h
    obtain ⟨js, hjs, h⟩ := Option.bind_eq_some_iff.mp h
    cases h
    rw [ofItems, eq_ofJson_of_json? hj, eq_ofItems_of_items? hjs]

/-- Entries that denote values are the drafts of these values, under their keys. -/
theorem eq_ofEntries_of_entries? : ∀ {entries : List (Option String × Draft)}
    {js : List (String × Json)}, entries? entries = some js → entries = ofEntries js
  | [], _, h => by
    cases h
    rfl
  | (key, d) :: entries, js, h => by
    obtain ⟨j, hj, h⟩ := Option.bind_eq_some_iff.mp h
    obtain ⟨k, hk, h⟩ := Option.bind_eq_some_iff.mp h
    obtain ⟨js, hjs, h⟩ := Option.bind_eq_some_iff.mp h
    cases h
    obtain rfl : key = some k := hk
    rw [ofEntries, eq_ofJson_of_json? hj, eq_ofEntries_of_entries? hjs]

end

/-- A written object is no worse than a draft that its values are inside of. -/
theorem noWorse_ofEntries {entries : List (String × Json)} (hd : 0 < d.depth)
    (h : ∀ e ∈ entries, (ofJson e.2).Inside d) : (ofJson (.obj entries)).NoWorse d := by
  rw [ofJson, ofEntries_eq_map]
  exact noWorse_obj hd (List.forall_mem_map.mpr h)

/-- A written array is no worse than a draft that its items are inside of. -/
theorem noWorse_ofItems {items : List Json} (hd : 0 < d.depth)
    (h : ∀ j ∈ items, (ofJson j).Inside d) : (ofJson (.arr items)).NoWorse d := by
  rw [ofJson, ofItems_eq_map]
  exact noWorse_arr hd (List.forall_mem_map.mpr h)

/-- The items of a written array are inside it. -/
theorem inside_ofItems {items : List Json} {j : Json} (h : j ∈ items) :
    (ofJson j).Inside (ofJson (.arr items)) := by
  rw [ofJson, ofItems_eq_map]
  exact inside_arr (List.mem_map_of_mem h)

/-- The values of a written object are inside it. -/
theorem inside_ofEntries {entries : List (String × Json)} {e : String × Json}
    (h : e ∈ entries) : (ofJson e.2).Inside (ofJson (.obj entries)) := by
  rw [ofJson, ofEntries_eq_map]
  exact inside_obj (e := (some e.1, ofJson e.2)) (List.mem_map_of_mem h)

/-! ## Normal forms -/

mutual

/-- A value in normal form is no worse than the value: keys are sorted and some dropped, and no
number changes. -/
theorem noWorse_normalize : ∀ j : Json, (ofJson j.normalize).NoWorse (ofJson j)
  | .null | .bool _ | .int _ | .float _ | .str _ => .refl _
  | .arr items =>
    noWorse_ofItems (Nat.succ_pos _) (inside_of_mem_normalizeItems items fun _ => inside_ofItems)
  | .obj entries =>
    noWorse_ofEntries (Nat.succ_pos _)
      (inside_of_mem_normalizeEntries entries fun _ => inside_ofEntries)

/-- Items in normal form are inside a draft that the items are inside of. -/
theorem inside_of_mem_normalizeItems {d : Draft} : ∀ items : List Json,
    (∀ j ∈ items, (ofJson j).Inside d) → ∀ j ∈ normalizeItems items, (ofJson j).Inside d
  | [], _, _, hj => by cases hj
  | j :: items, h, i, hi => by
    rcases List.mem_cons.mp hi with rfl | hi
    · exact (noWorse_normalize j).inside (h j List.mem_cons_self)
    · exact inside_of_mem_normalizeItems items (fun j hj => h j (List.mem_cons_of_mem _ hj)) i hi

/-- Entries in normal form are inside a draft that the values are inside of. -/
theorem inside_of_mem_normalizeEntries {d : Draft} : ∀ entries : List (String × Json),
    (∀ e ∈ entries, (ofJson e.2).Inside d) →
      ∀ e ∈ normalizeEntries entries, (ofJson e.2).Inside d
  | [], _, _, he => by cases he
  | (k, j) :: entries, h, e, he => by
    -- an entry that is added may take the place of another, and that is all it does
    rcases mem_addEntry he with rfl | he
    · exact (noWorse_normalize j).inside (h (k, j) List.mem_cons_self)
    · exact inside_of_mem_normalizeEntries entries
        (fun e he => h e (List.mem_cons_of_mem _ he)) e he

end

end Draft

end FlowNest.Json
