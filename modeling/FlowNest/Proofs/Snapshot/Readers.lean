import FlowNest.Proofs.Snapshot.Kept
import FlowNest.Proofs.Snapshot.Records
import FlowNest.Snapshot.Decoding

/-!
# FlowNest — reading what was written

For each type of a graph below its nodes: what is written is read, as far as a snapshot
keeps it, and what is read settles.

* `Settles` — whatever a reader gives is kept, and written no worse than it was found;
* `readList_ofJson`, `Settles.list` — lists, from what holds of their items;
* `readMap_ofJson`, `Settles.map` — maps, from what holds of their values.
-/

namespace FlowNest.Snapshot

open FlowNest.Json (Draft)
open FlowNest.Json.Draft (ofJson ofItems_eq_map ofEntries_eq_map)

/-- Whatever is read is kept as it is, and written no worse than it was found. -/
def Settles {α : Type} (read : Reader α) (write : α → Json) (kept : α → α) : Prop :=
  ∀ d a, read d = .ok a → kept a = a ∧ (ofJson (write a)).NoWorse d

/-! ## Lists and maps -/

section

variable {α : Type} {read : Reader α} {write : α → Json} {kept : α → α}

/-- A list is read as it was written, item by item. -/
theorem readList_ofJson {as : List α} (h : ∀ a ∈ as, read (ofJson (write a)) = .ok (kept a)) :
    readList read (ofJson (.arr (as.map write))) = .ok (as.map kept) := by
  rw [ofJson, ofItems_eq_map, List.map_map]
  show ((as.map _).mapM read) = _
  rw [List.mapM_map]
  exact mapM_of_ok h

/-- A list of which everything is kept. -/
theorem readList_ofJson_self {as : List α} (h : ∀ a, read (ofJson (write a)) = .ok a) :
    readList read (ofJson (.arr (as.map write))) = .ok as := by
  conv_rhs => rw [← List.map_id as]
  exact readList_ofJson fun a _ => h a

/-- A list settles if its items do. -/
theorem Settles.list (h : Settles read write kept) :
    Settles (readList read) (fun as => .arr (as.map write)) (List.map kept) := by
  intro d as hRead
  unfold readList at hRead
  split at hRead
  -- each item has been read from one inside the array
  · constructor
    · refine (List.map_congr_left fun a ha => ?_).trans (List.map_id as)
      obtain ⟨e, -, he⟩ := exists_of_mem_of_mapM hRead ha
      exact (h e a he).1
    · refine Draft.noWorse_ofItems (Nat.succ_pos _) (List.forall_mem_map.mpr fun a ha => ?_)
      obtain ⟨e, hMem, he⟩ := exists_of_mem_of_mapM hRead ha
      exact (h e a he).2.inside (Draft.inside_arr hMem)
  · cases hRead

/-- A map is what comes of putting its own entries into an empty one. -/
theorem insertMany_toList (m : StringMap α) : (∅ : StringMap α).insertMany m.toList = m := by
  refine Std.ExtTreeMap.ext_getElem? fun k => ?_
  -- the listing has each key once, so no entry is written over
  cases hk : m[k]? with
  | some a =>
    exact Std.ExtTreeMap.getElem?_insertMany_list_of_mem Std.ReflCmp.compare_self
      Std.ExtTreeMap.distinct_keys_toList (Std.ExtTreeMap.mem_toList_iff_getElem?_eq_some.mpr hk)
  | none =>
    have hKeys : (m.toList.map Prod.fst).contains k = false := by
      rw [Std.ExtTreeMap.map_fst_toList_eq_keys, Std.ExtTreeMap.contains_keys,
        Std.ExtTreeMap.contains_eq_isSome_getElem?, hk]
      rfl
    rw [Std.ExtTreeMap.getElem?_insertMany_list_of_contains_eq_false hKeys]
    exact Std.ExtTreeMap.getElem?_empty

/-- A map is read as it was written: no key stands twice, so no entry is lost to a later one. -/
theorem readMap_ofJson (m : StringMap α) (h : ∀ a, read (ofJson (write a)) = .ok a) :
    readMap read (ofJson (.ofMap write m)) = .ok m := by
  conv_rhs => rw [← insertMany_toList m, Std.ExtTreeMap.insertMany_list_eq_foldl]
  rw [Json.ofMap, ofJson, ofEntries_eq_map, List.map_map]
  unfold readMap
  -- each entry is put into what is there already
  generalize (∅ : StringMap α) = start
  induction m.toList generalizing start with
  | nil => rfl
  | cons e entries ih =>
    simp only [List.map_cons, List.foldlM_cons, List.foldl_cons, Function.comp_apply, h]
    exact ih (start.insert e.1 e.2)

/-- What is in a map has been read from inside its draft. -/
theorem exists_of_readMap {d : Draft} {m : StringMap α} (h : readMap read d = .ok m) {k : String}
    {a : α} (hk : m[k]? = some a) : ∃ e, e.Inside d ∧ read e = .ok a := by
  unfold readMap at h
  split at h
  · next entries =>
    suffices hEach : m[k]? = (∅ : StringMap α)[k]? ∨ ∃ e ∈ entries, read e.2 = .ok a by
      rcases hEach with hNone | ⟨e, he, hRead⟩
      · rw [hk, Std.ExtTreeMap.getElem?_empty] at hNone
        cases hNone
      · exact ⟨e.2, Draft.inside_obj he, hRead⟩
    -- what is in the map at the end was there at the start, or came from an entry
    generalize (∅ : StringMap α) = start at h ⊢
    induction entries generalizing start with
    | nil =>
      cases h
      exact .inl rfl
    | cons e entries ih =>
      obtain ⟨next, hNext, h⟩ := bind_eq_ok.mp h
      match e, hNext with
      | (none, d), hNext => cases hNext
      | (some key, d), hNext =>
        obtain ⟨b, hb, rfl⟩ := FlowNest.map_eq_ok.mp hNext
        rcases ih _ h with hSame | ⟨e, he, hRead⟩
        · rw [Std.ExtTreeMap.getElem?_insert] at hSame
          split at hSame
          · rw [hk] at hSame
            cases hSame
            exact .inr ⟨_, List.mem_cons_self, hb⟩
          · exact .inl hSame
        · exact .inr ⟨e, List.mem_cons_of_mem _ he, hRead⟩
  · cases h

/-- A map settles if its values do. -/
theorem Settles.map (h : Settles read write id) : Settles (readMap read) (.ofMap write) id := by
  intro d m hRead
  have hDepth : 0 < d.depth := by
    unfold readMap at hRead
    split at hRead
    · exact Nat.succ_pos _
    · cases hRead
  refine ⟨rfl, Draft.noWorse_ofEntries hDepth (List.forall_mem_map.mpr fun e he => ?_)⟩
  obtain ⟨e', hInside, hRead⟩ :=
    exists_of_readMap hRead (Std.ExtTreeMap.mem_toList_iff_getElem?_eq_some.mp he)
  exact (h e' e.2 hRead).2.inside hInside

end

end FlowNest.Snapshot
