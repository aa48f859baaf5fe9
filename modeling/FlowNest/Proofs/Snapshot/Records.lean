import FlowNest.Proofs.Fallible
import FlowNest.Proofs.Json.Drafts
import FlowNest.Snapshot.Encoding
import FlowNest.Snapshot.Record

/-!
# FlowNest — records forth and back

A record that was written as an object with distinct keys is read field by field. And
whatever is read from a record stands inside its draft: so a value that was read can be
written again, and is no worse then than what it was read from.

* `Record.values`          — what stands under a name;
* `Record.fieldOr_eq_ok_iff` — a field is read exactly when there is one value, and it can be;
* `Record.field_written`   — the fields of a written record;
* `Record.Within`          — whatever is in the record is inside the draft.
-/

namespace FlowNest.Snapshot

open FlowNest.Json (Draft)
open FlowNest.Json.Draft (ofJson ofEntries ofEntries_eq_map)

/-! ## Parts -/

namespace Part

variable {α β : Type} {b : β}

/-- Parts that have been read are equal when their values are. -/
@[simp] theorem ok_inj {a a' : α} : ok a = ok a' ↔ a = a' :=
  ⟨fun h => Except.ok.inj h, congrArg ok⟩

/-- A fault is never a part that has been read. -/
@[simp] theorem fault_ne_ok {place : Nat} {error : ReadError} {a : α} :
    fault place error ≠ ok a := by
  intro h
  cases h

/-- A part has been read, or it is a fault somewhere. -/
theorem ok_or_fault (p : Part α) : (∃ a, p = ok a) ∨ ∃ place error, p = fault place error := by
  match p with
  | .ok a => exact .inl ⟨a, rfl⟩
  | .error ⟨place, error⟩ => exact .inr ⟨place, error, rfl⟩

/-- What has been read may be built upon. -/
theorem map_of_ok {f : α → β} {p : Part α} {a : α} (hp : p = ok a) : f <$> p = ok (f a) := by
  rw [hp, map_ok]

/-- Two parts that have been read are read together. -/
theorem seq_of_ok {f : Part (α → β)} {p : Part α} {g : α → β} {a : α} (hf : f = ok g)
    (hp : p = ok a) : f <*> p = ok (g a) := by
  rw [hf, hp, seq_ok]

/-- What is built upon a part has been read exactly when the part has. -/
theorem map_eq_ok {f : α → β} {p : Part α} : f <$> p = ok b ↔ ∃ a, p = ok a ∧ f a = b := by
  obtain ⟨a, rfl⟩ | ⟨place, error, rfl⟩ := p.ok_or_fault
  · simp
  · show fault place error = ok b ↔ _
    simp

/-- Two parts together have been read exactly when both have, whichever fault would have come
first. -/
theorem seq_eq_ok {f : Part (α → β)} {p : Part α} :
    f <*> p = ok b ↔ ∃ g a, f = ok g ∧ p = ok a ∧ g a = b := by
  obtain ⟨g, rfl⟩ | ⟨place, error, rfl⟩ := f.ok_or_fault
  · show g <$> p = ok b ↔ _
    rw [map_eq_ok]
    simp
  -- where one of them is a fault, so is the whole
  · obtain ⟨a, rfl⟩ | ⟨place', error', rfl⟩ := p.ok_or_fault
    · show fault place error = ok b ↔ _
      simp
    · show (Except.error _ : Except Fault β) = Except.ok b ↔ _
      simp

/-- The same holds where only the second one gives a value. -/
theorem seqRight_eq_ok {p : Part α} {q : Part β} :
    p *> q = ok b ↔ (∃ a, p = ok a) ∧ q = ok b := by
  show Function.const α id <$> p <*> q = ok b ↔ _
  rw [seq_eq_ok]
  simp only [map_eq_ok]
  constructor
  · rintro ⟨g, b, ⟨a, rfl, rfl⟩, rfl, rfl⟩
    exact ⟨⟨a, rfl⟩, rfl⟩
  · rintro ⟨⟨a, rfl⟩, rfl⟩
    exact ⟨id, b, ⟨a, rfl, rfl⟩, rfl, rfl⟩

/-- A record is read exactly when all of its parts have been. -/
theorem result_eq_ok {p : Part β} : p.result = .ok b ↔ p = ok b := by
  obtain ⟨a, rfl⟩ | ⟨place, error, rfl⟩ := p.ok_or_fault
  · simp
  · show Except.error error = _ ↔ _
    simp

end Part

/-! ## Fields -/

namespace Record

variable {α : Type} {r : Record} {name : String} {read : Reader α} {a : α}

/-- What stands under a name. -/
def values (r : Record) (name : String) : List Draft :=
  (r.entries.filter (·.1 = some name)).map (·.2)

/-- The entries of a name hold its values, each with a place that only faults ask for. -/
theorem map_snd_entriesOf (r : Record) (name : String) :
    (r.entriesOf name).map (·.2) = r.values name := by
  unfold entriesOf values
  rw [List.map_map]
  -- the places do not matter to the filter
  suffices h : ∀ (entries : List (Option String × Draft)) (n : Nat),
      ((entries.zipIdx n).filter (·.1.1 = some name)).map (·.1.2) =
        (entries.filter (·.1 = some name)).map (·.2) from h r.entries 0
  intro entries
  induction entries with
  | nil => intro n; rfl
  | cons e entries ih =>
    intro n
    by_cases h : e.1 = some name
    · simp [List.zipIdx_cons, h, ih]
    · simp [List.zipIdx_cons, h, ih]

/-- A value that stands under a name is one of the entries. -/
theorem mem_entries_of_mem_values {d : Draft} (h : d ∈ r.values name) :
    (some name, d) ∈ r.entries := by
  obtain ⟨⟨key, d'⟩, he, rfl⟩ := List.mem_map.mp h
  obtain ⟨he, hKey⟩ := List.mem_filter.mp he
  obtain rfl : key = some name := of_decide_eq_true hKey
  exact he

/-- A field is read exactly when there is one value and it can be read, or when there is none
and something stands for it. -/
theorem fieldOr_eq_ok_iff {missing : Except ReadError α} :
    r.fieldOr missing name read = .ok a ↔
      (∃ d, r.values name = [d] ∧ read d = .ok a) ∨
        r.values name = [] ∧ r.positional = false ∧ missing = .ok a := by
  rw [← map_snd_entriesOf]
  unfold fieldOr
  -- one value is read; none may be made up for, and of two the second is a fault
  match r.entriesOf name with
  | [] =>
    cases r.positional with
    | true => simp
    | false =>
      cases missing with
      | error e => simp
      | ok a => simp
  | [(i, d)] =>
    cases hRead : read d with
    | error e => simp [hRead]
    | ok a => simp [hRead]
  | (i, d) :: (j, d') :: others =>
    cases hRead : read d with
    | error e => simp [hRead]
    | ok a => simp [hRead]

/-- A field that has to be there is read from the one value under its name. -/
theorem field_eq_ok_iff :
    r.field name read = .ok a ↔ ∃ d, r.values name = [d] ∧ read d = .ok a := by
  unfold field
  rw [fieldOr_eq_ok_iff]
  simp

/-- Null stands for nothing. -/
theorem optional_eq_ok_iff {o : Option α} :
    r.optional name read = .ok o ↔
      (∃ d, r.values name = [d] ∧ d ≠ .null ∧ ∃ a, read d = .ok a ∧ o = some a) ∨
        (r.values name = [.null] ∨ r.values name = [] ∧ r.positional = false) ∧ o = none := by
  unfold optional
  rw [fieldOr_eq_ok_iff]
  constructor
  -- a null and a missing field both read as nothing, by position only the null does
  · rintro (⟨d, hd, h⟩ | ⟨hNone, hKeyed, h⟩)
    · split at h
      · cases h
        exact .inr ⟨.inl hd, rfl⟩
      · next hNull =>
        obtain ⟨a, ha, rfl⟩ := FlowNest.map_eq_ok.mp h
        exact .inl ⟨d, hd, hNull, a, ha, rfl⟩
    · cases h
      exact .inr ⟨.inr ⟨hNone, hKeyed⟩, rfl⟩
  · rintro (⟨d, hd, hNull, a, ha, rfl⟩ | ⟨hd | ⟨hNone, hKeyed⟩, rfl⟩)
    · refine .inl ⟨d, hd, ?_⟩
      split
      · contradiction
      · rw [ha]; rfl
    · exact .inl ⟨.null, hd, rfl⟩
    · exact .inr ⟨hNone, hKeyed, rfl⟩

/-! ## Written records -/

/-- The record that is read from an object with these fields. -/
def written (fields : List (String × Json)) : Record :=
  ⟨ofEntries fields, false⟩

variable {fields : List (String × Json)} {j : Json}

/-- In an object with distinct keys there is one value under each name. -/
theorem values_written (hKeys : (fields.map (·.1)).Nodup) (hField : fields.lookup name = some j) :
    (written fields).values name = [ofJson j] := by
  -- the keys in front and behind are other ones
  obtain ⟨front, behind, rfl, -⟩ := List.lookup_eq_some_iff.mp hField
  have hSides : name ∉ front.map (·.1) ∧ name ∉ behind.map (·.1) := by
    rw [List.map_append, List.map_cons, List.perm_middle.nodup_iff, List.nodup_cons,
      List.mem_append, not_or] at hKeys
    exact hKeys.1
  have hNone (es : List (String × Json)) (h : name ∉ es.map (·.1)) :
      (es.map fun e => (some e.1, ofJson e.2)).filter (·.1 = some name) = [] := by
    rw [List.filter_eq_nil_iff, List.forall_mem_map]
    intro e he hName
    obtain rfl : e.1 = name := by simpa using hName
    exact h (List.mem_map_of_mem he)
  unfold values written
  simp [ofEntries_eq_map, hNone _ hSides.1, hNone _ hSides.2]

/-- A field is read from the value that it was written to. -/
theorem field_written (hKeys : (fields.map (·.1)).Nodup) (hField : fields.lookup name = some j)
    (hRead : read (ofJson j) = .ok a) : (written fields).field name read = .ok a :=
  field_eq_ok_iff.mpr ⟨ofJson j, values_written hKeys hField, hRead⟩

/-- A field that may be missing is read as it was, unless null is one of its values. -/
theorem optional_written {write : α → Json} {o : Option α} (hKeys : (fields.map (·.1)).Nodup)
    (hField : fields.lookup name = some (.ofOption write o))
    (hRead : ∀ a ∈ o, ofJson (write a) ≠ .null ∧ read (ofJson (write a)) = .ok a) :
    (written fields).optional name read = .ok o := by
  have hValues := values_written hKeys hField
  refine optional_eq_ok_iff.mpr ?_
  cases o with
  | none => exact .inr ⟨.inl hValues, rfl⟩
  | some a =>
    obtain ⟨hNull, hRead⟩ := hRead a rfl
    exact .inl ⟨_, hValues, hNull, a, hRead, rfl⟩

/-- A check that all values pass finds nothing in a written record. -/
theorem check_written {fine : Option String → Draft → Bool}
    (h : ∀ key j, fine (some key) (ofJson j) = true) : (written fields).check fine = .ok () := by
  unfold check written
  have hNone : (ofEntries fields).findIdx? (fun e => !fine e.1 e.2) = none := by
    rw [List.findIdx?_eq_none_iff, ofEntries_eq_map]
    rintro _ he
    obtain ⟨e, -, rfl⟩ := List.mem_map.mp he
    simp [h]
  simp only [hNone]

/-- A written record can be passed over, as it breaks nowhere. -/
theorem lenient_written (names : List String) : (written fields).lenient names = .ok () :=
  check_written fun key j => by simp [Draft.passable_ofJson j]

/-- All of a written record denotes values. -/
theorem strict_written (names : List String) : (written fields).strict names = .ok () :=
  check_written fun key j => by simp [Draft.json?_ofJson j]

/-- What is left of a written record is the record that is written from the other fields. -/
theorem others_written (names : List String) :
    (written fields).others names = written (fields.filter (·.1 ∉ names)) := by
  unfold others written
  simp only [ofEntries_eq_map, List.filter_map]
  rfl

/-! ## Records inside drafts -/

/-- All that a record holds is inside the draft. -/
structure Within (r : Record) (d : Draft) : Prop where
  depth : 0 < d.depth
  inside : ∀ e ∈ r.entries, e.2.Inside d

variable {d : Draft} {names : List String}

/-- Names are given to the items of an array; they stay what they are. -/
theorem mem_of_mem_byPosition {items : List Draft} {e : Option String × Draft}
    (h : e ∈ byPosition names items) : e.2 ∈ items := by
  induction items generalizing names with
  | nil => cases names <;> cases h
  | cons d items ih =>
    cases names with
    | nil =>
      rcases List.mem_cons.mp h with rfl | h
      · exact List.mem_cons_self
      · exact List.mem_cons_of_mem _ (ih h)
    | cons name names =>
      rcases List.mem_cons.mp h with rfl | h
      · exact List.mem_cons_self
      · exact List.mem_cons_of_mem _ (ih h)

/-- A record is within the draft that it was made of, whether that is an object or an array. -/
theorem within_of_ofDraft (h : ofDraft names d = .ok r) : r.Within d := by
  unfold ofDraft at h
  split at h
  · cases h
    exact ⟨Nat.succ_pos _, fun e he => Draft.inside_obj he⟩
  · cases h
    exact ⟨Nat.succ_pos _, fun e he => Draft.inside_arr (mem_of_mem_byPosition he)⟩
  · cases h

/-- What is left of a record is within the same draft. -/
theorem Within.others (h : r.Within d) (names : List String) : (r.others names).Within d :=
  ⟨h.depth, fun e he => h.inside e (List.mem_filter.mp he).1⟩

/-- A field has been read from inside the draft. -/
theorem Within.of_field (h : r.Within d) (hField : r.field name read = .ok a) :
    ∃ e, e.Inside d ∧ read e = .ok a := by
  obtain ⟨e, hValues, hRead⟩ := field_eq_ok_iff.mp hField
  have hMem : e ∈ r.values name := by rw [hValues]; exact List.mem_singleton_self e
  exact ⟨e, h.inside _ (mem_entries_of_mem_values hMem), hRead⟩

/-- A field that was there has been read from inside the draft, and not from null. -/
theorem Within.of_optional (h : r.Within d) (hField : r.optional name read = .ok (some a)) :
    ∃ e, e.Inside d ∧ e ≠ .null ∧ read e = .ok a := by
  rcases optional_eq_ok_iff.mp hField with ⟨e, hValues, hNull, a, hRead, ha⟩ | ⟨-, hNone⟩
  · cases ha
    have hMem : e ∈ r.values name := by rw [hValues]; exact List.mem_singleton_self e
    exact ⟨e, h.inside _ (mem_entries_of_mem_values hMem), hNull, hRead⟩
  · cases hNone

end Record

section

variable {α : Type} {names : List String} {parts : Record → Part α} {a : α}

/-- To read an object that was written is to read its parts from the written record. -/
theorem readRecord_ofJson (fields : List (String × Json))
    (h : parts (.written fields) = .ok a) :
    readRecord names parts (ofJson (.obj fields)) = .ok a := by
  show (Record.lenient (.written fields) names *> parts (.written fields)).result = _
  rw [Record.lenient_written, h]
  rfl

/-- What was read from a draft was read from a record within it. -/
theorem within_of_readRecord {d : Draft} (h : readRecord names parts d = .ok a) :
    ∃ r : Record, r.Within d ∧ parts r = .ok a := by
  obtain ⟨r, hr, h⟩ := bind_eq_ok.mp h
  obtain ⟨-, h⟩ := Part.seqRight_eq_ok.mp (Part.result_eq_ok.mp h)
  exact ⟨r, Record.within_of_ofDraft hr, h⟩

end

end FlowNest.Snapshot
