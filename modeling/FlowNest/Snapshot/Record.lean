import FlowNest.ConstructionError
import FlowNest.Json.Draft

/-!
# FlowNest — reading records

A record is an object whose keys are the names of its fields, or an array of all
its fields in their order. It is read from left to right, so of several faults
the one that stands first is reported; missing fields are found at the end, the
first one in the order of the fields.

Every field is read once. The parts of a record are read on their own, each with
the place of its first fault, and `Part.seq` keeps the fault that stands first.

* `Record.field`, `Record.optional` — one field of a record;
* `Record.lenient`, `Record.strict`  — what is asked of the other entries.
-/

namespace FlowNest.Snapshot

open FlowNest.Json (Draft)

/-- Why a draft cannot be read as the value it should be. -/
inductive ReadError where
  | malformed
  | missingField (name : String)
  | duplicateField (name : String)
  | refused (cause : ConstructionError)

def ReadError.message : ReadError → String
  | .malformed => "not of the expected form"
  | .missingField name => "missing field " ++ name
  | .duplicateField name => "duplicate field " ++ name
  | .refused cause => cause.message

/-- A reader of values. -/
abbrev Reader (α : Type) := Draft → Except ReadError α

/-- A fault in a record, with the number of entries in front of it. -/
structure Fault where
  place : Nat
  error : ReadError

/-- A part of a record that has been read, or its first fault. -/
def Part (α : Type) := Except Fault α

namespace Part

variable {α β : Type}

def ok (a : α) : Part α := Except.ok a

def fault (place : Nat) (error : ReadError) : Part α := Except.error ⟨place, error⟩

/-- Two parts together: of two faults the one in front, of two at one place the
first. -/
def seq (f : Part (α → β)) (a : Part α) : Part β :=
  match f, a with
  | .ok f, .ok a => ok (f a)
  | .ok _, .error fault => .error fault
  | .error fault, .ok _ => .error fault
  | .error first, .error second => .error (if first.place ≤ second.place then first else second)

instance : Applicative Part where
  pure := ok
  seq f a := seq f (a ())

/-- What is reported of a whole record. -/
def result : Part α → Except ReadError α
  | .ok a => .ok a
  | .error fault => .error fault.error

@[simp] theorem seq_ok (f : α → β) (a : α) : ok f <*> ok a = ok (f a) := rfl
@[simp] theorem map_ok (f : α → β) (a : α) : f <$> ok a = ok (f a) := rfl
@[simp] theorem seqRight_ok (a : α) (b : β) : ok a *> ok b = ok b := rfl
@[simp] theorem result_ok (a : α) : (ok a).result = .ok a := rfl

end Part

/-- The entries of a record; `positional` when they come from an array. An entry
without a key cannot be read. -/
structure Record where
  entries : List (Option String × Draft)
  positional : Bool

namespace Record

/-- The items of an array under the names of the fields; no name is left for an
item too many. -/
def byPosition : List String → List Draft → List (Option String × Draft)
  | _, [] => []
  | [], d :: rest => (none, d) :: byPosition [] rest
  | name :: names, d :: rest => (some name, d) :: byPosition names rest

/-- The record with these fields that a draft holds. -/
def ofDraft (names : List String) : Reader Record
  | .obj entries => .ok ⟨entries, false⟩
  | .arr items => .ok ⟨byPosition names items, true⟩
  | _ => .error .malformed

/-- The entries with a key, each with its place. -/
def entriesOf (r : Record) (name : String) : List (Nat × Draft) :=
  (r.entries.zipIdx.filter (·.1.1 = some name)).map fun ((_, d), i) => (i, d)

/-- A field, or what stands for it when it is missing. A second one is a fault,
whatever its value. -/
def fieldOr {α : Type} (r : Record) (missing : Except ReadError α) (name : String)
    (read : Reader α) : Part α :=
  match r.entriesOf name with
  | [] =>
    -- an array has no way to leave a field out
    match if r.positional then .error .malformed else missing with
    | .ok a => .ok a
    | .error e => .fault r.entries.length e
  | (i, d) :: others =>
    -- the first entry is read before a second one can be met
    match read d, others with
    | .error e, _ => .fault i e
    | .ok a, [] => .ok a
    | .ok _, (j, _) :: _ => .fault j (.duplicateField name)

/-- A field that has to be there. -/
def field {α : Type} (r : Record) (name : String) (read : Reader α) : Part α :=
  r.fieldOr (.error (.missingField name)) name read

/-- A field that may be missing, or null. -/
def optional {α : Type} (r : Record) (name : String) (read : Reader α) : Part (Option α) :=
  r.fieldOr (.ok none) name fun
    | .null => .ok none
    | d => (read d).map some

/-- The first entry that is not as asked. -/
def check (r : Record) (fine : Option String → Draft → Bool) : Part Unit :=
  match r.entries.findIdx? fun (key, d) => !fine key d with
  | some i => .fault i .malformed
  | none => .ok ()

/-- Entries that are no fields are passed over. -/
def lenient (r : Record) (names : List String) : Part Unit :=
  r.check fun key d => key.any fun k => k ∈ names || d.passable

/-- Entries that are no fields are kept for another reader, so they have to denote
values. -/
def strict (r : Record) (names : List String) : Part Unit :=
  r.check fun key d => key.any fun k => k ∈ names || d.json?.isSome

/-- The entries that are no fields. -/
def others (r : Record) (names : List String) : Record where
  entries := r.entries.filter fun (key, _) => key.any (· ∉ names)
  positional := false

end Record

/-- Reads a record with these fields, whatever else it has. -/
def readRecord {α : Type} (names : List String) (parts : Record → Part α) : Reader α := fun d => do
  let r ← Record.ofDraft names d
  (r.lenient names *> parts r).result

/-! ## Values -/

def readString : Reader String
  | .str s => .ok s
  | _ => .error .malformed

def readBool : Reader Bool
  | .bool b => .ok b
  | _ => .error .malformed

/-- A whole number below a bound; it may not be written with a point. -/
def readNat (bound : Nat) : Reader Nat
  | .int n => if 0 ≤ n ∧ n < bound then .ok n.toNat else .error .malformed
  | _ => .error .malformed

/-- A number, also one written without a point. -/
def readFloat : Reader Float
  | .float f => .ok f
  | .int n => .ok (Float.ofInt n)
  | _ => .error .malformed

def readList {α : Type} (read : Reader α) : Reader (List α)
  | .arr items => items.mapM read
  | _ => .error .malformed

end FlowNest.Snapshot
