import FlowNest.Proofs.Snapshot.Readers

/-!
# FlowNest — the parts of a graph, written and read

Positions, control settings, ports and connections. Each is read as it was written, ports as
far as a snapshot keeps them, and each settles once it has been read.

* `readPort_toJson`, `settles_readPort` — ports, and the like for the others.
-/

namespace FlowNest

open FlowNest.Json (Draft str)
open FlowNest.Json.Draft (ofJson)
open Snapshot

variable {d : Draft}

/-! ## Leaves -/

/-- A text stands inside any draft that holds something. -/
theorem inside_str (hd : 0 < d.depth) (s : String) : (ofJson (str s)).Inside d :=
  ⟨hd, fun _ => trivial⟩

/-- A truth value stands inside any draft that holds something. -/
theorem inside_bool (hd : 0 < d.depth) (b : Bool) : (ofJson (.bool b)).Inside d :=
  ⟨hd, fun _ => trivial⟩

/-- A number stands inside any draft that holds something, if it fits into 64 bits. -/
theorem inside_ofNat (hd : 0 < d.depth) {n : Nat} (hn : n < UInt64.size) :
    (ofJson (.ofNat n)).Inside d :=
  ⟨hd, fun _ => ⟨by omega, by exact_mod_cast hn⟩⟩

/-- What may be missing is inside if it is there, and null is otherwise. -/
theorem inside_ofOption {α : Type} {write : α → Json} {o : Option α} (hd : 0 < d.depth)
    (h : ∀ a ∈ o, (ofJson (write a)).Inside d) : (ofJson (.ofOption write o)).Inside d := by
  cases o with
  | none => exact ⟨hd, fun _ => trivial⟩
  | some a => exact h a rfl

/-- A number below the bound is read as it was written. -/
theorem readNat_ofNat {bound n : Nat} (h : n < bound) :
    readNat bound (ofJson (.ofNat n)) = .ok n := by
  show (if 0 ≤ (n : Int) ∧ (n : Int) < bound then Except.ok (n : Int).toNat else _) = _
  rw [if_pos ⟨by omega, by exact_mod_cast h⟩]
  rfl

/-- A direction is read by the name that it was written with. -/
theorem readDirection_toJson (d : Direction) : readDirection (ofJson d.toJson) = .ok d := by
  cases d <;> rfl

/-- A state is read by the name that it was written with. -/
theorem readState_toJson (s : ExecutionState) : readState (ofJson s.toJson) = .ok s := by
  cases s <;> rfl

/-- A state is read so among the entries of a core, too, as no name is an empty object. -/
theorem readCoreState_toJson (s : ExecutionState) : readCoreState (ofJson s.toJson) = .ok s :=
  readState_toJson s

/-! ## Positions and control settings -/

/-- A position is read as it was written, and passes its check once more. -/
theorem readPosition_toJson (p : Position) : readPosition (ofJson p.toJson) = .ok p := by
  have hKeys : ["x", "y"].Nodup := by decide
  refine bind_eq_ok.mpr ⟨(p.x, p.y), readRecord_ofJson _ ?_, ?_⟩
  · exact Part.seq_of_ok (Part.map_of_ok (Record.field_written hKeys rfl rfl))
      (Record.field_written hKeys rfl rfl)
  · show checked (Position.of p.x p.y) = .ok p
    rw [Position.of_coordinates]
    rfl

/-- The coordinates of a position that was read have passed the check, so they are finite and can
be written. -/
theorem settles_readPosition : Settles readPosition Position.toJson id := by
  intro d p h
  refine ⟨rfl, ?_⟩
  obtain ⟨_, h, -⟩ := bind_eq_ok.mp h
  obtain ⟨r, hr, -⟩ := within_of_readRecord h
  obtain ⟨hx, hy⟩ : onAxis p.x = true ∧ onAxis p.y = true := by simpa using p.onCanvas
  have hFinite (v : Float) (h : onAxis v = true) : v.isFinite = true := (Bool.and_eq_true _ _ ▸ h).1
  refine Draft.noWorse_ofEntries hr.depth ?_
  simp only [List.forall_mem_cons]
  exact ⟨⟨hr.depth, fun _ => hFinite _ hx⟩, ⟨hr.depth, fun _ => hFinite _ hy⟩,
    List.forall_mem_nil _⟩

/-- Settings are read as they were written, and pass their check once more. -/
theorem readControl_toJson (c : ControlConfig) : readControl (ofJson c.toJson) = .ok c := by
  have hKeys : ["pause_buffer_size", "speed_attenuation_ms", "auto_resume_on_error",
    "independent_control"].Nodup := by decide
  -- the fields are read from left to right, each by the reader that belongs to it
  refine bind_eq_ok.mpr ⟨_, readRecord_ofJson _
    (Part.seq_of_ok (a := c.independentControl) (Part.seq_of_ok (a := c.autoResumeOnError)
      (Part.seq_of_ok (a := c.speedAttenuationMs.toNat)
        (Part.map_of_ok (a := c.pauseBufferSize.toNat) ?_) ?_) ?_) ?_), ?_⟩
  · exact Record.field_written hKeys rfl (readNat_ofNat c.pauseBufferSize.toNat_lt)
  · exact Record.field_written hKeys rfl (readNat_ofNat c.speedAttenuationMs.toNat_lt)
  · exact Record.field_written hKeys rfl rfl
  · exact Record.field_written hKeys rfl rfl
  · rw [Nat.toUInt32_eq, Nat.toUInt64_eq, UInt32.ofNat_toNat, UInt64.ofNat_toNat,
      ControlConfig.of_settings]
    rfl

/-- Settings that were read have numbers of their own width, so they can be written. -/
theorem settles_readControl : Settles readControl ControlConfig.toJson id := by
  intro d c h
  refine ⟨rfl, ?_⟩
  obtain ⟨_, h, -⟩ := bind_eq_ok.mp h
  obtain ⟨r, hr, -⟩ := within_of_readRecord h
  have hBuffer : c.pauseBufferSize.toNat < UInt64.size :=
    Nat.lt_trans c.pauseBufferSize.toNat_lt (by decide)
  refine Draft.noWorse_ofEntries hr.depth ?_
  simp only [List.forall_mem_cons]
  exact ⟨inside_ofNat hr.depth hBuffer, inside_ofNat hr.depth c.speedAttenuationMs.toNat_lt,
    inside_bool hr.depth _, inside_bool hr.depth _, List.forall_mem_nil _⟩

/-! ## Ports -/

/-- A constant is read as it was written, as its JSON is in normal form already. -/
theorem readConstant_json (c : Constant) : readConstant (ofJson c.json) = .ok c := by
  unfold readConstant
  rw [Draft.json?_ofJson]
  exact congrArg Except.ok c.ofJson_json

/-- A constant is null exactly when its JSON is. -/
theorem isNull_iff {c : Constant} : c.isNull = true ↔ c.json = .null := by
  unfold Constant.isNull
  split
  · next h => simp [h]
  · next h => simpa using h

/-- A default of null is written as no default is. -/
theorem ofOption_filter_isNull (o : Option Constant) :
    Json.ofOption Constant.json (o.filter (!·.isNull)) = .ofOption Constant.json o := by
  cases o with
  | none => rfl
  | some c =>
    rw [Option.filter_some]
    cases hNull : c.isNull with
    | true => exact (isNull_iff.mp hNull).symm
    | false => rfl

/-- A constant is written in normal form, which is no worse than what it was read from. -/
theorem settles_readConstant : Settles readConstant Constant.json id := by
  intro d c h
  refine ⟨rfl, ?_⟩
  unfold readConstant at h
  split at h
  · next j hj =>
    cases h
    rw [Draft.eq_ofJson_of_json? hj]
    exact Draft.noWorse_normalize j
  · cases h

/-- Only null is read as a constant that is null. -/
theorem isNull_of_readConstant {c : Constant} (h : readConstant d = .ok c) (hd : d ≠ .null) :
    c.isNull = false := by
  unfold readConstant at h
  split at h
  · next j hj =>
    cases h
    rw [Draft.eq_ofJson_of_json? hj] at hd
    cases j with
    | null => exact absurd rfl hd
    | _ => rfl
  · cases h

/-- A port is read as it was written, without a default of null. -/
theorem readPort_toJson (p : Port) : readPort (ofJson p.toJson) = .ok p.kept := by
  have hKeys : ["id", "name", "direction", "data_type", "required", "default_value",
    "owning_node_id"].Nodup := by decide
  refine readRecord_ofJson _ (Part.seq_of_ok (Part.seq_of_ok (Part.seq_of_ok (Part.seq_of_ok
    (Part.seq_of_ok (Part.seq_of_ok (Part.map_of_ok ?_) ?_) ?_) ?_) ?_) ?_) ?_)
  · exact Record.field_written hKeys rfl rfl
  · exact Record.field_written hKeys rfl rfl
  · exact Record.field_written hKeys rfl (readDirection_toJson p.direction)
  · exact Record.field_written hKeys rfl rfl
  · exact Record.field_written hKeys rfl rfl
  · -- the text does not tell a default of null from none, so the kept one may be taken
    refine Record.optional_written hKeys
      (congrArg some (ofOption_filter_isNull p.defaultValue).symm) fun c hc => ?_
    obtain ⟨-, hNull⟩ := Option.mem_filter_iff.mp hc
    refine ⟨fun h => ?_, readConstant_json c⟩
    have hJson : c.json = .null := by cases hj : c.json <;> simp_all [ofJson]
    simp [isNull_iff.mpr hJson] at hNull
  · exact Record.field_written hKeys rfl rfl

/-- A port that was read has no default of null: such a default is read as none at all. -/
theorem settles_readPort : Settles readPort Port.toJson Port.kept := by
  intro d p h
  obtain ⟨r, hr, h⟩ := within_of_readRecord h
  simp only [Part.seq_eq_ok, Part.map_eq_ok] at h
  -- of all fields only the default is more than a name, a flag or a text
  obtain ⟨_, owner, ⟨_, default, ⟨_, required, ⟨_, dataType, ⟨_, direction, ⟨_, name,
    ⟨id, -, rfl⟩, -, rfl⟩, -, rfl⟩, -, rfl⟩, -, rfl⟩, hDefault, rfl⟩, -, rfl⟩ := h
  have hRead : ∀ c ∈ default, ∃ e, e.Inside d ∧ e ≠ .null ∧ readConstant e = .ok c := by
    rintro c rfl
    exact hr.of_optional hDefault
  constructor
  · have hKept : default.filter (!·.isNull) = default := by
      cases default with
      | none => rfl
      | some c =>
        obtain ⟨e, -, hNull, hc⟩ := hRead c rfl
        rw [Option.filter_some, isNull_of_readConstant hc hNull]
        rfl
    simp only [Port.kept, hKept]
  · refine Draft.noWorse_ofEntries hr.depth ?_
    simp only [List.forall_mem_cons]
    refine ⟨inside_str hr.depth _, inside_str hr.depth _, inside_str hr.depth _,
      inside_str hr.depth _, inside_bool hr.depth _, inside_ofOption hr.depth fun c hc => ?_,
      inside_str hr.depth _, List.forall_mem_nil _⟩
    obtain ⟨e, he, -, hc⟩ := hRead c hc
    exact (settles_readConstant e c hc).2.inside he

/-- An endpoint is read from the two fields that it was written to. -/
theorem readEndpoint_written {fields : List (String × Json)} {node port : String} {e : Endpoint}
    (hKeys : (fields.map (·.1)).Nodup) (hNode : fields.lookup node = some (str e.node))
    (hPort : fields.lookup port = some (str e.port)) :
    readEndpoint (.written fields) node port = .ok e := by
  refine Part.seq_of_ok (Part.map_of_ok ?_) ?_
  · exact Record.field_written hKeys hNode rfl
  · exact Record.field_written hKeys hPort rfl

/-- A boundary port is read as far as its port is kept. -/
theorem readBoundaryPort_toJson (p : BoundaryPort) :
    readBoundaryPort (ofJson p.toJson) = .ok p.kept := by
  have hKeys : ["port", "upstream_node_id", "upstream_port_id", "downstream_node_id",
    "downstream_port_id"].Nodup := by decide
  refine readRecord_ofJson _ (Part.seq_of_ok (Part.seq_of_ok (Part.map_of_ok ?_) ?_) ?_)
  · exact Record.field_written hKeys rfl (readPort_toJson p.port)
  · exact readEndpoint_written hKeys rfl rfl
  · exact readEndpoint_written hKeys rfl rfl

/-- A boundary port settles as its port does. -/
theorem settles_readBoundaryPort :
    Settles readBoundaryPort BoundaryPort.toJson BoundaryPort.kept := by
  intro d p h
  obtain ⟨r, hr, h⟩ := within_of_readRecord h
  simp only [Part.seq_eq_ok, Part.map_eq_ok] at h
  obtain ⟨_, target, ⟨_, source, ⟨port, hPort, rfl⟩, -, rfl⟩, -, rfl⟩ := h
  -- of the parts only the port has a default value, which keeping may drop
  obtain ⟨e, he, hPort⟩ := hr.of_field hPort
  obtain ⟨hKept, hPort⟩ := settles_readPort e port hPort
  constructor
  · simp only [BoundaryPort.kept, hKept]
  · refine Draft.noWorse_ofEntries hr.depth ?_
    simp only [List.forall_mem_cons]
    exact ⟨hPort.inside he, inside_str hr.depth _, inside_str hr.depth _, inside_str hr.depth _,
      inside_str hr.depth _, List.forall_mem_nil _⟩

/-- A mapping is read as it was written. -/
theorem readMapping_toJson (m : PortMapping) : readMapping (ofJson m.toJson) = .ok m := by
  have hKeys : ["child_node_id", "child_port_name"].Nodup := by decide
  refine readRecord_ofJson _ (Part.seq_of_ok (Part.map_of_ok ?_) ?_)
  · exact Record.field_written hKeys rfl rfl
  · exact Record.field_written hKeys rfl rfl

/-- A mapping that was read holds nothing but texts. -/
theorem settles_readMapping : Settles readMapping PortMapping.toJson id := by
  intro d m h
  obtain ⟨r, hr, -⟩ := within_of_readRecord h
  refine ⟨rfl, Draft.noWorse_ofEntries hr.depth ?_⟩
  simp only [List.forall_mem_cons]
  exact ⟨inside_str hr.depth _, inside_str hr.depth _, List.forall_mem_nil _⟩

/-! ## Connections -/

/-- A text that may be missing is read as it was written. -/
theorem optional_written_str {fields : List (String × Json)} {name : String} {o : Option String}
    (hKeys : (fields.map (·.1)).Nodup) (hField : fields.lookup name = some (.ofOption str o)) :
    (Record.written fields).optional name readString = .ok o :=
  Record.optional_written hKeys hField fun _ _ => ⟨nofun, rfl⟩

/-- A connection is read as it was written. -/
theorem readConnection_toJson (c : Connection) :
    readConnection (ofJson c.toJson) = .ok c := by
  have hKeys : ["id", "source_node_id", "source_port_id", "target_node_id", "target_port_id",
    "channel_capacity", "parent_scope_id", "ip_type_id"].Nodup := by decide
  refine readRecord_ofJson _ (Part.seq_of_ok (Part.seq_of_ok (Part.seq_of_ok (Part.seq_of_ok
    (Part.seq_of_ok (Part.map_of_ok ?_) ?_) ?_) ?_) ?_) ?_)
  · exact Record.field_written hKeys rfl rfl
  · exact readEndpoint_written hKeys rfl rfl
  · exact readEndpoint_written hKeys rfl rfl
  -- the capacity goes through a number of any size, and back into its word
  · have hCapacity : c.capacity.toNat.toUInt64 = c.capacity := by
      rw [Nat.toUInt64_eq, UInt64.ofNat_toNat]
    refine (Part.map_of_ok (a := c.capacity.toNat) ?_).trans (congrArg Part.ok hCapacity)
    exact Record.field_written hKeys rfl (readNat_ofNat c.capacity.toNat_lt)
  · exact optional_written_str hKeys rfl
  · exact optional_written_str hKeys rfl

/-- A connection that was read holds texts and a capacity of 64 bits. -/
theorem settles_readConnection : Settles readConnection Connection.toJson id := by
  intro d c h
  obtain ⟨r, hr, -⟩ := within_of_readRecord h
  refine ⟨rfl, Draft.noWorse_ofEntries hr.depth ?_⟩
  simp only [List.forall_mem_cons]
  exact ⟨inside_str hr.depth _, inside_str hr.depth _, inside_str hr.depth _,
    inside_str hr.depth _, inside_str hr.depth _, inside_ofNat hr.depth c.capacity.toNat_lt,
    inside_ofOption hr.depth fun s _ => inside_str hr.depth s,
    inside_ofOption hr.depth fun s _ => inside_str hr.depth s, List.forall_mem_nil _⟩

end FlowNest
