import FlowNest.Proofs.Fallible
import FlowNest.Proofs.Ports

/-!
# FlowNest — the boundary that crossings get

The boundary of a new container is built by adding one port after the other.
Each addition keeps it made for its container and faithful to what is inside,
and no port ever goes; in the end each crossing has a port at its inner end.

* `Scope.mem_crossings`  — what a crossing is;
* `Scope.boundary_spec`  — what the boundary for all of them is.
-/

namespace FlowNest

/-! ## Lists taken pair by pair -/

/-- What is the same of each pair is the same of the lists. -/
theorem map_eq_of_forall₂ {α β γ : Type} {R : α → β → Prop} {as : List α} {bs : List β}
    {f : α → γ} {k : β → γ} (h : List.Forall₂ R as bs) (hR : ∀ a b, R a b → k b = f a) :
    bs.map k = as.map f := by
  induction h with
  | nil => rfl
  | cons hab _ ih => rw [List.map_cons, List.map_cons, hR _ _ hab, ih]

/-- Pairs that have an element in common are put together. -/
theorem forall₂_trans {α β γ : Type} {R : α → β → Prop} {S : β → γ → Prop} {as : List α}
    {bs : List β} {cs : List γ} (hab : List.Forall₂ R as bs) (hbc : List.Forall₂ S bs cs) :
    List.Forall₂ (fun a c => ∃ b, R a b ∧ S b c) as cs := by
  induction hab generalizing cs with
  | nil =>
    cases hbc
    exact .nil
  | cons hR _ ih =>
    cases hbc with
    | cons hS hRest => exact .cons ⟨_, hR, hS⟩ (ih hRest)

/-- An element of the second list has a partner in the first. -/
theorem exists_of_mem_forall₂ {α β : Type} {R : α → β → Prop} {as : List α} {bs : List β}
    (h : List.Forall₂ R as bs) {b : β} (hb : b ∈ bs) : ∃ a ∈ as, R a b := by
  induction h with
  | nil => cases hb
  | @cons a b' as bs hab _ ih =>
    rcases List.mem_cons.mp hb with rfl | hRest
    · exact ⟨a, List.mem_cons_self, hab⟩
    · obtain ⟨a', ha, hR⟩ := ih hRest
      exact ⟨a', List.mem_cons_of_mem _ ha, hR⟩

/-- A search that does not tell the members of a pair apart finds a pair. -/
theorem find?_of_forall₂ {α β : Type} {R : α → β → Prop} {as : List α} {bs : List β}
    {f : α → Bool} {k : β → Bool} (h : List.Forall₂ R as bs) (hR : ∀ a b, R a b → k b = f a) :
    (as.find? f = none ∧ bs.find? k = none) ∨
      ∃ a b, as.find? f = some a ∧ bs.find? k = some b ∧ R a b := by
  induction h with
  | nil => exact .inl ⟨rfl, rfl⟩
  | @cons a b as bs hab _ ih =>
    rw [List.find?_cons, List.find?_cons, hR a b hab]
    cases f a with
    | true => exact .inr ⟨a, b, rfl, rfl, hab⟩
    | false => exact ih

/-! ## Crossings -/

namespace Connection

/-- A connection is inside exactly when both of its ends are selected. -/
theorem relation_eq_inside_iff {x : Connection} {ids : List String} :
    x.relation ids = .inside ↔ x.source.node ∈ ids ∧ x.target.node ∈ ids := by
  rw [relation]
  by_cases hSource : x.source.node ∈ ids <;> by_cases hTarget : x.target.node ∈ ids <;>
    simp [hSource, hTarget]

/-- A connection is outside exactly when neither of its ends is selected. -/
theorem relation_eq_outside_iff {x : Connection} {ids : List String} :
    x.relation ids = .outside ↔ x.source.node ∉ ids ∧ x.target.node ∉ ids := by
  rw [relation]
  by_cases hSource : x.source.node ∈ ids <;> by_cases hTarget : x.target.node ∈ ids <;>
    simp [hSource, hTarget]

/-- A connection leaves exactly when its source alone is selected. -/
theorem relation_eq_leaving_iff {x : Connection} {ids : List String} :
    x.relation ids = .leaving ↔ x.source.node ∈ ids ∧ x.target.node ∉ ids := by
  rw [relation]
  by_cases hSource : x.source.node ∈ ids <;> by_cases hTarget : x.target.node ∈ ids <;>
    simp [hSource, hTarget]

/-- A connection enters exactly when its target alone is selected. -/
theorem relation_eq_entering_iff {x : Connection} {ids : List String} :
    x.relation ids = .entering ↔ x.source.node ∉ ids ∧ x.target.node ∈ ids := by
  rw [relation]
  by_cases hSource : x.source.node ∈ ids <;> by_cases hTarget : x.target.node ∈ ids <;>
    simp [hSource, hTarget]

end Connection

namespace Scope

variable {s : Scope Node} {ids : List String}

/-- A connection needs a port at its inner end if there is one of the right
direction. -/
theorem usable_eq_some_iff {id : String} {d : Direction} {inner outer : Endpoint} {x : Crossing} :
    ((s.port? inner).bind fun port =>
        if port.direction = d then some (⟨id, port, inner, outer⟩ : Crossing) else none) = some x ↔
      x.connection = id ∧ s.port? inner = some x.port ∧ x.port.direction = d ∧ x.inner = inner ∧
        x.outer = outer := by
  rw [Option.bind_eq_some_iff]
  constructor
  · rintro ⟨port, hPort, h⟩
    obtain ⟨hDirection, h⟩ := Option.ite_none_right_eq_some.mp h
    cases h
    exact ⟨rfl, hPort, hDirection, rfl, rfl⟩
  -- a crossing with these parts is the one that is built
  · obtain ⟨_, port, _, _⟩ := x
    rintro ⟨rfl, hPort, hDirection, rfl, rfl⟩
    exact ⟨port, hPort, if_pos hDirection⟩

/-- A crossing is a connection that leaves from an output or enters at an input that can be found.
-/
theorem mem_crossings {x : Crossing} :
    x ∈ s.crossings ids ↔ ∃ c ∈ s.connections, x.connection = c.id ∧
      s.port? x.inner = some x.port ∧
      ((c.relation ids = .leaving ∧ x.port.direction = .output ∧
          x.inner = c.source ∧ x.outer = c.target) ∨
        (c.relation ids = .entering ∧ x.port.direction = .input ∧
          x.inner = c.target ∧ x.outer = c.source)) := by
  rw [crossings, List.mem_filterMap]
  refine exists_congr fun c => and_congr_right fun _ => ?_
  rw [crossing?]
  -- the relation of the connection fixes which end is the inner one and which way its port must
  -- face
  cases hRelation : c.relation ids with
  | inside => simp
  | outside => simp
  | leaving =>
    refine usable_eq_some_iff.trans ?_
    constructor
    · rintro ⟨hId, hPort, hDirection, hInner, hOuter⟩
      exact ⟨hId, hInner ▸ hPort, .inl ⟨rfl, hDirection, hInner, hOuter⟩⟩
    · rintro ⟨hId, hPort, ⟨-, hDirection, hInner, hOuter⟩ | ⟨h, -⟩⟩
      · exact ⟨hId, hInner ▸ hPort, hDirection, hInner, hOuter⟩
      · cases h
  | entering =>
    refine usable_eq_some_iff.trans ?_
    constructor
    · rintro ⟨hId, hPort, hDirection, hInner, hOuter⟩
      exact ⟨hId, hInner ▸ hPort, .inr ⟨rfl, hDirection, hInner, hOuter⟩⟩
    · rintro ⟨hId, hPort, ⟨h, -⟩ | ⟨-, hDirection, hInner, hOuter⟩⟩
      · cases h
      · exact ⟨hId, hInner ▸ hPort, hDirection, hInner, hOuter⟩

/-- The port of a crossing is found at its inner end. -/
theorem port?_of_mem_crossings {x : Crossing} (h : x ∈ s.crossings ids) :
    s.port? x.inner = some x.port := by
  obtain ⟨c, -, -, hPort, -⟩ := mem_crossings.mp h
  exact hPort

/-- The inner end of a crossing is at a selected node. -/
theorem node_of_mem_crossings {x : Crossing} (h : x ∈ s.crossings ids) : x.inner.node ∈ ids := by
  obtain ⟨c, -, -, -, hLeaving | hEntering⟩ := mem_crossings.mp h
  · obtain ⟨hRelation, -, hInner, -⟩ := hLeaving
    rw [hInner]
    exact (Connection.relation_eq_leaving_iff.mp hRelation).1
  · obtain ⟨hRelation, -, hInner, -⟩ := hEntering
    rw [hInner]
    exact (Connection.relation_eq_entering_iff.mp hRelation).2

end Scope

namespace Crossing

/-- A leader is one of the crossings. -/
theorem mem_of_mem_leaders {x : Crossing} {seen : List Endpoint} {xs : List Crossing}
    (h : x ∈ leaders seen xs) : x ∈ xs := by
  induction xs generalizing seen with
  | nil => cases h
  | cons y rest ih =>
    rw [leaders] at h
    split at h
    · exact List.mem_cons_of_mem _ (ih h)
    · rcases List.mem_cons.mp h with rfl | h
      · exact List.mem_cons_self
      · exact List.mem_cons_of_mem _ (ih h)

/-- Each inner end that was not seen before has a leader. -/
theorem exists_leader {x : Crossing} {seen : List Endpoint} {xs : List Crossing} (h : x ∈ xs)
    (hNew : x.inner ∉ seen) : ∃ y ∈ leaders seen xs, y.inner = x.inner := by
  induction xs generalizing seen with
  | nil => cases h
  | cons y rest ih =>
    rw [leaders]
    rcases List.mem_cons.mp h with rfl | h
    · rw [if_neg hNew]
      exact ⟨x, List.mem_cons_self, rfl⟩
    -- the first crossing with this inner end leads, unless that end was seen before
    · by_cases hSeen : y.inner ∈ seen
      · rw [if_pos hSeen]
        exact ih h hNew
      · rw [if_neg hSeen]
        by_cases hSame : x.inner = y.inner
        · exact ⟨y, List.mem_cons_self, hSame.symm⟩
        · obtain ⟨z, hz, hInner⟩ := ih h (List.not_mem_cons_of_ne_of_not_mem hSame hNew)
          exact ⟨z, List.mem_cons_of_mem _ hz, hInner⟩

end Crossing

/-! ## The boundary -/

namespace Boundary

/-- Ports of one direction stay when others are added. -/
def Grows (b b' : Boundary) : Prop :=
  ∀ d, ∀ p ∈ b.side d, p ∈ b'.side d

/-- A boundary has grown out of itself. -/
theorem Grows.refl (b : Boundary) : b.Grows b :=
  fun _ _ h => h

/-- What has grown twice has grown. -/
theorem Grows.trans {a b c : Boundary} (hab : a.Grows b) (hbc : b.Grows c) : a.Grows c :=
  fun d p h => hbc d p (hab d p h)

/-- A boundary grows by a port. -/
theorem grows_add (b : Boundary) (p : BoundaryPort) (portName : String) :
    b.Grows (b.add p portName) := by
  intro d q hq
  rw [side_add]
  split
  · exact List.mem_append_left _ hq
  · exact hq

/-- A port that is added is on the side of its direction. -/
theorem mem_side_add (b : Boundary) (p : BoundaryPort) (portName : String) :
    p ∈ (b.add p portName).side p.port.direction := by
  rw [side_add, if_pos rfl]
  exact List.mem_append_right _ (List.mem_singleton_self p)

end Boundary

namespace Scope

variable {s t : Scope Node} {owner : String} {crossings : List Crossing} {b b' : Boundary}

/-- A leader of crossings gets a port that bridges its inner end. -/
theorem addLeader_eq_ok {leader : Crossing} (hLeader : leader ∈ crossings)
    (h : s.addLeader owner crossings b leader = .ok b') :
    ∃ outer p, b.bridge owner leader.port.direction leader.port leader.inner outer = .ok p ∧
      b' = b.add p leader.port.name := by
  rw [addLeader] at h
  obtain ⟨outers, hOuters, h⟩ := bind_eq_ok.mp h
  have hLength := (forall₂_of_mapM hOuters).length_eq
  -- the leader is among the crossings of its end, so there is an outer port to take
  have hMem : leader ∈ crossings.filter (·.inner = leader.inner) := by simp [hLeader]
  cases outers with
  | nil =>
    rw [List.length_nil, List.length_eq_zero_iff] at hLength
    rw [hLength] at hMem
    cases hMem
  | cons outer rest =>
    cases hBridge : b.bridge owner leader.port.direction leader.port leader.inner
        outer.endpoint with
    | error cause => simp [hBridge] at h
    | ok p =>
      simp only [hBridge] at h
      cases h
      exact ⟨outer.endpoint, p, hBridge, rfl⟩

/-- If ports could be added for all leaders, one could be added for the first, and then for the
rest. -/
theorem addLeaders_cons_eq_ok {leader : Crossing} {rest : List Crossing}
    (h : s.addLeaders owner crossings b (leader :: rest) = .ok b') :
    ∃ next, s.addLeader owner crossings b leader = .ok next ∧
      s.addLeaders owner crossings next rest = .ok b' := by
  rw [addLeaders] at h
  cases hAdd : s.addLeader owner crossings b leader with
  | error fault => simp [hAdd] at h
  | ok next => exact ⟨next, rfl, by simpa only [hAdd] using h⟩

/-- What holds of a boundary holds of it with a port for each leader. -/
theorem addLeaders_spec {leaders : List Crossing} (hLeaders : ∀ x ∈ leaders, x ∈ crossings)
    (hPorts : ∀ x ∈ leaders, t.port? x.inner = some x.port) (hMade : b.Made owner)
    (hFaithful : b.Faithful t) (h : s.addLeaders owner crossings b leaders = .ok b') :
    b'.Made owner ∧ b'.Faithful t ∧ b.Grows b' ∧
      ∀ x ∈ leaders, ∃ p ∈ b'.side x.port.direction, p.inner = x.inner := by
  induction leaders generalizing b with
  | nil =>
    cases h
    exact ⟨hMade, hFaithful, .refl _, by simp⟩
  | cons leader rest ih =>
    obtain ⟨next, hAdd, h⟩ := addLeaders_cons_eq_ok h
    obtain ⟨outer, p, hBridge, rfl⟩ := addLeader_eq_ok (hLeaders leader List.mem_cons_self) hAdd
    have hInner := hPorts leader List.mem_cons_self
    obtain ⟨hMade', hFaithful', hGrows, hRest⟩ := ih
      (fun x hx => hLeaders x (List.mem_cons_of_mem _ hx))
      (fun x hx => hPorts x (List.mem_cons_of_mem _ hx))
      (hMade.add_bridge hBridge) (hFaithful.add_bridge hBridge hInner rfl) h
    refine ⟨hMade', hFaithful', (Boundary.grows_add _ p _).trans hGrows, ?_⟩
    intro x hx
    rcases List.mem_cons.mp hx with rfl | hx
    · -- its port was added first and has stayed
      obtain ⟨hPort, hInner⟩ := Boundary.bridge_eq_ok hBridge
      have hMem := hGrows _ p (Boundary.mem_side_add _ p x.port.name)
      rw [hPort] at hMem
      exact ⟨p, hMem, hInner⟩
    · exact hRest x hx

/-- The boundary built for a selection serves all its crossings, and is faithful
to any scope that has the ports of the selected nodes. -/
theorem boundary_spec {ids : List String} (h : s.boundary owner ids = .ok b)
    (hPorts : ∀ e p, e.node ∈ ids → s.port? e = some p → t.port? e = some p) :
    b.Made owner ∧ b.Faithful t ∧
      ∀ x ∈ s.crossings ids, ∃ p ∈ b.side x.port.direction, p.inner = x.inner := by
  have hLeaders : ∀ x ∈ Crossing.leaders [] (s.crossings ids), x ∈ s.crossings ids :=
    fun x hx => Crossing.mem_of_mem_leaders hx
  obtain ⟨hMade, hFaithful, -, hServed⟩ := addLeaders_spec hLeaders
    (fun x hx => hPorts _ _ (node_of_mem_crossings (hLeaders x hx))
      (port?_of_mem_crossings (hLeaders x hx)))
    (Boundary.made_empty owner) (Boundary.faithful_empty t) h
  refine ⟨hMade, hFaithful, ?_⟩
  intro x hx
  -- each crossing has the leader of those at its inner end
  obtain ⟨y, hy, hInner⟩ := Crossing.exists_leader hx List.not_mem_nil
  -- the leader is at the same endpoint, so it has the same port
  have hPort : y.port = x.port := by
    have hPortY := port?_of_mem_crossings (hLeaders y hy)
    rw [hInner, port?_of_mem_crossings hx] at hPortY
    exact (Option.some.inj hPortY).symm
  obtain ⟨p, hp, hpInner⟩ := hServed y hy
  exact ⟨p, hPort ▸ hp, hpInner.trans hInner⟩

end Scope

end FlowNest
