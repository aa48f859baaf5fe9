import FlowNest.Proofs.Grouping.Minimal

/-!
# FlowNest — when no boundary can be built

A grouping is refused when a port that it needs cannot be made. At one inner end there are
two reasons for this: a connection that crosses there leads to no port that goes with the
one at the inner end, or no port may stand between the inner end and the port that the
first of these connections leads to. The inner ends are taken in order of first
appearance, and the first one that fails is reported.

* `Scope.crossingEnds`        — the inner ends, in that order;
* `Scope.Refuses`             — no port can be made at an inner end;
* `Scope.addLeaders_verdict`  — ports are added up to the first end that refuses one;
* `Scope.group_refused_iff`   — and the grouping fails at it, or not at all.
-/

namespace FlowNest

/-! ## Rules -/

/-- No port may stand between the two endpoints: a part of one of them is blank, or both
are at one node. -/
def Endpoint.Unbridgeable (inner outer : Endpoint) : Prop :=
  Text.isBlank inner.node = true ∨ Text.isBlank inner.port = true ∨
    Text.isBlank outer.node = true ∨ Text.isBlank outer.port = true ∨ outer.node = inner.node

instance (inner outer : Endpoint) : Decidable (inner.Unbridgeable outer) :=
  inferInstanceAs (Decidable (_ ∨ _))

namespace Scope

/-- No data can pass the boundary on the connection: its outer end is at no port, or the
ports at its two ends do not go together. -/
def Blocks (s : Scope Node) (d : Direction) (x : Connection) : Prop :=
  s.port? (x.outerEnd d) = none ∨
    ∃ p ∈ s.port? x.source, ∃ q ∈ s.port? x.target, p.feeds q = false

instance (s : Scope Node) (d : Direction) (x : Connection) : Decidable (s.Blocks d x) :=
  inferInstanceAs (Decidable (_ ∨ _))

/-- No port for data in the direction can be made at the inner end: one of the connections
that cross there is blocked, or the first of them has an outer port that cannot be bridged
to. -/
def RefusesAt (s : Scope Node) (ids : List String) (d : Direction) (e : Endpoint) : Prop :=
  (∃ x ∈ s.connections, s.usableEnd? ids d x = some e ∧ s.Blocks d x) ∨
    ∃ x ∈ s.connections.find? (fun x => s.usableEnd? ids d x = some e),
      ∃ q ∈ s.port? (x.outerEnd d), e.Unbridgeable q.endpoint

instance (s : Scope Node) (ids : List String) (d : Direction) (e : Endpoint) :
    Decidable (s.RefusesAt ids d e) :=
  inferInstanceAs (Decidable (_ ∨ _))

/-- No port can be made at the inner end. -/
def Refuses (s : Scope Node) (ids : List String) (e : Endpoint) : Prop :=
  s.RefusesAt ids .input e ∨ s.RefusesAt ids .output e

instance (s : Scope Node) (ids : List String) (e : Endpoint) : Decidable (s.Refuses ids e) :=
  inferInstanceAs (Decidable (_ ∨ _))

/-- The inner ends of all connections that cross a selection where there is a port of the
direction, in order of first appearance. -/
def crossingEnds (s : Scope Node) (ids : List String) : List Endpoint :=
  (s.connections.filterMap fun x =>
    (s.usableEnd? ids .input x).or (s.usableEnd? ids .output x)).eraseDups

/-- The inner end is the first at which no port can be made. -/
def FirstRefused (s : Scope Node) (ids : List String) (e : Endpoint) : Prop :=
  ∃ before after, s.crossingEnds ids = before ++ e :: after ∧ s.Refuses ids e ∧
    ∀ k ∈ before, ¬ s.Refuses ids k

end Scope

/-! ## One port -/

/-- A boundary port can be built when no part of its ends is blank and they are at
different nodes. -/
theorem BoundaryPort.exists_of_iff {port : Port} {source target : Endpoint} :
    (∃ p, of port source target = .ok p) ↔
      (∀ f ∈ fields source target, Text.isBlank f.2 = false) ∧ source.node ≠ target.node := by
  constructor
  · rintro ⟨p, h⟩
    obtain ⟨hFields, hApart, -⟩ := of_eq_ok_iff.mp h
    exact ⟨hFields, hApart⟩
  · rintro ⟨hFields, hApart⟩
    exact ⟨_, of_eq_ok_iff.mpr ⟨hFields, hApart, rfl⟩⟩

/-- A port can be made between two endpoints unless they cannot be bridged. -/
theorem Boundary.exists_bridge_iff {b : Boundary} {owner : String} {d : Direction} {q : Port}
    {inner outer : Endpoint} :
    (∃ p, b.bridge owner d q inner outer = .ok p) ↔ ¬ inner.Unbridgeable outer := by
  -- which end counts as the source depends on the direction, the rule does not
  cases d with
  | input =>
    refine BoundaryPort.exists_of_iff.trans ?_
    simp only [BoundaryPort.fields, Endpoint.Unbridgeable, List.forall_mem_cons]
    simp only [List.not_mem_nil, false_implies, implies_true, and_true, ne_eq, not_or,
      Bool.not_eq_true]
    tauto
  | output =>
    refine BoundaryPort.exists_of_iff.trans ?_
    simp only [BoundaryPort.fields, Endpoint.Unbridgeable, List.forall_mem_cons]
    simp only [List.not_mem_nil, false_implies, implies_true, and_true, ne_eq, not_or,
      Bool.not_eq_true, eq_comm (a := inner.node)]
    tauto

namespace Scope

variable {s : Scope Node} {ids : List String} {owner : String} {x : Connection}
  {crossings : List Crossing} {b : Boundary} {k : Crossing}

/-- The outer port of a crossing is found unless its connection is blocked. -/
theorem exists_outerPort_iff (h : s.crossing? ids x = some k) :
    (∃ q, s.outerPort k = .ok q) ↔ ¬ s.Blocks k.port.direction x := by
  obtain ⟨d, -, -, -, hPort, rfl, -, hOuter⟩ := crossing?_eq_some_iff.mp h
  rw [outerPort, Blocks, hOuter]
  cases hFound : s.port? (x.outerEnd k.port.direction) with
  | none => simp
  | some q =>
    -- the two ports are those at the ends of the connection, in one order or the other
    cases hDirection : k.port.direction with
    | input =>
      rw [hDirection] at hPort hFound
      have hSource : s.port? x.source = some q := hFound
      have hTarget : s.port? x.target = some k.port := hPort
      cases hFeeds : q.feeds k.port <;> simp [hSource, hTarget, hFeeds]
    | output =>
      rw [hDirection] at hPort hFound
      have hSource : s.port? x.source = some k.port := hPort
      have hTarget : s.port? x.target = some q := hFound
      cases hFeeds : k.port.feeds q <;> simp [hSource, hTarget, hFeeds]

/-- A port is added for the first crossing at an inner end if all crossings there find
their outer ports, and it may stand between the inner end and the first of these. -/
theorem exists_addLeader_iff
    (hFirst : crossings.find? (·.inner = k.inner) = some k) :
    (∃ b', s.addLeader owner crossings b k = .ok b') ↔
      (∀ j ∈ crossings, j.inner = k.inner → ∃ q, s.outerPort j = .ok q) ∧
        ∀ q ∈ s.port? k.outer, ¬ k.inner.Unbridgeable q.endpoint := by
  obtain ⟨rest, hFilter⟩ : ∃ rest, crossings.filter (·.inner = k.inner) = k :: rest := by
    rw [← List.head?_filter] at hFirst
    exact List.head?_eq_some_iff.mp hFirst
  have hAll : (∀ j ∈ crossings, j.inner = k.inner → ∃ q, s.outerPort j = .ok q) ↔
      ∃ outers, (k :: rest).mapM s.outerPort = .ok outers := by
    rw [exists_mapM_eq_ok_iff, ← hFilter]
    simp only [List.mem_filter, decide_eq_true_eq, and_imp]
  rw [hAll, addLeader, hFilter]
  cases hOuters : (k :: rest).mapM s.outerPort with
  | error fault => exact iff_of_false (by rintro ⟨_, h⟩; cases h) (by simp)
  | ok outers =>
    -- the first port that is found is the outer one of the crossing itself
    obtain ⟨outer, hOuter, others, rfl⟩ :
        ∃ outer, s.outerPort k = .ok outer ∧ ∃ others, outers = outer :: others := by
      rw [List.mapM_cons] at hOuters
      obtain ⟨outer, hOuter, hOuters⟩ := bind_eq_ok.mp hOuters
      obtain ⟨others, -, hOuters⟩ := bind_eq_ok.mp hOuters
      cases hOuters
      exact ⟨outer, hOuter, others, rfl⟩
    have hBridges : (∀ q ∈ s.port? k.outer, ¬ k.inner.Unbridgeable q.endpoint) ↔
        ∃ p, b.bridge owner k.port.direction k.port k.inner outer.endpoint = .ok p := by
      rw [Boundary.exists_bridge_iff, port?_of_outerPort hOuter]
      simp
    rw [hBridges, and_iff_right ⟨_, rfl⟩]
    simp only [bind, Except.bind]
    cases b.bridge owner k.port.direction k.port k.inner outer.endpoint with
    | error cause => simp
    | ok p => exact iff_of_true ⟨_, rfl⟩ ⟨_, rfl⟩

/-! ## One inner end -/

/-- The usable inner end in a direction is that of the crossing, if it goes that way. -/
theorem usableEnd?_eq_crossing? (s : Scope Node) (ids : List String) (d : Direction)
    (x : Connection) : s.usableEnd? ids d x =
      ((s.crossing? ids x).filter (·.port.direction = d)).map (·.inner) := by
  ext e
  rw [usableEnd?_eq_some_iff, Option.map_eq_some_iff]
  refine exists_congr fun k => ?_
  rw [Option.filter_eq_some_iff, decide_eq_true_eq, and_assoc]
  refine and_congr_right fun hk => and_congr_right fun hDirection => and_iff_left ?_
  obtain ⟨d', -, -, -, -, hSame, -, hOuter⟩ := crossing?_eq_some_iff.mp hk
  rw [← hDirection, hSame, hOuter]

theorem map_inner_crossing? (s : Scope Node) (ids : List String) (x : Connection) :
    (s.crossing? ids x).map (·.inner) =
      (s.usableEnd? ids .input x).or (s.usableEnd? ids .output x) := by
  rw [usableEnd?_eq_crossing?, usableEnd?_eq_crossing?]
  cases s.crossing? ids x with
  | none => rfl
  | some k => cases hDirection : k.port.direction <;> simp [Option.filter, hDirection]

/-- The inner ends are those of the leaders, in the same order. -/
theorem crossingEnds_eq (s : Scope Node) (ids : List String) :
    s.crossingEnds ids = (Crossing.leaders [] (s.crossings ids)).map (·.inner) := by
  have hLeaders := Crossing.filter_leaders (fun _ => true) [] (s.crossings ids)
  simp only [List.filter_true, List.contains_nil, Bool.not_false, Bool.and_self] at hLeaders
  rw [hLeaders, crossings, List.map_filterMap, crossingEnds]
  simp only [map_inner_crossing?]

/-- Where no port can be made in a direction, a connection crosses in it. -/
theorem exists_usableEnd?_of_refusesAt {d : Direction} {e : Endpoint}
    (h : s.RefusesAt ids d e) : ∃ x ∈ s.connections, s.usableEnd? ids d x = some e := by
  rcases h with ⟨x, hx, hEnd, -⟩ | ⟨x, hFind, -⟩
  · exact ⟨x, hx, hEnd⟩
  · exact ⟨x, List.mem_of_find?_eq_some hFind, of_decide_eq_true (List.find?_some hFind :)⟩

theorem mem_crossingEnds_of_refuses {e : Endpoint} (h : s.Refuses ids e) :
    e ∈ s.crossingEnds ids := by
  -- what is refused is refused on one side, as the inner end of a usable crossing
  have hEnd : ∃ d, ∃ x ∈ s.connections, s.usableEnd? ids d x = some e := by
    rcases h with h | h
    · exact ⟨.input, exists_usableEnd?_of_refusesAt h⟩
    · exact ⟨.output, exists_usableEnd?_of_refusesAt h⟩
  obtain ⟨d, x, hx, hEnd⟩ := hEnd
  rw [usableEnd?_eq_crossing?, Option.map_eq_some_iff] at hEnd
  obtain ⟨k, hk, hInner⟩ := hEnd
  rw [crossingEnds, List.mem_eraseDups, List.mem_filterMap]
  refine ⟨x, hx, ?_⟩
  rw [← map_inner_crossing?, (Option.filter_eq_some_iff.mp hk).1, Option.map_some, hInner]

/-- No port can be made only in the direction of the port at the inner end. -/
theorem direction_of_refusesAt {d : Direction} {e : Endpoint} {p : Port}
    (hp : s.port? e = some p) (h : s.RefusesAt ids d e) : p.direction = d := by
  obtain ⟨x, hx, hEnd⟩ := exists_usableEnd?_of_refusesAt h
  rw [usableEnd?_eq_crossing?, Option.map_eq_some_iff] at hEnd
  obtain ⟨k, hk, rfl⟩ := hEnd
  obtain ⟨hk, hDirection⟩ := Option.filter_eq_some_iff.mp hk
  have hSame := port?_of_mem_crossings (List.mem_filterMap.mpr ⟨x, hx, hk⟩)
  rw [hp] at hSame
  exact Option.some.inj hSame ▸ of_decide_eq_true hDirection

/-- All crossings at an inner end find their outer ports unless a connection is blocked. -/
theorem forall_outerPort_iff (hp : s.port? k.inner = some k.port) :
    (∀ j ∈ s.crossings ids, j.inner = k.inner → ∃ q, s.outerPort j = .ok q) ↔
      ¬ ∃ x ∈ s.connections, s.usableEnd? ids k.port.direction x = some k.inner ∧
        s.Blocks k.port.direction x := by
  constructor
  · rintro hFlows ⟨x, hx, hEnd, hBlocks⟩
    obtain ⟨j, hj, hDirection, hInner, -⟩ := usableEnd?_eq_some_iff.mp hEnd
    have hFound := hFlows j (List.mem_filterMap.mpr ⟨x, hx, hj⟩) hInner
    exact (exists_outerPort_iff hj).mp hFound (hDirection ▸ hBlocks)
  · intro hNone j hj hInner
    obtain ⟨x, hx, hCrossing⟩ := List.mem_filterMap.mp hj
    -- there is one port at the inner end, so all crossings there go in its direction
    have hPort : k.port = j.port := by
      have hSame := port?_of_mem_crossings hj
      rw [hInner, hp] at hSame
      exact Option.some.inj hSame
    refine (exists_outerPort_iff hCrossing).mpr fun hBlocks => hNone ⟨x, hx, ?_, hPort ▸ hBlocks⟩
    rw [usableEnd?_eq_crossing?, hCrossing, hPort]
    simp [Option.filter, hInner]

/-- A port can be added for the first crossing at an inner end unless the end refuses one. -/
theorem exists_addLeader_iff_not_refuses
    (hFirst : (s.crossings ids).find? (·.inner = k.inner) = some k) :
    (∃ b', s.addLeader owner (s.crossings ids) b k = .ok b') ↔ ¬ s.Refuses ids k.inner := by
  have hPort := port?_of_mem_crossings (List.mem_of_find?_eq_some hFirst)
  obtain ⟨first, hFind, hOuter⟩ := find?_usableEnd hFirst
  -- the inner end is of one direction, so only that side can refuse it
  have hAt : s.Refuses ids k.inner ↔ s.RefusesAt ids k.port.direction k.inner := by
    constructor
    · rintro (h | h)
      · exact direction_of_refusesAt hPort h ▸ h
      · exact direction_of_refusesAt hPort h ▸ h
    · intro h
      cases hDirection : k.port.direction with
      | input => exact .inl (hDirection ▸ h)
      | output => exact .inr (hDirection ▸ h)
  rw [exists_addLeader_iff hFirst, forall_outerPort_iff hPort, hAt, RefusesAt, hFind, hOuter,
    not_or]
  simp

/-! ## All of them -/

/-- Ports are added for the leaders up to the first whose inner end refuses one. -/
theorem addLeaders_verdict (owner : String) (b : Boundary) {leaders : List Crossing}
    (hFirst : ∀ k ∈ leaders, (s.crossings ids).find? (·.inner = k.inner) = some k) :
    (∃ b', s.addLeaders owner (s.crossings ids) b leaders = .ok b' ∧
        ∀ k ∈ leaders, ¬ s.Refuses ids k.inner) ∨
      ∃ before k after fault, leaders = before ++ k :: after ∧
        s.addLeaders owner (s.crossings ids) b leaders =
          .error (.incompatibleBoundary k.inner fault) ∧
        s.Refuses ids k.inner ∧ ∀ j ∈ before, ¬ s.Refuses ids j.inner := by
  induction leaders generalizing b with
  | nil => exact .inl ⟨b, rfl, by simp⟩
  | cons leader rest ih =>
    have hLeader : (∃ b', s.addLeader owner (s.crossings ids) b leader = .ok b') ↔
        ¬ s.Refuses ids leader.inner :=
      exists_addLeader_iff_not_refuses (hFirst leader List.mem_cons_self)
    rw [addLeaders]
    cases hAdd : s.addLeader owner (s.crossings ids) b leader with
    | error fault =>
      -- the run ends here
      rw [hAdd] at hLeader
      have hRefuses : s.Refuses ids leader.inner := by
        by_contra hNot
        obtain ⟨b', h⟩ := hLeader.mpr hNot
        cases h
      exact .inr ⟨[], leader, rest, fault, rfl, rfl, hRefuses, by simp⟩
    | ok next =>
      have hAccepts : ¬ s.Refuses ids leader.inner := hLeader.mp ⟨next, hAdd⟩
      -- and otherwise goes on with the next leader
      rcases ih next fun k hk => hFirst k (List.mem_cons_of_mem _ hk) with
        ⟨b', hRest, hAll⟩ | ⟨before, k, after, fault, rfl, hRest, hRefuses, hBefore⟩
      · exact .inl ⟨b', hRest, List.forall_mem_cons.mpr ⟨hAccepts, hAll⟩⟩
      · exact .inr ⟨leader :: before, k, after, fault, rfl, hRest, hRefuses,
          List.forall_mem_cons.mpr ⟨hAccepts, hBefore⟩⟩

/-- The boundary is built, or the first inner end that refuses a port is reported. -/
theorem boundary_verdict (s : Scope Node) (owner : String) (ids : List String) :
    ((∃ b, s.boundary owner ids = .ok b) ∧ ∀ e, ¬ s.Refuses ids e) ∨
      ∃ e fault, s.boundary owner ids = .error (.incompatibleBoundary e fault) ∧
        s.FirstRefused ids e := by
  -- the leaders are tried in the order of the crossing ends, so the first failure is the first
  -- refused end
  have hFirst : ∀ k ∈ Crossing.leaders [] (s.crossings ids),
      (s.crossings ids).find? (·.inner = k.inner) = some k :=
    fun k hk => (Crossing.find?_leader hk).2
  rcases addLeaders_verdict owner .empty hFirst with
    ⟨b, hBuilt, hAll⟩ | ⟨before, k, after, fault, hLeaders, hFails, hRefuses, hBefore⟩
  · refine .inl ⟨⟨b, hBuilt⟩, ?_⟩
    intro e hRefuses
    have hMem := mem_crossingEnds_of_refuses hRefuses
    rw [crossingEnds_eq] at hMem
    obtain ⟨k, hk, rfl⟩ := List.mem_map.mp hMem
    exact hAll k hk hRefuses
  · refine .inr ⟨k.inner, fault, hFails, before.map (·.inner), after.map (·.inner), ?_, hRefuses,
      ?_⟩
    · rw [crossingEnds_eq, hLeaders, List.map_append, List.map_cons]
    · intro e he
      obtain ⟨j, hj, rfl⟩ := List.mem_map.mp he
      exact hBefore j hj

/-- Of two inner ends that are the first to refuse a port, both are the same. -/
theorem FirstRefused.unique {e e' : Endpoint} (h : s.FirstRefused ids e)
    (h' : s.FirstRefused ids e') : e = e' := by
  obtain ⟨before, after, hEnds, hRefuses, hBefore⟩ := h
  obtain ⟨before', after', hEnds', hRefuses', hBefore'⟩ := h'
  rw [hEnds, List.append_eq_append_iff] at hEnds'
  -- of two splits of one list one ends first, and there the other has nothing refused yet
  rcases hEnds' with ⟨more, rfl, hRest⟩ | ⟨more, rfl, hRest⟩
  · cases more with
    | nil => exact (List.cons.inj hRest).1
    | cons k more =>
      obtain ⟨rfl, -⟩ := List.cons.inj hRest
      exact absurd hRefuses (hBefore' e (by simp))
  · cases more with
    | nil => exact (List.cons.inj hRest).1.symm
    | cons k more =>
      obtain ⟨rfl, -⟩ := List.cons.inj hRest
      exact absurd hRefuses' (hBefore e' (by simp))

/-! ## The grouping -/

/-- Where a new container would stand, and the nodes that it takes in at their places
inside of it. -/
def layout (s : Scope Node) (ids : List String) (margin : Float) :
    Except ConstructionError (Position × List Node) := do
  let position ← centroid (s.nodes.filter (·.id ∈ ids))
  let moved ← moveToMargin margin (s.nodes.filter (·.id ∈ ids))
  return (position, moved)

/-- Two nodes are laid out first, and then the boundary around them is built. -/
theorem exists_group_eq (id name : String) (settings : Settings)
    (hTwo : 2 ≤ (s.nodes.filter (·.id ∈ ids)).length) :
    ∃ make : Position × List Node → Boundary → Container Node,
      s.group ids id name settings = (do
        let places ← (s.layout ids settings.margin).mapError .construction
        let b ← s.boundary id ids
        return make places b) := by
  cases hSelected : s.nodes.filter (·.id ∈ ids) with
  | nil => simp [hSelected] at hTwo
  | cons first others =>
    cases others with
    | nil => simp [hSelected] at hTwo
    | cons second rest =>
      -- the node that the container follows is the same whatever the places are
      refine ⟨fun places b =>
        s.containerFor ids id name settings first places.1 places.2 b, ?_⟩
      rw [group_of_selected hSelected, layout]
      cases centroid (s.nodes.filter (·.id ∈ ids)) with
      | error err => rfl
      | ok position => cases moveToMargin settings.margin (s.nodes.filter (·.id ∈ ids)) <;> rfl

variable (id name : String) {settings : Settings}

/-- With places for two nodes, a grouping depends on its boundary only. -/
theorem group_of_layout (hTwo : 2 ≤ (s.nodes.filter (·.id ∈ ids)).length)
    (hLayout : ∃ places, s.layout ids settings.margin = .ok places) :
    ((∃ c, s.group ids id name settings = .ok c) ↔ ∃ b, s.boundary id ids = .ok b) ∧
      ∀ err, s.boundary id ids = .error err → s.group ids id name settings = .error err := by
  obtain ⟨places, hLayout⟩ := hLayout
  obtain ⟨make, hGroup⟩ := exists_group_eq id name settings hTwo
  rw [hGroup, hLayout]
  -- with the layout given, the boundary is the one step left that can fail
  cases s.boundary id ids with
  | error fault =>
    refine ⟨iff_of_false ?_ ?_, ?_⟩
    · rintro ⟨c, h⟩
      cases h
    · rintro ⟨b, h⟩
      cases h
    · rintro err ⟨⟩
      rfl
  | ok b =>
    refine ⟨iff_of_true ⟨_, rfl⟩ ⟨b, rfl⟩, ?_⟩
    rintro err ⟨⟩

/-- With places for two nodes or more, a grouping fails when no port can be made at some
inner end, and reports the first of them; otherwise it succeeds. -/
theorem group_refused_iff (hTwo : 2 ≤ (s.nodes.filter (·.id ∈ ids)).length)
    (hLayout : ∃ places, s.layout ids settings.margin = .ok places) :
    ((∃ e fault, s.group ids id name settings = .error (.incompatibleBoundary e fault)) ↔
        ∃ e, s.Refuses ids e) ∧
      (∀ e, (∃ fault, s.group ids id name settings = .error (.incompatibleBoundary e fault)) ↔
        s.FirstRefused ids e) ∧
      ((∃ c, s.group ids id name settings = .ok c) ↔ ∀ e, ¬ s.Refuses ids e) := by
  obtain ⟨hOk, hError⟩ := group_of_layout id name hTwo hLayout
  rcases s.boundary_verdict id ids with ⟨hBuilt, hNone⟩ | ⟨e, fault, hFails, hFirst⟩
  · obtain ⟨c, hGroup⟩ := hOk.mpr hBuilt
    rw [hGroup]
    refine ⟨iff_of_false ?_ ?_, fun e => iff_of_false ?_ ?_, iff_of_true ⟨c, rfl⟩ hNone⟩
    · rintro ⟨_, _, h⟩
      cases h
    · rintro ⟨e, h⟩
      exact hNone e h
    · rintro ⟨_, h⟩
      cases h
    · rintro ⟨_, _, -, h, -⟩
      exact hNone e h
  · have hGroup := hError _ hFails
    have hRefuses : s.Refuses ids e := by
      obtain ⟨_, _, -, h, -⟩ := hFirst
      exact h
    rw [hGroup]
    refine ⟨iff_of_true ⟨e, fault, rfl⟩ ⟨e, hRefuses⟩, ?_, iff_of_false ?_ ?_⟩
    · intro e'
      constructor
      · rintro ⟨_, h⟩
        cases h
        exact hFirst
      · intro hFirst'
        -- two ends cannot both be the first that is refused
        cases hFirst.unique hFirst'
        exact ⟨fault, rfl⟩
    · rintro ⟨_, h⟩
      cases h
    · intro hNone
      exact hNone e hRefuses

/-- Two stages of which one feeds a third, and the other a node that is not there. -/
def torn : Scope Node where
  nodes := [FlowGraph.stage "mill" none, FlowGraph.stage "drill" none,
    FlowGraph.stage "pack" none]
  connections := [FlowGraph.wire "mill-pack" "mill" "pack" none,
    FlowGraph.wire "drill-gone" "drill" "gone" none]

/-- The end at the mill could have a port, the one at the drill cannot. -/
theorem torn_group_refused :
    ∃ fault, torn.group ["drill", "mill"] "cell" "Cell" .standard =
      .error (.incompatibleBoundary ⟨"drill", "drill.out"⟩ fault) := by
  have hTwo : 2 ≤ (torn.nodes.filter (·.id ∈ ["drill", "mill"])).length := by decide +kernel
  have hPlaces : (torn.layout ["drill", "mill"] Settings.standard.margin).toOption.isSome =
      true := by decide +kernel
  have hFirst : torn.FirstRefused ["drill", "mill"] ⟨"drill", "drill.out"⟩ :=
    ⟨[⟨"mill", "mill.out"⟩], [], by decide +kernel, by decide +kernel, by decide +kernel⟩
  exact ((group_refused_iff "cell" "Cell" hTwo (exists_eq_ok hPlaces)).2.1 _).mpr hFirst

end Scope

end FlowNest
