import FlowNest.Proofs.Grouping.Collapse
import FlowNest.Proofs.Rules

/-!
# FlowNest — the least boundary that will do

The boundary of a new container has one port for each inner end at which a connection
crosses in the direction of the port there, and no other. However many connections cross
at an inner end, they share its port, which faces the outer end of the first of them.

* `Scope.innerEnds`          — the inner ends that need a port of one direction;
* `Crossing.filter_leaders`  — the leaders stand at them, in the same order;
* `Scope.addLeaders_sides`   — one port is added for each leader;
* `Scope.group_bridges`      — the boundary of a new container.
-/

namespace FlowNest

/-! ## Lists without repetitions -/

theorem nodup_eraseDups {α : Type} [DecidableEq α] (as : List α) : as.eraseDups.Nodup := by
  cases as with
  | nil => exact List.nodup_nil
  | cons a rest =>
    rw [List.eraseDups_cons, List.nodup_cons]
    refine ⟨?_, nodup_eraseDups (rest.filter fun b => !b == a)⟩
    simp [List.mem_eraseDups]
termination_by as.length
decreasing_by simpa using Nat.lt_succ_of_le (List.length_filter_le (fun b => !b == a) rest)

/-! ## Inner ends -/

/-- The end inside of a container at whose boundary data passes in the direction. -/
def Connection.innerEnd (x : Connection) : Direction → Endpoint
  | .input => x.target
  | .output => x.source

/-- The other end. -/
def Connection.outerEnd (x : Connection) : Direction → Endpoint
  | .input => x.source
  | .output => x.target

namespace Scope

/-- The inner end of a connection that crosses a selection in the direction, if there is
a port of that direction. -/
def usableEnd? (s : Scope Node) (ids : List String) (d : Direction) (x : Connection) :
    Option Endpoint :=
  if (x.innerEnd d).node ∈ ids ∧ (x.outerEnd d).node ∉ ids ∧
      (s.port? (x.innerEnd d)).any (·.direction = d) then some (x.innerEnd d)
  else none

/-- All of them, in order of first appearance. -/
def innerEnds (s : Scope Node) (ids : List String) (d : Direction) : List Endpoint :=
  (s.connections.filterMap (s.usableEnd? ids d)).eraseDups

variable {s : Scope Node} {ids : List String} {x : Connection} {k : Crossing}

/-- A crossing in a direction has a port of that direction at its inner end. -/
theorem crossing?_eq_some_iff :
    s.crossing? ids x = some k ↔
      ∃ d, (x.innerEnd d).node ∈ ids ∧ (x.outerEnd d).node ∉ ids ∧ k.connection = x.id ∧
        s.port? (x.innerEnd d) = some k.port ∧ k.port.direction = d ∧ k.inner = x.innerEnd d ∧
        k.outer = x.outerEnd d := by
  rw [crossing?]
  cases hRelation : x.relation ids with
  | inside =>
    obtain ⟨hSource, hTarget⟩ := Connection.relation_eq_inside_iff.mp hRelation
    refine iff_of_false (by simp) ?_
    -- both ends are selected, so neither can be the outer one
    rintro ⟨_ | _, -, hOuter, -⟩
    · exact hOuter hSource
    · exact hOuter hTarget
  | outside =>
    obtain ⟨hSource, hTarget⟩ := Connection.relation_eq_outside_iff.mp hRelation
    refine iff_of_false (by simp) ?_
    -- neither end is selected, so neither can be the inner one
    rintro ⟨_ | _, hInner, -⟩
    · exact hTarget hInner
    · exact hSource hInner
  | leaving =>
    obtain ⟨hSource, hTarget⟩ := Connection.relation_eq_leaving_iff.mp hRelation
    refine usable_eq_some_iff.trans ⟨fun h => ⟨.output, hSource, hTarget, h⟩, ?_⟩
    rintro ⟨_ | _, hInner, -, h⟩
    · exact absurd hInner hTarget
    · exact h
  | entering =>
    obtain ⟨hSource, hTarget⟩ := Connection.relation_eq_entering_iff.mp hRelation
    refine usable_eq_some_iff.trans ⟨fun h => ⟨.input, hTarget, hSource, h⟩, ?_⟩
    rintro ⟨_ | _, hInner, -, h⟩
    · exact h
    · exact absurd hInner hSource

/-- The inner end of a connection is usable when there is a crossing with it. -/
theorem usableEnd?_eq_some_iff {d : Direction} {e : Endpoint} :
    s.usableEnd? ids d x = some e ↔
      ∃ k, s.crossing? ids x = some k ∧ k.port.direction = d ∧ k.inner = e ∧
        k.outer = x.outerEnd d := by
  rw [usableEnd?, Option.ite_none_right_eq_some, Option.any_eq_true]
  constructor
  · rintro ⟨⟨hInner, hOuter, port, hPort, hDirection⟩, hEnd⟩
    have hDirection := of_decide_eq_true hDirection
    -- the crossing is the one whose port the inner end names
    refine ⟨⟨x.id, port, e, x.outerEnd d⟩, ?_, hDirection, rfl, rfl⟩
    cases hEnd
    exact crossing?_eq_some_iff.mpr ⟨d, hInner, hOuter, rfl, hPort, hDirection, rfl, rfl⟩
  · rintro ⟨k, hk, rfl, rfl, -⟩
    obtain ⟨d, hInner, hOuter, -, hPort, rfl, hEnd, -⟩ := crossing?_eq_some_iff.mp hk
    exact ⟨⟨hInner, hOuter, k.port, hPort, decide_eq_true rfl⟩, congrArg some hEnd.symm⟩

/-- The port at the endpoint is of the direction. -/
def sends (s : Scope Node) (d : Direction) (e : Endpoint) : Bool :=
  (s.port? e).any (·.direction = d)

theorem sends_inner (h : k ∈ s.crossings ids) (d : Direction) :
    s.sends d k.inner = decide (k.port.direction = d) := by
  rw [sends, port?_of_mem_crossings h, Option.any_some]

/-- The inner ends of all crossings in one direction are the usable ones. -/
theorem filter_inner_crossings (s : Scope Node) (ids : List String) (d : Direction) :
    ((s.crossings ids).map (·.inner)).filter (s.sends d) =
      s.connections.filterMap (s.usableEnd? ids d) := by
  rw [crossings, List.map_filterMap, List.filter_filterMap]
  refine List.filterMap_congr fun x hx => Option.ext fun e => ?_
  rw [usableEnd?_eq_some_iff, Option.filter_eq_some_iff, Option.map_eq_some_iff]
  constructor
  · rintro ⟨⟨k, hk, rfl⟩, hSends⟩
    rw [sends_inner (List.mem_filterMap.mpr ⟨x, hx, hk⟩)] at hSends
    obtain ⟨d', -, -, -, -, hDirection, -, hOuter⟩ := crossing?_eq_some_iff.mp hk
    -- the end of a crossing is of one direction only, so the two directions here are one
    cases hDirection.symm.trans (of_decide_eq_true hSends)
    exact ⟨k, hk, hDirection, rfl, hOuter⟩
  · rintro ⟨k, hk, hDirection, rfl, -⟩
    refine ⟨⟨k, hk, rfl⟩, ?_⟩
    rw [sends_inner (List.mem_filterMap.mpr ⟨x, hx, hk⟩)]
    exact decide_eq_true hDirection

end Scope

/-! ## Leaders -/

namespace Crossing

variable {xs : List Crossing} {seen : List Endpoint} {k : Crossing}

/-- The leaders stand at the ends that were not seen before, each at another one. -/
theorem filter_leaders (p : Endpoint → Bool) (seen : List Endpoint) (xs : List Crossing) :
    ((leaders seen xs).map (·.inner)).filter p =
      ((xs.map (·.inner)).filter fun e => p e && !seen.contains e).eraseDups := by
  induction xs generalizing seen with
  | nil => rfl
  | cons y rest ih =>
    rw [leaders]
    by_cases hSeen : y.inner ∈ seen
    · rw [if_pos hSeen, ih]
      simp [hSeen]
    · rw [if_neg hSeen, List.map_cons, List.map_cons]
      -- what is left of the rest is the same whether or not the end counts as seen
      have hRest : (rest.map (·.inner)).filter (fun e => p e && !(y.inner :: seen).contains e) =
          ((rest.map (·.inner)).filter fun e => p e && !seen.contains e).filter
            (!· == y.inner) := by
        rw [List.filter_filter]
        refine List.filter_congr fun e _ => ?_
        rw [List.contains_cons, Bool.not_or, Bool.and_left_comm]
      by_cases hp : p y.inner = true
      · rw [List.filter_cons_of_pos hp, List.filter_cons_of_pos (by simpa [hSeen] using hp),
          List.eraseDups_cons, ih, hRest]
      · rw [List.filter_cons_of_neg hp, List.filter_cons_of_neg (by simp [hp]), ih]
        refine congrArg List.eraseDups (List.filter_congr fun e _ => ?_)
        by_cases he : e = y.inner
        · simp [he, hp]
        · simp [he]

/-- A leader is the first crossing at its inner end. -/
theorem find?_leader (h : k ∈ leaders seen xs) :
    k.inner ∉ seen ∧ xs.find? (·.inner = k.inner) = some k := by
  induction xs generalizing seen with
  | nil => cases h
  | cons y rest ih =>
    rw [leaders] at h
    split at h
    · next hSeen =>
      obtain ⟨hNew, hFind⟩ := ih h
      -- what was seen is passed over by the leaders, and so by the search
      have hOther : y.inner ≠ k.inner := fun hSame => hNew (hSame ▸ hSeen)
      exact ⟨hNew, by rw [List.find?_cons_of_neg (by simpa using hOther), hFind]⟩
    · next hSeen =>
      rcases List.mem_cons.mp h with rfl | h
      · exact ⟨hSeen, List.find?_cons_of_pos (by simp)⟩
      · obtain ⟨hNew, hFind⟩ := ih h
        obtain ⟨hOther, hNew⟩ := not_or.mp (mt List.mem_cons.mpr hNew)
        exact ⟨hNew, by rw [List.find?_cons_of_neg (by simpa using Ne.symm hOther), hFind]⟩

end Crossing

/-! ## Ports -/

theorem Boundary.outer_of_bridge {b : Boundary} {owner : String} {d : Direction} {q : Port}
    {inner outer : Endpoint} {p : BoundaryPort} (h : b.bridge owner d q inner outer = .ok p) :
    p.outer = outer := by
  rw [bridge, BoundaryPort.bridge] at h
  cases d with
  | input =>
    obtain ⟨-, -, rfl⟩ := BoundaryPort.of_eq_ok_iff.mp h
    rfl
  | output =>
    obtain ⟨-, -, rfl⟩ := BoundaryPort.of_eq_ok_iff.mp h
    rfl

namespace Scope

variable {s : Scope Node} {ids : List String} {owner : String} {crossings : List Crossing}
  {b b' : Boundary}

/-- The port of the container `owner` that a crossing needs. -/
structure Bridges (s : Scope Node) (owner : String) (p : BoundaryPort) (k : Crossing) : Prop where
  inner : p.inner = k.inner
  port : p.port = { Port.of owner p.port.name k.port.direction k.port.dataType with
    required := k.port.required }
  outer : ∃ q, s.port? k.outer = some q ∧ p.outer = q.endpoint

theorem port?_of_outerPort {k : Crossing} {q : Port} (h : s.outerPort k = .ok q) :
    s.port? k.outer = some q := by
  rw [outerPort] at h
  split at h
  · cases h
  · next outer hOuter =>
    obtain ⟨-, h⟩ | ⟨-, h⟩ := ite_eq_iff.mp h
    · cases Except.ok.inj h
      exact hOuter
    · cases h

theorem bridges_of_addLeader {leader : Crossing}
    (hFirst : crossings.find? (·.inner = leader.inner) = some leader)
    (h : s.addLeader owner crossings b leader = .ok b') :
    ∃ p, s.Bridges owner p leader ∧ b' = b.add p leader.port.name := by
  -- the leader comes first among those of its inner end, so its outer port is the one that counts
  obtain ⟨rest, hFilter⟩ : ∃ rest, crossings.filter (·.inner = leader.inner) = leader :: rest := by
    rw [← List.head?_filter] at hFirst
    exact List.head?_eq_some_iff.mp hFirst
  rw [addLeader, hFilter, List.mapM_cons] at h
  obtain ⟨outers, hOuters, h⟩ := bind_eq_ok.mp h
  obtain ⟨outer, hOuter, hOuters⟩ := bind_eq_ok.mp hOuters
  obtain ⟨others, -, hOuters⟩ := bind_eq_ok.mp hOuters
  cases hOuters
  cases hBridge : b.bridge owner leader.port.direction leader.port leader.inner outer.endpoint with
  | error cause => simp [hBridge] at h
  | ok p =>
    simp only [hBridge] at h
    cases h
    obtain ⟨hPort, hInner⟩ := Boundary.bridge_eq_ok hBridge
    refine ⟨p, ⟨hInner, ?_, outer, port?_of_outerPort hOuter,
      Boundary.outer_of_bridge hBridge⟩, rfl⟩
    rw [hPort]
    rfl

/-- One port is added for each leader, to those of its direction. -/
theorem addLeaders_sides {leaders : List Crossing}
    (hFirst : ∀ k ∈ leaders, crossings.find? (·.inner = k.inner) = some k)
    (h : s.addLeaders owner crossings b leaders = .ok b') (d : Direction) :
    ∃ added, b'.side d = b.side d ++ added ∧
      List.Forall₂ (s.Bridges owner) added (leaders.filter (·.port.direction = d)) := by
  induction leaders generalizing b with
  | nil =>
    cases h
    exact ⟨[], (List.append_nil _).symm, .nil⟩
  | cons leader rest ih =>
    obtain ⟨next, hAdd, h⟩ := addLeaders_cons_eq_ok h
    obtain ⟨p, hBridges, rfl⟩ := bridges_of_addLeader (hFirst leader List.mem_cons_self) hAdd
    obtain ⟨added, hSide, hAdded⟩ := ih (fun k hk => hFirst k (List.mem_cons_of_mem _ hk)) h
    have hDirection : p.port.direction = leader.port.direction := by rw [hBridges.port]; rfl
    rw [Boundary.side_add, hDirection] at hSide
    -- a port made for the leader lands on this side or on the other one
    by_cases hd : leader.port.direction = d
    · rw [if_pos hd, List.append_assoc] at hSide
      rw [List.filter_cons_of_pos (by simpa using hd)]
      exact ⟨p :: added, hSide, .cons hBridges hAdded⟩
    · rw [if_neg hd] at hSide
      rw [List.filter_cons_of_neg (by simpa using hd)]
      exact ⟨added, hSide, hAdded⟩

/-- The first crossing at an inner end comes from the first connection that has it as a
usable end. -/
theorem find?_usableEnd {k : Crossing} {e : Endpoint}
    (h : (s.crossings ids).find? (·.inner = e) = some k) :
    ∃ x, s.connections.find? (fun x => s.usableEnd? ids k.port.direction x = some e) = some x ∧
      k.outer = x.outerEnd k.port.direction := by
  have hInner : k.inner = e := of_decide_eq_true (List.find?_some h :)
  have hPort : s.port? e = some k.port :=
    hInner ▸ port?_of_mem_crossings (List.mem_of_find?_eq_some h)
  have hSame (x : Connection) : (s.crossing? ids x).any (·.inner = e) =
      decide (s.usableEnd? ids k.port.direction x = some e) := by
    rw [Bool.eq_iff_iff, decide_eq_true_iff, usableEnd?_eq_some_iff, Option.any_eq_true]
    constructor
    · rintro ⟨k', hk', hEnd⟩
      obtain ⟨d, -, -, -, hPort', hDirection, hInner', hOuter⟩ := crossing?_eq_some_iff.mp hk'
      have hEnd := of_decide_eq_true hEnd
      -- there is one port at the end, so both crossings go in its direction
      rw [← hInner', hEnd, hPort] at hPort'
      cases Option.some.inj hPort' ▸ hDirection
      exact ⟨k', hk', congrArg Port.direction (Option.some.inj hPort').symm, hEnd, hOuter⟩
    · rintro ⟨k', hk', -, hEnd, -⟩
      exact ⟨k', hk', decide_eq_true hEnd⟩
  rw [crossings, List.find?_filterMap, Option.bind_eq_some_iff] at h
  obtain ⟨x, hFind, hk⟩ := h
  rw [funext hSame] at hFind
  obtain ⟨k', hk', hDirection, -, hOuter⟩ :=
    usableEnd?_eq_some_iff.mp (of_decide_eq_true (List.find?_some hFind :))
  cases hk.symm.trans hk'
  exact ⟨x, hFind, hOuter⟩

theorem sends_of_mem_innerEnds {d : Direction} {e : Endpoint} (h : e ∈ s.innerEnds ids d) :
    s.sends d e = true := by
  rw [innerEnds, List.mem_eraseDups, ← filter_inner_crossings] at h
  exact (List.mem_filter.mp h).2

/-- An end needs a port of one direction only. -/
theorem disjoint_innerEnds : (s.innerEnds ids .input).Disjoint (s.innerEnds ids .output) := by
  intro e hInput hOutput
  obtain ⟨p, hPort, hp⟩ := Option.any_eq_true _ _ |>.mp (sends_of_mem_innerEnds hInput)
  obtain ⟨q, hPort', hq⟩ := Option.any_eq_true _ _ |>.mp (sends_of_mem_innerEnds hOutput)
  cases hPort.symm.trans hPort'
  cases (of_decide_eq_true hp).symm.trans (of_decide_eq_true hq)

/-- Where the ports of the boundary for a selection stand, and what they bridge. -/
theorem boundary_sides (h : s.boundary owner ids = .ok b) (d : Direction) :
    (b.side d).map (·.inner) = s.innerEnds ids d ∧
      ∀ p ∈ b.side d, ∃ k, s.Bridges owner p k ∧ k.port.direction = d ∧
        s.port? k.inner = some k.port ∧
        (s.crossings ids).find? (·.inner = k.inner) = some k := by
  have hFirst : ∀ k ∈ Crossing.leaders [] (s.crossings ids),
      (s.crossings ids).find? (·.inner = k.inner) = some k :=
    fun k hk => (Crossing.find?_leader hk).2
  obtain ⟨added, hSide, hBridges⟩ := addLeaders_sides hFirst h d
  have hEmpty : Boundary.empty.side d = [] := by cases d <;> rfl
  rw [hEmpty, List.nil_append] at hSide
  rw [hSide]
  constructor
  -- the direction of a crossing can be read off its inner end, so it may be asked for before the
  -- repetitions are dropped
  · have hSends : (Crossing.leaders [] (s.crossings ids)).filter (·.port.direction = d) =
        (Crossing.leaders [] (s.crossings ids)).filter (s.sends d ∘ (·.inner)) :=
      List.filter_congr fun k hk => (sends_inner (Crossing.mem_of_mem_leaders hk) d).symm
    calc added.map (·.inner)
        = ((Crossing.leaders [] (s.crossings ids)).filter (·.port.direction = d)).map (·.inner) :=
          (map_eq_of_forall₂ hBridges fun p k hpk => hpk.inner.symm).symm
      _ = ((Crossing.leaders [] (s.crossings ids)).map (·.inner)).filter (s.sends d) := by
          rw [hSends, List.filter_map]
      _ = (((s.crossings ids).map (·.inner)).filter (s.sends d)).eraseDups := by
          simp [Crossing.filter_leaders]
      _ = s.innerEnds ids d := by
          rw [filter_inner_crossings, innerEnds]
  · intro p hp
    obtain ⟨k, hk, hpk⟩ := exists_of_mem_forall₂ hBridges.flip hp
    obtain ⟨hk, hDirection⟩ := List.mem_filter.mp hk
    exact ⟨k, hpk, of_decide_eq_true hDirection,
      port?_of_mem_crossings (Crossing.mem_of_mem_leaders hk), hFirst k hk⟩

/-- A new container has the ports its inner ends need, and no other. Each takes after the
port at its inner end, faces the outer end of the first connection there, and is mapped to
the port at its inner end. -/
theorem group_bridges {id name : String} {settings : Settings} {c : Container Node}
    (h : s.group ids id name settings = .ok c) :
    (∀ d, (c.boundary.side d).map (·.inner) = s.innerEnds ids d) ∧
      (c.boundary.ports.map (·.inner)).Nodup ∧ c.boundary.names.Nodup ∧
      (∀ d, ∀ p ∈ c.boundary.side d, ∃ q x outer,
        s.port? p.inner = some q ∧
          p.port = { Port.of id p.port.name d q.dataType with required := q.required } ∧
          s.connections.find? (fun x => s.usableEnd? ids d x = some p.inner) = some x ∧
          s.port? (x.outerEnd d) = some outer ∧ p.outer = outer.endpoint ∧
          c.boundary.mappings[p.port.name]? = some ⟨p.inner.node, q.name⟩) ∧
      ∀ key m, c.boundary.mappings[key]? = some m → key ∈ c.boundary.names := by
  obtain ⟨-, -, -, -, hBoundary⟩ := group_spec h
  obtain ⟨hMade, hFaithful, -⟩ := boundary_spec hBoundary fun _ _ _ hPort => hPort
  have hInner (d : Direction) := (boundary_sides hBoundary d).1
  refine ⟨hInner, ?_, hMade.names, ?_, hFaithful.keys⟩
  -- an inner end is of one direction, so the two sides share none
  · have hPorts : c.boundary.ports.map (·.inner) =
        s.innerEnds ids .input ++ s.innerEnds ids .output := by
      rw [← hInner, ← hInner, ← List.map_append]
      rfl
    rw [hPorts]
    exact (nodup_eraseDups _).append (nodup_eraseDups _) disjoint_innerEnds
  · intro d p hp
    obtain ⟨k, hBridges, rfl, hPort, hFirst⟩ := (boundary_sides hBoundary d).2 p hp
    obtain ⟨x, hFind, hOuter⟩ := find?_usableEnd hFirst
    obtain ⟨outer, hOuterPort, hOuterEnd⟩ := hBridges.outer
    -- the mapping names the port by the id it has inside, which is that of the inner end
    obtain ⟨q, hq, -, -, hMapping⟩ := hFaithful.leads p (Boundary.mem_ports_iff.mpr ⟨_, hp⟩)
    rw [hBridges.inner, hPort] at hq
    cases hq
    rw [← hBridges.inner] at hPort hFind
    exact ⟨k.port, x, outer, hPort, hBridges.port, hFind, hOuter ▸ hOuterPort, hOuterEnd,
      hMapping⟩

/-- Two stages that both feed a third, and one of them also a fourth. -/
def fork : Scope Node where
  nodes := [FlowGraph.stage "mill" none, FlowGraph.stage "drill" none,
    FlowGraph.stage "pack" none, FlowGraph.stage "store" none]
  connections := [FlowGraph.wire "mill-pack" "mill" "pack" none,
    FlowGraph.wire "drill-pack" "drill" "pack" none,
    FlowGraph.wire "mill-store" "mill" "store" none]

/-- What leaves the mill shares a port. -/
theorem fork_group_bridges :
    ∃ c, fork.group ["drill", "mill"] "cell" "Cell" .standard = .ok c ∧
      (c.boundary.side .output).map (·.inner) = [⟨"mill", "mill.out"⟩, ⟨"drill", "drill.out"⟩] := by
  have hSome : (fork.group ["drill", "mill"] "cell" "Cell" .standard).toOption.isSome = true := by
    decide +kernel
  obtain ⟨c, hGroup⟩ := exists_eq_ok hSome
  refine ⟨c, hGroup, ((group_bridges hGroup).1 .output).trans ?_⟩
  decide +kernel

end Scope

end FlowNest
