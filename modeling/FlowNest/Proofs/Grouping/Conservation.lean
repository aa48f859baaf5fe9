import FlowNest.Proofs.Gaps
import FlowNest.Proofs.Grouping.Editing

/-!
# FlowNest — what grouping keeps

A grouping takes nothing away and makes nothing up, also in a graph that breaks the rules:
ids may repeat, connections may lead nowhere, mappings may be wrong. Each node and each
connection of the scope that is edited is afterwards in one place, inside of the new
container or beside it. Everywhere else the graph is as it was, apart from the boundary of
the container around that scope.

* `Scope.Conserves`            — where the nodes and connections of a scope have gone;
* `Boundary.Rehung`            — which ports and mappings of the enclosing boundary may
  differ;
* `Container.rehung_of_route`  — leading a boundary through a container changes no others;
* `FlowGraph.group_conserves`  — what is left of a graph, as a whole.
-/

namespace FlowNest

/-! ## One scope -/

namespace Scope

variable {s : Scope Node} {ids : List String} {c : Container Node}

/-- The end as it was, or moved from a selected node to the port of the container, on the
side of the direction, that bridges it. -/
def Shifted (ids : List String) (c : Container Node) (d : Direction) (e e' : Endpoint) : Prop :=
  e' = e ∨ e.node ∈ ids ∧ ∃ p ∈ c.boundary.side d,
    p.port.direction = d ∧ p.inner = e ∧ e' = ⟨c.core.id, p.port.id⟩

/-- The second connection is the first, with its ends as they were or shifted. -/
structure Stays (ids : List String) (c : Container Node) (x y : Connection) : Prop where
  source : Shifted ids c .output x.source y.source
  target : Shifted ids c .input x.target y.target
  rest : y = { x with source := y.source, target := y.target }

/-- The nodes of the scope with the ids are inside of `c`, with the connections among them,
and the others are in `t`, with the other connections; and that is all there is. -/
structure Conserves (s : Scope Node) (ids : List String) (c : Container Node)
    (t : Scope Node) : Prop where
  nodes : ∃ left first right, s.nodes = left ++ first :: right ∧
    (∀ n ∈ left, n.id ∉ ids) ∧ first.id ∈ ids ∧
    t.nodes = left ++ .graph c :: right.filter (·.id ∉ ids)
  children : List.Forall₂
    (fun n m => ∃ position, m = n.withCore { n.core with position, parent := some c.core.id })
    (s.nodes.filter (·.id ∈ ids)) c.inside.nodes
  inner : c.inside.connections =
    (s.connections.filter fun x => x.source.node ∈ ids ∧ x.target.node ∈ ids).map
      fun x => { x with scope := some c.core.id }
  outer : List.Forall₂ (Stays ids c)
    (s.connections.filter fun x => ¬(x.source.node ∈ ids ∧ x.target.node ∈ ids)) t.connections

/-- A selected end goes to the boundary port that was made for it, or stays. -/
theorem shifted_throughBoundary (hMade : c.boundary.Made c.core.id) (d : Direction) {e : Endpoint}
    (hSelected : e.node ∈ ids) : Shifted ids c d e (throughBoundary c d e) := by
  rw [throughBoundary]
  split
  · next p hPort =>
    have hMem : p ∈ c.boundary.side d := List.mem_of_find?_eq_some hPort
    have hInner : p.inner = e := of_decide_eq_true (List.find?_some hPort :)
    exact .inr ⟨hSelected, p, hMem, hMade.sides d p hMem, hInner, rfl⟩
  · exact .inl rfl

/-- A connection moves inside with both of its ends, and otherwise stays. -/
theorem redirect?_cases (ids : List String) (hMade : c.boundary.Made c.core.id) (x : Connection) :
    (redirect? ids c x = none ∧ x.source.node ∈ ids ∧ x.target.node ∈ ids) ∨
      ∃ y, redirect? ids c x = some y ∧ ¬(x.source.node ∈ ids ∧ x.target.node ∈ ids) ∧
        Stays ids c x y := by
  rw [redirect?]
  -- only the end on the selected side is shifted, to the boundary port that stands for it
  cases hRelation : x.relation ids with
  | inside => exact .inl ⟨rfl, Connection.relation_eq_inside_iff.mp hRelation⟩
  | outside =>
    obtain ⟨hSource, -⟩ := Connection.relation_eq_outside_iff.mp hRelation
    exact .inr ⟨x, rfl, fun h => hSource h.1, ⟨.inl rfl, .inl rfl, rfl⟩⟩
  | leaving =>
    obtain ⟨hSource, hTarget⟩ := Connection.relation_eq_leaving_iff.mp hRelation
    exact .inr ⟨_, rfl, fun h => hTarget h.2,
      ⟨shifted_throughBoundary hMade .output hSource, .inl rfl, rfl⟩⟩
  | entering =>
    obtain ⟨hSource, hTarget⟩ := Connection.relation_eq_entering_iff.mp hRelation
    exact .inr ⟨_, rfl, fun h => hSource h.1,
      ⟨.inl rfl, shifted_throughBoundary hMade .input hTarget, rfl⟩⟩

/-- A scope that collapses into a container conserves its nodes and connections. -/
theorem conserves_collapse (hTakes : c.Takes s ids) (hMade : c.boundary.Made c.core.id) :
    s.Conserves ids c (s.collapse ids c) where
  nodes := by
    obtain ⟨left, first, right, hNodes, hLeft, hFirst, hCollapse⟩ :=
      collapseNodes_split hTakes.selected
    exact ⟨left, first, right, hNodes, hLeft, hFirst, hCollapse c⟩
  children := by
    obtain ⟨moved, hMoved, hNodes⟩ := hTakes.nodes
    rw [hNodes, List.forall₂_map_right_iff]
    refine hMoved.imp ?_
    rintro n m ⟨position, rfl⟩
    exact ⟨position, by simp [Node.withPosition, Node.withParent]⟩
  inner := by
    rw [hTakes.connections]
    refine congrArg (List.map _) (List.filter_congr fun x _ => ?_)
    rw [decide_eq_decide]
    exact Connection.relation_eq_inside_iff
  outer := by
    show List.Forall₂ _ _ (s.connections.filterMap (redirect? ids c))
    -- a connection goes inside when both ends are selected, and else stays in its place
    induction s.connections with
    | nil => exact .nil
    | cons x rest ih =>
      rcases redirect?_cases ids hMade x with ⟨hNone, hBoth⟩ | ⟨y, hSome, hOne, hStays⟩
      · rw [List.filterMap_cons_none hNone, List.filter_cons_of_neg (by simpa using hBoth)]
        exact ih
      · rw [List.filterMap_cons_some hSome,
          List.filter_cons_of_pos (by rwa [decide_eq_true_eq])]
        exact .cons hStays ih

/-- The boundary of a new container is made for it. -/
theorem made_of_group {id name : String} {settings : Settings}
    (h : s.group ids id name settings = .ok c) : c.boundary.Made c.core.id := by
  obtain ⟨rfl, -, -, -, hBoundary⟩ := group_spec h
  exact (boundary_spec hBoundary fun _ _ _ hPort => hPort).1

/-- The ids of the scope, with those of all nodes below, are the same but for the new one. -/
theorem ids_collapse (hTakes : c.Takes s ids) :
    ((Forest.preorder (s.collapse ids c).nodes).map (·.id)).Perm
      (c.core.id :: (Forest.preorder s.nodes).map (·.id)) := by
  have hIds := (outlines_collapse hTakes).map Outline.id
  rwa [Forest.outlines, Forest.outlines, List.map_cons, List.map_map, List.map_map] at hIds

end Scope

/-! ## The boundary around it -/

/-- The name is mapped to a node with one of the ids. -/
def MapsInto (mappings : StringMap PortMapping) (ids : List String) (name : String) : Prop :=
  ∃ m, mappings[name]? = some m ∧ m.child ∈ ids

/-- The port as it was, or, if it was mapped to a node with one of the ids, led to a port of
its own direction of the boundary `b`, which is that of the container `owner`. -/
def BoundaryPort.Turned (owner : String) (ids : List String) (b : Boundary)
    (before : StringMap PortMapping) (p p' : BoundaryPort) : Prop :=
  p' = p ∨ MapsInto before ids p.port.name ∧
    ∃ own ∈ b.side p.port.direction, p' = p.withInner ⟨owner, own.port.id⟩

/-- The name is mapped as it was, or, if it is that of one of the ports and was mapped to a
node with one of the ids, to a port of that port's direction of the boundary `b`. -/
def Remapped (owner : String) (ids : List String) (b : Boundary) (ports : List BoundaryPort)
    (before after : StringMap PortMapping) (name : String) : Prop :=
  after[name]? = before[name]? ∨ MapsInto before ids name ∧
    ∃ p ∈ ports, p.port.name = name ∧
      ∃ own ∈ b.side p.port.direction, after[name]? = some ⟨owner, own.port.name⟩

/-- The boundary `outside` differs from the boundary `b` in ports and mappings that led to
nodes with the ids only, and there it leads to ports of `c`. -/
structure Boundary.Rehung (c : Container Node) (ids : List String) (b outside : Boundary) :
    Prop where
  sides : ∀ d, List.Forall₂ (BoundaryPort.Turned c.core.id ids c.boundary b.mappings)
    (b.side d) (outside.side d)
  mappings : ∀ name, Remapped c.core.id ids c.boundary b.ports b.mappings outside.mappings name

section Rehung

variable {owner : String} {ids : List String} {b b' : Boundary} {ps qs : List BoundaryPort}
  {before mid after : StringMap PortMapping} {p p' : BoundaryPort} {name : String}

/-- A port that was turned to the container stays so when the boundary grows. -/
theorem BoundaryPort.Turned.grows (h : p.Turned owner ids b before p') (hGrows : b.Grows b') :
    p.Turned owner ids b' before p' := by
  rcases h with rfl | ⟨hInto, own, hOwn, rfl⟩
  · exact .inl rfl
  · exact .inr ⟨hInto, own, hGrows _ own hOwn, rfl⟩

/-- A mapping that was turned to the container stays so when the boundary grows. -/
theorem Remapped.grows (h : Remapped owner ids b ps before after name) (hGrows : b.Grows b') :
    Remapped owner ids b' ps before after name := by
  rcases h with hSame | ⟨hInto, p, hp, hName, own, hOwn, hAfter⟩
  · exact .inl hSame
  · exact .inr ⟨hInto, p, hp, hName, own, hGrows _ own hOwn, hAfter⟩

/-- What is mapped to a node with one of the ids in the end was so at first. -/
theorem Remapped.mapsInto (h : Remapped owner ids b ps before mid name)
    (hInto : MapsInto mid ids name) : MapsInto before ids name := by
  rcases h with hSame | ⟨hBefore, -⟩
  · obtain ⟨m, hm, hIds⟩ := hInto
    exact ⟨m, hSame ▸ hm, hIds⟩
  · exact hBefore

/-- What becomes of a mapping on one side and on the other is put together. -/
theorem Remapped.trans (h : Remapped owner ids b ps before mid name)
    (k : Remapped owner ids b qs mid after name) :
    Remapped owner ids b (ps ++ qs) before after name := by
  rcases k with hSame | ⟨hInto, q, hq, hName, own, hOwn, hAfter⟩
  · rcases h with hMid | ⟨hInto, p, hp, hName, own, hOwn, hMid⟩
    · exact .inl (hSame.trans hMid)
    · exact .inr ⟨hInto, p, List.mem_append_left _ hp, hName, own, hOwn, hSame.trans hMid⟩
  · exact .inr ⟨h.mapsInto hInto, q, List.mem_append_right _ hq, hName, own, hOwn, hAfter⟩

/-- On each side the ports themselves stay. -/
theorem Boundary.Rehung.map_port_side {c : Container Node} {outside : Boundary}
    (h : Boundary.Rehung c ids b outside) (d : Direction) :
    (outside.side d).map (·.port) = (b.side d).map (·.port) := by
  refine map_eq_of_forall₂ (h.sides d) ?_
  rintro p p' (rfl | ⟨-, own, -, rfl⟩)
  · rfl
  · exact p.port_withInner _

end Rehung

namespace Container

variable {c c' : Container Node} {ids : List String} {enclosing : String}

/-- One step turns its own port at most, and changes the mapping of its name at most. -/
theorem turned_of_throughStep {r r' : Rerouting} {p p' : BoundaryPort}
    (hMade : r.boundary.Made c.core.id) (h : c.throughStep enclosing ids r p = .ok (r', p')) :
    r'.boundary.Made c.core.id ∧ r.boundary.Grows r'.boundary ∧
      p.Turned c.core.id ids r'.boundary r.mappings p' ∧
      ∀ name, Remapped c.core.id ids r'.boundary [p] r.mappings r'.mappings name := by
  rcases throughStep_cases h with
    ⟨-, rfl, rfl⟩ | ⟨m, n, q, b, inner, hm, hIds, -, hPortTo, rfl, rfl⟩
  · exact ⟨hMade, .refl _, .inl rfl, fun _ => .inl rfl⟩
  · obtain ⟨hMade', hGrows, own, hOwn, -, rfl⟩ := portTo_eq_ok hMade hPortTo
    have hInto : MapsInto r.mappings ids p.port.name := ⟨m, hm, hIds⟩
    refine ⟨hMade', hGrows, .inr ⟨hInto, own, hOwn, rfl⟩, ?_⟩
    intro name
    -- a step writes the mapping of its own port only
    by_cases hName : p.port.name = name
    · subst hName
      exact .inr ⟨hInto, p, List.mem_singleton_self p, rfl, own, hOwn,
        Std.ExtTreeMap.getElem?_insert_self⟩
    · refine .inl ?_
      rw [Std.ExtTreeMap.getElem?_insert, if_neg (by simpa using hName)]

/-- And so do all steps, however often a name comes up. -/
theorem turned_of_passes {r r' : Rerouting} {ps ps' : List BoundaryPort}
    (h : Passes (fun r p r' p' => c.throughStep enclosing ids r p = .ok (r', p')) r ps r' ps')
    (hMade : r.boundary.Made c.core.id) :
    r'.boundary.Made c.core.id ∧ r.boundary.Grows r'.boundary ∧
      List.Forall₂ (BoundaryPort.Turned c.core.id ids r'.boundary r.mappings) ps ps' ∧
      ∀ name, Remapped c.core.id ids r'.boundary ps r.mappings r'.mappings name := by
  induction h with
  | nil => exact ⟨hMade, .refl _, .nil, fun _ => .inl rfl⟩
  | cons hStep _ ih =>
    obtain ⟨hMade, hGrows, hTurned, hMapped⟩ := turned_of_throughStep hMade hStep
    obtain ⟨hMade', hGrows', hRest, hMapped'⟩ := ih hMade
    refine ⟨hMade', hGrows.trans hGrows', .cons (hTurned.grows hGrows') (hRest.imp ?_), ?_⟩
    · -- a port behind it that was turned was mapped to a selected node before the step, too
      rintro q q' (rfl | ⟨hInto, hOwn⟩)
      · exact .inl rfl
      · exact .inr ⟨(hMapped _).mapsInto hInto, hOwn⟩
    · intro name
      exact ((hMapped name).grows hGrows').trans (hMapped' name)

/-- Ports that are led through a container leave it what it is up to its boundary, and hang on it
where they hung on the selection. -/
theorem rehung_of_route {e : Container Node} {outside : Boundary}
    (hMade : c.boundary.Made c.core.id) (h : e.routeThrough c ids = .ok (c', outside)) :
    c'.core = c.core ∧ c'.inside = c.inside ∧ c'.boundary.Made c.core.id ∧
      Boundary.Rehung c' ids e.boundary outside := by
  obtain ⟨⟨r, inputs⟩, hIn, h⟩ := bind_eq_ok.mp h
  obtain ⟨⟨r', outputs⟩, hOut, h⟩ := bind_eq_ok.mp h
  cases h
  have hPassIn := passes_of_passPorts_eq_ok hIn
  have hPassOut := passes_of_passPorts_eq_ok hOut
  obtain ⟨hMadeIn, -, hInputs, hMapped⟩ := turned_of_passes hPassIn hMade
  obtain ⟨hMadeOut, hGrows, hOutputs, hMapped'⟩ := turned_of_passes hPassOut hMadeIn
  refine ⟨rfl, rfl, hMadeOut, ?_, ?_⟩
  · intro d
    -- the outputs come second, so they meet the mappings as the inputs left them
    cases d with
    | input => exact hInputs.imp fun _ _ hTurned => hTurned.grows hGrows
    | output =>
      refine hOutputs.imp ?_
      rintro q q' (rfl | ⟨hInto, hOwn⟩)
      · exact .inl rfl
      · exact .inr ⟨(hMapped _).mapsInto hInto, hOwn⟩
  · intro name
    exact ((hMapped name).grows hGrows).trans (hMapped' name)

end Container

/-! ## The graph -/

namespace FlowGraph

variable {g g' : FlowGraph} {ids : List String} {id name : String} {settings : Settings}

/-- `g'` is `g` with the content `t` instead of `s` in the scope. If the scope is the inside
of a container, its boundary may be rehung; beside that container nothing is different. -/
inductive Regroups (g : FlowGraph) (ids : List String) (c : Container Node) :
    FlowGraph → ScopeId → Scope Node → Scope Node → Prop where
  | root (t : Scope Node) : Regroups g ids c { g with root := t } none g.root t
  | inside {gap : Gap} {e : Container Node} {outside : Boundary} {t : Scope Node}
      (hNodes : g.root.nodes = gap.fill (.graph e))
      (hOutside : Boundary.Rehung c ids e.boundary outside) :
      Regroups g ids c
        (g.withNodes (gap.fill (.graph { e with boundary := outside, inside := t })))
        (some e.core.id) e.inside t

/-- The ids below the graph change as those below the scope do. -/
theorem Regroups.ids_perm {c : Container Node} {scope : ScopeId} {s t : Scope Node} {id : String}
    (h : g.Regroups ids c g' scope s t)
    (hIds : ((Forest.preorder t.nodes).map (·.id)).Perm
      (id :: (Forest.preorder s.nodes).map (·.id))) :
    (g'.allNodes.map (·.id)).Perm (id :: g.allNodes.map (·.id)) := by
  cases h with
  | root => exact hIds
  | @inside gap e outside t hNodes hOutside =>
    obtain ⟨before, after, hBeside⟩ := gap.exists_ids
    rw [allNodes, allNodes, hNodes, hBeside, withNodes, hBeside, Node.preorder_graph,
      Node.preorder_graph, List.map_cons, List.map_cons]
    -- the new id is among those inside of the container
    refine (((hIds.cons e.core.id).append_left before).append_right after).trans ?_
    refine (((List.Perm.swap id e.core.id _).append_left before).append_right after).trans ?_
    exact List.perm_middle.append_right after

/-- Of a grouping that succeeds, in any graph: the ids of all nodes are those of before and
the new one; the nodes and connections of one scope, in which all selected ids that are
found stand, are conserved; and all else is as before, but for the ports and mappings of the
container around that scope that led to the nodes grouped. -/
theorem group_conserves (h : g.group ids id name settings = .ok g') :
    (g'.allNodes.map (·.id)).Perm (id :: g.allNodes.map (·.id)) ∧
      ∃ scope s c t,
        ((∃ i ∈ ids, g.scopeOf? i = some scope) ∧
          ∀ i ∈ ids, ∀ place, g.scopeOf? i = some place → place = scope) ∧
        g.scope? scope = some s ∧ c.core.id = id ∧ s.Conserves ids c t ∧
        g.Regroups ids c g' scope s t := by
  obtain ⟨scope, hScope, hStages⟩ := group_eq_ok h
  rcases hStages with
    ⟨rfl, c, hGroup, rfl⟩ | ⟨e, c, c', outside, rfl, hFind, hGroup, hRoute, hPut⟩
  · obtain ⟨rfl, -, -, hTakes, -⟩ := Scope.group_spec hGroup
    have hRegroups : g.Regroups ids c { g with root := g.root.collapse ids c } none g.root
        (g.root.collapse ids c) := .root _
    exact ⟨hRegroups.ids_perm (Scope.ids_collapse hTakes), none, g.root, c, g.root.collapse ids c,
      hScope, rfl, rfl, Scope.conserves_collapse hTakes (Scope.made_of_group hGroup), hRegroups⟩
  · obtain ⟨rfl, -, -, hTakes, -⟩ := Scope.group_spec hGroup
    obtain ⟨hCore, hInside, hMade, hRehung⟩ :=
      Container.rehung_of_route (Scope.made_of_group hGroup) hRoute
    have hTakes' := hTakes.congr hCore hInside
    -- the container that is put back fills the gap of the one that was found
    obtain ⟨gap, hNodes, hUpdate⟩ := exists_gap (container?_eq_find?.mp hFind)
    have hSame := (hUpdate fun _ => .graph
      { e with boundary := outside, inside := e.inside.collapse ids c' }).symm.trans hPut
    obtain rfl := Option.some.inj hSame
    have hRegroups := Regroups.inside (t := e.inside.collapse ids c') hNodes hRehung
    refine ⟨hCore ▸ hRegroups.ids_perm (Scope.ids_collapse hTakes'), some e.core.id, e.inside, c',
      e.inside.collapse ids c', hScope, ?_, congrArg NodeCore.id hCore,
      Scope.conserves_collapse hTakes' (hCore ▸ hMade), hRegroups⟩
    rw [scope?, hFind]
    rfl

/-- A plant out of order: two mills and two drills have one id each, a connection leads to
no node, and the line has two ports of one name. -/
def mess : FlowGraph :=
  { plant with
    root :=
      { nodes := [stage "source" none,
          .graph { line with
            boundary := { line.boundary with
              inputs := line.boundary.inputs ++ line.boundary.inputs }
            inside :=
              { nodes := stage "mill" none :: line.inside.nodes
                connections := wire "pack-gone" "pack" "gone" none :: line.inside.connections } },
          stage "drill" none]
        connections := plant.root.connections } }

/-- In a graph that breaks most rules, three nodes are grouped, and no id is lost. -/
theorem mess_group_conserves :
    ∃ g', mess.group ["drill", "mill", "gauge"] "cell" "Cell" .standard = .ok g' ∧
      (g'.allNodes.map (·.id)).Perm ("cell" :: mess.allNodes.map (·.id)) := by
  have hSome : (mess.group ["drill", "mill", "gauge"] "cell" "Cell" .standard).toOption.isSome =
      true := by decide +kernel
  obtain ⟨g', hGroup⟩ := exists_eq_ok hSome
  exact ⟨g', hGroup, (group_conserves hGroup).1⟩

end FlowGraph

end FlowNest
