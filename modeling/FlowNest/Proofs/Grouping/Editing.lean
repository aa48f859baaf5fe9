import FlowNest.Proofs.Folding
import FlowNest.Proofs.Grouping.Passage
import FlowNest.Proofs.Rules

/-!
# FlowNest — grouping and ungrouping as edits of one scope

Both operations put another content into one scope, and if the scope is the
inside of a container, lead the ports of its boundary elsewhere. Everything
outside of the scope keeps its outline, however deep the scope lies.

* `FlowGraph.Edits`          — such an edit;
* `FlowGraph.group_spec`     — a grouping that succeeds is one;
* `FlowGraph.ungroup_spec`   — an ungrouping is one, and succeeds.
-/

namespace FlowNest

/-- A container with another boundary, whose ports are the same, has the same face. -/
theorem Container.face_of_sides {e : Container Node} {outside : Boundary}
    (h : ∀ d, (outside.side d).map (·.port) = (e.boundary.side d).map (·.port)) (t : Scope Node) :
    (Node.graph { e with boundary := outside, inside := t }).face = (Node.graph e).face := by
  have hIn : outside.inputs.map (·.port) = e.boundary.inputs.map (·.port) := h .input
  have hOut : outside.outputs.map (·.port) = e.boundary.outputs.map (·.port) := h .output
  show (⟨e.core.id, e.core.parent, outside.inputs.map (·.port),
    outside.outputs.map (·.port)⟩ : Face)
    = ⟨e.core.id, e.core.parent, e.boundary.inputs.map (·.port), e.boundary.outputs.map (·.port)⟩
  rw [hIn, hOut]

namespace FlowGraph

variable {g g' : FlowGraph}

/-- `g'` is `g` with the content `t` instead of `s` in a scope. The boundary of the
container around it, if there is one, has changed in the way of `Led`. -/
inductive Edits (g : FlowGraph)
    (Led : BoundaryPort → Option PortMapping → Option PortMapping → BoundaryPort → Prop) :
    FlowGraph → ScopeId → Scope Node → Scope Node → Prop where
  | root (t : Scope Node) : Edits g Led { g with root := t } none g.root t
  | inside {e : Container Node} {outside : Boundary} {t : Scope Node} {g' : FlowGraph}
      (hFind : g.container? e.core.id = some e)
      (hOutside : Boundary.Rerouted Led e.boundary outside)
      (hPut : g.putContainer? { e with boundary := outside, inside := t } = some g') :
      Edits g Led g' (some e.core.id) e.inside t

theorem container?_id {id : String} {c : Container Node} (h : g.container? id = some c) :
    c.core.id = id :=
  Forest.id_of_find? (container?_eq_find?.mp h)

/-! ## What an edit changes -/

section Rerouted

variable {Led : BoundaryPort → Option PortMapping → Option PortMapping → BoundaryPort → Prop}
  {e : Container Node} {outside : Boundary}

theorem face_of_rerouted (h : Boundary.Rerouted Led e.boundary outside) (t : Scope Node) :
    (Node.graph { e with boundary := outside, inside := t }).face = (Node.graph e).face :=
  Container.face_of_sides h.map_port_side t

theorem shell_of_rerouted (h : Boundary.Rerouted Led e.boundary outside) (t : Scope Node) :
    (Node.graph { e with boundary := outside, inside := t }).outline.shell =
      (Node.graph e).outline.shell := by
  have hIn : outside.inputs.map (·.port) = e.boundary.inputs.map (·.port) := h.map_port_side .input
  have hOut : outside.outputs.map (·.port) = e.boundary.outputs.map (·.port) :=
    h.map_port_side .output
  show (⟨e.core.id, e.core.name, e.core.kind, outside.inputs.map (·.port),
    outside.outputs.map (·.port), none⟩ : Outline) = ⟨e.core.id, e.core.name, e.core.kind,
      e.boundary.inputs.map (·.port), e.boundary.outputs.map (·.port), none⟩
  rw [hIn, hOut]

end Rerouted

namespace Edits

variable {Led : BoundaryPort → Option PortMapping → Option PortMapping → BoundaryPort → Prop}
  {scope : ScopeId} {s t : Scope Node}

theorem scope? (h : g.Edits Led g' scope s t) : g.scope? scope = some s := by
  cases h with
  | root => rfl
  | inside hFind _ _ =>
    rw [FlowGraph.scope?, hFind]
    rfl

/-- The content that was put is there. -/
theorem scope?_after (h : g.Edits Led g' scope s t) (hUnique : g'.UniqueIds) :
    g'.scope? scope = some t := by
  cases h with
  | root => rfl
  | inside hFind hOutside hPut =>
    have hMem := mem_allNodes_of_putContainer? hFind (face_of_rerouted hOutside t) hPut
    rw [FlowGraph.scope?, (container?_eq_some_iff hUnique).mpr ⟨hMem, rfl⟩]
    rfl

/-- Of two edits of one scope the second stays, and where it leads the ports back,
nothing else is left of them. -/
theorem undo {g'' : FlowGraph} {u : Scope Node}
    {Led' : BoundaryPort → Option PortMapping → Option PortMapping → BoundaryPort → Prop}
    (h : g.Edits Led g' scope s t) (h' : g'.Edits Led' g'' scope t u) (hUnique : g'.UniqueIds)
    (hUndo : ∀ (e : Container Node) (outside back : Boundary), g.container? e.core.id = some e →
      s = e.inside → Boundary.Rerouted Led e.boundary outside →
        Boundary.Rerouted Led' outside back → back = e.boundary) :
    g.withScope? scope u = some g'' := by
  cases h with
  | root =>
    cases h' with
    | root => rfl
  | @inside e outside t g' hFind hOutside hPut =>
    have hMem := mem_allNodes_of_putContainer? hFind (face_of_rerouted hOutside t) hPut
    generalize hPlace : (some e.core.id : ScopeId) = place at h'
    cases h' with
    | root => cases hPlace
    | @inside e' back u g'' hFind' hBack hPut' =>
      obtain ⟨hMem', -⟩ := (container?_eq_some_iff hUnique).mp hFind'
      -- the container that is edited second is the one that was put first
      have hSame := Node.graph.inj
        (hUnique.eq_of_id_eq hMem' hMem (Option.some.inj hPlace).symm)
      have hCore := congrArg Container.core hSame
      have hBoundary := congrArg Container.boundary hSame
      change e'.core = e.core at hCore
      change e'.boundary = outside at hBoundary
      rw [hBoundary] at hBack
      rw [hCore, hUndo e outside back hFind rfl hOutside hBack] at hPut'
      -- with its boundary led back it differs from the container at first in its content only
      have hTwice : g'.putContainer? { e with inside := u } =
          g.putContainer? { e with inside := u } :=
        putContainer?_putContainer? hPut rfl
      rw [hCore, withScope?, hFind]
      exact hTwice.symm.trans hPut'

/-- Beside the nodes of the scope the same ids are there as before. -/
theorem ids_perm (h : g.Edits Led g' scope s t) :
    ∃ rest, (g.allNodes.map (·.id)).Perm ((Forest.outlines s.nodes).map (·.id) ++ rest) ∧
      (g'.allNodes.map (·.id)).Perm ((Forest.outlines t.nodes).map (·.id) ++ rest) := by
  cases h with
  | root =>
    refine ⟨[], ?_, ?_⟩
    · rw [← map_id_outlines, List.append_nil]
      exact .refl _
    · rw [← map_id_outlines, List.append_nil]
      exact .refl _
  | @inside e outside t g' hFind hOutside hPut =>
    obtain ⟨nodes, rest, hPut', -, hBefore, hAfter⟩ :=
      putContainer?_outlines hFind (face_of_rerouted hOutside t)
    rw [hPut] at hPut'
    obtain rfl := Option.some.inj hPut'
    -- the rest are the enclosing container and all that is outside of it
    refine ⟨e.core.id :: rest.map (·.id), ?_, ?_⟩
    · have hIds := hBefore.map Outline.id
      rw [map_id_outlines, List.map_append, List.map_cons] at hIds
      exact hIds.trans List.perm_middle.symm
    · have hIds := hAfter.map Outline.id
      rw [map_id_outlines, List.map_append, List.map_cons] at hIds
      exact hIds.trans List.perm_middle.symm

/-- An edit that takes a container in folds the graph. -/
theorem folding_in {c : Container Node} (h : g.Edits Led g' scope s t) (hUnique : g'.UniqueIds)
    (hNodes : (Forest.outlines t.nodes).Perm ((Node.graph c).outline :: Forest.outlines s.nodes))
    (hPasses : ∀ (e : Container Node) (outside : Boundary), g.container? e.core.id = some e →
      s = e.inside → Boundary.Rerouted Led e.boundary outside →
        (Node.graph e).PassesThrough (.graph { e with boundary := outside, inside := t }) c) :
    Folding g g' c scope s t := by
  cases h with
  | root => exact Folding.of_root hUnique hNodes
  | @inside e outside t g' hFind hOutside hPut =>
    obtain ⟨nodes, rest, hPut', -, hBefore, hAfter⟩ :=
      putContainer?_outlines hFind (face_of_rerouted hOutside t)
    rw [hPut] at hPut'
    obtain rfl := Option.some.inj hPut'
    -- one outline more, behind that of the enclosing container
    refine Folding.of_inside hUnique hBefore ?_ (shell_of_rerouted hOutside t) rfl
      (hPasses e outside hFind rfl hOutside)
    refine hAfter.trans (((hNodes.append_right rest).cons _).trans ?_)
    exact List.Perm.swap _ _ _

/-- An edit that takes a container out leads back from a folded graph. -/
theorem folding_out {c : Container Node} (h : g.Edits Led g' scope s t) (hUnique : g.UniqueIds)
    (hNodes : (Forest.outlines s.nodes).Perm ((Node.graph c).outline :: Forest.outlines t.nodes))
    (hPasses : ∀ (e : Container Node) (outside : Boundary), g.container? e.core.id = some e →
      s = e.inside → Boundary.Rerouted Led e.boundary outside →
        (Node.graph { e with boundary := outside, inside := t }).PassesThrough (.graph e) c) :
    Folding g' g c scope t s := by
  cases h with
  | root =>
    -- the graph from before is the folded one here
    have hFolded : g.outlines.Perm ((Node.graph c).outline :: ({ g with root := t }).outlines) :=
      hNodes
    exact Folding.of_root hUnique hFolded
  | @inside e outside t g' hFind hOutside hPut =>
    obtain ⟨nodes, rest, hPut', -, hBefore, hAfter⟩ :=
      putContainer?_outlines hFind (face_of_rerouted hOutside t)
    rw [hPut] at hPut'
    obtain rfl := Option.some.inj hPut'
    refine Folding.of_inside hUnique hAfter ?_ (shell_of_rerouted hOutside t).symm rfl
      (hPasses e outside hFind rfl hOutside)
    refine hBefore.trans (((hNodes.append_right rest).cons _).trans ?_)
    exact List.Perm.swap _ _ _

end Edits

end FlowGraph

/-! ## The container that grouping makes -/

/-- `c` is the container that takes the nodes with the ids from `s` in: its ports are
made for it, lead where both of their records say, and serve all crossings. -/
structure Container.Gathers (c : Container Node) (s : Scope Node) (ids : List String)
    (id name : String) : Prop where
  id : c.core.id = id
  name : c.core.name = name
  kind : c.core.kind = Container.kind
  takes : c.Takes s ids
  made : c.boundary.Made c.core.id
  faithful : c.boundary.Faithful c.inside
  serves : ∀ x ∈ s.crossings ids, ∃ p ∈ c.boundary.side x.port.direction, p.inner = x.inner

/-- What a container takes in does not depend on its boundary. -/
theorem Container.Takes.congr {c c' : Container Node} {s : Scope Node} {ids : List String}
    (h : c.Takes s ids) (hCore : c'.core = c.core) (hInside : c'.inside = c.inside) :
    c'.Takes s ids where
  selected := h.selected
  parent := hCore ▸ h.parent
  nodes := by
    rw [hCore, hInside]
    exact h.nodes
  connections := by
    rw [hCore, hInside]
    exact h.connections

theorem Scope.Tidy.gathers {s : Scope Node} (hs : s.Tidy) {ids : List String} {id name : String}
    {settings : Settings} {c : Container Node} (h : s.group ids id name settings = .ok c) :
    c.Gathers s ids id name := by
  obtain ⟨rfl, hName, hKind, hTakes, hBoundary⟩ := Scope.group_spec h
  obtain ⟨hMade, hFaithful, hServes⟩ := Scope.boundary_spec hBoundary
    fun e p hIds hPort => (hTakes.port?_inside hs).mpr ⟨hIds, hPort⟩
  exact ⟨rfl, hName, hKind, hTakes, hMade, hFaithful, hServes⟩

theorem Container.Gathers.opens {c : Container Node} {s : Scope Node} {ids : List String}
    {id name : String} (h : c.Gathers s ids id name) (hs : s.Tidy) : c.Opens :=
  ⟨h.takes.tidy_inside hs, h.made, h.faithful⟩

theorem Container.Gathers.of_serves {c c' : Container Node} {s : Scope Node} {ids : List String}
    {id name : String} (h : c.Gathers s ids id name) (hCore : c'.core = c.core)
    (hInside : c'.inside = c.inside) (hServes : c.Serves c.boundary c'.boundary) :
    c'.Gathers s ids id name where
  id := hCore ▸ h.id
  name := hCore ▸ h.name
  kind := hCore ▸ h.kind
  takes := h.takes.congr hCore hInside
  made := hCore ▸ hServes.made
  faithful := hInside ▸ hServes.faithful
  -- the boundary may have grown, but it has lost no port
  serves := by
    intro x hx
    obtain ⟨p, hp, hInner⟩ := h.serves x hx
    exact ⟨p, hServes.grows _ _ hp, hInner⟩

/-- Inside of a container, the container around is led through the new one, which
gathers the nodes with the ports it has in the end. -/
theorem Container.gathers_of_route {e c c' : Container Node} {ids : List String}
    {id name : String} {settings : Settings} {outside : Boundary} (he : (Node.graph e).TidyPorts)
    (hTidy : e.inside.Tidy) (hGroup : e.inside.group ids id name settings = .ok c)
    (hRoute : e.routeThrough c ids = .ok (c', outside)) :
    c'.Gathers e.inside ids id name ∧
      Boundary.Rerouted (c'.LedThrough ids c'.boundary) e.boundary outside := by
  have hGathers := hTidy.gathers hGroup
  have hInside := hGathers.takes.tidy_inside hTidy
  obtain ⟨hCore, hSame, hServes, hLed⟩ := routeThrough_spec (names_nodup he) hInside
    hGathers.made hGathers.faithful hRoute
  exact ⟨hGathers.of_serves hCore hSame hServes, hLed⟩

namespace FlowGraph

variable {g g' : FlowGraph} {ids : List String} {id name : String} {settings : Settings}

/-- The selected nodes stand in one scope if grouping gets as far as that. -/
theorem scope_of_places {scope : ScopeId} {rest : List ScopeId}
    (hPlaces : ids.filterMap g.scopeOf? = scope :: rest)
    (hRest : ¬(rest.any (· ≠ scope)) = true) :
    (∃ i ∈ ids, g.scopeOf? i = some scope) ∧
      ∀ i ∈ ids, ∀ place, g.scopeOf? i = some place → place = scope := by
  have hMem : ∀ place, place ∈ scope :: rest ↔ ∃ i ∈ ids, g.scopeOf? i = some place := by
    intro place
    rw [← hPlaces, List.mem_filterMap]
  refine ⟨(hMem scope).mp List.mem_cons_self, ?_⟩
  intro i hi place hPlace
  rcases List.mem_cons.mp ((hMem place).mpr ⟨i, hi, hPlace⟩) with hScope | hIn
  · exact hScope
  -- another place would have been noticed as a mix
  · by_contra hOther
    exact hRest (List.any_eq_true.mpr ⟨place, hIn, decide_eq_true hOther⟩)

/-- Grouping in the scope of the selected nodes, once it is known. -/
def groupIn (g : FlowGraph) (scope : ScopeId) (ids : List String) (id name : String)
    (settings : Settings) : Except GroupingError FlowGraph :=
  match scope with
  | none => do
    let c ← g.root.group ids id name settings
    return { g with root := g.root.collapse ids c }
  | some outer => do
    let some enclosing := g.container? outer | throw (.nodeNotFound outer)
    let c ← enclosing.inside.group ids id name settings
    let (c, boundary) ← enclosing.routeThrough c ids
    let inside := enclosing.inside.collapse ids c
    let some g := g.putContainer? { enclosing with boundary, inside } | throw (.nodeNotFound outer)
    return g

/-- The scope of the first selected node that is found has to be that of all of them. -/
theorem group_eq (g : FlowGraph) (ids : List String) (id name : String) (settings : Settings) :
    g.group ids id name settings =
      match ids.filterMap g.scopeOf? with
      | [] => .error (.tooFewNodes ids.length 0)
      | scope :: rest =>
        if rest.any (· ≠ scope) then .error .mixedScopes
        else g.groupIn scope ids id name settings := by
  rw [group]
  cases ids.filterMap g.scopeOf? with
  | nil => rfl
  | cons scope rest =>
    cases hRest : rest.any (· ≠ scope) with
    -- the root and a container are treated alike
    | true => cases scope <;> simp only [hRest] <;> rfl
    | false => cases scope <;> simp only [hRest] <;> rfl

/-- Nodes that stand in one scope are grouped there. -/
theorem group_eq_groupIn {scope : ScopeId} (hThere : ∃ i ∈ ids, g.scopeOf? i = some scope)
    (hAll : ∀ i ∈ ids, ∀ place, g.scopeOf? i = some place → place = scope) :
    g.group ids id name settings = g.groupIn scope ids id name settings := by
  have hFirst : scope ∈ ids.filterMap g.scopeOf? := List.mem_filterMap.mpr hThere
  have hPlaces : ∀ place ∈ ids.filterMap g.scopeOf?, place = scope := by
    intro place hPlace
    obtain ⟨i, hi, hPlace⟩ := List.mem_filterMap.mp hPlace
    exact hAll i hi place hPlace
  rw [group_eq]
  -- the first place is the scope, and there is no other one
  split
  · next hNil =>
    rw [hNil] at hFirst
    cases hFirst
  · next first rest hCons =>
    rw [hCons] at hPlaces
    obtain ⟨rfl, hRest⟩ := List.forall_mem_cons.mp hPlaces
    rw [if_neg]
    simpa using hRest

/-- A grouping that succeeds is one in the scope of the selected nodes, and in another graph
where they stand in the same scopes, grouping comes as far as that, too. -/
theorem groupIn_of_group (h : g.group ids id name settings = .ok g') :
    ∃ scope, ((∃ i ∈ ids, g.scopeOf? i = some scope) ∧
        ∀ i ∈ ids, ∀ place, g.scopeOf? i = some place → place = scope) ∧
      g.groupIn scope ids id name settings = .ok g' ∧
      ∀ k : FlowGraph, k.scopeOf? = g.scopeOf? →
        k.group ids id name settings = k.groupIn scope ids id name settings := by
  rw [group_eq] at h
  split at h
  · cases h
  · next scope rest hPlaces =>
    split at h
    · cases h
    · next hRest =>
      have hScope := scope_of_places hPlaces hRest
      refine ⟨scope, hScope, h, fun k hSame => ?_⟩
      -- which scope it is depends on nothing but the scopes of the ids
      rw [← hSame] at hScope
      exact group_eq_groupIn hScope.1 hScope.2

/-- The stages of a grouping that succeeds: in the root, the new container takes the selected
nodes in; inside of a container, that container is led through it besides, and put back. -/
theorem group_eq_ok (h : g.group ids id name settings = .ok g') :
    ∃ scope, ((∃ i ∈ ids, g.scopeOf? i = some scope) ∧
        ∀ i ∈ ids, ∀ place, g.scopeOf? i = some place → place = scope) ∧
      ((scope = none ∧ ∃ c, g.root.group ids id name settings = .ok c ∧
          g' = { g with root := g.root.collapse ids c }) ∨
        ∃ e c c' outside, scope = some e.core.id ∧ g.container? e.core.id = some e ∧
          e.inside.group ids id name settings = .ok c ∧
          e.routeThrough c ids = .ok (c', outside) ∧
          g.putContainer? { e with boundary := outside, inside := e.inside.collapse ids c' } =
            some g') := by
  obtain ⟨scope, hScope, hIn, -⟩ := groupIn_of_group h
  refine ⟨scope, hScope, ?_⟩
  cases scope with
  | none =>
    obtain ⟨c, hGroup, h⟩ := bind_eq_ok.mp hIn
    cases h
    exact .inl ⟨rfl, c, hGroup, rfl⟩
  | some outer =>
    rw [groupIn] at hIn
    -- in a container: it is found, the scope grouped, the ports led through, and the result put
    -- back
    cases hFind : g.container? outer with
    | none => simp [hFind] at hIn
    | some e =>
      simp only [hFind] at hIn
      obtain ⟨c, hGroup, h⟩ := bind_eq_ok.mp hIn
      obtain ⟨⟨c', outside⟩, hRoute, h⟩ := bind_eq_ok.mp h
      obtain rfl := container?_id hFind
      cases hPut : g.putContainer?
          { e with boundary := outside, inside := e.inside.collapse ids c' } with
      | none => simp [hPut] at h
      | some k =>
        simp only [hPut] at h
        cases h
        exact .inr ⟨e, c, c', outside, rfl, hFind, hGroup, hRoute, hPut⟩

/-- Grouping puts a new container into the scope that the selected nodes share. -/
theorem group_spec (hUnique : g.UniqueIds) (hPorts : ∀ n ∈ g.allNodes, n.TidyPorts)
    (h : g.group ids id name settings = .ok g') :
    ∃ scope s c, ((∃ i ∈ ids, g.scopeOf? i = some scope) ∧
        ∀ i ∈ ids, ∀ place, g.scopeOf? i = some place → place = scope) ∧
      c.Gathers s ids id name ∧
      g.Edits (c.LedThrough ids c.boundary) g' scope s (s.collapse ids c) := by
  obtain ⟨scope, hScope, hStages⟩ := group_eq_ok h
  rcases hStages with
    ⟨rfl, c, hGroup, rfl⟩ | ⟨e, c, c', outside, rfl, hFind, hGroup, hRoute, hPut⟩
  · exact ⟨none, g.root, c, hScope, (tidy_root hUnique hPorts).gathers hGroup, .root _⟩
  -- led through, the container still gathers what it did at first
  · have he := ((container?_eq_some_iff hUnique).1 hFind).1
    have hTidy := tidy_inside hUnique hPorts he
    obtain ⟨hGathers, hLed⟩ := Container.gathers_of_route (hPorts _ he) hTidy hGroup hRoute
    exact ⟨some e.core.id, e.inside, c', hScope, hGathers, .inside hFind hLed hPut⟩

section Folding

variable {c : Container Node} {scope : ScopeId} {s : Scope Node}

/-- The ids after a grouping are those from before and the new one. -/
theorem ids_of_group (hGathers : c.Gathers s ids id name)
    (hEdits : g.Edits (c.LedThrough ids c.boundary) g' scope s (s.collapse ids c)) :
    (g'.allNodes.map (·.id)).Perm (id :: g.allNodes.map (·.id)) := by
  obtain ⟨rest, hBefore, hAfter⟩ := hEdits.ids_perm
  -- the nodes of the scope are there, and the container
  have hNodes := (Scope.outlines_collapse hGathers.takes).map Outline.id
  rw [List.map_cons, Node.id_outline, show (Node.graph c).id = id from hGathers.id] at hNodes
  exact hAfter.trans ((hNodes.append_right rest).trans (hBefore.symm.cons id))

theorem unique_of_group (hUnique : g.UniqueIds) (hNew : ∀ n ∈ g.allNodes, n.id ≠ id)
    (hGathers : c.Gathers s ids id name)
    (hEdits : g.Edits (c.LedThrough ids c.boundary) g' scope s (s.collapse ids c)) :
    g'.UniqueIds :=
  hUnique.of_perm_cons hNew (ids_of_group hGathers hEdits)

/-- Grouping under a new id folds the graph. -/
theorem folding_of_group (hUnique : g.UniqueIds) (hPorts : ∀ n ∈ g.allNodes, n.TidyPorts)
    (hNew : ∀ n ∈ g.allNodes, n.id ≠ id)
    (hUnmapped : ∀ e : Container Node, .graph e ∈ g.allNodes → ∀ (key : String) (m : PortMapping),
      e.boundary.mappings[key]? = some m → m.child ≠ id)
    (hGathers : c.Gathers s ids id name)
    (hEdits : g.Edits (c.LedThrough ids c.boundary) g' scope s (s.collapse ids c)) :
    Folding g g' c scope s (s.collapse ids c) := by
  have hTidy := tidy_of_scope? hUnique hPorts hEdits.scope?
  -- a new id is not that of a node in the scope
  have hOther : ∀ n ∈ s.nodes, n.id ≠ c.core.id := by
    intro n hn
    rw [hGathers.id]
    exact hNew n (mem_allNodes_of_scope? hEdits.scope? hn)
  refine hEdits.folding_in (unique_of_group hUnique hNew hGathers hEdits)
    (Scope.outlines_collapse hGathers.takes) ?_
  -- what an enclosing container leads to, it leads to by way of the new one
  rintro e outside hFind rfl hLed
  have he := ((container?_eq_some_iff hUnique).mp hFind).1
  exact Container.passesThrough_collapse hTidy hGathers.takes hGathers.made hOther rfl
    hGathers.faithful (hGathers.id ▸ hUnmapped e he) hLed

end Folding

/-! ## Ungrouping -/

section Ungroup

variable {c : Container Node}

/-- What is ungrouped is a container of the graph. -/
theorem exists_of_ungroup (hUnique : g.UniqueIds) {id : String} (h : g.ungroup id = .ok g') :
    ∃ c : Container Node, .graph c ∈ g.allNodes ∧ c.core.id = id := by
  rw [ungroup] at h
  cases hFind : g.find? id with
  | none => simp [hFind] at h
  | some n =>
    cases n with
    | code _ => simp [hFind, Node.graph?] at h
    | graph c =>
      exact ⟨c, (container?_eq_some_iff hUnique).mp (container?_eq_find?.mpr hFind)⟩

theorem ungroup_root (hFind : g.container? c.core.id = some c)
    (hScope : g.scopeOf? c.core.id = some none) :
    g.ungroup c.core.id = .ok { g with root := g.root.expand c none } := by
  rw [ungroup, container?_eq_find?.mp hFind]
  simp only [Node.graph?, hScope]
  rfl

theorem ungroup_inside {e : Container Node} (hFind : g.container? c.core.id = some c)
    (hScope : g.scopeOf? c.core.id = some (some e.core.id))
    (hOuter : g.container? e.core.id = some e)
    (hPut : g.putContainer? { e with
      boundary := e.routeAround c
      inside := e.inside.expand c (some e.core.id) } = some g') :
    g.ungroup c.core.id = .ok g' := by
  rw [ungroup, container?_eq_find?.mp hFind]
  simp only [Node.graph?, hScope, hOuter, hPut]
  rfl

/-- Ungrouping succeeds for every container, and puts its inside into the scope
that it stands in. -/
theorem ungroup_spec (hUnique : g.UniqueIds) (hPorts : ∀ n ∈ g.allNodes, n.TidyPorts)
    {scope : ScopeId} {s : Scope Node} (hContent : g.scope? scope = some s)
    (hc : .graph c ∈ s.nodes) :
    ∃ g', g.ungroup c.core.id = .ok g' ∧ g.Edits c.LedAround g' scope s (s.expand c scope) := by
  have hMem := mem_allNodes_of_scope? hContent hc
  have hFind := (container?_eq_some_iff hUnique).mpr ⟨hMem, rfl⟩
  have hScope : g.scopeOf? c.core.id = some scope :=
    (scopeOf?_eq_some_iff hUnique).mpr ⟨s, .graph c, hContent, hc, rfl⟩
  cases scope with
  | none =>
    cases hContent
    exact ⟨_, ungroup_root hFind hScope, .root _⟩
  | some outer =>
    obtain ⟨e, hOuter, rfl⟩ := Option.map_eq_some_iff.mp hContent
    obtain rfl := container?_id hOuter
    have he := ((container?_eq_some_iff hUnique).mp hOuter).1
    have hLed := Container.routeAround_spec (Container.names_nodup (hPorts _ he)) c
    -- the container around is there, so it can be put back
    obtain ⟨nodes, -, hPut, -⟩ := putContainer?_outlines hOuter
      (face_of_rerouted hLed (e.inside.expand c (some e.core.id)))
    exact ⟨_, ungroup_inside hFind hScope hOuter hPut, .inside hOuter hLed hPut⟩

/-- Ungrouping leads back from a folded graph, if validation has made sure that all
mappings lead somewhere. -/
theorem folding_of_ungroup {scope : ScopeId} {s : Scope Node} (hSound : g.Sound)
    (hPorts : ∀ n ∈ g.allNodes, n.TidyPorts) (hc : .graph c ∈ s.nodes)
    (hEdits : g.Edits c.LedAround g' scope s (s.expand c scope)) :
    Folding g' g c scope (s.expand c scope) s := by
  have hUnique := hSound.unique
  have hTidy := tidy_of_scope? hUnique hPorts hEdits.scope?
  have hMem := mem_allNodes_of_scope? hEdits.scope? hc
  have hBelow := hUnique.scope hEdits.scope?
  -- in a valid graph every boundary port leads somewhere, so no way is cut
  have hLeads : ∀ own ∈ c.boundary.ports, (c.resolve? own.port.id).isSome := fun own hOwn =>
    (hSound.containers c hMem).isSome_resolve? (hPorts _ hMem) hOwn
  refine hEdits.folding_out hUnique (Scope.outlines_expand hBelow hc) ?_
  rintro e outside hFind rfl hLed
  have he := ((container?_eq_some_iff hUnique).mp hFind).1
  have hMapped : ∀ p ∈ e.boundary.ports, ∀ m : PortMapping,
      e.boundary.mappings[p.port.name]? = some m → (e.aim? m p.port.direction).isSome :=
    fun p hp m hm => (hSound.containers e he).isSome_aim? (hPorts _ he) hp hm
  exact Container.passesThrough_expand hBelow hc hTidy (tidy_inside hUnique hPorts hMem) rfl
    hMapped hLeads hLed

end Ungroup

end FlowGraph

end FlowNest
