import FlowNest.Proofs.Grouping.Within
import FlowNest.Proofs.Spread
import FlowNest.Registry

/-!
# FlowNest — grouping and commands

A grouping moves nodes one level down, where a push comes to them through the new container.
In a container that makes no difference, since a push that reaches the container goes on to
all children that are not independent, before and after. At the root all nodes are reached,
and so those that are grouped must not be independent. The new container itself has been given
the command, or was made after it.

* `Node.pushAt`                   — what becomes of a node that a push comes to;
* `Gap.map_pushAt`                — a push stops around a gap, or comes to what fills it;
* `Container.groupInside_push`    — in a container that is reached, a grouping comes before
  or after the push;
* `FlowGraph.group_command`       — and so in a graph.
-/

namespace FlowNest

/-! ## What a push comes to -/

/-- What becomes of a node that a push comes to: among the nodes inside of a container the
independent ones stay as they are, at the root none does. -/
def Node.pushAt (f : NodeCore → NodeCore) (inside : Bool) (n : Node) : Node :=
  if inside && n.independent then n else n.push f

variable {f : NodeCore → NodeCore} {inside : Bool}

theorem Node.pushAt_of_dependent {n : Node} (h : n.independent = false) :
    n.pushAt f inside = n.push f := by
  rw [pushAt, h, Bool.and_false]
  rfl

theorem Node.pushAt_cases (n : Node) (f : NodeCore → NodeCore) (inside : Bool) :
    n.pushAt f inside = n ∨ n.pushAt f inside = n.push f :=
  ite_eq_or_eq ..

theorem Forest.push_eq_pushAt (nodes : List Node) :
    Forest.push f nodes = nodes.map (·.pushAt f true) :=
  push_eq_map nodes

theorem Forest.scopeOf?_map {φ : Node → Node} {id : String} {scope : ScopeId} {nodes : List Node}
    (h : ∀ n ∈ nodes, (φ n).scopeOf? id scope = n.scopeOf? id scope) :
    Forest.scopeOf? id scope (nodes.map φ) = Forest.scopeOf? id scope nodes := by
  induction nodes with
  | nil => rfl
  | cons n rest ih =>
    obtain ⟨hFirst, hRest⟩ := List.forall_mem_cons.mp h
    rw [List.map_cons, scopeOf?, scopeOf?, hFirst, ih hRest]

section

variable (hf : ∀ core, (f core).id = core.id)

include hf

/-- A push leaves all nodes in their scopes. -/
theorem Node.scopeOf?_push (id : String) (n : Node) :
    ∀ scope, (n.push f).scopeOf? id scope = n.scopeOf? id scope := by
  induction n using induct with
  | code c =>
    intro scope
    rw [push, scopeOf?, scopeOf?, hf]
  | graph g ih =>
    intro scope
    rw [push_graph, scopeOf?_graph, scopeOf?_graph, hf, Forest.push_eq_pushAt]
    refine congrArg (ite _ _) (Forest.scopeOf?_map fun child hChild => ?_)
    -- an independent child is left out of the push and stays as it is
    rcases child.pushAt_cases f true with hn | hn <;> rw [hn]
    exact ih child hChild _

theorem Forest.find?_map_pushAt {id : String} {nodes : List Node}
    (h : Forest.find? id nodes = none) :
    Forest.find? id (nodes.map (·.pushAt f inside)) = none := by
  -- a push changes no id, so nothing that was missing appears
  have hIds : (Forest.preorder (nodes.map (·.pushAt f inside))).map (·.id) =
      (Forest.preorder nodes).map (·.id) := by
    refine map_preorder_map fun n _ => ?_
    rcases n.pushAt_cases f inside with hn | hn <;> rw [hn]
    exact Node.map_preorder_push (·.id) hf n
  rw [find?_eq_none_iff] at h ⊢
  intro n hn hId
  obtain ⟨m, hm, hSame⟩ := List.mem_map.mp (hIds ▸ List.mem_map_of_mem hn)
  exact h m hm (hSame.trans hId)

/-- A push through a forest stops somewhere around the gap, or at it, or comes to what fills
the gap; which of these it is does not depend on what is inside of that. -/
theorem Gap.map_pushAt (gap : Gap) (inside independent : Bool) : ∃ gap' : Gap,
    (∀ id, gap.Clear id → gap'.Clear id) ∧
    ((∀ n, n.independent = independent →
        (gap.fill n).map (·.pushAt f inside) = gap'.fill n) ∨
      ∀ n, n.independent = independent →
        (gap.fill n).map (·.pushAt f inside) = gap'.fill (n.push f)) := by
  induction gap generalizing inside with
  | here left right =>
    refine ⟨.here (left.map (·.pushAt f inside)) (right.map (·.pushAt f inside)), ?_, ?_⟩
    · intro id h
      exact Forest.find?_map_pushAt hf h
    -- what fills the gap is an independent node in a container, or it is edited
    · cases hStops : inside && independent with
      | true =>
        refine .inl fun n hn => ?_
        rw [fill, fill, List.map_append, List.map_cons, Node.pushAt, hn, if_pos hStops]
      | false =>
        refine .inr fun n hn => ?_
        rw [fill, fill, List.map_append, List.map_cons, Node.pushAt, hn, hStops]
        rfl
  | inside left core boundary gap connections right ih =>
    cases hStops : inside && core.control.independentControl with
    | true =>
      -- around the gap stands a node that stays as it is, with all inside of it
      refine ⟨.inside (left.map (·.pushAt f inside)) core boundary gap connections
        (right.map (·.pushAt f inside)), ?_, .inl fun n _ => ?_⟩
      · rintro id ⟨hLeft, hAround⟩
        exact ⟨Forest.find?_map_pushAt hf hLeft, hAround⟩
      · rw [fill, fill, List.map_append, List.map_cons, Node.pushAt]
        exact congrArg (_ ++ · :: _) (if_pos hStops)
    | false =>
      -- through that node the push goes on, now inside of a container
      obtain ⟨gap', hClear, hFill⟩ := ih true
      have hPush : ∀ n filled, (gap.fill n).map (·.pushAt f true) = filled →
          (Node.graph ⟨core, boundary, ⟨gap.fill n, connections⟩⟩).pushAt f inside =
            .graph ⟨f core, boundary, ⟨filled, connections⟩⟩ := by
        rintro n filled rfl
        rw [Node.pushAt, ← Forest.push_eq_pushAt]
        exact if_neg (ne_true_of_eq_false hStops)
      refine ⟨.inside (left.map (·.pushAt f inside)) (f core) boundary gap' connections
        (right.map (·.pushAt f inside)), ?_, hFill.imp ?_ ?_⟩
      · rintro id ⟨hLeft, hCore, hGap⟩
        exact ⟨Forest.find?_map_pushAt hf hLeft, hf core ▸ hCore, hClear id hGap⟩
      · intro h n hn
        rw [fill, fill, List.map_append, List.map_cons, hPush n _ (h n hn)]
      · intro h n hn
        rw [fill, fill, List.map_append, List.map_cons, hPush n _ (h n hn)]

end

/-! ## What a grouping does not look at -/

namespace Node

/-- A state is pushed through a container to what is inside of it. -/
theorem push_graph_eq (c : Container Node) :
    (graph c).push f = .graph { c.mapInside (·.pushAt f true) with core := f c.core } := by
  rw [push_graph, Forest.push_eq_pushAt]
  rfl

theorem push_withCore (n : Node) (core : NodeCore) :
    (n.withCore core).push f = (n.push f).withCore (f core) := by
  cases n with
  | code c => rfl
  | graph g =>
    rw [push_graph]
    exact push_graph _

/-- A push, and another edit of the core of the node, may come in any order. -/
theorem pushAt_withCore {k : NodeCore → NodeCore}
    (hControl : ∀ core, (k core).control = core.control) (hk : ∀ core, f (k core) = k (f core))
    (n : Node) : (n.withCore (k n.core)).pushAt f inside =
      (n.pushAt f inside).withCore (k (n.pushAt f inside).core) := by
  have hSame : (n.withCore (k n.core)).independent = n.independent := by
    rw [independent, core_withCore, hControl, independent]
  rw [pushAt, pushAt, hSame]
  split
  · rfl
  · rw [push_withCore, core_push, hk]

theorem unseen_pushAt (state : ExecutionState) (n : Node) :
    Unseen (·.pushAt (.inState state) inside) n := by
  -- a state edit leaves the position and the parent of a node to others
  have hPlaced : ∀ position, (n.withPosition position).pushAt (.inState state) inside =
      (n.pushAt (.inState state) inside).withPosition position := by
    intro position
    exact n.pushAt_withCore (k := ({ · with position })) (fun _ => rfl) fun _ => rfl
  have hAdopted : ∀ (m : Node) parent, (m.withParent parent).pushAt (.inState state) inside =
      (m.pushAt (.inState state) inside).withParent parent := by
    intro m parent
    exact m.pushAt_withCore (k := ({ · with parent })) (fun _ => rfl) fun _ => rfl
  refine ⟨?_, ?_, hPlaced, fun position parent => by rw [hAdopted, hPlaced]⟩
  · rcases n.pushAt_cases (.inState state) inside with hn | hn <;> rw [hn]
    exact (alike_of_atRest (atRest_push (f := .inState state) (fun _ => rfl) n)).face
  · rcases n.pushAt_cases (.inState state) inside with hn | hn <;> rw [hn]
    rw [core_push]
    rfl

end Node

/-! ## The new container -/

/-- What becomes of the container where it stands among the nodes around it. -/
theorem Scope.update?_collapseNodes {ids : List String} {c c' : Container Node}
    {edit : Node → Node} (hEdit : edit (.graph c) = .graph c') {nodes : List Node}
    (h : ∃ n ∈ nodes, n.id ∈ ids) (hNew : Forest.find? c.core.id nodes = none) :
    Forest.update? c.core.id edit (collapseNodes ids c nodes) =
      some (collapseNodes ids c' nodes) := by
  obtain ⟨left, first, right, rfl, -, -, hCollapse⟩ := collapseNodes_split h
  -- no node in front of the container has its id
  have hBeside : (Gap.here left right).Clear c.core.id :=
    (Gap.clear_of_find?_eq_none hNew).1
  have hClear : (Gap.here left (right.filter (·.id ∉ ids))).Clear c.core.id := hBeside
  have hSelf : (Node.graph c).update? c.core.id edit = some (.graph c') :=
    hEdit ▸ Node.update?_self rfl
  rw [hCollapse, hCollapse]
  exact hClear.update?_fill hSelf

theorem Container.Takes.independent {c : Container Node} {s : Scope Node} {ids : List String}
    (h : c.Takes s ids) (hDependent : ∀ n ∈ s.nodes, n.id ∈ ids → n.independent = false) :
    ∀ n ∈ c.inside.nodes, n.independent = false := by
  obtain ⟨moved, hMoved, hNodes⟩ := h.nodes
  intro n hn
  rw [hNodes] at hn
  obtain ⟨m, hm, rfl⟩ := List.mem_map.mp hn
  obtain ⟨k, hk, position, rfl⟩ := exists_of_mem_forall₂ hMoved hm
  obtain ⟨hMem, hId⟩ := List.mem_filter.mp hk
  rw [Node.withParent, Node.withPosition, Node.independent, Node.core_withCore, Node.core_withCore]
  exact hDependent k hMem (of_decide_eq_true hId)

namespace Scope

variable {s : Scope Node} {ids : List String} {id name : String} {settings : Settings}
  {c : Container Node}

theorem control_of_group (h : s.group ids id name settings = .ok c) :
    c.core.control = settings.control := by
  obtain ⟨first, -, position, moved, boundary, -, -, rfl⟩ := exists_containerFor h
  rfl

/-- A scope that is pushed to after nodes in it were put in a container is the one where they
were put there after the push, but for the container itself. -/
theorem update?_collapse_pushAt (state : ExecutionState) (inside : Bool)
    (h : ∃ n ∈ s.nodes, n.id ∈ ids) (hNew : Forest.find? c.core.id s.nodes = none)
    (hDependent : (Node.graph c).independent = false)
    (hSame : c.mapInside (·.pushAt (.inState state) inside) =
      c.mapInside (·.pushAt (.inState state) true)) :
    Forest.update? c.core.id (·.withState state false)
        ((s.mapNodes (·.pushAt (.inState state) inside)).collapse ids
          (c.mapInside (·.pushAt (.inState state) inside))).nodes =
      some ((s.collapse ids c).mapNodes (·.pushAt (.inState state) inside)).nodes := by
  -- the push goes on through the container, since it is not independent
  have hc : (Node.graph c).pushAt (.inState state) inside =
      .graph { c.mapInside (·.pushAt (.inState state) true) with
        core := c.core.inState state } := by
    rw [Node.pushAt_of_dependent hDependent, Node.push_graph_eq]
  have hIds : ∀ n ∈ s.nodes, (n.pushAt (.inState state) inside).id = n.id :=
    fun n _ => (n.unseen_pushAt state).id
  have hMapped : ∃ n ∈ s.nodes.map (·.pushAt (.inState state) inside), n.id ∈ ids := by
    obtain ⟨n, hn, hId⟩ := h
    exact ⟨_, List.mem_map_of_mem hn, hIds n hn ▸ hId⟩
  -- so both scopes have the same nodes around a container, which differs in its core only
  show _ = some ((collapseNodes ids c s.nodes).map _)
  rw [map_collapseNodes hIds hc, ← hSame]
  exact update?_collapseNodes (c := c.mapInside (·.pushAt (.inState state) inside)) rfl hMapped
    (Forest.find?_map_pushAt (f := .inState state) (fun _ => rfl) hNew)

end Scope

/-! ## Inside of a container -/

namespace Container

variable {e e' : Container Node} {ids : List String} {id name : String} {settings : Settings}

/-- Where a push does not come to a container, the new one inside keeps its state. -/
theorem groupInside_alone (h : e.groupInside ids id name settings = .ok e')
    (hNew : (Node.graph e).find? id = none) :
    ∃ own, (Node.graph e').update? id (·.withState own false) = some (.graph e') := by
  obtain ⟨c, c', outside, -, -, rfl, -, rfl, hTakes, -⟩ := groupInside_eq_ok h
  obtain ⟨hId, hInside⟩ := Node.find?_graph_eq_none_iff.mp hNew
  have hOwn : (Node.graph c').withState c'.core.state false = .graph c' := rfl
  exact ⟨c'.core.state,
    Node.update?_inside hId (Scope.update?_collapseNodes hOwn hTakes.selected hInside)⟩

/-- In a container that a push comes to, nodes may be grouped before the push or after it,
but for the state of the new container. -/
theorem groupInside_push (state : ExecutionState)
    (hDependent : settings.control.independentControl = false)
    (h : e.groupInside ids id name settings = .ok e') (hNew : (Node.graph e).find? id = none) :
    ∃ pushed k, (Node.graph e).push (.inState state) = .graph pushed ∧
      pushed.core.id = e.core.id ∧ pushed.groupInside ids id name settings = .ok k ∧
      (Node.graph k).update? id (·.withState state false) =
        some ((Node.graph e').push (.inState state)) := by
  obtain ⟨c, c', outside, hGroup, hRoute, rfl, hCore, rfl, hTakes, -⟩ := groupInside_eq_ok h
  obtain ⟨hId, hInside⟩ := Node.find?_graph_eq_none_iff.mp hNew
  -- the grouping sees nothing of what the push does to the nodes, only the container it makes is
  -- missed by it
  let φ : Node → Node := (·.pushAt (.inState state) true)
  refine ⟨{ e.mapInside φ with core := e.core.inState state }, ⟨e.core.inState state, outside,
    (e.inside.mapNodes φ).collapse ids (c'.mapInside φ)⟩, Node.push_graph_eq e, rfl, ?_, ?_⟩
  · have hKeeps : (e.core.inState state).id = e.core.id := rfl
    refine (groupInside_of_unseen (fun n => n.unseen_pushAt state) e hKeeps).trans ?_
    rw [hGroup]
    show (e.routeThrough c ids >>= _) = _
    rw [hRoute]
    rfl
  -- the new container takes its control from the settings, so the push reaches it as well
  · have hIndependent : (Node.graph c').independent = false := by
      rw [← hDependent, ← Scope.control_of_group hGroup, ← hCore]
      rfl
    have hCollapse := Scope.update?_collapse_pushAt state true hTakes.selected hInside
      hIndependent rfl
    rw [Node.push_graph_eq]
    exact Node.update?_inside hId hCollapse

end Container

/-- A container that fills a gap is one that a push through the forest comes to, or it stays as
it is; either way it may be grouped in before or after. -/
theorem Gap.groupInside_pushAt {e e' : Container Node} {ids : List String} {id name : String}
    {settings : Settings} (gap : Gap) (state : ExecutionState)
    (hDependent : settings.control.independentControl = false)
    (h : e.groupInside ids id name settings = .ok e') (hNew : (Node.graph e).find? id = none) :
    ∃ gap' pushed k after own, (∀ id, gap.Clear id → Clear id gap') ∧
      pushed.core.id = e.core.id ∧
      (gap.fill (.graph e)).map (·.pushAt (.inState state) false) = gap'.fill (.graph pushed) ∧
      (gap.fill (.graph e')).map (·.pushAt (.inState state) false) = gap'.fill after ∧
      pushed.groupInside ids id name settings = .ok k ∧
      (Node.graph k).update? id (·.withState own false) = some after := by
  have hSame : (Node.graph e').independent = (Node.graph e).independent := by
    obtain ⟨hCore, -⟩ := Container.groupInside_keeps h
    exact congrArg (·.control.independentControl) hCore
  obtain ⟨gap', hClear, hFill⟩ := gap.map_pushAt (f := .inState state)
    (fun _ => rfl) false (Node.graph e).independent
  -- a frozen node above the container stops the push, and then both orders leave the container as
  -- it was
  rcases hFill with hStays | hReached
  · obtain ⟨own, hOwn⟩ := Container.groupInside_alone h hNew
    exact ⟨gap', e, e', _, own, hClear, rfl, hStays _ rfl, hStays _ hSame, h, hOwn⟩
  · obtain ⟨pushed, k, hPush, hId, hGroup, hEdit⟩ :=
      Container.groupInside_push state hDependent h hNew
    exact ⟨gap', pushed, k, _, state, hClear, hId, hPush ▸ hReached _ rfl, hReached _ hSame,
      hGroup, hEdit⟩

/-! ## In a graph -/

namespace FlowGraph

variable {g g' : FlowGraph} {ids : List String} {id name : String} {settings : Settings}

theorem scopeOf?_withState (g : FlowGraph) (state : ExecutionState) :
    (g.withState state).scopeOf? = g.scopeOf? := by
  funext id
  rw [withState_eq]
  exact Forest.scopeOf?_map fun n _ => n.scopeOf?_push (f := .inState state) (fun _ => rfl) id none

theorem withState_withNodes (g : FlowGraph) (nodes : List Node) (state : ExecutionState) :
    (g.withNodes nodes).withState state =
      (g.withState state).withNodes (nodes.map (·.pushAt (.inState state) false)) := by
  rw [withState_eq]
  rfl

/-- At the root, where the selected nodes must not be independent. -/
theorem group_command_root (state : ExecutionState) (hNew : Forest.find? id g.root.nodes = none)
    (hDependent : settings.control.independentControl = false)
    (hSelected : ∀ n ∈ g.root.nodes, n.id ∈ ids → n.independent = false)
    (h : g.groupIn none ids id name settings = .ok g') :
    ∃ k, (g.withState state).groupIn none ids id name settings = .ok k ∧
      k.edit id (·.withState state false) = .ok (g'.withState state) := by
  obtain ⟨c, hGroup, h⟩ := bind_eq_ok.mp h
  cases h
  obtain ⟨rfl, -, -, hTakes, -⟩ := Scope.group_spec hGroup
  let φ : Node → Node := (·.pushAt (.inState state) false)
  have hUnseen : ∀ n ∈ g.root.nodes, Node.Unseen φ n := fun n _ => n.unseen_pushAt state
  have hIndependent : (Node.graph c).independent = false := by
    rw [← hDependent, ← Scope.control_of_group hGroup]
    rfl
  -- inside of the container the same nodes are reached, since none of them is independent
  have hSame : c.mapInside φ = c.mapInside (·.pushAt (.inState state) true) := by
    have hNodes : c.inside.nodes.map φ = c.inside.nodes.map (·.pushAt (.inState state) true) := by
      refine List.map_congr_left fun n hn => ?_
      have hn := hTakes.independent hSelected n hn
      exact (n.pushAt_of_dependent hn).trans (n.pushAt_of_dependent hn).symm
    rw [Container.mapInside, Container.mapInside, Scope.mapNodes, Scope.mapNodes, hNodes]
  have hUpdate := Scope.update?_collapse_pushAt state false hTakes.selected hNew hIndependent hSame
  have hGroup' : (g.withState state).root.group ids c.core.id name settings =
      .ok (c.mapInside φ) := by
    rw [withState_eq]
    refine (Scope.group_mapNodes hUnseen c.core.id name settings).trans ?_
    rw [hGroup]
    rfl
  refine ⟨{ g.withState state with
    root := (g.root.mapNodes φ).collapse ids (c.mapInside φ) }, ?_, ?_⟩
  · rw [groupIn, hGroup', withState_eq]
    rfl
  · rw [edit_of_update? hUpdate, withState_eq, withState_eq]
    rfl

/-- Inside of a container, which the command may reach or not. -/
theorem group_command_inside (state : ExecutionState) {outer : String}
    (hNew : Forest.find? id g.root.nodes = none)
    (hDependent : settings.control.independentControl = false)
    (h : g.groupIn (some outer) ids id name settings = .ok g') :
    ∃ k own, (g.withState state).groupIn (some outer) ids id name settings = .ok k ∧
      k.edit id (·.withState own false) = .ok (g'.withState state) := by
  obtain ⟨gap, e, e', rfl, hClear, hNodes, hGroup, rfl⟩ := exists_gap_of_groupIn h
  rw [hNodes] at hNew
  obtain ⟨hBeside, hNone⟩ := Gap.clear_of_find?_eq_none hNew
  obtain ⟨gap', pushed, k, after, own, hClear', hId, hBefore, hAfter, hGroup', hEdit⟩ :=
    gap.groupInside_pushAt state hDependent hGroup hNone
  -- the pushed graph is the pushed container put back in the pushed gap
  have hState : g.withState state = (g.withState state).withNodes (gap'.fill (.graph pushed)) := by
    rw [← hBefore, ← withState_withNodes, ← hNodes]
    rfl
  refine ⟨(g.withState state).withNodes (gap'.fill (.graph k)), own, ?_, ?_⟩
  · rw [hState, ← hId, groupIn_of_clear (hClear' _ (hId ▸ hClear)), hGroup']
    rfl
  · rw [withState_withNodes, hAfter]
    exact edit_of_clear (hClear' id hBeside) hEdit _

/-- Nodes may be grouped before a command is given to the graph or after it, but for the state
of the new container: as long as the nodes at the root that are grouped are not independent,
and neither is the new container. -/
theorem group_command {ρ : Type} [RuntimeRegistry ρ] (registry : Option ρ) (command : Command)
    (hNew : ∀ n ∈ g.allNodes, n.id ≠ id)
    (hDependent : settings.control.independentControl = false)
    (hPlaces : (∀ i ∈ ids, g.scopeOf? i ≠ some none) ∨
      ∀ n ∈ g.root.nodes, n.id ∈ ids → n.independent = false)
    (h : g.group ids id name settings = .ok g') :
    ∃ k own, (Controller.command ⟨g, registry⟩ command).graph.group ids id name settings = .ok k ∧
      k.edit id (·.withState own false) =
        .ok (Controller.command ⟨g', registry⟩ command).graph := by
  obtain ⟨scope, ⟨⟨i, hi, hScope⟩, -⟩, hIn, hSame⟩ := groupIn_of_group h
  have hNone : Forest.find? id g.root.nodes = none := Forest.find?_eq_none_iff.mpr hNew
  show ∃ k own, (g.withState command.state).group ids id name settings = .ok k ∧
    k.edit id (·.withState own false) = .ok (g'.withState command.state)
  -- the push moves no node, so both orders group in the same scope
  rw [hSame _ (g.scopeOf?_withState command.state)]
  cases scope with
  | none =>
    have hSelected := hPlaces.resolve_left fun hInside => hInside i hi hScope
    obtain ⟨k, hGroup, hEdit⟩ := group_command_root command.state hNone hDependent hSelected hIn
    exact ⟨k, command.state, hGroup, hEdit⟩
  | some outer => exact group_command_inside command.state hNone hDependent hIn

theorem plant_group_command :
    ∃ g' k own, plant.group ["mill", "drill"] "cell" "Cell" .standard = .ok g' ∧
      (Controller.command ⟨plant, some Registry.empty⟩ .pause).graph.group ["mill", "drill"] "cell"
        "Cell" .standard = .ok k ∧
      k.edit "cell" (·.withState own false) =
        .ok (Controller.command ⟨g', some Registry.empty⟩ .pause).graph := by
  -- only that the grouping succeeds is evaluated, its result stays closed
  have hSome : (plant.group ["mill", "drill"] "cell" "Cell" .standard).toOption.isSome = true := by
    decide +kernel
  obtain ⟨g', hGroup⟩ := exists_eq_ok hSome
  obtain ⟨k, own, hCommand, hEdit⟩ := group_command (some Registry.empty) .pause
    (by decide +kernel) rfl (.inl (by decide +kernel)) hGroup
  exact ⟨g', k, own, hGroup, hCommand, hEdit⟩

end FlowGraph

end FlowNest
