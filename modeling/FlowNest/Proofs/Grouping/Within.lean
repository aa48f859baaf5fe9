import FlowNest.Controller
import FlowNest.Proofs.Grouping.Conservation
import FlowNest.Proofs.Grouping.Unseen

/-!
# FlowNest — grouping as an edit of one container

A grouping inside of a container changes what is inside of it and where its ports lead, and
nothing around it. So it is an edit of one node, which leaves the node's core and its face.
Such an edit is not noticed by other groupings.

* `Container.groupInside`             — the container with nodes inside of it grouped;
* `Node.regroup`                      — the same as an edit that is always made;
* `Node.Unnoticed`                    — edits that a grouping comes through unchanged;
* `FlowGraph.groupIn_of_container?`   — a grouping inside of a container makes this edit;
* `FlowGraph.regroups_of_groupIn`     — what changes in the graph, in any scope.
-/

namespace FlowNest

/-! ## Inside of a container -/

namespace Container

variable {e e' : Container Node} {ids : List String} {id name : String} {settings : Settings}

/-- The container with the nodes inside grouped, and its ports led through the new one. -/
def groupInside (e : Container Node) (ids : List String) (id name : String)
    (settings : Settings) : Except GroupingError (Container Node) := do
  let c ← e.inside.group ids id name settings
  let (c, outside) ← e.routeThrough c ids
  return { e with boundary := outside, inside := e.inside.collapse ids c }

/-- What a grouping in a container comes to. -/
theorem groupInside_eq_ok (h : e.groupInside ids id name settings = .ok e') :
    ∃ c c' outside, e.inside.group ids id name settings = .ok c ∧
      e.routeThrough c ids = .ok (c', outside) ∧
      e' = { e with boundary := outside, inside := e.inside.collapse ids c' } ∧
      c'.core = c.core ∧ c'.core.id = id ∧ c'.Takes e.inside ids ∧
      Boundary.Rehung c' ids e.boundary outside := by
  obtain ⟨c, hGroup, h⟩ := bind_eq_ok.mp h
  obtain ⟨⟨c', outside⟩, hRoute, h⟩ := bind_eq_ok.mp h
  cases h
  -- the rerouting touches the boundary of the new container only, so what it has taken stays
  -- taken
  obtain ⟨rfl, -, -, hTakes, -⟩ := Scope.group_spec hGroup
  obtain ⟨hCore, hInside, -, hRehung⟩ := rehung_of_route (Scope.made_of_group hGroup) hRoute
  exact ⟨c, c', outside, hGroup, hRoute, rfl, hCore, congrArg NodeCore.id hCore,
    hTakes.congr hCore hInside, hRehung⟩

/-- The container keeps its core and its ports. -/
theorem groupInside_keeps (h : e.groupInside ids id name settings = .ok e') :
    e'.core = e.core ∧ (Node.graph e').face = (Node.graph e).face := by
  obtain ⟨c, c', outside, -, -, rfl, -, -, -, hRehung⟩ := groupInside_eq_ok h
  exact ⟨rfl, face_of_sides hRehung.map_port_side _⟩

end Container

/-! ## Edits that come before or after -/

/-- An edit that a grouping under the id does not see, and that goes on through the new
container to what is inside. -/
structure Node.Unnoticed (id : String) (φ : Node → Node) : Prop where
  unseen : ∀ n, Node.Unseen φ n
  own : ∀ c : Container Node, c.core.id = id → φ (.graph c) = .graph (c.mapInside φ)

/-- An edit of nothing inside leaves the node as it is. -/
theorem Node.mapInside_id (n : Node) : n.mapInside (fun m => m) = n := by
  cases n with
  | code c => rfl
  | graph c =>
    rw [mapInside, Container.mapInside, Scope.mapNodes_eq_self fun _ _ => rfl]

/-- An edit of nothing is not noticed. -/
theorem Node.unnoticed_id (id : String) : Unnoticed id fun n => n where
  unseen _ := ⟨rfl, rfl, fun _ => rfl, fun _ _ => rfl⟩
  own c _ := (mapInside_id (.graph c)).symm

namespace Container

variable {e : Container Node} {ids : List String} {id name : String} {settings : Settings}
  {φ : Node → Node}

/-- Of edits that it does not see, a grouping inside of a container makes what it makes without
them, and puts the edited nodes there. -/
theorem groupInside_of_unseen (hφ : ∀ n, Node.Unseen φ n) (e : Container Node) {core : NodeCore}
    (hCore : core.id = e.core.id) :
    ({ e.mapInside φ with core } : Container Node).groupInside ids id name settings = (do
      let c ← e.inside.group ids id name settings
      let (c, outside) ← e.routeThrough c ids
      return ⟨core, outside, (e.inside.mapNodes φ).collapse ids (c.mapInside φ)⟩) := by
  -- the two steps that can fail read nothing of what `φ` changes
  let edited : Container Node := { e.mapInside φ with core }
  have hGroup : edited.inside.group ids id name settings =
      (e.inside.group ids id name settings).map (·.mapInside φ) :=
    Scope.group_mapNodes (fun n _ => hφ n) id name settings
  have hRoute : ∀ c : Container Node, edited.routeThrough (c.mapInside φ) ids =
      (e.routeThrough c ids).map fun (c', outside) => (c'.mapInside φ, outside) :=
    fun c => routeThrough_mapInside (fun n _ => (hφ n).face) hCore rfl
  rw [groupInside, hGroup]
  cases e.inside.group ids id name settings with
  | error err => rfl
  | ok c =>
    show (edited.routeThrough (c.mapInside φ) ids >>= _) = (e.routeThrough c ids >>= _)
    rw [hRoute]
    cases e.routeThrough c ids <;> rfl

/-- The nodes inside may be edited before they are grouped or afterwards, wherever the
container itself is placed. -/
theorem groupInside_mapInside (hφ : Node.Unnoticed id φ) (e : Container Node) {core : NodeCore}
    (hCore : core.id = e.core.id) (ids : List String) (name : String) (settings : Settings) :
    ({ e.mapInside φ with core } : Container Node).groupInside ids id name settings =
      (e.groupInside ids id name settings).map fun e' => { e'.mapInside φ with core } := by
  rw [groupInside_of_unseen hφ.unseen e hCore, groupInside]
  cases hGroup : e.inside.group ids id name settings with
  | error err => rfl
  | ok c =>
    show (e.routeThrough c ids >>= _) = Except.map _ (e.routeThrough c ids >>= _)
    cases hRoute : e.routeThrough c ids with
    | error err => rfl
    | ok r =>
      obtain ⟨c', outside⟩ := r
      -- the new container has the id that `φ` passes by, so it may come before or after the edit
      obtain ⟨hSame, -⟩ := rehung_of_route (Scope.made_of_group hGroup) hRoute
      have hId : c'.core.id = id := (congrArg NodeCore.id hSame).trans (Scope.group_spec hGroup).1
      have hCollapse : (e.inside.mapNodes φ).collapse ids (c'.mapInside φ) =
          (e.inside.collapse ids c').mapNodes φ :=
        Scope.collapse_mapNodes (fun n _ => (hφ.unseen n).id) (hφ.own c' hId)
      exact congrArg (fun inside => Except.ok (Container.mk core outside inside)) hCollapse

end Container

/-! ## The edit of one node -/

namespace Node

variable {ids : List String} {id name : String} {settings : Settings} {φ : Node → Node}

/-- The node with nodes inside of it grouped, if it is a container where that is possible. -/
def regroup (ids : List String) (id name : String) (settings : Settings) : Node → Node
  | .code c => .code c
  | .graph c =>
    match c.groupInside ids id name settings with
    | .ok c' => .graph c'
    | .error _ => .graph c

/-- A container regroups its inside where this succeeds. -/
theorem regroup_of_ok {c c' : Container Node} (h : c.groupInside ids id name settings = .ok c') :
    (graph c).regroup ids id name settings = .graph c' := by
  rw [regroup, h]

/-- A container stays as it is where its inside cannot be grouped. -/
theorem regroup_of_error {c : Container Node} {err : GroupingError}
    (h : c.groupInside ids id name settings = .error err) :
    (graph c).regroup ids id name settings = .graph c := by
  rw [regroup, h]

/-- A regrouped node has its core and its face. -/
theorem regroup_keeps (n : Node) :
    (n.regroup ids id name settings).core = n.core ∧
      (n.regroup ids id name settings).face = n.face := by
  cases n with
  | code c => exact ⟨rfl, rfl⟩
  | graph c =>
    -- a grouping that fails leaves the node alone
    cases h : c.groupInside ids id name settings with
    | error err =>
      rw [regroup_of_error h]
      exact ⟨rfl, rfl⟩
    | ok c' =>
      rw [regroup_of_ok h]
      exact Container.groupInside_keeps h

/-- The nodes inside may be edited before the edit or after it, wherever the node is placed. -/
theorem regroup_edited (hφ : Unnoticed id φ) (n : Node) {core : NodeCore}
    (hCore : core.id = n.id) (ids : List String) (name : String) (settings : Settings) :
    ((n.mapInside φ).withCore core).regroup ids id name settings =
      ((n.regroup ids id name settings).mapInside φ).withCore core := by
  cases n with
  | code c => rfl
  | graph c =>
    have hEdited := Container.groupInside_mapInside hφ c hCore ids name settings
    -- whether the grouping fails is not changed by the edit
    cases h : c.groupInside ids id name settings with
    | error err =>
      rw [h] at hEdited
      rw [regroup_of_error h]
      exact regroup_of_error hEdited
    | ok c' =>
      rw [h] at hEdited
      rw [regroup_of_ok h]
      exact regroup_of_ok hEdited

/-- To regroup does not look at the core but for its id. -/
theorem regroup_withCore (n : Node) {core : NodeCore} (hCore : core.id = n.id) :
    (n.withCore core).regroup ids id name settings =
      (n.regroup ids id name settings).withCore core := by
  have h := regroup_edited (unnoticed_id id) n hCore ids name settings
  rwa [mapInside_id, mapInside_id] at h

/-- To regroup commutes with what it does not notice. -/
theorem regroup_mapInside (hφ : Unnoticed id φ) (n : Node) :
    (n.mapInside φ).regroup ids id name settings =
      (n.regroup ids id name settings).mapInside φ := by
  have h := regroup_edited hφ n rfl ids name settings
  have hCore : ((n.regroup ids id name settings).mapInside φ).core = n.core := by
    rw [core_mapInside, n.regroup_keeps.1]
  rwa [← core_mapInside φ n, withCore_core, core_mapInside, ← hCore, withCore_core] at h

section RegroupAt

variable {outer : String}

/-- The tree with nodes grouped inside of the container of an id. -/
def regroupAt (outer : String) (ids : List String) (id name : String) (settings : Settings)
    (n : Node) : Node :=
  n.editAt outer (·.regroup ids id name settings)

/-- The node with the id is regrouped itself. -/
theorem regroupAt_self {n : Node} (h : n.id = outer) :
    n.regroupAt outer ids id name settings = n.regroup ids id name settings :=
  editAt_self h

/-- A node with another id is searched inside. -/
theorem regroupAt_of_ne {n : Node} (h : n.id ≠ outer) :
    n.regroupAt outer ids id name settings =
      n.mapInside (·.regroupAt outer ids id name settings) :=
  editAt_of_ne h

/-- A container with another id is searched inside. -/
theorem regroupAt_graph {c : Container Node} (h : c.core.id ≠ outer) :
    (graph c).regroupAt outer ids id name settings =
      .graph (c.mapInside (·.regroupAt outer ids id name settings)) :=
  regroupAt_of_ne h

/-- A node keeps its core and its face, whether it is regrouped or something inside it is. -/
theorem regroupAt_keeps (n : Node) :
    (n.regroupAt outer ids id name settings).core = n.core ∧
      (n.regroupAt outer ids id name settings).face = n.face := by
  by_cases hId : n.id = outer
  · rw [regroupAt_self hId]
    exact n.regroup_keeps
  · rw [regroupAt_of_ne hId]
    cases n <;> exact ⟨rfl, rfl⟩

/-- A search for the node to regroup does not look at cores but for their ids. -/
theorem regroupAt_withCore (n : Node) {core : NodeCore} (hCore : core.id = n.id) :
    (n.withCore core).regroupAt outer ids id name settings =
      (n.regroupAt outer ids id name settings).withCore core := by
  have hSame : (n.withCore core).id = n.id := by rw [Node.id, core_withCore, hCore]
  by_cases hId : n.id = outer
  · rw [regroupAt_self hId, regroupAt_self (hSame.trans hId), regroup_withCore n hCore]
  · rw [regroupAt_of_ne hId, regroupAt_of_ne (hSame ▸ hId)]
    cases n <;> rfl

/-- Groupings do not see what is grouped inside of a container. -/
theorem unseen_regroupAt (n : Node) : Unseen (·.regroupAt outer ids id name settings) n := by
  -- a grouping never reads the position or the parent of the node it is in
  have hPlaced : ∀ (m : Node) position,
      (m.withPosition position).regroupAt outer ids id name settings =
        (m.regroupAt outer ids id name settings).withPosition position := by
    intro m position
    rw [withPosition, withPosition, m.regroupAt_keeps.1]
    exact m.regroupAt_withCore rfl
  have hAdopted : ∀ (m : Node) parent,
      (m.withParent parent).regroupAt outer ids id name settings =
        (m.regroupAt outer ids id name settings).withParent parent := by
    intro m parent
    rw [withParent, withParent, m.regroupAt_keeps.1]
    exact m.regroupAt_withCore rfl
  refine ⟨n.regroupAt_keeps.2, ?_, hPlaced n, fun position parent => ?_⟩
  · rw [n.regroupAt_keeps.1]
  · rw [hAdopted, hPlaced]

/-- To regroup somewhere else is not noticed. -/
theorem unnoticed_regroupAt {new : String} (hNew : new ≠ outer) :
    Unnoticed new (·.regroupAt outer ids id name settings) where
  unseen := unseen_regroupAt
  own _ hc := regroupAt_graph (hc ▸ hNew)

/-- Groupings inside of two containers may be made in any order. -/
theorem regroupAt_comm {outer' id' name' : String} {ids' : List String} {settings' : Settings}
    (hOuter : outer ≠ outer') (hNew : id ≠ outer') (hNew' : id' ≠ outer) (n : Node) :
    (n.regroupAt outer ids id name settings).regroupAt outer' ids' id' name' settings' =
      (n.regroupAt outer' ids' id' name' settings').regroupAt outer ids id name settings := by
  refine editAt_comm hOuter (fun m hm => ⟨?_, ?_⟩) (fun m hm => ⟨?_, ?_⟩) n
  · exact (congrArg NodeCore.id m.regroup_keeps.1).trans hm
  · exact regroup_mapInside (unnoticed_regroupAt hNew) m
  · exact (congrArg NodeCore.id m.regroup_keeps.1).trans hm
  · exact regroup_mapInside (unnoticed_regroupAt hNew') m

end RegroupAt

end Node

/-! ## In a graph -/

namespace FlowGraph

variable {g g' : FlowGraph} {ids : List String} {id name : String} {settings : Settings}

/-- Grouping inside of a container that fills a gap leaves all around the container. -/
theorem groupIn_of_clear {gap : Gap} {e : Container Node} (hClear : gap.Clear e.core.id)
    (g : FlowGraph) :
    (g.withNodes (gap.fill (.graph e))).groupIn (some e.core.id) ids id name settings =
      (e.groupInside ids id name settings).map fun e' =>
        g.withNodes (gap.fill (.graph e')) := by
  -- nothing else answers to the id, so the search and the replacement meet in the gap
  have hFind : (g.withNodes (gap.fill (.graph e))).container? e.core.id = some e :=
    container?_eq_find?.mpr (hClear.find?_fill (by rw [Node.find?_graph, if_pos rfl]))
  have hPut : ∀ boundary inside,
      (g.withNodes (gap.fill (.graph e))).putContainer? { e with boundary, inside } =
        some (g.withNodes (gap.fill (.graph { e with boundary, inside }))) := by
    intro boundary inside
    exact congrArg (Option.map _) (hClear.update?_fill (Node.update?_self rfl))
  simp only [groupIn, hFind, Container.groupInside]
  cases e.inside.group ids id name settings with
  | error err => rfl
  | ok c =>
    show (e.routeThrough c ids >>= _) = Except.map _ (e.routeThrough c ids >>= _)
    cases e.routeThrough c ids with
    | error err => rfl
    | ok r =>
      simp only [bind, Except.bind, hPut]
      rfl

/-- A grouping inside of a container that succeeds: the container fills a gap, and there it is
replaced. -/
theorem exists_gap_of_groupIn {outer : String}
    (h : g.groupIn (some outer) ids id name settings = .ok g') :
    ∃ (gap : Gap) (e e' : Container Node), outer = e.core.id ∧ gap.Clear e.core.id ∧
      g.root.nodes = gap.fill (.graph e) ∧ e.groupInside ids id name settings = .ok e' ∧
      g' = g.withNodes (gap.fill (.graph e')) := by
  cases hFind : g.container? outer with
  | none => simp [groupIn, hFind] at h
  | some e =>
    obtain rfl := container?_id hFind
    obtain ⟨gap, hNodes, hClear⟩ := Forest.exists_clear_gap _ (container?_eq_find?.mp hFind)
    -- written with its gap, the graph is one that `groupIn_of_clear` is about
    have hIn : (g.withNodes (gap.fill (.graph e))).groupIn (some e.core.id) ids id name
        settings = _ := groupIn_of_clear hClear g
    rw [← hNodes] at hIn
    obtain ⟨e', hGroup, hAfter⟩ := map_eq_ok.mp (hIn.symm.trans h)
    exact ⟨gap, e, e', rfl, hClear, hNodes, hGroup, hAfter.symm⟩

/-- Where ids are unique, grouping inside of a container edits the container alone. -/
theorem groupIn_of_container? (hUnique : g.UniqueIds) {outer : String} {e : Container Node}
    (he : g.container? outer = some e) :
    g.groupIn (some outer) ids id name settings =
      (e.groupInside ids id name settings).map fun _ =>
        g.mapRoots (·.regroupAt outer ids id name settings) := by
  obtain rfl := container?_id he
  obtain ⟨gap, hNodes, hClear⟩ := Forest.exists_clear_gap _ (container?_eq_find?.mp he)
  have hIn : (g.withNodes (gap.fill (.graph e))).groupIn (some e.core.id) ids id name
      settings = _ := groupIn_of_clear hClear g
  rw [← hNodes] at hIn
  refine hIn.trans ?_
  cases h : e.groupInside ids id name settings with
  | error err => rfl
  | ok e' =>
    -- the edit comes to the container, and to no other node
    have hUpdate := hClear.update?_fill (f := (·.regroup ids id name settings))
      (Node.update?_self (n := .graph e) rfl)
    rw [← hNodes] at hUpdate
    have hEdit := Forest.update?_eq_editAt hUnique hUpdate
    rw [Node.regroup_of_ok h, Forest.editAt_eq_map] at hEdit
    exact congrArg (fun nodes => Except.ok (g.withNodes nodes)) hEdit

/-- A grouping below the root edits one container, at its id. -/
theorem exists_container?_of_groupIn (hUnique : g.UniqueIds) {outer : String}
    (h : g.groupIn (some outer) ids id name settings = .ok g') :
    ∃ e e', g.container? outer = some e ∧ e.groupInside ids id name settings = .ok e' ∧
      g' = g.mapRoots (·.regroupAt outer ids id name settings) := by
  cases hFind : g.container? outer with
  | none => simp [groupIn, hFind] at h
  | some e =>
    rw [groupIn_of_container? hUnique hFind] at h
    obtain ⟨e', hGroup, rfl⟩ := map_eq_ok.mp h
    exact ⟨e, e', rfl, hGroup, rfl⟩

/-- A grouping that succeeds has put a container into the scope, and beside the scope changed
the boundary of the container around it at most. -/
theorem regroups_of_groupIn {scope : ScopeId}
    (h : g.groupIn scope ids id name settings = .ok g') :
    ∃ s c, c.core.id = id ∧ c.Takes s ids ∧ g.Regroups ids c g' scope s (s.collapse ids c) := by
  -- only inside a container is there a boundary to hang again
  cases scope with
  | none =>
    obtain ⟨c, hGroup, h⟩ := bind_eq_ok.mp h
    cases h
    obtain ⟨rfl, -, -, hTakes, -⟩ := Scope.group_spec hGroup
    exact ⟨g.root, c, rfl, hTakes, .root _⟩
  | some outer =>
    obtain ⟨gap, e, e', rfl, -, hNodes, hGroup, rfl⟩ := exists_gap_of_groupIn h
    obtain ⟨c, c', outside, -, -, rfl, -, hId, hTakes, hRehung⟩ :=
      Container.groupInside_eq_ok hGroup
    exact ⟨e.inside, c', hId, hTakes, .inside hNodes hRehung⟩

/-- A grouping adds the id of the new container, and keeps all others. -/
theorem ids_of_groupIn {scope : ScopeId} (h : g.groupIn scope ids id name settings = .ok g') :
    (g'.allNodes.map (·.id)).Perm (id :: g.allNodes.map (·.id)) := by
  obtain ⟨s, c, rfl, hTakes, hRegroups⟩ := regroups_of_groupIn h
  exact hRegroups.ids_perm (Scope.ids_collapse hTakes)

/-- With a new id for the container, ids stay unique. -/
theorem unique_of_groupIn (hUnique : g.UniqueIds) (hNew : ∀ n ∈ g.allNodes, n.id ≠ id)
    {scope : ScopeId} (h : g.groupIn scope ids id name settings = .ok g') : g'.UniqueIds :=
  hUnique.of_perm_cons hNew (ids_of_groupIn h)

end FlowGraph

end FlowNest
