import FlowNest.Proofs.Gaps
import FlowNest.Proofs.Reach

/-!
# FlowNest — a push, place by place

A place in a tree of nodes is the way down to it, child by child; ids do not tell places
apart, since they may repeat, and neither do the nodes themselves. Below the node that a push
starts from, a place is frozen if an independent node stands there or on the way. Only what is
not frozen is edited, and of each node there only its core.

Pushes of states and of configurations keep all that a later push goes by, so they do not get
in each other's way, and of two of one kind the later one stays.

* `Node.at?`, `Node.Frozen`  — places, and which of them are frozen;
* `Node.Spread`              — one tree is another one after a push;
* `state_spreads`            — pushes of a state, to a node, in a graph and through a graph;
* `control_spreads`          — pushes of a configuration, which leave the independence of all
  nodes below as it is;
* `Node.pushes_commute`      — pushes after pushes.
-/

namespace FlowNest

/-! ## What is pushed -/

namespace NodeCore

/-- The core in a state. -/
def inState (state : ExecutionState) (core : NodeCore) : NodeCore :=
  { core with state }

/-- The core under a configuration, but for its independence. -/
def under (control : ControlConfig) (core : NodeCore) : NodeCore :=
  { core with control := control.withIndependence core.control.independentControl }

/-- Nodes that are edited in this way stay independent, or not. -/
def KeepsIndependence (f : NodeCore → NodeCore) : Prop :=
  ∀ core, (f core).control.independentControl = core.control.independentControl

/-- A state that is pushed leaves the independence of a node alone. -/
theorem keepsIndependence_inState (state : ExecutionState) : KeepsIndependence (inState state) :=
  fun _ => rfl

/-- Settings that are pushed leave the independence of a node alone. -/
theorem keepsIndependence_under (control : ControlConfig) : KeepsIndependence (under control) :=
  fun _ => rfl

end NodeCore

/-! ## Places -/

namespace Node

/-- The nodes that stand directly inside of a node. -/
def children : Node → List Node
  | .code _ => []
  | .graph g => g.inside.nodes

/-- The node at a place: the way to it goes from child to child. -/
def at? (n : Node) : List Nat → Option Node
  | [] => some n
  | i :: path => n.children[i]?.bind (·.at? path)

/-- An independent node stands at the place, or on the way to it below the top. -/
def Frozen (n : Node) (path : List Nat) : Prop :=
  ∃ part m, part <+: path ∧ part ≠ [] ∧ n.at? part = some m ∧ m.independent = true

/-- All that a node holds itself: the node without those inside of it. -/
def hollow : Node → Node
  | .code c => .code c
  | .graph g => .graph { g with inside := { g.inside with nodes := [] } }

/-- Without its children a node has the core that it has with them. -/
theorem core_hollow (n : Node) : n.hollow.core = n.core := by
  cases n <;> rfl

/-- The top of a tree is not frozen, even if it is independent. -/
theorem not_frozen_nil (n : Node) : ¬ n.Frozen [] := by
  rintro ⟨part, -, hPart, hBelow, -⟩
  exact hBelow (List.prefix_nil.mp hPart)

/-- Where no child stands nothing is frozen. -/
theorem not_frozen_of_none {n : Node} {i : Nat} (hNone : n.children[i]? = none)
    (path : List Nat) : ¬ n.Frozen (i :: path) := by
  rintro ⟨part, m, hPart, hBelow, hm, -⟩
  cases part with
  | nil => exact hBelow rfl
  | cons j rest =>
    obtain ⟨rfl, -⟩ := List.cons_prefix_cons.mp hPart
    rw [at?, hNone] at hm
    cases hm

/-- A place below a child is frozen if the child is independent, or if the place is frozen seen
from the child. -/
theorem frozen_cons {n child : Node} {i : Nat} {path : List Nat}
    (hChild : n.children[i]? = some child) :
    n.Frozen (i :: path) ↔ child.independent = true ∨ child.Frozen path := by
  constructor
  · rintro ⟨part, m, hPart, hBelow, hm, hIndependent⟩
    cases part with
    | nil => exact absurd rfl hBelow
    | cons j rest =>
      obtain ⟨rfl, hRest⟩ := List.cons_prefix_cons.mp hPart
      rw [at?, hChild, Option.bind_some] at hm
      -- the frozen node is the child itself, or lies further down
      cases rest with
      | nil => exact .inl (Option.some.inj hm ▸ hIndependent)
      | cons k rest => exact .inr ⟨_, m, hRest, List.cons_ne_nil _ _, hm, hIndependent⟩
  · rintro (hIndependent | ⟨part, m, hPart, -, hm, hIndependent⟩)
    · refine ⟨[i], child, ?_, List.cons_ne_nil _ _, ?_, hIndependent⟩
      · exact List.cons_prefix_cons.mpr ⟨rfl, List.nil_prefix⟩
      · rw [at?, hChild]
        rfl
    · refine ⟨i :: part, m, ?_, List.cons_ne_nil _ _, ?_, hIndependent⟩
      · exact List.cons_prefix_cons.mpr ⟨rfl, hPart⟩
      · rw [at?, hChild]
        exact hm

instance decidableFrozen : ∀ (n : Node) (path : List Nat), Decidable (n.Frozen path)
  | n, [] => .isFalse n.not_frozen_nil
  | n, i :: path =>
    match h : n.children[i]? with
    | none => .isFalse (not_frozen_of_none h path)
    | some child =>
      have := child.decidableFrozen path
      decidable_of_iff (child.independent = true ∨ child.Frozen path) (frozen_cons h).symm

/-- `n'` is the tree of `n` after a push: what the top holds is edited by `own`, what the
other nodes that are reached hold by `below`, and all the rest is as before. -/
structure Spread (own below : NodeCore → NodeCore) (n n' : Node) : Prop where
  top : n'.hollow = (n.withCore (own n.core)).hollow
  reached : ∀ {path : List Nat} {m : Node}, path ≠ [] → ¬ n.Frozen path → n.at? path = some m →
    ∃ m', n'.at? path = some m' ∧ m'.hollow = (m.withCore (below m.core)).hollow
  frozen : ∀ {path : List Nat} {m : Node}, n.Frozen path → n.at? path = some m →
    n'.at? path = some m
  shape : ∀ path : List Nat, n'.at? path = none ↔ n.at? path = none

/-- Edits that keep the independence of a core keep that of all nodes below. -/
theorem Spread.map_independent {own below : NodeCore → NodeCore} {n n' : Node}
    (h : n.Spread own below n') (hBelow : NodeCore.KeepsIndependence below) {path : List Nat}
    (hPath : path ≠ []) :
    (n'.at? path).map Node.independent = (n.at? path).map Node.independent := by
  cases hAt : n.at? path with
  | none => rw [(h.shape path).mpr hAt]
  | some m =>
    -- frozen nodes are untouched, and a pushed core keeps its independence
    by_cases hFrozen : n.Frozen path
    · rw [h.frozen hFrozen hAt]
    · obtain ⟨m', hAt', hHollow⟩ := h.reached hPath hFrozen hAt
      have hCore := congrArg Node.core hHollow
      rw [core_hollow, core_hollow, core_withCore] at hCore
      rw [hAt', Option.map_some, Option.map_some, independent, hCore, hBelow]
      rfl

/-! ## Pushes -/

variable {f : NodeCore → NodeCore}

/-- A push goes on to the children that are not independent, and leaves the others. -/
theorem children_push (n : Node) :
    (n.push f).children = n.children.map fun m => if m.independent then m else m.push f := by
  cases n with
  | code c => rfl
  | graph g =>
    rw [push_graph]
    exact Forest.push_eq_map _

/-- At the top, a push changes the core and nothing else. -/
theorem hollow_push (n : Node) : (n.push f).hollow = (n.withCore (f n.core)).hollow := by
  cases n with
  | code c => rfl
  | graph g =>
    rw [push_graph]
    rfl

/-- What a push through the children of a node leaves at each place below. -/
theorem at?_of_children {n n' : Node} (hChildren : n'.children =
      n.children.map fun m => if m.independent then m else m.push f) {path : List Nat}
    (hPath : path ≠ []) :
    n'.at? path = (n.at? path).map fun m => if n.Frozen path then m else m.push f := by
  induction path generalizing n n' with
  | nil => exact absurd rfl hPath
  | cons i rest ih =>
    rw [at?, at?, hChildren, List.getElem?_map]
    cases hChild : n.children[i]? with
    | none => rfl
    | some child =>
      simp only [Option.map_some, Option.bind_some, frozen_cons hChild]
      cases hIndependent : child.independent with
      -- the child stays as it is, and so does each place below it
      | true => simp
      | false =>
        -- the place is the child itself, or one that the push of the child comes to
        cases rest with
        | nil => simp [at?, not_frozen_nil]
        | cons j rest => simpa using ih (children_push child) (List.cons_ne_nil _ _)

/-- What is edited at the top, and pushed to all children but independent ones, has spread. -/
theorem spread_of_children {own : NodeCore → NodeCore} {n n' : Node}
    (hTop : n'.hollow = (n.withCore (own n.core)).hollow)
    (hChildren : n'.children = n.children.map fun m => if m.independent then m else m.push f) :
    n.Spread own f n' where
  top := hTop
  reached := by
    intro path m hPath hReached hAt
    refine ⟨m.push f, ?_, hollow_push m⟩
    rw [at?_of_children hChildren hPath, hAt, Option.map_some, if_neg hReached]
  frozen := by
    intro path m hFrozen hAt
    -- the top is never frozen, whatever its own independence
    have hPath : path ≠ [] := fun hNil => n.not_frozen_nil (hNil ▸ hFrozen)
    rw [at?_of_children hChildren hPath, hAt, Option.map_some, if_pos hFrozen]
  shape := by
    intro path
    cases path with
    | nil => exact iff_of_false (Option.some_ne_none _) (Option.some_ne_none _)
    | cons i rest =>
      rw [at?_of_children hChildren (List.cons_ne_nil _ _), Option.map_eq_none_iff]

/-- A push spreads, with the same edit at the top as below. -/
theorem spread_push (n : Node) : n.Spread f f (n.push f) :=
  spread_of_children (hollow_push n) (children_push n)

/-- Settings spread, with the node's own at the top and under its own independence below. -/
theorem spread_withControl (n : Node) (control : ControlConfig) :
    n.Spread (fun core => { core with control }) (.under control) (n.withControl control true) := by
  cases n with
  | code c => exact spread_of_children rfl rfl
  | graph g => exact spread_of_children rfl (Forest.push_eq_map _)

/-- A configuration that is given with the independence of the node itself is pushed. -/
theorem withControl_eq_push (n : Node) (control : ControlConfig) :
    n.withControl (control.withIndependence n.independent) true = n.push (.under control) := by
  cases n with
  | code c => rfl
  | graph g =>
    rw [push_graph]
    rfl

/-- A push leaves what is read from the cores, if the edit does. -/
theorem map_preorder_push {α : Type} (k : NodeCore → α) (hk : ∀ core, k (f core) = k core)
    (n : Node) :
    (n.push f).preorder.map (fun m => k m.core) = n.preorder.map fun m => k m.core := by
  induction n using induct with
  | code c => exact congrArg (fun a => [a]) (hk c.core)
  | graph g ih =>
    rw [push_graph, preorder_graph, preorder_graph, Forest.push_eq_map]
    refine congrArg₂ List.cons (hk g.core) (Forest.map_preorder_map fun child hChild => ?_)
    cases child.independent with
    | true => rfl
    | false => exact ih child hChild

end Node

/-! ## In a graph -/

namespace FlowGraph

/-- An edit of one node succeeds where that node is found. -/
theorem edit_of_update? {g : FlowGraph} {id : String} {f : Node → Node} {nodes : List Node}
    (h : Forest.update? id f g.root.nodes = some nodes) :
    g.edit id f = .ok (g.withNodes nodes) := by
  rw [edit, update?, h]
  rfl

/-- An edit at an id takes the node that fills a gap, or one inside of it, if a search for the
id comes to the gap. -/
theorem edit_of_clear {gap : Gap} {id : String} {f : Node → Node} {n n' : Node}
    (h : gap.Clear id) (hn : n.update? id f = some n') (g : FlowGraph) :
    (g.withNodes (gap.fill n)).edit id f = .ok (g.withNodes (gap.fill n')) := by
  rw [edit, update?_of_clear h hn]

/-- An edit at an id takes the first node that has it, and leaves all beside it. -/
theorem edit_spec (g : FlowGraph) (id : String) (f : Node → Node) :
    match g.find? id with
    | none => g.edit id f = .error (.nodeNotFound id)
    | some n => ∃ gap : Gap, gap.Clear id ∧ g.root.nodes = gap.fill n ∧
        g.edit id f = .ok (g.withNodes (gap.fill (f n))) := by
  cases hFind : g.find? id with
  | none =>
    rw [edit, update?_eq_none hFind]
  | some n =>
    -- the node found is the only one the update can mean
    obtain ⟨gap, hClear, hGraph⟩ := exists_clear_gap hFind
    refine ⟨gap, hClear, congrArg (·.root.nodes) hGraph, ?_⟩
    rw [hGraph]
    exact edit_of_clear hClear (Node.update?_self (Forest.id_of_find? hFind)) g

/-- What holds of each root and its edit holds of them in a row. -/
theorem forall₂_mapRoots {g : FlowGraph} {R : Node → Node → Prop} {f : Node → Node}
    (h : ∀ n, R n (f n)) : List.Forall₂ R g.root.nodes (g.mapRoots f).root.nodes :=
  List.forall₂_map_right_iff.mpr (List.forall₂_same.mpr fun n _ => h n)

/-- A command for all nodes is a push to each root. -/
theorem withState_eq (g : FlowGraph) (state : ExecutionState) :
    g.withState state = g.mapRoots (·.push (.inState state)) :=
  congrArg g.mapRoots (funext fun n => n.withState_eq_push state)

/-- Settings for all nodes are a push to each root. -/
theorem withControl_eq (g : FlowGraph) (control : ControlConfig) :
    g.withControl control = g.mapRoots (·.push (.under control)) :=
  congrArg g.mapRoots (funext fun n => n.withControl_eq_push control)

end FlowGraph

/-- A state that is given to a node with propagation is taken by the node and by each one
below at a place that is not frozen; what is frozen, and all but the states, stays. Without
propagation it is taken by the node alone. In a graph it is given to the first node with an
id, and nothing beside that node changes; or, by a command, to all nodes at the root. -/
theorem state_spreads (state : ExecutionState) :
    (∀ n : Node, n.Spread (.inState state) (.inState state) (n.withState state true) ∧
      n.withState state false = n.withCore (n.core.inState state)) ∧
    (∀ (g : FlowGraph) (id : String),
      match g.find? id with
      | none => g.setNodeState id state = .error (.nodeNotFound id)
      | some n => ∃ gap : Gap, gap.Clear id ∧ g.root.nodes = gap.fill n ∧
          g.setNodeState id state = .ok (g.withNodes (gap.fill (n.withState state true)))) ∧
    ∀ {ρ : Type} [RuntimeRegistry ρ] (g : FlowGraph) (registry : Option ρ) (command : Command),
      ∃ nodes, (Controller.command ⟨g, registry⟩ command).graph = g.withNodes nodes ∧
        List.Forall₂ (Node.Spread (.inState command.state) (.inState command.state))
          g.root.nodes nodes := by
  -- one fact about a node serves the node itself and every root of a graph
  have hSpread : ∀ (state : ExecutionState) (n : Node),
      n.Spread (.inState state) (.inState state) (n.withState state true) := by
    intro state n
    rw [Node.withState_eq_push]
    exact n.spread_push
  refine ⟨fun n => ⟨hSpread state n, rfl⟩, fun g id => g.edit_spec id _, ?_⟩
  intro ρ _ g registry command
  exact ⟨_, rfl, FlowGraph.forall₂_mapRoots (hSpread command.state)⟩

/-- A configuration that is given to a node with propagation is taken by the node as it is,
and by each one below at a place that is not frozen but for its independence; what is frozen,
and all but the configurations, stays. So who is independent below stays the same. Given to
the whole graph it is taken in this way by all nodes at the root, which keep their own
independence as well, and with it all nodes of the graph do. -/
theorem control_spreads (control : ControlConfig) :
    (∀ n : Node,
      n.Spread (fun core => { core with control }) (.under control) (n.withControl control true) ∧
      ∀ path : List Nat, path ≠ [] → ((n.withControl control true).at? path).map Node.independent =
        (n.at? path).map Node.independent) ∧
    ∀ g : FlowGraph,
      (∃ nodes, g.withControl control = g.withNodes nodes ∧
        List.Forall₂ (Node.Spread (.under control) (.under control)) g.root.nodes nodes) ∧
      (g.withControl control).allNodes.map (fun n => (n.id, n.independent)) =
        g.allNodes.map fun n => (n.id, n.independent) := by
  constructor
  · intro n
    have hSpread := n.spread_withControl control
    exact ⟨hSpread, fun path hPath =>
      hSpread.map_independent (NodeCore.keepsIndependence_under control) hPath⟩
  · intro g
    rw [FlowGraph.withControl_eq]
    refine ⟨⟨_, rfl, FlowGraph.forall₂_mapRoots fun n => n.spread_push⟩, ?_⟩
    -- the push passes by the independence of every node, so the pairs stay as listed
    refine Forest.map_preorder_map fun n _ => ?_
    exact Node.map_preorder_push (f := .under control)
      (fun core => (core.id, core.control.independentControl)) (fun _ => rfl) n

/-! ## Pushes after pushes -/

namespace Node

variable {f f' : NodeCore → NodeCore}

/-- A push does not change who is independent. -/
theorem independent_push (hf : NodeCore.KeepsIndependence f) (n : Node) :
    (n.push f).independent = n.independent := by
  rw [independent, core_push, hf]
  rfl

mutual

/-- Two pushes are one push of both edits, as they reach the same nodes. -/
theorem push_push (hf : NodeCore.KeepsIndependence f) :
    ∀ n : Node, (n.push f).push f' = n.push fun core => f' (f core)
  | .code _ => rfl
  | .graph ⟨_, _, ⟨nodes, _⟩⟩ => by
    rw [push, push, push, push_pushes hf nodes]

/-- A second push goes where the first one went, if that has kept who is independent. -/
theorem push_pushes (hf : NodeCore.KeepsIndependence f) :
    ∀ nodes : List Node,
      Forest.push f' (Forest.push f nodes) = Forest.push (fun core => f' (f core)) nodes
  | [] => rfl
  | n :: rest => by
    rw [Forest.push, Forest.push, Forest.push, push_pushes hf rest]
    cases hIndependent : n.independent with
    | true => simp [hIndependent]
    -- the second push sees the same bit as the first one, which has kept it
    | false => simp [independent_push hf, hIndependent, push_push hf n]

end

/-- A push to what is below does not look at the core at the top. -/
theorem pushBelow_withCore (n : Node) (core : NodeCore) :
    (n.withCore core).pushBelow f = (n.pushBelow f).withCore core := by
  cases n <;> rfl

/-- Two pushes to what is below are one push of both edits. -/
theorem pushBelow_pushBelow (hf : NodeCore.KeepsIndependence f) (n : Node) :
    (n.pushBelow f).pushBelow f' = n.pushBelow fun core => f' (f core) := by
  cases n with
  | code c => rfl
  | graph g =>
    rw [pushBelow, pushBelow, pushBelow, push_pushes hf]

/-- A state with propagation, as a push below and a change of the node itself. -/
theorem withState_eq_pushBelow (n : Node) (state : ExecutionState) :
    n.withState state true = (n.pushBelow (.inState state)).withCore (n.core.inState state) :=
  n.pushBelow_withCore _

/-- A state that is not pushed is set at the top. -/
theorem withState_alone (n : Node) (state : ExecutionState) :
    n.withState state false = n.withCore (n.core.inState state) := rfl

/-- Settings that are pushed are set at the top and pushed to what is below. -/
theorem withControl_eq_pushBelow (n : Node) (control : ControlConfig) :
    n.withControl control true =
      (n.pushBelow (.under control)).withCore { n.core with control } :=
  n.pushBelow_withCore _

/-- Settings that are not pushed are set at the top. -/
theorem withControl_alone (n : Node) (control : ControlConfig) :
    n.withControl control false = n.withCore { n.core with control } := rfl

/-- States and settings may be set in either order. -/
theorem withState_withControl (n : Node) (state : ExecutionState) (control : ControlConfig)
    (p q : Bool) :
    (n.withControl control p).withState state q = (n.withState state q).withControl control p := by
  have hPushes : (n.pushBelow (.under control)).pushBelow (.inState state) =
      (n.pushBelow (.inState state)).pushBelow (.under control) := by
    rw [pushBelow_pushBelow (NodeCore.keepsIndependence_under control),
      pushBelow_pushBelow (NodeCore.keepsIndependence_inState state)]
    rfl
  -- with both pushed or not, the core of the node itself is edited twice
  cases p <;> cases q <;>
    simp only [withState_alone, withControl_alone, withState_eq_pushBelow, withControl_eq_pushBelow,
      pushBelow_withCore, core_withCore, withCore_withCore, hPushes] <;>
    rfl

/-- A state that is pushed replaces the one before, pushed or not. -/
theorem withState_withState (n : Node) (state₁ state₂ : ExecutionState) (p : Bool) :
    (n.withState state₁ p).withState state₂ true = n.withState state₂ true := by
  have hPushes : (n.pushBelow (.inState state₁)).pushBelow (.inState state₂) =
      n.pushBelow (.inState state₂) :=
    pushBelow_pushBelow (NodeCore.keepsIndependence_inState state₁) n
  -- the second push overwrites the top and all below that the first one reached
  cases p with
  | false =>
    rw [withState_alone, withState_eq_pushBelow, withState_eq_pushBelow, pushBelow_withCore,
      core_withCore, withCore_withCore]
    rfl
  | true =>
    rw [withState_eq_pushBelow, withState_eq_pushBelow, withState_eq_pushBelow, pushBelow_withCore,
      core_withCore, withCore_withCore, hPushes]
    rfl

/-- Settings that are pushed replace those before, pushed or not. -/
theorem withControl_withControl (n : Node) (control₁ control₂ : ControlConfig) (p : Bool) :
    (n.withControl control₁ p).withControl control₂ true = n.withControl control₂ true := by
  -- the first push has kept the independence of all below, whatever it made of the node itself
  have hPushes : (n.pushBelow (.under control₁)).pushBelow (.under control₂) =
      n.pushBelow (.under control₂) :=
    pushBelow_pushBelow (NodeCore.keepsIndependence_under control₁) n
  cases p with
  | false =>
    rw [withControl_alone, withControl_eq_pushBelow, withControl_eq_pushBelow, pushBelow_withCore,
      core_withCore, withCore_withCore]
  | true =>
    rw [withControl_eq_pushBelow, withControl_eq_pushBelow, withControl_eq_pushBelow,
      pushBelow_withCore, core_withCore, withCore_withCore, hPushes]

/-- A state and a configuration may be given in any order. A state or a configuration with
propagation leaves nothing of one that was given before, with propagation or without. -/
theorem pushes_commute (n : Node) (state₁ state₂ : ExecutionState)
    (control₁ control₂ : ControlConfig) (p q : Bool) :
    (n.withControl control₁ p).withState state₁ q = (n.withState state₁ q).withControl control₁ p ∧
    (n.withState state₁ p).withState state₂ true = n.withState state₂ true ∧
    (n.withControl control₁ p).withControl control₂ true = n.withControl control₂ true :=
  ⟨n.withState_withControl state₁ control₁ p q, n.withState_withState state₁ state₂ p,
    n.withControl_withControl control₁ control₂ p⟩

end Node

end FlowNest
