import FlowNest.Proofs.Places
import FlowNest.Proofs.Rules

/-!
# FlowNest — the status of a graph after a command

A command is pushed along the tree and stops at frozen places; the status is tallied over
all nodes in pre-order. Place by place the two walks agree: after a push each site holds the
node it held before, edited if its place is not frozen. So the nodes of a graph fall into
those a command reaches, which are all in its state, and those it leaves, which are in the
states they were in, and the tallies and the overall state are those of the two parts.

* `Node.sites_push`                — a push, site by site;
* `FlowGraph.reached`, `FlowGraph.frozen` — the two parts of a graph;
* `FlowGraph.perm_withState`       — what becomes of them;
* `Status.heaviest_overall`        — the overall state is the weightiest that occurs;
* `Controller.status_command`      — the status of a graph after a command.
-/

namespace FlowNest

/-- A list whose elements become one thing or another falls into two parts. -/
theorem perm_map_ite {α β : Type} (l : List α) (p : α → Prop) [DecidablePred p] (a b : α → β) :
    ((l.filter fun x => ¬ p x).map a ++ (l.filter fun x => p x).map b).Perm
      (l.map fun x => if p x then b x else a x) := by
  induction l with
  | nil => exact .nil
  | cons x rest ih =>
    by_cases hx : p x
    · simpa [hx] using List.perm_middle.trans (ih.cons (b x))
    · simpa [hx] using ih.cons (a x)

/-! ## A push, site by site -/

namespace Node

variable {f : NodeCore → NodeCore}

/-- The sites after a push are the sites before it, each with its node edited unless it is
frozen. -/
theorem sites_push (n : Node) :
    (n.push f).sites = n.sites.map fun s => (s.1, if n.Frozen s.1 then s.2 else s.2.push f) := by
  induction n using induct with
  | code c => rfl
  | graph g ih =>
    rw [sites_eq, sites_eq, List.map_cons, if_neg (not_frozen_nil _), children_push,
      Forest.sites_eq_flatMap, Forest.sites_eq_flatMap, List.zipIdx_map, List.flatMap_map,
      List.map_flatMap]
    refine congrArg (_ :: ·) (List.flatMap_congr fun x hx => ?_)
    obtain ⟨child, i⟩ := x
    have hChild : (Node.graph g).children[i]? = some child := List.mem_zipIdx_iff_getElem?.mp hx
    show (if child.independent then child else child.push f).sites.map _ = _
    rw [List.map_map]
    cases hIndependent : child.independent with
    | true =>
      -- the child stays as it is, and each place below it is frozen
      refine List.map_congr_left fun s _ => ?_
      have hFrozen : (Node.graph g).Frozen (i :: s.1) :=
        (frozen_cons hChild).mpr (.inl hIndependent)
      exact congrArg (Prod.mk _) (if_pos hFrozen).symm
    | false =>
      have hSame : ∀ path, (Node.graph g).Frozen (i :: path) ↔ child.Frozen path := fun path =>
        (frozen_cons hChild).trans (or_iff_right (by simp [hIndependent]))
      rw [if_neg Bool.false_ne_true, ih child (List.mem_of_getElem? hChild), List.map_map]
      refine List.map_congr_left fun s _ => congrArg (Prod.mk _) ?_
      exact if_congr (hSame s.1).symm rfl rfl

/-- The nodes of a tree that a push reaches, as they are before it. -/
def reached (n : Node) : List Node :=
  (n.sites.filter fun s => ¬ n.Frozen s.1).map (·.2)

/-- The nodes of a tree at frozen places. -/
def frozen (n : Node) : List Node :=
  (n.sites.filter fun s => n.Frozen s.1).map (·.2)

theorem mem_reached_self (n : Node) : n ∈ n.reached := by
  rw [reached, sites_eq, List.filter_cons_of_pos (by simpa using n.not_frozen_nil)]
  exact List.mem_cons_self

theorem perm_preorder (n : Node) : (n.reached ++ n.frozen).Perm n.preorder := by
  have hParts := perm_map_ite n.sites (n.Frozen ·.1) (·.2) (·.2)
  simp only [ite_self, map_snd_sites] at hParts
  exact hParts

/-- A push edits the nodes that it reaches, and leaves the frozen ones. -/
theorem perm_preorder_push (f : NodeCore → NodeCore) (n : Node) :
    (n.reached.map (·.push f) ++ n.frozen).Perm (n.push f).preorder := by
  have hParts := perm_map_ite n.sites (n.Frozen ·.1) (·.2.push f) (·.2)
  rw [← map_snd_sites, sites_push, List.map_map, reached, List.map_map]
  exact hParts

end Node

namespace FlowGraph

/-- The nodes that a command reaches, as they are before it: those at the root, and below
them those at places that are not frozen. -/
def reached (g : FlowGraph) : List Node :=
  g.root.nodes.flatMap Node.reached

/-- The nodes at frozen places: an independent node stands there, or on the way there from
the root, but not at the root. -/
def frozen (g : FlowGraph) : List Node :=
  g.root.nodes.flatMap Node.frozen

/-- Each node is reached by a command or frozen. -/
theorem perm_allNodes (g : FlowGraph) : (g.reached ++ g.frozen).Perm g.allNodes := by
  rw [allNodes, Forest.preorder_eq_flatMap]
  exact (List.flatMap_append_perm _ _ _).trans (List.Perm.flatMap_left _ fun n _ => n.perm_preorder)

/-- After a command the nodes that it reaches are in its state, and the frozen ones are the
same as before. -/
theorem perm_withState (g : FlowGraph) (state : ExecutionState) :
    (g.reached.map (·.push (.inState state)) ++ g.frozen).Perm (g.withState state).allNodes := by
  rw [allNodes_withState, reached, List.map_flatMap]
  exact (List.flatMap_append_perm _ _ _).trans
    (List.Perm.flatMap_left _ fun n _ => n.perm_preorder_push (.inState state))

end FlowGraph

/-! ## Tallies -/

/-- How much a state weighs in the state of a whole graph. -/
def ExecutionState.weight : ExecutionState → Nat
  | .idle => 0
  | .paused => 1
  | .running => 2
  | .error => 3

/-- The state is the weightiest of those in the list. -/
def ExecutionState.Heaviest (state : ExecutionState) (states : List ExecutionState) : Prop :=
  state ∈ states ∧ ∀ other ∈ states, other.weight ≤ state.weight

namespace Status

/-- The number of nodes in a state. -/
def tally (s : Status) : ExecutionState → Nat
  | .idle => s.idle
  | .running => s.running
  | .paused => s.paused
  | .error => s.error

theorem tally_ofNodes (nodes : List Node) (state : ExecutionState) :
    (ofNodes nodes).tally state = nodes.countP (·.core.state = state) := by
  cases state <;> rfl

/-- Each node is in one of the four states. -/
theorem sum_ofNodes (nodes : List Node) :
    (ofNodes nodes).idle + (ofNodes nodes).running + (ofNodes nodes).paused +
      (ofNodes nodes).error = (ofNodes nodes).total := by
  induction nodes with
  | nil => rfl
  | cons n rest ih =>
    simp only [ofNodes, List.countP_cons, List.length_cons] at ih ⊢
    cases n.core.state <;> simp <;> omega

/-- The order of the nodes does not matter. -/
theorem ofNodes_perm {nodes nodes' : List Node} (h : nodes.Perm nodes') :
    ofNodes nodes = ofNodes nodes' := by
  simp only [ofNodes, h.countP_eq, h.length_eq]

theorem tally_pos_iff {nodes : List Node} {state : ExecutionState} :
    0 < (ofNodes nodes).tally state ↔ state ∈ nodes.map (·.core.state) := by
  rw [tally_ofNodes, List.countP_pos_iff, List.mem_map]
  simp

/-- The overall state of some nodes is the weightiest that any of them is in. -/
theorem heaviest_overall {nodes : List Node} (hSome : nodes ≠ []) :
    (ofNodes nodes).overall.Heaviest (nodes.map (·.core.state)) := by
  have hAbsent : ∀ state, ¬ 0 < (ofNodes nodes).tally state → state ∉ nodes.map (·.core.state) :=
    fun state hNone hMem => hNone (tally_pos_iff.mpr hMem)
  rw [overall]
  split_ifs with hError hRunning hPaused
  · refine ⟨tally_pos_iff.mp hError, fun other _ => ?_⟩
    cases other <;> decide
  · refine ⟨tally_pos_iff.mp hRunning, fun other hOther => ?_⟩
    cases other with
    | error => exact absurd hOther (hAbsent .error hError)
    | _ => decide
  · refine ⟨tally_pos_iff.mp hPaused, fun other hOther => ?_⟩
    cases other with
    | error => exact absurd hOther (hAbsent .error hError)
    | running => exact absurd hOther (hAbsent .running hRunning)
    | _ => decide
  · -- only idle is left, and some node is in some state
    have hIdle : ∀ other ∈ nodes.map (·.core.state), other = .idle := by
      intro other hOther
      cases other with
      | error => exact absurd hOther (hAbsent .error hError)
      | running => exact absurd hOther (hAbsent .running hRunning)
      | paused => exact absurd hOther (hAbsent .paused hPaused)
      | idle => rfl
    obtain ⟨state, hState⟩ := List.exists_mem_of_ne_nil _ (List.map_eq_nil_iff.not.mpr hSome)
    refine ⟨hIdle state hState ▸ hState, fun other hOther => ?_⟩
    rw [hIdle other hOther]

end Status

/-! ## After a command -/

namespace FlowGraph

/-- What the status of a graph is after a command that leads to the state `s`: it is read from
the nodes that were reached, all of them in `s`, and from the frozen ones. -/
structure SettlesIn (g : FlowGraph) (s : ExecutionState) (after : Status) : Prop where
  commanded : after.tally s = g.reached.length + g.frozen.countP (·.core.state = s)
  others : ∀ other ≠ s, after.tally other = g.frozen.countP (·.core.state = other)
  total : after.total = g.status.total
  independent : after.independent = g.status.independent
  sum : after.idle + after.running + after.paused + after.error = after.total
  empty : g.allNodes = [] → after.overall = .idle
  overall : g.allNodes ≠ [] → after.overall.Heaviest (s :: g.frozen.map (·.core.state))

variable {g : FlowGraph} {state : ExecutionState}

theorem status_withState (g : FlowGraph) (state : ExecutionState) :
    (g.withState state).status =
      .ofNodes (g.reached.map (·.push (.inState state)) ++ g.frozen) :=
  (Status.ofNodes_perm (g.perm_withState state)).symm

/-- In a graph with nodes a command reaches the ones at the root. -/
theorem reached_ne_nil (hSome : g.allNodes ≠ []) : g.reached ≠ [] := by
  have hRoots : g.root.nodes ≠ [] := by
    intro hNone
    rw [allNodes, hNone] at hSome
    exact hSome rfl
  obtain ⟨root, hRoot⟩ := List.exists_mem_of_ne_nil _ hRoots
  exact List.ne_nil_of_mem (List.mem_flatMap.mpr ⟨root, hRoot, root.mem_reached_self⟩)

/-- After a command, the states that occur are that of the command and those of the frozen
nodes. -/
theorem mem_states_iff (hSome : g.reached ≠ []) {other : ExecutionState} :
    other ∈ (g.reached.map (·.push (.inState state)) ++ g.frozen).map (·.core.state) ↔
      other ∈ state :: g.frozen.map (·.core.state) := by
  have hReached : (g.reached.map (·.push (.inState state))).map (·.core.state) =
      List.replicate g.reached.length state := by
    rw [List.map_map, List.map_eq_replicate_iff]
    exact fun n _ => congrArg NodeCore.state n.core_push
  rw [List.map_append, hReached, List.mem_append, List.mem_replicate, List.mem_cons]
  simp [hSome]

theorem settlesIn_withState (g : FlowGraph) (state : ExecutionState) :
    g.SettlesIn state (g.withState state).status := by
  rw [status_withState]
  have hReached : ∀ n : Node, (n.push (.inState state)).core.state = state := fun n =>
    congrArg NodeCore.state n.core_push
  have hBefore : g.status = .ofNodes (g.reached ++ g.frozen) :=
    Status.ofNodes_perm g.perm_allNodes.symm
  refine
    { commanded := ?commanded, others := ?others, total := ?total, independent := ?independent
      sum := Status.sum_ofNodes _, empty := ?empty, overall := ?overall }
  case commanded =>
    -- all nodes that were reached count, and those of the frozen ones that were in the state
    have hAll : g.reached.countP (fun n => (n.push (.inState state)).core.state = state) =
        g.reached.length := List.countP_eq_length.mpr fun n _ => decide_eq_true (hReached n)
    rw [Status.tally_ofNodes, List.countP_append, List.countP_map]
    exact congrArg (· + _) hAll
  case others =>
    intro other hOther
    have hNone : g.reached.countP (fun n => (n.push (.inState state)).core.state = other) = 0 := by
      refine List.countP_eq_zero.mpr fun n _ => ?_
      rw [hReached]
      simpa using hOther.symm
    rw [Status.tally_ofNodes, List.countP_append, List.countP_map]
    exact (congrArg (· + _) hNone).trans (Nat.zero_add _)
  case total =>
    rw [hBefore]
    simp only [Status.ofNodes, List.length_append, List.length_map]
  case independent =>
    have hSame : (fun n : Node => (n.push (.inState state)).independent) = Node.independent :=
      funext fun n => n.independent_push (NodeCore.keepsIndependence_inState state)
    rw [hBefore]
    simp only [Status.ofNodes, List.countP_append, List.countP_map, Function.comp_def, hSame]
  case empty =>
    -- neither part has a node
    intro hEmpty
    obtain ⟨hNone, hNone'⟩ := List.append_eq_nil_iff.mp (hEmpty ▸ g.perm_allNodes).eq_nil
    rw [hNone, hNone']
    rfl
  case overall =>
    -- some node is reached, so the state of the command is among those that occur
    intro hSome
    have hHere := reached_ne_nil hSome
    have hAfter : g.reached.map (·.push (.inState state)) ++ g.frozen ≠ [] := by
      simp [hHere]
    obtain ⟨hMem, hLe⟩ := Status.heaviest_overall hAfter
    refine ⟨(mem_states_iff hHere).mp hMem, fun other hOther => ?_⟩
    exact hLe other ((mem_states_iff hHere).mpr hOther)

end FlowGraph

/-- After a command, the state of the command is that of the nodes it reaches and of the frozen
nodes that were in it, and any other state that of the frozen nodes that were in it. No node
is lost, none becomes independent or stops being so, and the overall state is the weightiest of
those that are left. -/
theorem Controller.status_command {ρ : Type} [RuntimeRegistry ρ] (c : Controller ρ)
    (command : Command) :
    c.graph.SettlesIn command.state (c.command command).graph.status :=
  c.graph.settlesIn_withState command.state

/-- A drill that is exempt and in error keeps a plant in error that is stopped. -/
example :
    (FlowGraph.plant.update? "drill" fun n => n.withCore { n.core with
      state := .error, control := ControlConfig.standard.withIndependence true }).map
      (fun g => (g.withState Command.stop.state).status.overall) = some .error := by
  decide +kernel

end FlowNest
