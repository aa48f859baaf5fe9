import FlowNest.Proofs.Rules

/-!
# FlowNest — connections from port to port

A connection is meant to lead from an output of a node in its scope to an input of
another one that takes its data. Validation has two ways to look at it. At the root a
connection whose ends name no ports is an issue. Inside a container only its two nodes
have to be there: the ports are compared where both are found, and where one of them is
missing there is nothing to compare and no issue.

So in a valid graph a connection may fail to connect, but only inside a container and
only by naming a port that its node does not have.

* `Scope.Connects`              — what a connection is meant to do;
* `FlowGraph.Sound.joins`       — two ports that are found were compared, in every scope;
* `FlowGraph.connects_of_valid` — what a valid graph says of each of its connections;
* `FlowGraph.exists_valid_not_connects` — it does not say that all of them connect.
-/

namespace FlowNest

namespace Scope

/-- A node of the scope owns the port, which is of the direction, at the endpoint. -/
def Offers (s : Scope Node) (d : Direction) (e : Endpoint) (p : Port) : Prop :=
  ∃ n ∈ s.nodes, n.id = e.node ∧ p ∈ n.ports ∧ p.endpoint = e ∧ p.direction = d

/-- The connection leads from an output in the scope to an input that takes its data. -/
def Connects (s : Scope Node) (x : Connection) : Prop :=
  ∃ p q, s.Offers .output x.source p ∧ s.Offers .input x.target q ∧
    p.dataType.accepts q.dataType = true

variable {s : Scope Node} {x : Connection}

theorem exists_of_node? {id : String} (h : (s.node? id).isSome) : ∃ n ∈ s.nodes, n.id = id := by
  obtain ⟨n, hn⟩ := Option.isSome_iff_exists.mp h
  have hId : n.id = id := by simpa using List.find?_some hn
  exact ⟨n, List.mem_of_find?_eq_some hn, hId⟩

/-- A port that is found and knows its endpoint is offered there. -/
theorem offers_of_port? {e : Endpoint} {p : Port} (h : s.port? e = some p) (hOwn : p.endpoint = e) :
    s.Offers p.direction e p := by
  obtain ⟨n, hn, hp⟩ := Option.bind_eq_some_iff.mp h
  have hId : n.id = e.node := by simpa using List.find?_some hn
  exact ⟨n, List.mem_of_find?_eq_some hn, hId, List.mem_of_find?_eq_some hp, hOwn, rfl⟩

/-- Where ids are unique, what is offered at an endpoint makes a search there succeed. -/
theorem Offers.isSome_port? (hIds : (s.nodes.map (·.id)).Nodup) {d : Direction} {e : Endpoint}
    {p : Port} (h : s.Offers d e p) : (s.port? e).isSome := by
  obtain ⟨n, hn, hId, hp, hOwn, -⟩ := h
  have hNode : s.node? e.node = some n := (find?_key_eq_some_iff hIds).mpr ⟨hn, hId⟩
  have hPort : p.id = e.port := congrArg Endpoint.port hOwn
  rw [port?, hNode, Option.bind_some, Node.port?, List.find?_isSome]
  exact ⟨p, hp, by simpa using hPort⟩

/-- A connection between two ports that breaks no rule connects. -/
theorem Joins.connects (h : s.Joins x) : s.Connects x := by
  obtain ⟨p, q, hp, hq, hIssues⟩ := h
  obtain ⟨-, hSource, hTarget, hFeeds⟩ := Connection.issuesBetween_eq_nil_iff.mp hIssues
  obtain ⟨hOutput, hInput⟩ := Port.directions_of_feeds hFeeds
  have hOffersOut := offers_of_port? hp hSource
  have hOffersIn := offers_of_port? hq hTarget
  rw [hOutput] at hOffersOut
  rw [hInput] at hOffersIn
  -- that one port feeds the other says of the types what is left to show
  have hAccepts : p.dataType.accepts q.dataType = true := by
    simp only [Port.feeds, Bool.and_eq_true] at hFeeds
    exact hFeeds.2
  exact ⟨p, q, hOffersOut, hOffersIn, hAccepts⟩

/-- Nothing connects without a port at each end. -/
theorem Connects.isSome_port? (hIds : (s.nodes.map (·.id)).Nodup) (h : s.Connects x) :
    (s.port? x.source).isSome ∧ (s.port? x.target).isSome := by
  obtain ⟨p, q, hOut, hIn, -⟩ := h
  exact ⟨hOut.isSome_port? hIds, hIn.isSome_port? hIds⟩

end Scope

namespace FlowGraph

variable {g : FlowGraph} {scope : ScopeId} {s : Scope Node} {x : Connection}

/-- The two ways to validate a connection agree once both ports are found. -/
theorem Sound.joins (h : g.Sound) (hScope : g.scope? scope = some s) (hx : x ∈ s.connections)
    (hSource : (s.port? x.source).isSome) (hTarget : (s.port? x.target).isSome) : s.Joins x := by
  -- inside a container the rules compare two ports only where both resolve, hence the two
  -- hypotheses
  cases scope with
  | none =>
    cases hScope
    exact (h.connections x hx).2
  | some id =>
    obtain ⟨c, hc, rfl⟩ := Option.map_eq_some_iff.mp hScope
    have hMem := ((container?_eq_some_iff h.unique).mp hc).1
    have hKeeps := (h.containers c hMem).connections x hx
    obtain ⟨p, hp⟩ := Option.isSome_iff_exists.mp hSource
    obtain ⟨q, hq⟩ := Option.isSome_iff_exists.mp hTarget
    exact ⟨p, q, hp, hq, hKeeps.joins p q hp hq⟩

/-- In a valid graph the two ends of a connection are at nodes of its scope. It
connects there if both ends name ports of these nodes, and at the root they do. -/
theorem connects_of_valid (hValid : g.validate.success = true) (hScope : g.scope? scope = some s)
    (hx : x ∈ s.connections) :
    (∃ n ∈ s.nodes, n.id = x.source.node) ∧ (∃ n ∈ s.nodes, n.id = x.target.node) ∧
      (s.Connects x ↔ (s.port? x.source).isSome ∧ (s.port? x.target).isSome) ∧
      (scope = none → s.Connects x) := by
  have hSound := validate_success_iff.mp hValid
  have hIds : (s.nodes.map (·.id)).Nodup :=
    (hSound.unique.scope hScope).sublist ((Forest.sublist_preorder s.nodes).map _)
  obtain ⟨hSource, hTarget⟩ := hSound.isSome_node? hScope hx
  refine ⟨Scope.exists_of_node? hSource, Scope.exists_of_node? hTarget, ?_, ?_⟩
  · constructor
    · exact Scope.Connects.isSome_port? hIds
    · rintro ⟨hp, hq⟩
      exact (hSound.joins hScope hx hp hq).connects
  -- at the root validity resolves both ports by itself
  · rintro rfl
    cases hScope
    exact (hSound.connections x hx).2.connects

/-- A connection from a port that its node does not have. -/
def leak : Connection :=
  (Connection.of "leak" ⟨"mill", "mill.gone"⟩ ⟨"pack", "pack.in"⟩).inScope (some "line")

/-- A line with that connection inside. -/
def leakyLine : Container Node :=
  { line with
    inside := { line.inside with connections := line.inside.connections ++ [leak] } }

/-- The plant with that line. -/
def leakyPlant : FlowGraph :=
  { plant with
    root :=
      { plant.root with nodes := [stage "source" none, .graph leakyLine, stage "sink" none] } }

theorem leakyPlant_connects_of_valid :
    leakyPlant.validate.success = true ∧
      ∀ x ∈ leakyLine.inside.connections, leakyLine.inside.Connects x ↔
        (leakyLine.inside.port? x.source).isSome ∧ (leakyLine.inside.port? x.target).isSome := by
  have hValid : leakyPlant.validate.success = true := by decide +kernel
  have hScope : leakyPlant.scope? (some "line") = some leakyLine.inside := rfl
  exact ⟨hValid, fun x hx => (connects_of_valid hValid hScope hx).2.2.1⟩

/-- That a graph is valid does not make all of its connections connect. -/
theorem exists_valid_not_connects :
    ¬ ∀ g : FlowGraph, g.validate.success = true → ∀ scope s, g.scope? scope = some s →
      ∀ x ∈ s.connections, s.Connects x := by
  intro hAll
  have hValid : leakyPlant.validate.success = true := by decide +kernel
  have hScope : leakyPlant.scope? (some "line") = some leakyLine.inside := rfl
  have hMem : leak ∈ leakyLine.inside.connections := by simp [leakyLine]
  have hConnects := hAll leakyPlant hValid (some "line") leakyLine.inside hScope leak hMem
  have hIds : (leakyLine.inside.nodes.map (·.id)).Nodup := by decide +kernel
  -- the source of the leak would have to be found
  have hSome := (hConnects.isSome_port? hIds).1
  have hNone : (leakyLine.inside.port? leak.source).isSome = false := by decide +kernel
  rw [hNone] at hSome
  cases hSome

end FlowGraph

end FlowNest
