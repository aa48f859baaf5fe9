import FlowNest.Proofs.Connected

/-!
# FlowNest — the chain of a connection

The segments of a connection are its hops up from the source, the connection itself and
its hops down to the target. In any graph they hang together: neighbours meet at a port
on the boundary of the container that one of them is seen in.

In a valid graph whose ports are sorted, typed and resolved the chain also leads
somewhere. Each hop goes from a boundary port to a child port of its direction and type,
one level deeper, and since validation lets no boundary port lead nowhere, the hops go
on until they are at a code node.

* `FlowGraph.depth?`          — how deep a node stands;
* `FlowGraph.meets_segments`  — neighbours meet, in any graph;
* `FlowGraph.depth?_of_leadsTo`, `FlowGraph.exists_code_of_leadsTo` — what a way inwards
  keeps, by induction on its hops;
* `FlowGraph.segments_span`   — a chain joins an output of a code node to an input of one.
-/

namespace FlowNest

/-! ## Depth -/

mutual

/-- A node and all below it, each with its depth, for a node that stands at `depth`. -/
def Node.layered (depth : Nat) : Node → List (Nat × Node)
  | .code c => [(depth, .code c)]
  | .graph ⟨core, boundary, ⟨nodes, connections⟩⟩ =>
    (depth, .graph ⟨core, boundary, ⟨nodes, connections⟩⟩) :: Forest.layered (depth + 1) nodes

def Forest.layered (depth : Nat) : List Node → List (Nat × Node)
  | [] => []
  | n :: rest => n.layered depth ++ Forest.layered depth rest

end

mutual

theorem Node.map_snd_layered (depth : Nat) :
    ∀ n : Node, (n.layered depth).map (·.2) = n.preorder
  | .code c => rfl
  | .graph ⟨core, boundary, ⟨nodes, connections⟩⟩ => by
    rw [Node.layered, Node.preorder, List.map_cons, Forest.map_snd_layered (depth + 1) nodes]

theorem Forest.map_snd_layered (depth : Nat) :
    ∀ nodes : List Node, (Forest.layered depth nodes).map (·.2) = Forest.preorder nodes
  | [] => rfl
  | n :: rest => by
    rw [Forest.layered, Forest.preorder, List.map_append, Node.map_snd_layered depth n,
      Forest.map_snd_layered depth rest]

end

theorem Forest.mem_layered_of_mem {depth : Nat} {n : Node} {nodes : List Node} (h : n ∈ nodes) :
    (depth, n) ∈ Forest.layered depth nodes := by
  induction nodes with
  | nil => cases h
  | cons m rest ih =>
    rw [Forest.layered, List.mem_append]
    rcases List.mem_cons.mp h with rfl | h
    · left
      -- only the children of a container are a layer further down
      cases n with
      | code c => exact List.mem_singleton_self _
      | graph c => exact List.mem_cons_self
    · exact .inr (ih h)

mutual

theorem Node.mem_layered_child {c : Container Node} {child : Node} {d : Nat}
    (hChild : child ∈ c.inside.nodes) :
    ∀ (depth : Nat) (n : Node), (d, .graph c) ∈ n.layered depth → (d + 1, child) ∈ n.layered depth
  | depth, .code k, h => by simp [Node.layered] at h
  | depth, .graph ⟨core, boundary, ⟨nodes, connections⟩⟩, h => by
    refine List.mem_cons_of_mem _ ?_
    rcases List.mem_cons.mp h with h | h
    · cases h
      exact Forest.mem_layered_of_mem hChild
    · exact Forest.mem_layered_child hChild (depth + 1) nodes h

/-- A child stands one level deeper than its container. -/
theorem Forest.mem_layered_child {c : Container Node} {child : Node} {d : Nat}
    (hChild : child ∈ c.inside.nodes) :
    ∀ (depth : Nat) (nodes : List Node), (d, .graph c) ∈ Forest.layered depth nodes →
      (d + 1, child) ∈ Forest.layered depth nodes
  | depth, [], h => by cases h
  | depth, n :: rest, h => by
    rw [Forest.layered, List.mem_append] at h ⊢
    rcases h with h | h
    · exact .inl (Node.mem_layered_child hChild depth n h)
    · exact .inr (Forest.mem_layered_child hChild depth rest h)

end

namespace FlowGraph

variable {g : FlowGraph}

/-- The number of containers that the node with the id stands in. -/
def depth? (g : FlowGraph) (id : String) : Option Nat :=
  ((Forest.layered 0 g.root.nodes).find? (·.2.id = id)).map (·.1)

theorem depth?_eq_some_iff (hUnique : g.UniqueIds) {id : String} {d : Nat} :
    g.depth? id = some d ↔ ∃ n, (d, n) ∈ Forest.layered 0 g.root.nodes ∧ n.id = id := by
  have hKeys : ((Forest.layered 0 g.root.nodes).map (·.2.id)).Nodup := by
    have hNodes := Forest.map_snd_layered 0 g.root.nodes
    rwa [UniqueIds, allNodes, ← hNodes, List.map_map] at hUnique
  rw [depth?, Option.map_eq_some_iff]
  constructor
  · rintro ⟨⟨d', n⟩, hFind, rfl⟩
    exact ⟨n, (find?_key_eq_some_iff hKeys).mp hFind⟩
  · rintro ⟨n, hn⟩
    exact ⟨(d, n), (find?_key_eq_some_iff hKeys).mpr hn, rfl⟩

theorem exists_depth? (hUnique : g.UniqueIds) {n : Node} (hn : n ∈ g.allNodes) :
    ∃ d, g.depth? n.id = some d := by
  have hLayered : n ∈ (Forest.layered 0 g.root.nodes).map (·.2) := by
    rw [Forest.map_snd_layered]
    exact hn
  obtain ⟨⟨d, m⟩, hMem, rfl⟩ := List.mem_map.mp hLayered
  exact ⟨d, (depth?_eq_some_iff hUnique).mpr ⟨m, hMem, rfl⟩⟩

/-- A hop leads one level deeper. -/
theorem depth?_of_step? (hUnique : g.UniqueIds) {e next : Endpoint} {d : Nat}
    (hStep : g.step? e = some next) (hDepth : g.depth? e.node = some d) :
    g.depth? next.node = some (d + 1) := by
  obtain ⟨c, hc, hId, hLead⟩ := (step?_eq_some_iff hUnique).mp hStep
  obtain ⟨child, hChild, hChildId, -⟩ := Container.exists_of_lead? hLead
  obtain ⟨n, hn, hnId⟩ := (depth?_eq_some_iff hUnique).mp hDepth
  have hMem : n ∈ g.allNodes := by
    have hNodes := List.mem_map_of_mem (f := (·.2)) hn
    rwa [Forest.map_snd_layered] at hNodes
  -- the node that stands at this depth is the container
  obtain rfl : n = .graph c := hUnique.eq_of_id_eq hMem hc (hnId.trans hId.symm)
  exact (depth?_eq_some_iff hUnique).mpr ⟨child, Forest.mem_layered_child hChild 0 _ hn, hChildId⟩

/-! ## Hops -/

theorem step?_of_mem_descendFrom {visited : List Endpoint} {e : Endpoint} {hop : Hop}
    (h : hop ∈ g.descendFrom visited e) : g.step? hop.outer = some hop.inner := by
  fun_induction descendFrom g visited e with
  | case1 visited e hStop => cases h
  | case2 visited e next hStep ih =>
    rcases List.mem_cons.mp h with rfl | h
    · exact hStep
    · split at h
      · cases h
      · next hNew => exact ih hNew h

/-- The way inwards starts at its endpoint. -/
theorem outer_of_mem_head?_descendFrom {visited : List Endpoint} {e : Endpoint} {hop : Hop}
    (h : hop ∈ (g.descendFrom visited e).head?) : hop.outer = e := by
  rw [descendFrom] at h
  split at h
  · cases h
  · cases h
    rfl

/-- Each hop is a step from where the one before it led to. -/
theorem isChain_descendFrom (g : FlowGraph) (visited : List Endpoint) (e : Endpoint) :
    (g.descendFrom visited e).IsChain fun a b =>
      a.inner = b.outer ∧ g.step? b.outer = some b.inner := by
  fun_induction descendFrom g visited e with
  | case1 visited e hStop => exact .nil
  | case2 visited e next hStep ih =>
    split
    · exact .singleton _
    · next hNew =>
      refine List.isChain_cons.mpr ⟨?_, ih hNew⟩
      intro hop hHop
      -- the rest of the way starts where this hop ends
      have hStart := outer_of_mem_head?_descendFrom hHop
      exact ⟨hStart.symm, step?_of_mem_descendFrom (List.mem_of_mem_head? hHop)⟩

/-- What was visited makes no difference while all of it lies no deeper than the endpoint
at hand. -/
theorem descendFrom_congr (hUnique : g.UniqueIds) {visited other : List Endpoint} {e : Endpoint}
    (hVisited : ∀ v ∈ visited, g.weight e.node ≤ g.weight v.node)
    (hOther : ∀ v ∈ other, g.weight e.node ≤ g.weight v.node) :
    g.descendFrom visited e = g.descendFrom other e := by
  fun_induction descendFrom g visited e generalizing other with
  | case1 visited e hStop => rw [descendFrom_of_stop hStop]
  | case2 visited e next hStep ih =>
    have hLt := weight_lt_of_step? hUnique hStep
    -- each hop goes to a lighter node, so what was visited before is never met again
    have hFresh : ∀ l : List Endpoint, (∀ v ∈ l, g.weight e.node ≤ g.weight v.node) → next ∉ l := by
      intro l hl hMem
      have := hl next hMem
      omega
    have hDeeper : ∀ l : List Endpoint, (∀ v ∈ l, g.weight e.node ≤ g.weight v.node) →
        ∀ v ∈ next :: l, g.weight next.node ≤ g.weight v.node := by
      intro l hl v hv
      rcases List.mem_cons.mp hv with rfl | hv
      · exact Nat.le_refl _
      · have := hl v hv
        omega
    rw [descendFrom_of_step? hStep, if_neg (hFresh visited hVisited), if_neg (hFresh other hOther),
      ih (hFresh visited hVisited) (hDeeper visited hVisited) (hDeeper other hOther)]

theorem descend_of_stop {e : Endpoint} (h : g.step? e = none) : g.descend e = [] := by
  rw [descend, descendFrom_of_stop h]

theorem descend_of_step? (hUnique : g.UniqueIds) {e next : Endpoint} (h : g.step? e = some next) :
    g.descend e = ⟨e, next⟩ :: g.descend next := by
  have hLt := weight_lt_of_step? hUnique h
  have hNew : next ∉ [e] := by
    intro hMem
    rw [List.mem_singleton.mp hMem] at hLt
    omega
  -- the start is heavier than all that follows, so it may be left out of what was visited
  have hRest : g.descendFrom [next, e] next = g.descendFrom [next] next := by
    refine descendFrom_congr hUnique ?_ ?_
    · intro v hv
      rcases List.mem_pair.mp hv with rfl | rfl <;> omega
    · intro v hv
      rw [List.mem_singleton.mp hv]
  rw [descend, descendFrom_of_step? h, if_neg hNew, hRest, descend]

/-- The way inwards is as long as it is deep. -/
theorem depth?_of_leadsTo (hUnique : g.UniqueIds) {e b : Endpoint} (h : g.LeadsTo e b) {d : Nat}
    (hDepth : g.depth? e.node = some d) :
    g.depth? b.node = some (d + (g.descend e).length) := by
  induction h generalizing d with
  | stop hStop => rw [descend_of_stop hStop, hDepth]; rfl
  | hop hStep _ ih =>
    have hRest := ih (depth?_of_step? hUnique hStep hDepth)
    rw [hRest, descend_of_step? hUnique hStep, List.length_cons]
    congr 1
    omega

/-! ## Segments -/

/-- Two segments meet at a port on the boundary of the container that one of them is
seen in. -/
def Meets (g : FlowGraph) (a b : Segment) : Prop :=
  a.target = b.source ∧ ∃ c : Container Node, .graph c ∈ g.allNodes ∧ c.core.id = a.target.node ∧
    (∃ p ∈ c.boundary.ports, p.port.id = a.target.port) ∧
    (a.scope = some c.core.id ∨ b.scope = some c.core.id)

/-- Data enters a container by a port on its boundary. -/
theorem exists_boundary_of_step? {e next : Endpoint} (h : g.step? e = some next) :
    ∃ c : Container Node, .graph c ∈ g.allNodes ∧ c.core.id = e.node ∧
      ∃ p ∈ c.boundary.ports, p.port.id = e.port := by
  rw [step?_eq, Option.bind_eq_some_iff] at h
  obtain ⟨n, hn, hLead⟩ := h
  -- a code node leads nowhere
  cases n with
  | code _ => cases hLead
  | graph c =>
    have hMem : .graph c ∈ g.allNodes := Forest.mem_preorder_of_find? _ hn
    have hId : c.core.id = e.node := by
      rw [find?, Forest.find?_eq_preorder] at hn
      have hFound : (Node.graph c).id = e.node := by simpa using List.find?_some hn
      exact hFound
    rw [Node.lead?, Container.lead?_eq, Option.bind_eq_some_iff] at hLead
    obtain ⟨p, hp, -⟩ := hLead
    have hPort : p.port.id = e.port := by simpa using List.find?_some hp
    exact ⟨c, hMem, hId, p, List.mem_of_find?_eq_some hp, hPort⟩

/-- What two neighbours share does not depend on their numbers. -/
theorem isChain_mapIdx {α β : Type} {R : β → β → Prop} {f : Nat → α → β} {l : List α}
    (h : l.IsChain fun a b => ∀ i j, R (f i a) (f j b)) : (l.mapIdx f).IsChain R := by
  rw [List.isChain_iff_getElem] at h ⊢
  intro i hi
  rw [List.getElem_mapIdx, List.getElem_mapIdx]
  exact h i (by simpa using hi) i (i + 1)

/-- Neighbouring segments meet. -/
theorem meets_segments (g : FlowGraph) (x : Connection) : (g.segments x).IsChain g.Meets := by
  -- the segment of a hop is seen in the container that the hop enters
  have hMeets : ∀ {e next : Endpoint} {a b : Segment}, g.step? e = some next → a.target = e →
      b.source = e → (a.scope = some e.node ∨ b.scope = some e.node) → g.Meets a b := by
    rintro e next a b hStep rfl hSource hScope
    obtain ⟨c, hc, hId, hPort⟩ := exists_boundary_of_step? hStep
    exact ⟨hSource.symm, c, hc, hId, hPort, by rwa [hId]⟩
  have hFirst : ∀ {e : Endpoint} {hop : Hop}, hop ∈ (g.descend e).head? →
      g.step? e = some hop.inner ∧ hop.outer = e := by
    intro e hop hHop
    have hStart : hop.outer = e := outer_of_mem_head?_descendFrom hHop
    exact ⟨hStart ▸ step?_of_mem_descendFrom (List.mem_of_mem_head? hHop), hStart⟩
  rw [segments]
  refine isChain_mapIdx (List.isChain_append.mpr ⟨?_, List.isChain_cons.mpr ⟨?_, ?_⟩, ?_⟩)
  · -- of two hops up the first is the deeper one
    rw [List.isChain_map, List.isChain_reverse]
    refine (isChain_descendFrom g _ _).imp ?_
    rintro a b ⟨hNext, hStep⟩ i j
    exact hMeets hStep rfl hNext (.inl rfl)
  · -- from the connection down
    intro y hy i j
    rw [List.head?_map] at hy
    obtain ⟨hop, hHop, rfl⟩ := Option.map_eq_some_iff.mp hy
    obtain ⟨hStep, hStart⟩ := hFirst hHop
    exact hMeets hStep rfl hStart (.inr (congrArg (fun e => some e.node) hStart))
  · rw [List.isChain_map]
    refine (isChain_descendFrom g _ _).imp ?_
    rintro a b ⟨hNext, hStep⟩ i j
    exact hMeets hStep hNext rfl (.inr rfl)
  · -- from the last hop up to the connection
    intro y hy z hz i j
    cases hz
    rw [List.getLast?_map, List.getLast?_reverse] at hy
    obtain ⟨hop, hHop, rfl⟩ := Option.map_eq_some_iff.mp hy
    obtain ⟨hStep, hStart⟩ := hFirst hHop
    exact hMeets hStep hStart rfl (.inl (congrArg (fun e => some e.node) hStart))

theorem length_segments (g : FlowGraph) (x : Connection) :
    (g.segments x).length = 1 + (g.descend x.source).length + (g.descend x.target).length := by
  simp only [segments, List.length_mapIdx, List.length_append, List.length_map,
    List.length_reverse, List.length_cons]
  omega

/-! ## Where chains lead -/

/-- The endpoint refers to the port, which is one of a node of the graph. -/
def Refers (g : FlowGraph) (e : Endpoint) (p : Port) : Prop :=
  ∃ n ∈ g.allNodes, n.id = e.node ∧ p ∈ n.ports ∧ p.id = e.port

/-- The endpoint refers to the port, which is one of the code node. -/
def RefersTo (g : FlowGraph) (e : Endpoint) (c : CodeNode) (p : Port) : Prop :=
  .code c ∈ g.allNodes ∧ c.core.id = e.node ∧ p ∈ (Node.code c).ports ∧ p.id = e.port

theorem refers_of_port? {scope : ScopeId} {s : Scope Node} (hScope : g.scope? scope = some s)
    {e : Endpoint} {p : Port} (h : s.port? e = some p) : g.Refers e p := by
  obtain ⟨n, hn, hp⟩ := Option.bind_eq_some_iff.mp h
  have hId : n.id = e.node := by simpa using List.find?_some hn
  have hPort : p.id = e.port := by simpa using List.find?_some hp
  exact ⟨n, mem_allNodes_of_scope? hScope (List.mem_of_find?_eq_some hn), hId,
    List.mem_of_find?_eq_some hp, hPort⟩

end FlowGraph

/-- Each port of the boundary has the type of the child port it leads to. -/
def Container.KeepsTypes (c : Container Node) : Prop :=
  ∀ p ∈ c.boundary.ports, ∀ target ∈ c.resolve? p.port.id, p.port.dataType = target.2.dataType

instance (c : Container Node) : Decidable c.KeepsTypes :=
  inferInstanceAs (Decidable (∀ p ∈ c.boundary.ports, _))

namespace FlowGraph

section Sound

variable {g : FlowGraph} (hSound : g.Sound) (hPorts : ∀ n ∈ g.allNodes, n.TidyPorts)
  (hTypes : ∀ c : Container Node, .graph c ∈ g.allNodes → c.KeepsTypes)

include hSound hPorts

/-- In a valid graph every boundary port leads to a child port of its direction. -/
theorem exists_step?_of_boundary {c : Container Node} (hc : .graph c ∈ g.allNodes)
    {own : BoundaryPort} (hOwn : own ∈ c.boundary.ports) :
    ∃ n q, c.resolve? own.port.id = some (n, q) ∧
      g.step? ⟨c.core.id, own.port.id⟩ = some ⟨n.id, q.id⟩ ∧ g.Refers ⟨n.id, q.id⟩ q ∧
      q.direction = own.port.direction := by
  have hInside := tidy_inside hSound.unique hPorts hc
  -- the port ids are distinct, so looking one up gives the boundary port we started from
  have hFind := (Container.boundaryPort?_eq_some_iff (hPorts _ hc)).mpr ⟨hOwn, rfl⟩
  have hSome := (hSound.containers c hc).isSome_resolve? (hPorts _ hc) hOwn
  obtain ⟨⟨n, q⟩, hResolve⟩ := Option.isSome_iff_exists.mp hSome
  obtain ⟨hPort, hDirection⟩ := Container.port?_of_resolve? hInside hFind hResolve
  obtain ⟨m, hm, hId, hq, hPortId⟩ := hInside.port?_eq_some_iff.mp hPort
  refine ⟨n, q, hResolve, ?_, ⟨m, mem_allNodes_of_mem_inside hc hm, hId, hq, hPortId⟩, hDirection⟩
  have hLead := step?_eq_lead? hSound.unique hc own.port.id
  rw [Node.lead?, Container.lead?, hResolve] at hLead
  exact hLead

include hTypes

/-- At a port of a code node the way inwards ends. From one of a container it leads on,
to a port of the same direction and type. -/
theorem step?_of_refers {e : Endpoint} {p : Port} (hp : g.Refers e p) :
    (g.step? e = none ∧ ∃ c, g.RefersTo e c p) ∨
      ∃ next q, g.step? e = some next ∧ g.Refers next q ∧ q.direction = p.direction ∧
        q.dataType = p.dataType := by
  obtain ⟨n, hn, hId, hMem, hPort⟩ := hp
  cases n with
  | code c =>
    have hStop := step?_eq_lead? hSound.unique hn e.port
    rw [hId] at hStop
    exact .inl ⟨hStop, c, hn, hId, hMem, hPort⟩
  | graph c =>
    rw [Container.ports_graph] at hMem
    obtain ⟨own, hOwn, rfl⟩ := List.mem_map.mp hMem
    obtain ⟨m, q, hResolve, hStep, hRefers, hDirection⟩ :=
      exists_step?_of_boundary hSound hPorts hn hOwn
    have hHere : (⟨c.core.id, own.port.id⟩ : Endpoint) = e := by
      rw [hPort, show c.core.id = e.node from hId]
    rw [hHere] at hStep
    -- the child port has the type of the boundary port, by assumption
    have hType := hTypes c hn own hOwn (m, q) hResolve
    exact .inr ⟨_, q, hStep, hRefers, hDirection, hType.symm⟩

/-- A way inwards from a port ends at a port of a code node, of the same direction and
type. -/
theorem exists_code_of_leadsTo {e b : Endpoint} (h : g.LeadsTo e b) {p : Port}
    (hp : g.Refers e p) :
    ∃ c q, g.RefersTo b c q ∧ q.direction = p.direction ∧ q.dataType = p.dataType := by
  induction h generalizing p with
  | @stop e hStop =>
    rcases step?_of_refers hSound hPorts hTypes hp with ⟨-, c, hCode⟩ | ⟨next, q, hStep, -⟩
    · exact ⟨c, p, hCode, rfl, rfl⟩
    · -- a container would lead further
      rw [hStop] at hStep
      cases hStep
  | @hop e next b hStep _ ih =>
    rcases step?_of_refers hSound hPorts hTypes hp with ⟨hStop, -⟩ | ⟨next', q, hStep', hRest⟩
    · rw [hStep] at hStop
      cases hStop
    · rw [hStep] at hStep'
      cases hStep'
      obtain ⟨hRefers, hDirection, hType⟩ := hRest
      obtain ⟨c, r, hCode, hDirection', hType'⟩ := ih hRefers
      exact ⟨c, r, hCode, hDirection'.trans hDirection, hType'.trans hType⟩

end Sound

variable {g : FlowGraph} {scope : ScopeId} {s : Scope Node} {x : Connection}

/-- In a valid graph with its ports in their lists under different ids, the types of its
boundaries kept and its inner connections resolved, the chain of each connection leads
from an output of a code node to an input of a code node that takes its data. Its
segments meet at the boundaries of containers, and there is one more of them than the
two nodes stand deeper than the ends of the connection. -/
theorem segments_span (hValid : g.validate.success = true) (hSorts : ∀ n ∈ g.allNodes, n.SortsPorts)
    (hTypes : ∀ c : Container Node, .graph c ∈ g.allNodes → c.KeepsTypes)
    (hResolves : ∀ c : Container Node, .graph c ∈ g.allNodes → c.Resolves)
    (hScope : g.scope? scope = some s) (hx : x ∈ s.connections) :
    ∃ first last a p b q, (g.segments x).head? = some first ∧
      (g.segments x).getLast? = some last ∧
      g.RefersTo first.source a p ∧ p.direction = .output ∧
      g.RefersTo last.target b q ∧ q.direction = .input ∧ p.feeds q = true ∧
      (g.segments x).IsChain g.Meets ∧
      ∃ i i' j j', g.depth? x.source.node = some i ∧ g.depth? a.core.id = some i' ∧ i ≤ i' ∧
        g.depth? x.target.node = some j ∧ g.depth? b.core.id = some j' ∧ j ≤ j' ∧
        (g.segments x).length = 1 + (i' - i) + (j' - j) := by
  have hSound := validate_success_iff.mp hValid
  have hUnique := hSound.unique
  have hPorts := hSound.tidyPorts hSorts
  -- the two ports of the connection itself
  obtain ⟨hSource, hTarget⟩ := hSound.isSome_port? hResolves hScope hx
  obtain ⟨p, q, hp, hq, hIssues⟩ := hSound.joins hScope hx hSource hTarget
  have hFeeds := (Connection.issuesBetween_eq_nil_iff.mp hIssues).2.2.2
  obtain ⟨hOutput, hInput⟩ := Port.directions_of_feeds hFeeds
  have hpRefers := refers_of_port? hScope hp
  have hqRefers := refers_of_port? hScope hq
  -- the two ports at the ends of the ways inwards from them
  have hUp := leadsTo_bottom hUnique x.source
  have hDown := leadsTo_bottom hUnique x.target
  obtain ⟨a, p', ha, hpDirection, hpType⟩ :=
    exists_code_of_leadsTo hSound hPorts hTypes hUp hpRefers
  obtain ⟨b, q', hb, hqDirection, hqType⟩ :=
    exists_code_of_leadsTo hSound hPorts hTypes hDown hqRefers
  have hEnds := g.ends_eq x
  rw [ends, Prod.mk.injEq, Option.map_eq_some_iff, Option.map_eq_some_iff] at hEnds
  obtain ⟨⟨first, hFirst, hFirstSource⟩, last, hLast, hLastTarget⟩ := hEnds
  -- and their depths
  obtain ⟨n, hn, hnId, -⟩ := hpRefers
  obtain ⟨m, hm, hmId, -⟩ := hqRefers
  obtain ⟨i, hi⟩ := exists_depth? hUnique hn
  obtain ⟨j, hj⟩ := exists_depth? hUnique hm
  rw [hnId] at hi
  rw [hmId] at hj
  have hi' := depth?_of_leadsTo hUnique hUp hi
  have hj' := depth?_of_leadsTo hUnique hDown hj
  rw [← ha.2.1] at hi'
  rw [← hb.2.1] at hj'
  have hFeeds' : p'.feeds q' = true := by
    simp only [Port.feeds, hpDirection, hqDirection, hpType, hqType]
    exact hFeeds
  refine ⟨first, last, a, p', b, q', hFirst, hLast, hFirstSource ▸ ha, hpDirection.trans hOutput,
    hLastTarget ▸ hb, hqDirection.trans hInput, hFeeds', g.meets_segments x,
    i, _, j, _, hi, hi', Nat.le_add_right _ _, hj, hj', Nat.le_add_right _ _, ?_⟩
  rw [length_segments]
  omega

/-- A hall around the line. -/
def hall : Container Node where
  core := NodeCore.of "hall" "Hall" Container.kind .origin
  boundary :=
    { inputs := [⟨Port.of "hall" "in" .input .any, ⟨"source", "source.out"⟩, ⟨"line", "line.in"⟩⟩]
      outputs := [⟨Port.of "hall" "out" .output .any, ⟨"line", "line.out"⟩, ⟨"sink", "sink.in"⟩⟩]
      mappings := ((∅ : StringMap PortMapping).insert "in" ⟨"line", "in"⟩).insert "out"
        ⟨"line", "out"⟩ }
  inside :=
    { nodes := [.graph { line with core := { line.core with parent := some "hall" } }]
      connections := [] }

/-- The plant with the hall in the place of the line. -/
def works : FlowGraph :=
  { plant with
    root :=
      { nodes := [stage "source" none, .graph hall, stage "sink" none]
        connections := [wire "source-hall" "source" "hall" none,
          wire "hall-sink" "hall" "sink" none] } }

theorem works_segments_span :
    works.validate.success = true ∧ ∀ x ∈ works.root.connections,
      ∃ first last a p b q, (works.segments x).head? = some first ∧
        (works.segments x).getLast? = some last ∧ works.RefersTo first.source a p ∧
        works.RefersTo last.target b q ∧ p.feeds q = true ∧
        (works.segments x).IsChain works.Meets := by
  -- the four conditions are decidable and hold of this graph by evaluation
  have hValid : works.validate.success = true := by decide +kernel
  have hSorts : ∀ n ∈ works.allNodes, n.SortsPorts := by decide +kernel
  have hTypes : ∀ c : Container Node, .graph c ∈ works.allNodes → c.KeepsTypes :=
    forall_containers (by decide +kernel)
  have hResolves : ∀ c : Container Node, .graph c ∈ works.allNodes → c.Resolves :=
    forall_containers (by decide +kernel)
  have hScope : works.scope? none = some works.root := rfl
  refine ⟨hValid, fun x hx => ?_⟩
  obtain ⟨first, last, a, p, b, q, hFirst, hLast, ha, -, hb, -, hFeeds, hMeets, -⟩ :=
    segments_span hValid hSorts hTypes hResolves hScope hx
  exact ⟨first, last, a, p, b, q, hFirst, hLast, ha, hb, hFeeds, hMeets⟩

/-- Three scopes are passed on the way from the source to the mill. -/
example : (works.segments (wire "source-hall" "source" "hall" none)).map (·.scope) =
    [none, some "hall", some "line"] := by
  decide +kernel

end FlowGraph

end FlowNest
