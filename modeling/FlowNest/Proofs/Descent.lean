import FlowNest.Proofs.Walks

/-!
# FlowNest — where the ways inwards end

With unique ids each hop of a way inwards leads to a node that stands strictly
deeper, so no way comes back to an endpoint and each goes on until nothing leads
further. What lies at its end is the *bottom* of the endpoint it starts from.
The chain of a connection then reaches from the bottom of its source to the
bottom of its target.

Two graphs of which one has one container more may differ in that a hop of the
one is two hops of the other, by way of that container. The bottoms of all other
endpoints are then the same in both.

* `FlowGraph.bottom_eq_iff`      — the bottom is where `LeadsTo` leads to;
* `FlowGraph.ends_eq`            — the two ends of a connection's chain;
* `FlowGraph.Interposes.bottom`  — one container more changes no bottom.
-/

namespace FlowNest

namespace FlowGraph

/-- The last endpoint on the way inwards from an endpoint. -/
def bottom (g : FlowGraph) (e : Endpoint) : Endpoint :=
  ((g.descend e).getLast?.map Hop.inner).getD e

/-- The first source and the last target of the chain of a connection. -/
def ends (g : FlowGraph) (x : Connection) : Option Endpoint × Option Endpoint :=
  ((g.segments x).head?.map (·.source), (g.segments x).getLast?.map (·.target))

/-- The chain of a connection reaches from the bottom of its source to the bottom of its target.
-/
theorem ends_eq (g : FlowGraph) (x : Connection) :
    g.ends x = (some (g.bottom x.source), some (g.bottom x.target)) := by
  rw [ends, segments]
  refine Prod.ext ?_ ?_
  -- the chain comes up from the source, so its first segment is from the deepest hop
  · show Option.map _ (List.head? _) = some (g.bottom x.source)
    rw [List.head?_mapIdx, List.head?_append, List.head?_map, List.head?_reverse, bottom]
    cases (g.descend x.source).getLast? <;> rfl
  · show Option.map _ (List.getLast? _) = some (g.bottom x.target)
    rw [List.getLast?_mapIdx, List.getLast?_append, List.getLast?_cons, List.getLast?_map, bottom]
    cases (g.descend x.target).getLast? <;> rfl

/-- The ways inwards, without regard to what was visited. -/
inductive LeadsTo (g : FlowGraph) : Endpoint → Endpoint → Prop where
  | stop {e : Endpoint} : g.step? e = none → g.LeadsTo e e
  | hop {e next b : Endpoint} : g.step? e = some next → g.LeadsTo next b → g.LeadsTo e b

/-- A way inwards has one end, as each hop leads to one endpoint. -/
theorem LeadsTo.unique {g : FlowGraph} {e a b : Endpoint} (ha : g.LeadsTo e a)
    (hb : g.LeadsTo e b) : a = b := by
  induction ha with
  | stop hStop =>
    -- the step is a function, so the two ways stop together or go on together
    cases hb with
    | stop _ => rfl
    | hop hStep _ => rw [hStop] at hStep; cases hStep
  | hop hStep _ ih =>
    cases hb with
    | stop hStop => rw [hStep] at hStop; cases hStop
    | hop hStep' hb =>
      rw [hStep] at hStep'
      cases hStep'
      exact ih hb

/-! ## Ways inwards end -/

/-- The number of nodes in the subtree of an id. -/
def weight (g : FlowGraph) (id : String) : Nat :=
  match g.find? id with
  | none => 0
  | some n => n.preorder.length

variable {g k : FlowGraph}

/-- With unique ids, hops are those of the containers in the graph. -/
theorem step?_eq_some_iff (hUnique : g.UniqueIds) {e next : Endpoint} :
    g.step? e = some next ↔
      ∃ c, .graph c ∈ g.allNodes ∧ c.core.id = e.node ∧ c.lead? e.port = some next := by
  rw [step?_eq, Option.bind_eq_some_iff]
  constructor
  · rintro ⟨n, hn, hLead⟩
    -- a code node leads nowhere
    cases n with
    | code _ => cases hLead
    | graph c =>
      obtain ⟨hMem, hId⟩ := (find?_eq_some_iff hUnique).1 hn
      exact ⟨c, hMem, hId, hLead⟩
  · rintro ⟨c, hMem, hId, hLead⟩
    exact ⟨.graph c, (find?_eq_some_iff hUnique).2 ⟨hMem, hId⟩, hLead⟩

/-- With unique ids, a hop from a node leads where the node leads. -/
theorem step?_eq_lead? (hUnique : g.UniqueIds) {n : Node} (hn : n ∈ g.allNodes)
    (portId : String) : g.step? ⟨n.id, portId⟩ = n.lead? portId := by
  rw [step?_eq, (find?_eq_some_iff hUnique).2 ⟨hn, rfl⟩]
  rfl

/-- Where nothing leads further there are no hops. -/
theorem descendFrom_of_stop {visited : List Endpoint} {e : Endpoint} (h : g.step? e = none) :
    g.descendFrom visited e = [] := by
  rw [descendFrom]
  split
  · rfl
  · next hStep => rw [h] at hStep; cases hStep

/-- Where a hop leads further it is the first one, and the others follow unless its end was
visited. -/
theorem descendFrom_of_step? {visited : List Endpoint} {e next : Endpoint}
    (h : g.step? e = some next) :
    g.descendFrom visited e =
      ⟨e, next⟩ :: if next ∈ visited then [] else g.descendFrom (next :: visited) next := by
  rw [descendFrom.eq_def g visited e]
  split
  · next hStop => rw [h] at hStop; cases hStop
  · next next' hStep => rw [Option.some.inj (h.symm.trans hStep)]

/-- A hop leads to a node of the graph. -/
theorem mem_allNodes_of_step? (hUnique : g.UniqueIds) {e next : Endpoint}
    (h : g.step? e = some next) : ∃ n ∈ g.allNodes, n.id = next.node := by
  obtain ⟨c, hc, -, hLead⟩ := (step?_eq_some_iff hUnique).1 h
  obtain ⟨n, hn, hId, -⟩ := Container.exists_of_lead? hLead
  exact ⟨n, mem_allNodes_of_mem_inside hc hn, hId⟩

/-- A hop leads into the subtree that it starts from, and below its root. -/
theorem weight_lt_of_step? (hUnique : g.UniqueIds) {e next : Endpoint}
    (h : g.step? e = some next) : g.weight next.node < g.weight e.node := by
  obtain ⟨c, hc, hId, hLead⟩ := (step?_eq_some_iff hUnique).1 h
  obtain ⟨n, hn, hnId, -⟩ := Container.exists_of_lead? hLead
  have hChild : g.find? next.node = some n :=
    (find?_eq_some_iff hUnique).2 ⟨mem_allNodes_of_mem_inside hc hn, hnId⟩
  have hParent : g.find? e.node = some (.graph c) := (find?_eq_some_iff hUnique).2 ⟨hc, hId⟩
  rw [weight, weight, hChild, hParent]
  exact Container.length_preorder_lt hn

/-- Hops end where those after the first one end, or else where the first one leads. -/
theorem last_cons (hop : Hop) (hops : List Hop) (e : Endpoint) :
    ((hop :: hops).getLast?.map Hop.inner).getD e =
      (hops.getLast?.map Hop.inner).getD hop.inner := by
  rw [List.getLast?_cons]
  cases hops.getLast? <;> rfl

/-- The guard against coming back never cuts a way short: what has been visited
is not deeper than the endpoint at hand, and the next one is. -/
theorem leadsTo_descendFrom (hUnique : g.UniqueIds) (visited : List Endpoint) (e : Endpoint)
    (hVisited : ∀ v ∈ visited, g.weight e.node ≤ g.weight v.node) :
    g.LeadsTo e (((g.descendFrom visited e).getLast?.map Hop.inner).getD e) := by
  fun_induction descendFrom g visited e with
  | case1 visited e hStep => exact .stop hStep
  | case2 visited e next hStep ih =>
    have hLt := weight_lt_of_step? hUnique hStep
    -- so the guard lets the way go on
    have hNew : next ∉ visited := by
      intro hMem
      have := hVisited next hMem
      omega
    have hRest := ih hNew <| by
      intro v hv
      rcases List.mem_cons.1 hv with rfl | hv
      · exact Nat.le_refl _
      · have := hVisited v hv
        omega
    refine .hop hStep ?_
    rw [if_neg hNew, last_cons]
    exact hRest

/-- A way inwards leads to its bottom. -/
theorem leadsTo_bottom (hUnique : g.UniqueIds) (e : Endpoint) : g.LeadsTo e (g.bottom e) :=
  leadsTo_descendFrom hUnique [e] e (by simp)

/-- The bottom of an endpoint is where the way inwards leads to. -/
theorem bottom_eq_iff (hUnique : g.UniqueIds) {e b : Endpoint} :
    g.bottom e = b ↔ g.LeadsTo e b :=
  ⟨fun h => h ▸ leadsTo_bottom hUnique e, fun h => (leadsTo_bottom hUnique e).unique h⟩

/-- A hop does not change the bottom. -/
theorem bottom_of_step? (hUnique : g.UniqueIds) {e next : Endpoint}
    (h : g.step? e = some next) : g.bottom e = g.bottom next :=
  (bottom_eq_iff hUnique).2 (.hop h (leadsTo_bottom hUnique next))

/-! ## One container more -/

/-- `k` has a container `c` more than `g`, through which some of the hops of `g`
lead. -/
structure Interposes (g k : FlowGraph) (c : String) : Prop where
  stop {e : Endpoint} (hNode : e.node ≠ c) : g.step? e = none → k.step? e = none
  away {e next : Endpoint} : g.step? e = some next → next.node ≠ c
  hop {e next : Endpoint} (hNode : e.node ≠ c) : g.step? e = some next →
    k.step? e = some next ∨ ∃ mid, k.step? e = some mid ∧ k.step? mid = some next

/-- With one container more, a way that does not start there leads to where it led. -/
theorem Interposes.leadsTo {c : String} (h : g.Interposes k c) {e b : Endpoint}
    (hWay : g.LeadsTo e b) (hNode : e.node ≠ c) : k.LeadsTo e b := by
  induction hWay with
  | stop hStop => exact .stop (h.stop hNode hStop)
  | hop hStep _ ih =>
    have hRest := ih (h.away hStep)
    -- a hop is kept, or becomes one in and one out
    rcases h.hop hNode hStep with hSame | ⟨mid, hIn, hOut⟩
    · exact .hop hSame hRest
    · exact .hop hIn (.hop hOut hRest)

/-- One container more changes no bottom but those of its own endpoints. -/
theorem Interposes.bottom {c : String} (h : g.Interposes k c) (hg : g.UniqueIds)
    (hk : k.UniqueIds) {e : Endpoint} (hNode : e.node ≠ c) : k.bottom e = g.bottom e :=
  (bottom_eq_iff hk).2 (h.leadsTo (leadsTo_bottom hg e) hNode)

end FlowGraph

/-- `m` leads to where `n` leads to, some of it by way of the container `c`. -/
def Node.PassesThrough (n m : Node) (c : Container Node) : Prop :=
  ∀ portId, (n.lead? portId = none → m.lead? portId = none) ∧
    ∀ e, n.lead? portId = some e → m.lead? portId = some e ∨
      ∃ own, m.lead? portId = some ⟨c.core.id, own⟩ ∧ c.lead? own = some e

/-- A node with the same outline leads to the same, without any way round. -/
theorem Node.passesThrough_of_outline {n m : Node} (h : n.outline = m.outline)
    (c : Container Node) : n.PassesThrough m c := by
  intro portId
  rw [lead?_congr h]
  exact ⟨fun h => h, fun e h => .inl h⟩

/-- A container is interposed where each node has a counterpart that passes
through it. -/
theorem FlowGraph.interposes_of_counterparts {g k : FlowGraph} {c : Container Node}
    (hg : g.UniqueIds) (hk : k.UniqueIds)
    (hEnters : ∀ portId, k.step? ⟨c.core.id, portId⟩ = c.lead? portId)
    (hNew : ∀ n ∈ g.allNodes, n.id ≠ c.core.id)
    (hForth : ∀ n ∈ g.allNodes, ∃ m ∈ k.allNodes, m.id = n.id ∧ n.PassesThrough m c)
    (hBack : ∀ m ∈ k.allNodes, m.id ≠ c.core.id → ∃ n ∈ g.allNodes, n.id = m.id) :
    g.Interposes k c.core.id where
  stop := by
    intro e hNode hStop
    cases hFind : k.find? e.node with
    | none => rw [step?_eq, hFind]; rfl
    | some m =>
      obtain ⟨hm, hmId⟩ := (find?_eq_some_iff hk).1 hFind
      -- the node has a counterpart that stops there
      obtain ⟨n, hn, hnId⟩ := hBack m hm (hmId ▸ hNode)
      obtain ⟨m', hm', hId, hPass⟩ := hForth n hn
      obtain rfl : m' = m := hk.eq_of_id_eq hm' hm (hId.trans hnId)
      have hLead : n.lead? e.port = none := by
        rw [← step?_eq_lead? hg hn, hnId, hmId]
        exact hStop
      rw [step?_eq, hFind]
      exact (hPass e.port).1 hLead
  away := by
    intro e next hStep
    obtain ⟨n, hn, hId⟩ := mem_allNodes_of_step? hg hStep
    exact hId ▸ hNew n hn
  hop := by
    intro e next hNode hStep
    obtain ⟨a, ha, haId, hLead⟩ := (step?_eq_some_iff hg).1 hStep
    obtain ⟨m, hm, hmId, hPass⟩ := hForth _ ha
    have hk_step : k.step? e = m.lead? e.port := by
      rw [← step?_eq_lead? hk hm, hmId, show (Node.graph a).id = e.node from haId]
    rcases (hPass e.port).2 next hLead with hSame | ⟨own, hIn, hOut⟩
    · exact .inl (hk_step.trans hSame)
    · exact .inr ⟨_, hk_step.trans hIn, (hEnters own).trans hOut⟩

end FlowNest
