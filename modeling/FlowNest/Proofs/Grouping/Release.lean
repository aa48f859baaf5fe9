import FlowNest.Proofs.Grouping.Expand

/-!
# FlowNest — what becomes of a scope without a container

A container may come from anywhere: its ports may be mapped to nothing, its mappings may
lead to nodes or ports that are not there, and ids may repeat. Ungrouping takes it as it
is. A connection at one of its ports goes on to the child port behind it, and one that has
nothing behind it at one of its ends goes altogether.

* `Container.Leads`, `Container.Blind` — what is behind a port of the container: a child
  port, or nothing, for one of four reasons;
* `Scope.Opens`, `Scope.Releases`      — what becomes of one node, and of one connection;
* `Scope.expand_releases`              — what becomes of the scope.
-/

namespace FlowNest

/-- The first of the list with the property. -/
def FirstWith {α : Type} (P : α → Prop) (l : List α) (a : α) : Prop :=
  P a ∧ ∃ before after, l = before ++ a :: after ∧ ∀ b ∈ before, ¬ P b

/-- A search finds the first element with the property. -/
theorem find?_eq_some_iff_firstWith {α : Type} {P : α → Prop} [DecidablePred P] {l : List α}
    {a : α} : l.find? (P ·) = some a ↔ FirstWith P l a := by
  rw [List.find?_eq_some_iff_append, FirstWith]
  simp only [decide_eq_true_eq, Bool.not_eq_true', decide_eq_false_iff_not]

/-- A search finds nothing exactly when no element has the property. -/
theorem find?_eq_none_iff_forall {α : Type} {P : α → Prop} [DecidablePred P] {l : List α} :
    l.find? (P ·) = none ↔ ∀ a ∈ l, ¬ P a := by
  rw [List.find?_eq_none]
  simp only [decide_eq_true_eq]

/-! ## Behind a port -/

namespace Container

/-- The boundary port with the id is mapped to a child, which has a port of the mapped name
in the boundary port's direction. Where ports or nodes share an id or a name, the first
counts. -/
inductive Leads (c : Container Node) (portId : String) : Endpoint → Prop
  | intro {p : BoundaryPort} {m : PortMapping} {child : Node} {q : Port}
      (hPort : FirstWith (·.port.id = portId) c.boundary.ports p)
      (hMapping : c.boundary.mappings[p.port.name]? = some m)
      (hChild : FirstWith (·.id = m.child) c.inside.nodes child)
      (hInner : FirstWith (·.name = m.portName) (child.portsOf p.port.direction) q) :
      Leads c portId ⟨child.id, q.id⟩

/-- The id is that of no boundary port, of one that is not mapped, of one mapped to no
child, or of one mapped to a child without a port of the name in its direction. -/
inductive Blind (c : Container Node) (portId : String) : Prop
  | noPort (hNone : ∀ p ∈ c.boundary.ports, p.port.id ≠ portId)
  | unmapped {p : BoundaryPort}
      (hPort : FirstWith (·.port.id = portId) c.boundary.ports p)
      (hNone : c.boundary.mappings[p.port.name]? = none)
  | noChild {p : BoundaryPort} {m : PortMapping}
      (hPort : FirstWith (·.port.id = portId) c.boundary.ports p)
      (hMapping : c.boundary.mappings[p.port.name]? = some m)
      (hNone : ∀ n ∈ c.inside.nodes, n.id ≠ m.child)
  | noInner {p : BoundaryPort} {m : PortMapping} {child : Node}
      (hPort : FirstWith (·.port.id = portId) c.boundary.ports p)
      (hMapping : c.boundary.mappings[p.port.name]? = some m)
      (hChild : FirstWith (·.id = m.child) c.inside.nodes child)
      (hNone : ∀ q ∈ child.portsOf p.port.direction, q.name ≠ m.portName)

variable {c : Container Node} {portId : String}

/-- A port leads to the port of a child that the mapping under its name names. -/
theorem lead?_eq_some_iff {e : Endpoint} : c.lead? portId = some e ↔ c.Leads portId e := by
  constructor
  · intro h
    obtain ⟨⟨child, q⟩, hResolve, rfl⟩ := Option.map_eq_some_iff.mp h
    -- the four searches have all found something
    obtain ⟨p, hPort, hResolve⟩ := Option.bind_eq_some_iff.mp hResolve
    obtain ⟨m, hMapping, hTarget⟩ := Option.bind_eq_some_iff.mp hResolve
    obtain ⟨child', hChild, hTarget⟩ := Option.bind_eq_some_iff.mp hTarget
    obtain ⟨q', hInner, hTarget⟩ := Option.bind_eq_some_iff.mp hTarget
    cases hTarget
    rw [Node.portNamed?_eq] at hInner
    exact .intro (find?_eq_some_iff_firstWith.mp hPort) hMapping
      (find?_eq_some_iff_firstWith.mp hChild) (find?_eq_some_iff_firstWith.mp hInner)
  · rintro ⟨hPort, hMapping, hChild, hInner⟩
    have hPort := find?_eq_some_iff_firstWith.mpr hPort
    have hChild := find?_eq_some_iff_firstWith.mpr hChild
    have hInner := find?_eq_some_iff_firstWith.mpr hInner
    rw [← Node.portNamed?_eq] at hInner
    rw [lead?, resolve?, boundaryPort?, hPort, Option.bind_eq_bind, Option.bind_some, hMapping,
      Option.bind_eq_bind, Option.bind_some, target?, Scope.node?, hChild, Option.bind_eq_bind,
      Option.bind_some, hInner]
    rfl

/-- A port leads nowhere for one of four reasons: it is unknown, it has no mapping, the child of
that mapping is gone, or the port of that child is. -/
theorem lead?_eq_none_iff : c.lead? portId = none ↔ c.Blind portId := by
  constructor
  · intro hLead
    -- one of the four searches finds nothing, and those before it do
    cases hPort : c.boundaryPort? portId with
    | none => exact .noPort (find?_eq_none_iff_forall.mp hPort)
    | some p =>
      have hFirst := find?_eq_some_iff_firstWith.mp hPort
      cases hMapping : c.boundary.mappings[p.port.name]? with
      | none => exact .unmapped hFirst hMapping
      | some m =>
        cases hChild : c.inside.node? m.child with
        | none => exact .noChild hFirst hMapping (find?_eq_none_iff_forall.mp hChild)
        | some child =>
          refine .noInner hFirst hMapping (find?_eq_some_iff_firstWith.mp hChild) ?_
          refine find?_eq_none_iff_forall.mp ?_
          by_contra hInner
          obtain ⟨q, hInner⟩ := Option.ne_none_iff_exists'.mp hInner
          have hLeads : c.lead? portId = some ⟨child.id, q.id⟩ :=
            lead?_eq_some_iff.mpr (.intro hFirst hMapping (find?_eq_some_iff_firstWith.mp hChild)
              (find?_eq_some_iff_firstWith.mp hInner))
          rw [hLead] at hLeads
          cases hLeads
  · intro hBlind
    rw [lead?_eq, boundaryPort?]
    cases hBlind with
    | noPort hNone => rw [find?_eq_none_iff_forall.mpr hNone, Option.bind_none]
    | unmapped hPort hNone =>
      rw [find?_eq_some_iff_firstWith.mpr hPort, Option.bind_some, hNone, Option.bind_none]
    | noChild hPort hMapping hNone =>
      rw [find?_eq_some_iff_firstWith.mpr hPort, Option.bind_some, hMapping, Option.bind_some,
        aim?, target?, Scope.node?, find?_eq_none_iff_forall.mpr hNone]
      rfl
    | @noInner p m child hPort hMapping hChild hNone =>
      have hInner := find?_eq_none_iff_forall.mpr hNone
      rw [← Node.portNamed?_eq] at hInner
      rw [find?_eq_some_iff_firstWith.mpr hPort, Option.bind_some, hMapping, Option.bind_some,
        aim?, target?, Scope.node?, find?_eq_some_iff_firstWith.mpr hChild, Option.bind_eq_bind,
        Option.bind_some, hInner]
      rfl

end Container

/-! ## The scope -/

namespace Scope

variable {c : Container Node} {x : Connection} {scope : ScopeId}

/-- The end is at a port of the container behind which there is nothing. -/
def Stuck (c : Container Node) (e : Endpoint) : Prop :=
  e.node = c.core.id ∧ c.Blind e.port

/-- The second end is where the first is without the container: at the child port behind
it, if the first is at the container, and otherwise at the same port. -/
def Freed (c : Container Node) (e e' : Endpoint) : Prop :=
  (e.node = c.core.id → c.Leads e.port e') ∧ (e.node ≠ c.core.id → e' = e)

/-- What becomes of a connection of the scope: it goes when one of its ends is stuck, and
otherwise both are freed, and nothing else of it changes. -/
structure Releases (c : Container Node) (x : Connection) (outcome : Option Connection) : Prop where
  apart : x.source.node ≠ c.core.id → x.target.node ≠ c.core.id → outcome = some x
  dropped : outcome = none ↔ Stuck c x.source ∨ Stuck c x.target
  kept : ∀ y ∈ outcome, Freed c x.source y.source ∧ Freed c x.target y.target ∧
    y = { x with source := y.source, target := y.target }

/-- The second node is the first with another parent. -/
structure Adopted (parent : ScopeId) (n m : Node) : Prop where
  core : m.core = { n.core with parent }
  rest : m.withCore n.core = n

/-- What stands in the place of a node: the children of the container, if the node has its
id, and otherwise the node as it was. -/
structure Opens (c : Container Node) (scope : ScopeId) (n : Node) (block : List Node) : Prop where
  own : n.id = c.core.id → List.Forall₂ (Adopted scope) c.inside.nodes block
  other : n.id ≠ c.core.id → block = [n]

/-- An end is lost exactly when it is on the container and nothing is behind it. -/
theorem throughMapping?_eq_none_iff {e : Endpoint} :
    throughMapping? c e = none ↔ Stuck c e := by
  rw [throughMapping?_eq, Stuck, ← Container.lead?_eq_none_iff]
  split
  · next hAt => simp [hAt]
  · next hApart => simp [hApart]

/-- An end that is not lost goes to what is behind it, or stays where it is. -/
theorem throughMapping?_eq_some_iff {e e' : Endpoint} :
    throughMapping? c e = some e' ↔ Freed c e e' := by
  rw [throughMapping?_eq, Freed]
  split
  · next hAt => simp [hAt, Container.lead?_eq_some_iff]
  · next hApart => simp [hApart, eq_comm]

/-- A connection is lost exactly when one of its ends is. -/
theorem restore?_eq_none_iff :
    restore? c x = none ↔ Stuck c x.source ∨ Stuck c x.target := by
  rw [← throughMapping?_eq_none_iff, ← throughMapping?_eq_none_iff, restore?]
  cases throughMapping? c x.source with
  | none => simp
  | some source => cases throughMapping? c x.target <;> simp

/-- What becomes of a connection is what `Releases` says. -/
theorem releases_restore? (c : Container Node) (x : Connection) : Releases c x (restore? c x) where
  apart := by
    intro hSource hTarget
    rw [restore?, throughMapping?_eq, throughMapping?_eq, if_neg hSource, if_neg hTarget]
    rfl
  dropped := restore?_eq_none_iff
  kept := by
    intro y hy
    obtain ⟨source, target, hSource, hTarget, rfl⟩ := restore?_eq_some_iff.mp hy
    exact ⟨throughMapping?_eq_some_iff.mp hSource, throughMapping?_eq_some_iff.mp hTarget, rfl⟩

/-- A child that comes out of a container gets another parent, and nothing else. -/
theorem adopted_withParent (parent : ScopeId) (n : Node) :
    Adopted parent n (n.withParent parent) where
  core := n.core_withCore _
  rest := by rw [Node.withParent, Node.withCore_withCore, Node.withCore_core]

/-- In the place of the container stand its children; all other nodes stay. -/
theorem opens_block (c : Container Node) (scope : ScopeId) (n : Node) :
    Opens c scope n
      (if n.id = c.core.id then c.inside.nodes.map (·.withParent scope) else [n]) where
  own := by
    intro hId
    rw [if_pos hId, List.forall₂_map_right_iff, List.forall₂_same]
    exact fun child _ => adopted_withParent scope child
  other := by
    intro hId
    rw [if_neg hId]

/-- Without the container, each node with its id gives way to the container's children, and
each connection at one of its ports to what the port leads to, if it leads anywhere; behind
these are the connections inside, in the scope. -/
theorem expand_releases (s : Scope Node) (c : Container Node) (scope : ScopeId) :
    (∃ blocks, List.Forall₂ (Opens c scope) s.nodes blocks ∧
      (s.expand c scope).nodes = blocks.flatten) ∧
      ∃ outcomes, List.Forall₂ (Releases c) s.connections outcomes ∧
        (s.expand c scope).connections =
          outcomes.reduceOption ++ c.inside.connections.map fun x => { x with scope } := by
  -- each node and each connection is dealt with on its own, so the lists are related one by one
  constructor
  · refine ⟨_, ?_, List.flatMap_def⟩
    rw [List.forall₂_map_right_iff, List.forall₂_same]
    exact fun n _ => opens_block c scope n
  · refine ⟨s.connections.map (restore? c), ?_, ?_⟩
    · rw [List.forall₂_map_right_iff, List.forall₂_same]
      exact fun x _ => releases_restore? c x
    · show _ = (s.connections.map (restore? c)).filterMap id ++ _
      rw [List.filterMap_map]
      rfl

end Scope

end FlowNest
