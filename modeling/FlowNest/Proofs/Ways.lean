import Mathlib.Data.List.Dedup
import FlowNest.Proofs.Chains

/-!
# FlowNest — ways inwards in any graph

Where ids repeat, a way inwards may lead back up, and no depth bounds it. What bounds it are
the endpoints that were visited: none is passed twice, so there are no more hops than
endpoints in the graph, and the last hop of a way that is cut short leads to one that was
passed. Where ids are unique no way is cut short.

The segments of a connection are the hops of two such ways and the connection between them.

* `FlowGraph.way`               — the endpoints on a way inwards;
* `FlowGraph.nodup_way`         — only the last of them may repeat;
* `FlowGraph.length_descend_le` — the bound on the hops;
* `FlowGraph.cutShort_iff`      — a way is cut short, or ends where nothing leads further;
* `FlowGraph.Crosses`           — what a hop is;
* `FlowGraph.segments_connect`  — the segments of a connection in any graph.
-/

namespace FlowNest

namespace FlowGraph

variable {g : FlowGraph}

/-! ## The endpoints on a way -/

/-- The endpoints on the way inwards from an endpoint, which is the first of them. -/
def way (g : FlowGraph) (e : Endpoint) : List Endpoint :=
  e :: (g.descend e).map Hop.inner

/-- The way ends at an endpoint that it has passed. -/
def CutShort (g : FlowGraph) (e : Endpoint) : Prop :=
  g.bottom e ∈ (g.way e).dropLast

instance (g : FlowGraph) (e : Endpoint) : Decidable (g.CutShort e) :=
  inferInstanceAs (Decidable (_ ∈ _))

theorem dropLast_way (visited : List Endpoint) (e : Endpoint) :
    (e :: (g.descendFrom visited e).map Hop.inner).dropLast =
      (g.descendFrom visited e).map Hop.outer := by
  fun_induction descendFrom g visited e with
  | case1 visited e hStop => rfl
  | case2 visited e next hStep ih =>
    split
    · rfl
    · next hNew =>
      rw [List.map_cons, List.map_cons, List.dropLast_cons_of_ne_nil (List.cons_ne_nil _ _),
        ih hNew]

/-- Hops start at different endpoints, and only the first at one visited before. -/
theorem nodup_outer_descendFrom {visited : List Endpoint} {e : Endpoint} (he : e ∈ visited) :
    ((g.descendFrom visited e).map Hop.outer).Nodup ∧
      ∀ hop ∈ g.descendFrom visited e, hop.outer = e ∨ hop.outer ∉ visited := by
  fun_induction descendFrom g visited e with
  | case1 visited e hStop => exact ⟨.nil, fun hop hHop => absurd hHop List.not_mem_nil⟩
  | case2 visited e next hStep ih =>
    split
    · refine ⟨List.nodup_singleton _, fun hop hHop => ?_⟩
      rw [List.mem_singleton.mp hHop]
      exact .inl rfl
    · next hNew =>
      obtain ⟨hNodup, hFresh⟩ := ih hNew List.mem_cons_self
      -- a later hop starts at the next endpoint, or at one that is newer still
      have hLater : ∀ hop ∈ g.descendFrom (next :: visited) next, hop.outer ∉ visited := by
        intro hop hHop
        rcases hFresh hop hHop with hSame | hNot
        · rwa [hSame]
        · exact fun hMem => hNot (List.mem_cons_of_mem _ hMem)
      refine ⟨?_, fun hop hHop => ?_⟩
      · rw [List.map_cons, List.nodup_cons]
        refine ⟨fun hMem => ?_, hNodup⟩
        obtain ⟨hop, hHop, hSame⟩ := List.mem_map.mp hMem
        exact hLater hop hHop (hSame ▸ he)
      · rcases List.mem_cons.mp hHop with rfl | hHop
        · exact .inl rfl
        · exact .inr (hLater hop hHop)

/-- Only the last endpoint of a way may be one that was passed before. -/
theorem nodup_way (g : FlowGraph) (e : Endpoint) : (g.way e).dropLast.Nodup := by
  rw [way, descend, dropLast_way]
  exact (nodup_outer_descendFrom (List.mem_singleton_self e)).1

/-- Data that enters a container does so at an endpoint of the graph. -/
theorem entry_mem_endpoints {e next : Endpoint} (h : g.step? e = some next) :
    e ∈ g.endpoints := by
  obtain ⟨c, hc, hId, p, hp, hPort⟩ := exists_boundary_of_step? h
  refine List.mem_flatMap.mpr ⟨.graph c, hc, List.mem_map.mpr ⟨p.port, ?_, ?_⟩⟩
  · rw [Container.ports_graph]
    exact List.mem_map_of_mem hp
  · rw [hPort, show (Node.graph c).id = e.node from hId]

/-- A way has no more hops than the graph has endpoints. -/
theorem length_descend_le (g : FlowGraph) (e : Endpoint) :
    (g.descend e).length ≤ g.endpoints.dedup.length := by
  -- hops start at different endpoints, all of them ports of containers
  have hOuter := (nodup_outer_descendFrom (g := g) (List.mem_singleton_self e)).1
  have hSubset : (g.descend e).map Hop.outer ⊆ g.endpoints.dedup := by
    intro outer hMem
    obtain ⟨hop, hHop, rfl⟩ := List.mem_map.mp hMem
    exact List.mem_dedup.mpr (entry_mem_endpoints (step?_of_mem_descendFrom hHop))
  have hLength := (List.subperm_of_subset hOuter hSubset).length_le
  rwa [List.length_map] at hLength

/-! ## Where a way ends -/

theorem mem_outer_descendFrom {e : Endpoint} (h : (g.step? e).isSome) (visited : List Endpoint) :
    e ∈ (g.descendFrom visited e).map Hop.outer := by
  obtain ⟨next, hStep⟩ := Option.isSome_iff_exists.mp h
  rw [descendFrom_of_step? hStep]
  exact List.mem_cons_self

/-- A way that could go on from its last endpoint has passed it, or it was visited before. -/
theorem last_mem_of_isSome_step? {visited : List Endpoint} {e b : Endpoint}
    (hLast : ((g.descendFrom visited e).getLast?.map Hop.inner).getD e = b)
    (h : (g.step? b).isSome) :
    b ∈ (g.descendFrom visited e).map Hop.outer ∨ b ∈ visited := by
  fun_induction descendFrom g visited e with
  | case1 visited e hStop =>
    obtain rfl : e = b := hLast
    rw [hStop] at h
    cases h
  | case2 visited e next hStep ih =>
    split at hLast
    -- the guard stops at an endpoint that was visited
    · next hMem =>
      obtain rfl : next = b := hLast
      exact .inr hMem
    · next hNew =>
      rw [last_cons] at hLast
      rw [if_neg hNew, List.map_cons]
      rcases ih hNew hLast with hMem | hMem
      · exact .inl (List.mem_cons_of_mem _ hMem)
      · rcases List.mem_cons.mp hMem with rfl | hMem
        · exact .inl (List.mem_cons_of_mem _ (mem_outer_descendFrom h _))
        · exact .inr hMem

/-- A way is cut short exactly if it could go on, so any other ends where nothing leads
further. -/
theorem cutShort_iff {e : Endpoint} : g.CutShort e ↔ (g.step? (g.bottom e)).isSome := by
  rw [CutShort, way, descend, dropLast_way]
  constructor
  · -- where a hop has started, another one could
    intro hMem
    obtain ⟨hop, hHop, hOuter⟩ := List.mem_map.mp hMem
    rw [← hOuter, step?_of_mem_descendFrom hHop]
    rfl
  · intro h
    rcases last_mem_of_isSome_step? rfl h with hMem | hMem
    · exact hMem
    · -- the way has come back to its start
      have hStart : g.bottom e = e := List.mem_singleton.mp hMem
      rw [hStart] at h ⊢
      exact mem_outer_descendFrom h _

theorem LeadsTo.stops {e b : Endpoint} (h : g.LeadsTo e b) : g.step? b = none := by
  induction h with
  | stop hStop => exact hStop
  | hop _ _ ih => exact ih

/-- No way is cut short where ids are unique. -/
theorem UniqueIds.not_cutShort (hUnique : g.UniqueIds) (e : Endpoint) : ¬ g.CutShort e := by
  rw [cutShort_iff, (leadsTo_bottom hUnique e).stops]
  exact Bool.false_ne_true

/-! ## Segments -/

/-- Data crosses the boundary of a container, in the scope of which it is seen there: from a
port on it to the child port that this is mapped to. -/
def Crosses (g : FlowGraph) (scope : ScopeId) (outer inner : Endpoint) : Prop :=
  ∃ c child port, g.container? outer.node = some c ∧ c.core.id = outer.node ∧
    scope = some c.core.id ∧ (∃ own ∈ c.boundary.ports, own.port.id = outer.port) ∧
    c.resolve? outer.port = some (child, port) ∧ inner = ⟨child.id, port.id⟩

theorem crosses_of_step? {e next : Endpoint} (h : g.step? e = some next) :
    g.Crosses (some e.node) e next := by
  simp only [step?, Option.bind_eq_bind, Option.bind_eq_some_iff, Option.pure_def,
    Option.some.injEq] at h
  obtain ⟨c, hc, ⟨child, port⟩, hResolve, rfl⟩ := h
  have hId : c.core.id = e.node := Forest.id_of_find? (container?_eq_find?.mp hc)
  obtain ⟨own, hOwn, -⟩ := Option.bind_eq_some_iff.mp hResolve
  have hPort : own.port.id = e.port := by simpa using List.find?_some hOwn
  exact ⟨c, child, port, hc, hId, congrArg some hId.symm,
    ⟨own, List.mem_of_find?_eq_some hOwn, hPort⟩, hResolve, rfl⟩

/-- Each hop on a way inwards, with the container it enters as its scope, crosses there. -/
theorem crosses_of_mem_map {e : Endpoint} {hops : List Hop} (hHops : hops ⊆ g.descend e)
    {hop : Hop} {scope : ScopeId}
    (h : (hop, scope) ∈ hops.map fun hop => (hop, some hop.outer.node)) :
    g.Crosses scope hop.outer hop.inner := by
  obtain ⟨own, hOwn, hSame⟩ := List.mem_map.mp h
  obtain ⟨rfl, rfl⟩ := Prod.mk.inj hSame
  exact crosses_of_step? (step?_of_mem_descendFrom (hHops hOwn))

/-- What does not depend on the numbers is read off the elements. -/
theorem map_mapIdx_of_const {α β γ : Type} {f : Nat → α → β} {k : β → γ} {c : α → γ}
    (h : ∀ i a, k (f i a) = c a) (l : List α) : (l.mapIdx f).map k = l.map c := by
  refine List.ext_getElem (by simp) fun i hi hi' => ?_
  rw [List.getElem_map, List.getElem_mapIdx, List.getElem_map, h]

/-- The chain of a connection: the hops down to its source, backwards, the connection itself
and the hops down to its target. -/
theorem exists_split_segments (g : FlowGraph) (x : Connection) :
    ∃ up own down, g.segments x = up ++ own :: down ∧
      (own.source = x.source ∧ own.target = x.target ∧ own.scope = x.scope) ∧
      up.map (fun s => (Hop.mk s.target s.source, s.scope)) =
        (g.descend x.source).reverse.map (fun hop => (hop, some hop.outer.node)) ∧
      down.map (fun s => (Hop.mk s.source s.target, s.scope)) =
        (g.descend x.target).map fun hop => (hop, some hop.outer.node) := by
  rw [segments, List.mapIdx_append, List.mapIdx_cons]
  -- the three parts are numbered on, which their ends and scopes do not show
  refine ⟨_, _, _, rfl, ⟨rfl, rfl, rfl⟩, ?_, ?_⟩
  · rw [map_mapIdx_of_const (c := fun y => (Hop.mk y.2.1 y.1, y.2.2)) fun _ _ => rfl,
      List.map_map]
    rfl
  · rw [map_mapIdx_of_const (c := fun y => (Hop.mk y.1 y.2.1, y.2.2)) fun _ _ => rfl,
      List.map_map]
    rfl

/-- The segments of a connection in any graph. One of them carries the ends and the scope of
the connection. Those before it cross boundaries from the inside, those after it from the
outside, as the ways inwards from the two ends do. Each starts where the one before it ends,
and they are numbered.

A way inwards passes no endpoint twice but for its last, which bounds it by the endpoints of
the graph. It is cut short if it could go on, and never where ids are unique. -/
theorem segments_connect (g : FlowGraph) (x : Connection) :
    (∃ up own down, g.segments x = up ++ own :: down ∧
      (own.source = x.source ∧ own.target = x.target ∧ own.scope = x.scope) ∧
      up.map (fun s => Hop.mk s.target s.source) = (g.descend x.source).reverse ∧
      down.map (fun s => Hop.mk s.source s.target) = g.descend x.target ∧
      (∀ s ∈ up, g.Crosses s.scope s.target s.source) ∧
      ∀ s ∈ down, g.Crosses s.scope s.source s.target) ∧
    (g.segments x).IsChain (fun a b => a.target = b.source) ∧
    (∀ (i : Nat) (s : Segment), (g.segments x)[i]? = some s →
      s.id = x.id ++ "#" ++ toString i ∧ s.connection = x.id) ∧
    ∀ e, (g.way e).dropLast.Nodup ∧ (g.descend e).length ≤ g.endpoints.dedup.length ∧
      (g.CutShort e ↔ (g.step? (g.bottom e)).isSome) ∧ (g.CutShort e → ¬ g.UniqueIds) := by
  refine ⟨?_, ?_, ?_, fun e => ?_⟩
  · obtain ⟨up, own, down, hSplit, hOwn, hUp, hDown⟩ := g.exists_split_segments x
    refine ⟨up, own, down, hSplit, hOwn, ?_, ?_, fun s hs => ?_, fun s hs => ?_⟩
    · simpa [Function.comp_def] using congrArg (List.map Prod.fst) hUp
    · simpa [Function.comp_def] using congrArg (List.map Prod.fst) hDown
    · have hMem := List.mem_map_of_mem (f := fun s => (Hop.mk s.target s.source, s.scope)) hs
      rw [hUp] at hMem
      exact crosses_of_mem_map (List.reverse_subset.mpr (List.Subset.refl _)) hMem
    · have hMem := List.mem_map_of_mem (f := fun s => (Hop.mk s.source s.target, s.scope)) hs
      rw [hDown] at hMem
      exact crosses_of_mem_map (List.Subset.refl _) hMem
  · -- neighbours meet at a boundary, so at one endpoint
    exact (g.meets_segments x).imp fun _ _ h => h.1
  · intro i s hs
    rw [segments, List.getElem?_mapIdx] at hs
    obtain ⟨y, -, rfl⟩ := Option.map_eq_some_iff.mp hs
    exact ⟨rfl, rfl⟩
  · exact ⟨g.nodup_way e, g.length_descend_le e, cutShort_iff, fun h hUnique =>
      hUnique.not_cutShort e h⟩

/-- A container around a stage of its own id. Its output is mapped to that of the stage, so the
way inwards from there comes back at once. -/
def echo : FlowGraph :=
  { plant with
    root :=
      { nodes := [.graph
          { core := NodeCore.of "echo" "Echo" Container.kind .origin
            boundary :=
              { inputs := []
                outputs :=
                  [⟨Port.of "echo" "out" .output .any, ⟨"echo", "echo.out"⟩, ⟨"sink", "sink.in"⟩⟩]
                mappings := (∅ : StringMap PortMapping).insert "out" ⟨"echo", "out"⟩ }
            inside := { nodes := [stage "echo" (some "echo")], connections := [] } },
          stage "sink" none]
        connections := [wire "echo-sink" "echo" "sink" none] } }

theorem echo_segments_connect :
    echo.CutShort ⟨"echo", "echo.out"⟩ ∧ ¬ echo.UniqueIds ∧
      (echo.segments (wire "echo-sink" "echo" "sink" none)).map (·.scope) =
        [some "echo", none] := by
  have hCut : echo.CutShort ⟨"echo", "echo.out"⟩ := by decide +kernel
  obtain ⟨-, -, -, hWays⟩ := segments_connect echo (wire "echo-sink" "echo" "sink" none)
  obtain ⟨-, -, -, hRepeats⟩ := hWays ⟨"echo", "echo.out"⟩
  exact ⟨hCut, hRepeats hCut, by decide +kernel⟩

end FlowGraph

end FlowNest
