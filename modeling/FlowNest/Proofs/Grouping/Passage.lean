import FlowNest.Proofs.Grouping.Expand
import FlowNest.Proofs.Grouping.Routing

/-!
# FlowNest — what an enclosing container leads to

When nodes are grouped inside a container, or a container inside of it is
ungrouped, the container leads to the same endpoints as before: what went through
the inner container goes there directly without it, and the other way round.

* `Container.passesThrough_collapse` — after grouping;
* `Container.passesThrough_expand`   — before ungrouping.
-/

namespace FlowNest

namespace Container

variable {e e' c : Container Node} {m : PortMapping} {d : Direction}

/-- What holds between what each port of a boundary is aimed at and what it is aimed
at when the boundary is rerouted holds between what the containers lead to. -/
theorem lead?_of_rerouted
    {Led : BoundaryPort → Option PortMapping → Option PortMapping → BoundaryPort → Prop}
    {R : Option Endpoint → Option Endpoint → Prop}
    (h : Boundary.Rerouted Led e.boundary e'.boundary) (hNone : R none none)
    (hPort : ∀ p ∈ e.boundary.ports, ∀ p' before after,
      e.boundary.mappings[p.port.name]? = before → Led p before after p' →
        R (before.bind (e.aim? · p.port.direction)) (after.bind (e'.aim? · p.port.direction)))
    (portId : String) : R (e.lead? portId) (e'.lead? portId) := by
  -- a port is found by its id in both boundaries, or in neither
  have hFind := find?_of_forall₂ (f := (·.port.id = portId)) (k := (·.port.id = portId)) h.ports
    fun p p' hLed => by rw [hLed.1]
  rw [lead?_eq, lead?_eq, boundaryPort?, boundaryPort?]
  rcases hFind with ⟨hNothing, hNothing'⟩ | ⟨p, p', hp, hp', hSame, hLed⟩
  · rw [hNothing, hNothing']
    exact hNone
  · rw [hp, hp', Option.bind_some, Option.bind_some, hSame]
    exact hPort p (List.mem_of_find?_eq_some hp) p' _ _ rfl hLed

/-- What led to `before` leads to `after` now: to the same, or to a port of `c` that
leads there. -/
def Passed (c : Container Node) (before after : Option Endpoint) : Prop :=
  (before = none → after = none) ∧ ∀ x, before = some x → after = some x ∨
    ∃ own, after = some ⟨c.core.id, own⟩ ∧ c.lead? own = some x

theorem Passed.refl (c : Container Node) (x : Option Endpoint) : c.Passed x x :=
  ⟨fun h => h, fun _ h => .inl h⟩

theorem Passed.own {x : Endpoint} {portId : String} (h : c.lead? portId = some x) :
    c.Passed (some x) (some ⟨c.core.id, portId⟩) := by
  refine ⟨fun hNone => (Option.some_ne_none _ hNone).elim, ?_⟩
  intro y hy
  obtain rfl := Option.some.inj hy
  exact .inr ⟨portId, rfl, h⟩

/-! ## Grouping -/

/-- What is aimed at inside the new container was aimed at before. -/
theorem aim?_of_takes {ids : List String} (hs : e.inside.Tidy) (hTakes : c.Takes e.inside ids)
    {x : Endpoint} (hAim : c.aim? m d = some x) :
    e.aim? m d = some x := by
  obtain ⟨p, hPort, hMapping, hDirection⟩ :=
    (aim?_eq_some_iff (hTakes.tidy_inside hs)).mp hAim
  rw [hTakes.port?_inside hs] at hPort
  exact (aim?_eq_some_iff hs).mpr ⟨p, hPort.2, hMapping, hDirection⟩

section Collapse

variable {ids : List String} (hs : e.inside.Tidy) (hTakes : c.Takes e.inside ids)
  (hMade : c.boundary.Made c.core.id) (hNew : ∀ n ∈ e.inside.nodes, n.id ≠ c.core.id)
  (hInside : e'.inside = e.inside.collapse ids c)

include hs hTakes hMade hNew hInside

/-- What is aimed at a node that stays is aimed there still. -/
theorem aim?_collapse (hStays : m.child ∉ ids) (hOther : m.child ≠ c.core.id) :
    e'.aim? m d = e.aim? m d := by
  have hTidy := hs.collapse hTakes (tidyPorts_of_made hMade) hNew
  ext x
  rw [aim?_eq_some_iff (hInside ▸ hTidy), aim?_eq_some_iff hs]
  refine exists_congr fun p => ?_
  rw [hInside, hs.port?_collapse hTakes (tidyPorts_of_made hMade) hNew]
  -- the mapping leads to a child that is neither taken nor the new container, so to one that is
  -- still there
  constructor
  · rintro ⟨⟨-, hPort⟩ | ⟨hOwn, -⟩, rfl, hDirection⟩
    · exact ⟨hPort, rfl, hDirection⟩
    · exact absurd hOwn hOther
  · rintro ⟨hPort, rfl, hDirection⟩
    exact ⟨.inl ⟨hStays, hPort⟩, rfl, hDirection⟩

/-- The new container is aimed at by the names of its ports. -/
theorem aim?_collapse_own {own : BoundaryPort} (hOwn : own ∈ c.boundary.side d) :
    e'.aim? ⟨c.core.id, own.port.name⟩ d = some ⟨c.core.id, own.port.id⟩ := by
  have hTidy := hs.collapse hTakes (tidyPorts_of_made hMade) hNew
  rw [aim?_eq_some_iff (hInside ▸ hTidy)]
  refine ⟨own.port, ?_, rfl, hMade.sides d own hOwn⟩
  rw [hInside, hs.port?_collapse hTakes (tidyPorts_of_made hMade) hNew]
  refine .inr ⟨rfl, ?_, rfl⟩
  rw [ports_graph]
  exact List.mem_map_of_mem (Boundary.mem_ports_iff.mpr ⟨d, hOwn⟩)

theorem passesThrough_collapse (hFaithful : c.boundary.Faithful c.inside)
    (hUnmapped : ∀ (name : String) (m : PortMapping), e.boundary.mappings[name]? = some m →
      m.child ≠ c.core.id)
    (hLed : Boundary.Rerouted (c.LedThrough ids c.boundary) e.boundary e'.boundary) :
    (Node.graph e).PassesThrough (.graph e') c := by
  have hPassed : ∀ portId, c.Passed (e.lead? portId) (e'.lead? portId) := by
    refine lead?_of_rerouted hLed (.refl c none) ?_
    intro p hp p' before after hMapping hWay
    cases hWay with
    | away hAway =>
      have hSame : before.bind (e'.aim? · p.port.direction) =
          before.bind (e.aim? · p.port.direction) := by
        cases before with
        | none => rfl
        | some m =>
          exact aim?_collapse hs hTakes hMade hNew hInside (hAway m rfl) (hUnmapped _ m hMapping)
      rw [hSame]
      exact .refl c _
    | @through m own _ hOwn hAim =>
      have hBoundary : own ∈ c.boundary.ports := Boundary.mem_ports_iff.mpr ⟨_, hOwn⟩
      have hBefore := aim?_of_takes hs hTakes hAim
      have hAfter := aim?_collapse_own hs hTakes hMade hNew hInside hOwn
      rw [Option.bind_some, Option.bind_some, hBefore, hAfter]
      -- the port of the new container leads on to where the mapping led
      exact .own (lead?_of_faithful (tidyPorts_of_made hMade) (hTakes.tidy_inside hs) hFaithful
        hBoundary)
  exact hPassed

end Collapse

/-! ## Ungrouping -/

section Expand

variable {scope : ScopeId} (hUnique : ((Forest.preorder e.inside.nodes).map (·.id)).Nodup)
  (hc : .graph c ∈ e.inside.nodes) (hs : e.inside.Tidy) (hcs : c.inside.Tidy)
  (hInside : e'.inside = e.inside.expand c scope)

include hUnique hc hs hcs hInside

/-- What is aimed beside the container is aimed there still. -/
theorem aim?_expand {x : Endpoint} (hOther : m.child ≠ c.core.id) (hAim : e.aim? m d = some x) :
    e'.aim? m d = some x := by
  obtain ⟨p, hPort, rfl, hDirection⟩ := (aim?_eq_some_iff hs).mp hAim
  have hTidy : (e.inside.expand c scope).Tidy := Scope.tidy_expand hUnique hc hs hcs
  refine (aim?_eq_some_iff (hInside ▸ hTidy)).mpr ⟨p, ?_, rfl, hDirection⟩
  rw [hInside, Scope.port?_expand hUnique hc hs hcs]
  exact .inr ⟨hOther, hPort⟩

/-- What the container leads to can be aimed at without it. -/
theorem aim?_expand_inside {n : Node} {q : Port} {portId : String} {own : BoundaryPort}
    (hOwn : c.boundaryPort? portId = some own) (hResolve : c.resolve? portId = some (n, q)) :
    e'.aim? ⟨n.id, q.name⟩ own.port.direction = some ⟨n.id, q.id⟩ := by
  obtain ⟨hPort, hDirection⟩ := port?_of_resolve? hcs hOwn hResolve
  have hTidy : (e.inside.expand c scope).Tidy := Scope.tidy_expand hUnique hc hs hcs
  refine (aim?_eq_some_iff (hInside ▸ hTidy)).mpr ⟨q, ?_, rfl, hDirection⟩
  rw [hInside, Scope.port?_expand hUnique hc hs hcs]
  exact .inl hPort

omit hUnique hcs hInside in
/-- A port of the container that is aimed at is found by its name. -/
theorem exists_own_of_aim? {x : Endpoint} (hOwn : m.child = c.core.id)
    (hAim : e.aim? m d = some x) :
    ∃ own ∈ c.boundary.ports, own.port.direction = d ∧ x = ⟨c.core.id, own.port.id⟩ ∧
      c.boundary.ports.find? (·.port.name = m.portName) = some own := by
  obtain ⟨p, hPort, rfl, hDirection⟩ := (aim?_eq_some_iff hs).mp hAim
  obtain ⟨own, hMem, rfl, hEnd⟩ := exists_own hs hc hOwn hPort
  exact ⟨own, hMem, hDirection, hEnd, find?_named (hs.ports _ hc) hMem⟩

omit hUnique hcs hInside in
/-- What is not led around the container does not lead to it. -/
theorem child_ne_of_past {x : Endpoint}
    (hLeads : ∀ own ∈ c.boundary.ports, (c.resolve? own.port.id).isSome)
    (hAim : e.aim? m d = some x) (hPast : c.further? m = none) : m.child ≠ c.core.id := by
  intro hOwn
  obtain ⟨own, hMem, -, -, hFind⟩ := exists_own_of_aim? hc hs hOwn hAim
  have hSome := hLeads own hMem
  rw [← further?_of_own hOwn hFind, hPast] at hSome
  cases hSome

omit hUnique hcs hInside in
/-- What is led around the container has led to one of its ports. -/
theorem exists_own_of_further? {x : Endpoint} {n : Node} {q : Port} (hAim : e.aim? m d = some x)
    (hFurther : c.further? m = some (n, q)) :
    ∃ own ∈ c.boundary.ports, own.port.direction = d ∧ x = ⟨c.core.id, own.port.id⟩ ∧
      c.resolve? own.port.id = some (n, q) := by
  have hOwn : m.child = c.core.id := by
    by_contra hOther
    rw [further?, if_neg hOther] at hFurther
    cases hFurther
  obtain ⟨own, hMem, hDirection, hEnd, hFind⟩ := exists_own_of_aim? hc hs hOwn hAim
  rw [further?_of_own hOwn hFind] at hFurther
  exact ⟨own, hMem, hDirection, hEnd, hFurther⟩

/-- The container leads to what the ports led through it are led to without it. -/
theorem passesThrough_expand
    (hMapped : ∀ p ∈ e.boundary.ports, ∀ m : PortMapping,
      e.boundary.mappings[p.port.name]? = some m → (e.aim? m p.port.direction).isSome)
    (hLeads : ∀ own ∈ c.boundary.ports, (c.resolve? own.port.id).isSome)
    (hLed : Boundary.Rerouted c.LedAround e.boundary e'.boundary) :
    (Node.graph e').PassesThrough (.graph e) c := by
  have hPassed : ∀ portId, c.Passed (e'.lead? portId) (e.lead? portId) := by
    refine lead?_of_rerouted (R := fun x y => c.Passed y x) hLed (.refl c none) ?_
    intro p hp p' before after hMapping hWay
    cases hWay with
    | past hPast =>
      cases before with
      | none => exact .refl c none
      | some m =>
        obtain ⟨x, hAim⟩ := Option.isSome_iff_exists.mp (hMapped p hp m hMapping)
        have hOther := child_ne_of_past hc hs hLeads hAim (hPast m rfl)
        have hAfter := aim?_expand hUnique hc hs hcs hInside hOther hAim
        rw [Option.bind_some, Option.bind_some, hAim, hAfter]
        exact .refl c _
    | @around m child q hFurther =>
      obtain ⟨x, hAim⟩ := Option.isSome_iff_exists.mp (hMapped p hp m hMapping)
      obtain ⟨own, hMem, hDirection, rfl, hResolve⟩ := exists_own_of_further? hc hs hAim hFurther
      have hBoundary : c.boundaryPort? own.port.id = some own :=
        (boundaryPort?_eq_some_iff (hs.ports _ hc)).mpr ⟨hMem, rfl⟩
      have hInner := aim?_expand_inside hUnique hc hs hcs hInside hBoundary hResolve
      rw [hDirection] at hInner
      rw [Option.bind_some, Option.bind_some, hAim, hInner]
      -- before, the port went on from the container to that very child port
      refine .own ?_
      rw [lead?, hResolve]
      rfl
  exact hPassed

end Expand

end Container

end FlowNest
