import FlowNest.Grouping.Enclosing
import FlowNest.Proofs.Grouping.Crossing

/-!
# FlowNest — boundaries led through a container and around it

The ports of an enclosing boundary are taken one after the other, each in the
state that those before it have left. A step changes the mapping of its own port
at most, and the names of the ports are different, so each port finds its mapping
as it was before all steps and leaves it as it is after all.

* `PassLaw.run`                      — from one step to all ports of a list;
* `Container.routeThrough_spec`      — how ports are led through a new container;
* `Container.routeAround_spec`       — and how around one that goes.
-/

namespace FlowNest

/-! ## Taking ports in turn -/

/-- The ports of a list are taken in turn, and the state is passed along. -/
inductive Passes {σ : Type} (step : σ → BoundaryPort → σ → BoundaryPort → Prop) :
    σ → List BoundaryPort → σ → List BoundaryPort → Prop where
  | nil {s : σ} : Passes step s [] s []
  | cons {s t u : σ} {p p' : BoundaryPort} {ps ps' : List BoundaryPort} :
      step s p t p' → Passes step t ps u ps' → Passes step s (p :: ps) u (p' :: ps')

section Passes

variable {σ : Type} {step : σ → BoundaryPort → σ → BoundaryPort → Prop}
  {s t u : σ} {ps ps' qs qs' : List BoundaryPort}

/-- Ports are taken in turn on one side, and then on the other. -/
theorem Passes.append (h : Passes step s ps t ps') (k : Passes step t qs u qs') :
    Passes step s (ps ++ qs) u (ps' ++ qs') := by
  induction h with
  | nil => exact k
  | cons hStep _ ih => exact .cons hStep (ih k)

/-- A pass that succeeds has taken each port by a step that succeeds. -/
theorem passes_of_passPorts_eq_ok {ε : Type} {f : σ → BoundaryPort → Except ε (σ × BoundaryPort)}
    (h : passPorts f s ps = .ok (t, ps')) :
    Passes (fun s p t p' => f s p = .ok (t, p')) s ps t ps' := by
  induction ps generalizing s ps' with
  | nil => cases h; exact .nil
  | cons p rest ih =>
    obtain ⟨⟨r, p'⟩, hStep, h⟩ := bind_eq_ok.mp h
    obtain ⟨⟨r', rest'⟩, hRest, h⟩ := bind_eq_ok.mp h
    cases h
    exact .cons hStep (ih hRest)

/-- A pass that cannot fail takes each port by a step. -/
theorem passes_passPorts (f : σ → BoundaryPort → σ × BoundaryPort) (s : σ)
    (ps : List BoundaryPort) :
    Passes (fun s p t p' => f s p = (t, p')) s ps (passPorts (m := Id) f s ps).1
      (passPorts (m := Id) f s ps).2 := by
  induction ps generalizing s with
  | nil => exact .nil
  | cons p rest ih => exact .cons rfl (ih (f s p).1)

/-- What a step does to the mappings that its states hold. `Led s p before after p'`
says how a port `p` mapped to `before` has become `p'` mapped to `after`, where the
state by then is `s`. -/
structure PassLaw (step : σ → BoundaryPort → σ → BoundaryPort → Prop)
    (mappings : σ → StringMap PortMapping) (Inv : σ → Prop)
    (Led : σ → BoundaryPort → Option PortMapping → Option PortMapping → BoundaryPort → Prop) :
    Prop where
  inv {s t : σ} {p p' : BoundaryPort} : Inv s → step s p t p' → Inv t
  others {s t : σ} {p p' : BoundaryPort} {name : String} : Inv s → step s p t p' →
    name ≠ p.port.name → (mappings t)[name]? = (mappings s)[name]?
  port {s : σ} {p p' : BoundaryPort} {before after : Option PortMapping} :
    Led s p before after p' → p'.port = p.port
  led {s t : σ} {p p' : BoundaryPort} : Inv s → step s p t p' →
    Led t p (mappings s)[p.port.name]? (mappings t)[p.port.name]? p'
  later {s t : σ} {p p' q q' : BoundaryPort} {before after : Option PortMapping} :
    Inv s → step s p t p' → Led s q before after q' → Led t q before after q'

namespace PassLaw

variable {mappings : σ → StringMap PortMapping} {Inv : σ → Prop}
  {Led : σ → BoundaryPort → Option PortMapping → Option PortMapping → BoundaryPort → Prop}

/-- What each step keeps is kept through a pass. -/
theorem run_inv (law : PassLaw step mappings Inv Led) (h : Passes step s ps t ps') (hs : Inv s) :
    Inv t := by
  induction h with
  | nil => exact hs
  | cons hStep _ ih => exact ih (law.inv hs hStep)

/-- How a port was led stays true through the rest of the pass. -/
theorem run_later (law : PassLaw step mappings Inv Led) (h : Passes step s ps t ps') (hs : Inv s)
    {q q' : BoundaryPort} {before after : Option PortMapping} (hLed : Led s q before after q') :
    Led t q before after q' := by
  induction h with
  | nil => exact hLed
  | cons hStep _ ih => exact ih (law.inv hs hStep) (law.later hs hStep hLed)

/-- A pass leaves the mappings alone that are of none of its ports. -/
theorem run_others (law : PassLaw step mappings Inv Led) (h : Passes step s ps t ps') (hs : Inv s)
    {name : String} (hName : name ∉ ps.map (·.port.name)) :
    (mappings t)[name]? = (mappings s)[name]? := by
  induction h with
  | nil => rfl
  | cons hStep _ ih =>
    rw [List.map_cons, List.mem_cons, not_or] at hName
    exact (ih (law.inv hs hStep) hName.2).trans (law.others hs hStep hName.1)

/-- Ports with different names are each led as if they were taken alone. -/
theorem run (law : PassLaw step mappings Inv Led) (h : Passes step s ps t ps') (hs : Inv s)
    (hNames : (ps.map (·.port.name)).Nodup) :
    List.Forall₂
      (fun p p' => Led t p (mappings s)[p.port.name]? (mappings t)[p.port.name]? p') ps ps' := by
  induction h with
  | nil => exact .nil
  | @cons s t u p p' rest rest' hStep hRest ih =>
    rw [List.map_cons, List.nodup_cons] at hNames
    have ht := law.inv hs hStep
    refine .cons ?_ ?_
    · rw [law.run_others hRest ht hNames.1]
      exact law.run_later hRest ht (law.led hs hStep)
    · -- the step has not touched the mappings of the ports behind it
      have hSame : ∀ q ∈ rest, (mappings t)[q.port.name]? = (mappings s)[q.port.name]? := by
        intro q hq
        refine law.others hs hStep ?_
        intro hName
        exact hNames.1 (hName ▸ List.mem_map_of_mem hq)
      refine ((List.forall₂_and_left _ _).mpr ⟨hSame, ih ht hNames.2⟩).imp ?_
      rintro q q' ⟨hMapping, hLed⟩
      rwa [hMapping] at hLed

end PassLaw

end Passes

/-! ## Boundaries with their ports led elsewhere -/

/-- `b'` has the ports of `b`, each led in one of the ways of `Led`, and maps all
other names as `b` does. -/
structure Boundary.Rerouted
    (Led : BoundaryPort → Option PortMapping → Option PortMapping → BoundaryPort → Prop)
    (b b' : Boundary) : Prop where
  sides : ∀ d, List.Forall₂
    (fun p p' => p'.port = p.port ∧ Led p b.mappings[p.port.name]? b'.mappings[p.port.name]? p')
    (b.side d) (b'.side d)
  others : ∀ name, name ∉ b.names → b'.mappings[name]? = b.mappings[name]?

/-- Inputs are taken before outputs, which makes one pass over all ports. -/
theorem PassLaw.rerouted {σ : Type} {step : σ → BoundaryPort → σ → BoundaryPort → Prop}
    {mappings : σ → StringMap PortMapping} {Inv : σ → Prop}
    {Led : σ → BoundaryPort → Option PortMapping → Option PortMapping → BoundaryPort → Prop}
    (law : PassLaw step mappings Inv Led) {s t u : σ} {b : Boundary}
    {inputs outputs : List BoundaryPort} (hIn : Passes step s b.inputs t inputs)
    (hOut : Passes step t b.outputs u outputs) (hs : Inv s) (hStart : mappings s = b.mappings)
    (hNames : b.names.Nodup) : Boundary.Rerouted (Led u) b ⟨inputs, outputs, mappings u⟩ := by
  -- both sides are one pass over all boundary ports, split again by their number
  have hPass : Passes step s b.ports u (inputs ++ outputs) := hIn.append hOut
  have hInputs : inputs.length = b.inputs.length := (law.run hIn hs ?_).length_eq.symm
  · have hAll := (law.run hPass hs hNames).imp fun p p' hLed => And.intro (law.port hLed) hLed
    rw [hStart] at hAll
    constructor
    · intro d
      cases d with
      | input =>
        have hTake := List.forall₂_take b.inputs.length hAll
        rwa [Boundary.ports, List.take_left, ← hInputs, List.take_left] at hTake
      | output =>
        have hDrop := List.forall₂_drop b.inputs.length hAll
        rwa [Boundary.ports, List.drop_left, ← hInputs, List.drop_left] at hDrop
    · intro name hName
      rw [← hStart]
      exact law.run_others hPass hs hName
  · rw [Boundary.names, Boundary.ports, List.map_append] at hNames
    exact (List.nodup_append.mp hNames).1

namespace Boundary

variable {b b' : Boundary}
  {Led : BoundaryPort → Option PortMapping → Option PortMapping → BoundaryPort → Prop}

/-- Ports that are led in one way are led in any way that follows from it. -/
theorem Rerouted.imp
    {Led' : BoundaryPort → Option PortMapping → Option PortMapping → BoundaryPort → Prop}
    (hLed : ∀ p before after p', Led p before after p' → Led' p before after p')
    (h : Rerouted Led b b') : Rerouted Led' b b' where
  sides d := (h.sides d).imp fun _ _ hp => ⟨hp.1, hLed _ _ _ _ hp.2⟩
  others := h.others

/-- On each side the ports themselves stay. -/
theorem Rerouted.map_port_side (h : Rerouted Led b b') (d : Direction) :
    (b'.side d).map (·.port) = (b.side d).map (·.port) :=
  map_eq_of_forall₂ (h.sides d) fun _ _ hLed => hLed.1

/-- All ports stay themselves, and each is led. -/
theorem Rerouted.ports (h : Rerouted Led b b') : List.Forall₂
    (fun p p' => p'.port = p.port ∧ Led p b.mappings[p.port.name]? b'.mappings[p.port.name]? p')
    b.ports b'.ports :=
  List.rel_append (h.sides .input) (h.sides .output)

/-- The names stay. -/
theorem Rerouted.names (h : Rerouted Led b b') : b'.names = b.names :=
  map_eq_of_forall₂ h.ports fun _ _ hLed => congrArg Port.name hLed.1

/-- Where each port that was led elsewhere is led back, the boundary is as it was. -/
theorem Rerouted.undo {b'' : Boundary}
    {Led' : BoundaryPort → Option PortMapping → Option PortMapping → BoundaryPort → Prop}
    (h : Rerouted Led b b') (h' : Rerouted Led' b' b'')
    (hUndo : ∀ p ∈ b.ports, ∀ p' p'' mid after, p'.port = p.port →
      Led p b.mappings[p.port.name]? mid p' → Led' p' mid after p'' →
        after = b.mappings[p.port.name]? ∧ p'' = p) : b'' = b := by
  have hBack : ∀ d, (∀ p ∈ b.side d, b''.mappings[p.port.name]? = b.mappings[p.port.name]?) ∧
      List.Forall₂ (fun p p'' => p = p'') (b.side d) (b''.side d) := by
    intro d
    have hMem : ∀ p ∈ b.side d, p ∈ b.ports := fun p hp => mem_ports_iff.mpr ⟨d, hp⟩
    have hBoth := forall₂_trans (h.sides d) (h'.sides d)
    refine (List.forall₂_and_left _ _).mp (((List.forall₂_and_left _ _).mpr ⟨hMem, hBoth⟩).imp ?_)
    rintro p p'' ⟨hp, p', ⟨hPort, hThere⟩, -, hBack⟩
    rw [hPort] at hBack
    obtain ⟨hMapping, hSame⟩ := hUndo p hp p' p'' _ _ hPort hThere hBack
    exact ⟨hMapping, hSame.symm⟩
  have hSide : ∀ d, b''.side d = b.side d := by
    intro d
    have hEq := (hBack d).2
    rw [List.forall₂_eq_eq_eq] at hEq
    exact hEq.symm
  have hMappings : b''.mappings = b.mappings := by
    refine Std.ExtTreeMap.ext_getElem? fun name => ?_
    by_cases hName : name ∈ b.names
    · obtain ⟨p, hp, rfl⟩ := List.mem_map.mp hName
      obtain ⟨d, hd⟩ := mem_ports_iff.mp hp
      exact (hBack d).1 p hd
    · -- neither rerouting maps names that no port has
      rw [h'.others name (h.names ▸ hName), h.others name hName]
  have hIn : b''.inputs = b.inputs := hSide .input
  have hOut : b''.outputs = b.outputs := hSide .output
  show Boundary.mk b''.inputs b''.outputs b''.mappings = ⟨b.inputs, b.outputs, b.mappings⟩
  rw [hIn, hOut, hMappings]

end Boundary

/-! ## Through a new container -/

namespace Container

variable {c : Container Node}

/-- How a port `p` of an enclosing container may be led when the nodes of the ids
have moved into `c`: it stays as it is if it leads to none of them, and otherwise
goes to a port of the boundary `b` of `c` that leads where it led. -/
inductive LedThrough (c : Container Node) (ids : List String) (b : Boundary)
    (p : BoundaryPort) : Option PortMapping → Option PortMapping → BoundaryPort → Prop where
  | away {before : Option PortMapping} (hAway : ∀ m, before = some m → m.child ∉ ids) :
      LedThrough c ids b p before before p
  | through {m : PortMapping} {own : BoundaryPort} (hIds : m.child ∈ ids)
      (hOwn : own ∈ b.side p.port.direction)
      (hAim : c.aim? m p.port.direction = some own.inner) :
      LedThrough c ids b p (some m) (some ⟨c.core.id, own.port.name⟩)
        (p.withInner ⟨c.core.id, own.port.id⟩)

/-- The new boundary in the course of the rerouting, which began with `start`. -/
structure Serves (c : Container Node) (start b : Boundary) : Prop where
  made : b.Made c.core.id
  faithful : b.Faithful c.inside
  grows : start.Grows b

/-- The port to lead to is one of the container's for the same child port, or it is built
and added. -/
theorem portTo_cases {b b' : Boundary} {d : Direction} {q inner : Port} {outer : Endpoint}
    (h : c.portTo b d q outer = .ok (b', inner)) :
    (∃ own ∈ b.side d, own.inner = q.endpoint ∧ own.port = inner ∧ b' = b) ∨
      ∃ own, b.bridge c.core.id d q q.endpoint outer = .ok own ∧ own.port = inner ∧
        b' = b.add own q.name := by
  rw [portTo] at h
  -- a port that stands for the inner end already is used again
  split at h
  · next own hOwn =>
    cases h
    have hInner : own.inner = q.endpoint := by simpa using List.find?_some hOwn
    exact .inl ⟨own, List.mem_of_find?_eq_some hOwn, hInner, rfl, rfl⟩
  · obtain ⟨own, hBridge, h⟩ := bind_eq_ok.mp h
    cases h
    exact .inr ⟨own, hBridge, rfl, rfl⟩

/-- Whatever is inside, there is a port to lead to, perhaps a new one. -/
theorem portTo_eq_ok {b b' : Boundary} {d : Direction} {q inner : Port} {outer : Endpoint}
    (hMade : b.Made c.core.id) (h : c.portTo b d q outer = .ok (b', inner)) :
    b'.Made c.core.id ∧ b.Grows b' ∧
      ∃ own ∈ b'.side d, own.inner = q.endpoint ∧ own.port = inner := by
  rcases portTo_cases h with ⟨own, hOwn, hInner, rfl, rfl⟩ | ⟨own, hBridge, rfl, rfl⟩
  -- a port made for a crossing serves here
  · exact ⟨hMade, .refl b', own, hOwn, hInner, rfl⟩
  -- a new one bridges from the child port to the enclosing boundary
  · obtain ⟨hPort, hInner⟩ := Boundary.bridge_eq_ok hBridge
    refine ⟨hMade.add_bridge hBridge, Boundary.grows_add b own q.name, own, ?_, hInner, rfl⟩
    have hMem := Boundary.mem_side_add b own q.name
    rwa [show own.port.direction = d by rw [hPort]; rfl] at hMem

/-- A port to lead to a child port is mapped to that child port. -/
theorem Serves.portTo {start b b' : Boundary} {d : Direction} {q inner : Port} {outer : Endpoint}
    (hb : c.Serves start b) (hq : c.inside.port? q.endpoint = some q) (hDirection : q.direction = d)
    (h : c.portTo b d q outer = .ok (b', inner)) : c.Serves start b' := by
  obtain ⟨hMade, hGrows, -⟩ := portTo_eq_ok hb.made h
  refine ⟨hMade, ?_, hb.grows.trans hGrows⟩
  rcases portTo_cases h with ⟨own, -, -, -, rfl⟩ | ⟨own, hBridge, -, rfl⟩
  · exact hb.faithful
  · exact hb.faithful.add_bridge hBridge hq hDirection

/-- A port that leads to none of the nodes taken in is left as it is. Another one leads to a
port inside of the container, and is turned to one of the container's ports for it. -/
theorem throughStep_cases {enclosing : String} {ids : List String} {r r' : Rerouting}
    {p p' : BoundaryPort} (h : c.throughStep enclosing ids r p = .ok (r', p')) :
    ((∀ m, r.mappings[p.port.name]? = some m → m.child ∉ ids) ∧ r' = r ∧ p' = p) ∨
      ∃ m n q b inner, r.mappings[p.port.name]? = some m ∧ m.child ∈ ids ∧
        c.target? m p.port.direction = some (n, q) ∧
        c.portTo r.boundary p.port.direction q ⟨enclosing, p.port.id⟩ = .ok (b, inner) ∧
        r' = ⟨b, r.mappings.insert p.port.name ⟨c.core.id, inner.name⟩⟩ ∧
        p' = p.withInner ⟨c.core.id, inner.id⟩ := by
  rw [throughStep] at h
  -- a port whose mapping leads past the selection, or that has none, is passed over
  split at h
  · next hNone =>
    cases h
    refine .inl ⟨?_, rfl, rfl⟩
    intro m hm
    rw [hNone] at hm
    cases hm
  · next m hm =>
    split at h
    · next hAway =>
      cases h
      refine .inl ⟨?_, rfl, rfl⟩
      intro m' hm'
      cases hm.symm.trans hm'
      exact hAway
    · next hIds =>
      split at h
      · cases h
      · next n q hTarget =>
        split at h
        · cases h
        · next b inner hPortTo =>
          cases h
          exact .inr ⟨m, n, q, b, inner, hm, not_not.mp hIds, hTarget, hPortTo, rfl, rfl⟩

/-- A step through the new container leads one port: the container still serves, its boundary has
grown, and no other mapping changes. -/
theorem throughStep_eq_ok {start : Boundary} {enclosing : String} {ids : List String}
    {r r' : Rerouting} {p p' : BoundaryPort} (hInside : c.inside.Tidy)
    (hr : c.Serves start r.boundary) (h : c.throughStep enclosing ids r p = .ok (r', p')) :
    c.Serves start r'.boundary ∧ r.boundary.Grows r'.boundary ∧
      (∀ name, name ≠ p.port.name → r'.mappings[name]? = r.mappings[name]?) ∧
      c.LedThrough ids r'.boundary p r.mappings[p.port.name]? r'.mappings[p.port.name]? p' := by
  rcases throughStep_cases h with
    ⟨hAway, rfl, rfl⟩ | ⟨m, n, q, b, inner, hm, hIds, hTarget, hPortTo, rfl, rfl⟩
  · exact ⟨hr, .refl _, fun _ _ => rfl, .away hAway⟩
  · -- the mapping led to a child port of the new container
    obtain ⟨hq, -, hDirection⟩ := port?_of_target? hInside hTarget
    have hEndpoint := hInside.endpoint_of_port? hq
    have hAim : c.aim? m p.port.direction = some q.endpoint := by
      rw [aim?, hTarget, hEndpoint]
      rfl
    obtain ⟨-, hGrows, own, hOwn, hInner, rfl⟩ := portTo_eq_ok hr.made hPortTo
    refine ⟨hr.portTo (hEndpoint ▸ hq) hDirection hPortTo, hGrows, ?_, ?_⟩
    · intro name hName
      rw [Std.ExtTreeMap.getElem?_insert, if_neg (by simpa using hName.symm)]
    · rw [hm, Std.ExtTreeMap.getElem?_insert_self]
      exact .through hIds hOwn (hInner ▸ hAim)

/-- So ports that are led through a container follow the law of a pass. -/
theorem throughLaw (hInside : c.inside.Tidy) (start : Boundary) (enclosing : String)
    (ids : List String) :
    PassLaw (fun r p r' p' => c.throughStep enclosing ids r p = .ok (r', p')) Rerouting.mappings
      (fun r => c.Serves start r.boundary) (fun r => c.LedThrough ids r.boundary) where
  inv hr h := (throughStep_eq_ok hInside hr h).1
  others hr h := (throughStep_eq_ok hInside hr h).2.2.1 _
  port hLed := by
    cases hLed with
    | away _ => rfl
    | through _ _ _ => simp
  led hr h := (throughStep_eq_ok hInside hr h).2.2.2
  later := by
    intro r r' p p' q q' before after hr h hLed
    -- ports that were led to stay while others are added
    have hGrows := (throughStep_eq_ok hInside hr h).2.1
    cases hLed with
    | away hAway => exact .away hAway
    | through hIds hOwn hAim => exact .through hIds (hGrows _ _ hOwn) hAim

/-- The container with the boundary leads to the same, so ports are led through it
in the same ways. -/
theorem LedThrough.withBoundary {ids : List String} {b b' : Boundary} {p p' : BoundaryPort}
    {before after : Option PortMapping} (h : c.LedThrough ids b p before after p') :
    ({ c with boundary := b' } : Container Node).LedThrough ids b p before after p' := by
  cases h with
  | away hAway => exact .away hAway
  | through hIds hOwn hAim => exact .through hIds hOwn hAim

/-- The new container gets the ports it needs for those of the enclosing one, which
are led through it. -/
theorem routeThrough_spec {e c' : Container Node} {ids : List String} {outside : Boundary}
    (hNames : e.boundary.names.Nodup) (hInside : c.inside.Tidy)
    (hMade : c.boundary.Made c.core.id) (hFaithful : c.boundary.Faithful c.inside)
    (h : e.routeThrough c ids = .ok (c', outside)) :
    c'.core = c.core ∧ c'.inside = c.inside ∧ c.Serves c.boundary c'.boundary ∧
      Boundary.Rerouted (c'.LedThrough ids c'.boundary) e.boundary outside := by
  obtain ⟨⟨r, inputs⟩, hIn, h⟩ := bind_eq_ok.mp h
  obtain ⟨⟨r', outputs⟩, hOut, h⟩ := bind_eq_ok.mp h
  cases h
  -- one law for the two passes, the outputs starting from what the inputs left
  have law := throughLaw hInside c.boundary e.core.id ids
  have hStart : c.Serves c.boundary c.boundary := ⟨hMade, hFaithful, .refl _⟩
  have hPassIn := passes_of_passPorts_eq_ok hIn
  have hPassOut := passes_of_passPorts_eq_ok hOut
  refine ⟨rfl, rfl, law.run_inv hPassOut (law.run_inv hPassIn hStart), ?_⟩
  exact (law.rerouted hPassIn hPassOut hStart rfl hNames).imp fun _ _ _ _ => .withBoundary

/-! ## Around a container that goes -/

/-- The child port of `c` that a mapping leads to by way of a port of `c`. -/
def further? (c : Container Node) (m : PortMapping) : Option (Node × Port) :=
  if m.child = c.core.id then
    (c.boundary.ports.find? (·.port.name = m.portName)).bind fun own => c.resolve? own.port.id
  else none

/-- A mapping to a port of the container is followed to what is behind that port. -/
theorem further?_of_own {m : PortMapping} {own : BoundaryPort} (hChild : m.child = c.core.id)
    (hOwn : c.boundary.ports.find? (·.port.name = m.portName) = some own) :
    c.further? m = c.resolve? own.port.id := by
  rw [further?, if_pos hChild, hOwn, Option.bind_some]

/-- How a port `p` of an enclosing container is led when `c` goes: to what the port
of `c` led to, if it went through one that leads further. -/
inductive LedAround (c : Container Node) (p : BoundaryPort) :
    Option PortMapping → Option PortMapping → BoundaryPort → Prop where
  | past {before : Option PortMapping} (hPast : ∀ m, before = some m → c.further? m = none) :
      LedAround c p before before p
  | around {m : PortMapping} {child : Node} {q : Port} (hFurther : c.further? m = some (child, q)) :
      LedAround c p (some m) (some ⟨child.id, q.name⟩) (p.withInner ⟨child.id, q.id⟩)

/-- A step around a container leads a port to what is behind the container, if there is anything.
-/
theorem aroundStep_eq (c : Container Node) (mappings : StringMap PortMapping) (p : BoundaryPort) :
    c.aroundStep mappings p =
      match (mappings[p.port.name]?).bind c.further? with
      | none => (mappings, p)
      | some (child, q) =>
        (mappings.insert p.port.name ⟨child.id, q.name⟩, p.withInner ⟨child.id, q.id⟩) := by
  rfl

/-- So ports that are led around a container follow the law of a pass. -/
theorem aroundLaw (c : Container Node) :
    PassLaw (fun mappings p mappings' p' => c.aroundStep mappings p = (mappings', p')) id
      (fun _ => True) (fun _ => c.LedAround) where
  inv _ _ := trivial
  others := by
    intro mappings mappings' p p' name _ h hName
    rw [aroundStep_eq] at h
    split at h
    · cases h; rfl
    · cases h
      show (mappings.insert p.port.name _)[name]? = mappings[name]?
      -- only the mapping of the port at hand is written
      rw [Std.ExtTreeMap.getElem?_insert, if_neg (by simpa using hName.symm)]
  port hLed := by
    cases hLed with
    | past _ => rfl
    | around _ => simp
  led := by
    intro mappings mappings' p p' _ h
    rw [aroundStep_eq] at h
    split at h
    · next hNone =>
      cases h
      refine .past ?_
      intro m hm
      rw [show mappings[p.port.name]? = some m from hm] at hNone
      exact hNone
    · next child q hSome =>
      cases h
      obtain ⟨m, hm, hFurther⟩ := Option.bind_eq_some_iff.mp hSome
      show c.LedAround p mappings[p.port.name]? (mappings.insert p.port.name _)[p.port.name]? _
      rw [hm, Std.ExtTreeMap.getElem?_insert_self]
      exact .around hFurther
  later _ _ hLed := hLed

/-- The enclosing container has all its ports led around the one that goes. -/
theorem routeAround_spec {e : Container Node} (hNames : e.boundary.names.Nodup)
    (c : Container Node) : Boundary.Rerouted c.LedAround e.boundary (e.routeAround c) :=
  (aroundLaw c).rerouted (passes_passPorts _ _ _) (passes_passPorts _ _ _) trivial rfl hNames

end Container

end FlowNest
