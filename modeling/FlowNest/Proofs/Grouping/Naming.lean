import FlowNest.Proofs.Grouping.Collapse
import FlowNest.Proofs.Grouping.Routing
import FlowNest.Proofs.Rules

/-!
# FlowNest — the names of boundary ports

The ports of a new container are named one after the other: first those for the leaders of
its crossings, then those that the ports of an enclosing container need, whatever their
direction. What is taken is the names of the ports there are, so each new name is one more
of them, and no mapping is lost to another port of the same name.

* `Boundary.Gains`                  — a boundary gets ports one after the other;
* `Boundary.Gains.perm_names`       — and with them the names given in turn, and no others;
* `Scope.gains_of_group`            — so does the boundary of a new container;
* `Container.gains_of_routeThrough` — and once more where an enclosing one is led through it;
* `search_ends_free`                — the search for a name, and all of this, as one statement.
-/

namespace FlowNest

namespace Boundary

variable {owner : String} {b b' b'' : Boundary} {bases more : List String}

/-- `b'` is `b` with new ports of the container `owner`, which bridge ports with the names
`bases` and were added one after the other. -/
inductive Gains (owner : String) : Boundary → List String → Boundary → Prop where
  | none {b : Boundary} : Gains owner b [] b
  | one {b b' : Boundary} {d : Direction} {q : Port} {inner outer : Endpoint} {p : BoundaryPort}
      {bases : List String} (hBridge : b.bridge owner d q inner outer = .ok p)
      (hRest : Gains owner (b.add p q.name) bases b') : Gains owner b (q.name :: bases) b'

namespace Gains

theorem trans (h : b.Gains owner bases b') (h' : b'.Gains owner more b'') :
    b.Gains owner (bases ++ more) b'' := by
  induction h with
  | none => exact h'
  | one hBridge _ ih => exact .one hBridge (ih h')

/-- The names given are taken afterwards, and no others are besides those from before. -/
theorem perm_names (h : b.Gains owner bases b') :
    b'.names.Perm (freshNames b.names bases ++ b.names) := by
  induction h with
  | none => exact .refl _
  | @one b b' d q inner outer p rest hBridge _ ih =>
    have hAdd := perm_names_add b p q.name
    rw [name_of_bridge hBridge] at hAdd
    -- the rest is named as if the new name had been put in front of the others
    rw [freshNames_congr fun _ => hAdd.mem_iff] at ih
    exact (ih.trans (hAdd.append_left _)).trans List.perm_middle

/-- What was mapped stays mapped to the same. -/
theorem mappings_eq (h : b.Gains owner bases b') {name : String} (hName : name ∈ b.names) :
    b'.mappings[name]? = b.mappings[name]? := by
  induction h with
  | none => rfl
  | @one b b' d q inner outer p rest hBridge _ ih =>
    -- the new port has another name
    have hOther : p.port.name ≠ name := fun hSame =>
      name_not_mem_of_bridge hBridge (hSame ▸ hName)
    rw [ih (mem_names_add.mpr (.inr hName)), mappings_add, Std.ExtTreeMap.getElem?_insert,
      if_neg (by simpa using hOther)]

end Gains

end Boundary

/-! ## The ports of a new container -/

namespace Scope

variable {s : Scope Node} {ids : List String} {owner : String} {crossings : List Crossing}
  {b b' : Boundary}

theorem gains_of_addLeaders {leaders : List Crossing} (hLeaders : ∀ x ∈ leaders, x ∈ crossings)
    (h : s.addLeaders owner crossings b leaders = .ok b') :
    b.Gains owner (leaders.map (·.port.name)) b' := by
  induction leaders generalizing b with
  | nil =>
    cases h
    exact .none
  | cons leader rest ih =>
    -- a leader is among the crossings, so a port is really made for it
    obtain ⟨next, hAdd, hRest⟩ := addLeaders_cons_eq_ok h
    obtain ⟨outer, p, hBridge, rfl⟩ := addLeader_eq_ok (hLeaders leader List.mem_cons_self) hAdd
    exact .one hBridge (ih (fun x hx => hLeaders x (List.mem_cons_of_mem _ hx)) hRest)

/-- The ports of a new container are named after the ports of its leaders. -/
theorem gains_of_group {id name : String} {settings : Settings} {c : Container Node}
    (h : s.group ids id name settings = .ok c) :
    Boundary.empty.Gains id ((Crossing.leaders [] (s.crossings ids)).map (·.port.name))
      c.boundary := by
  obtain ⟨-, -, -, -, hBoundary⟩ := group_spec h
  exact gains_of_addLeaders (fun x hx => Crossing.mem_of_mem_leaders hx) hBoundary

end Scope

namespace Container

variable {c c' e : Container Node} {ids : List String}

theorem gains_of_portTo {b b' : Boundary} {d : Direction} {q inner : Port} {outer : Endpoint}
    (h : c.portTo b d q outer = .ok (b', inner)) : ∃ bases, b.Gains c.core.id bases b' := by
  rcases portTo_cases h with ⟨own, -, -, -, rfl⟩ | ⟨own, hBridge, -, rfl⟩
  -- a port that is there already needs no name
  · exact ⟨[], .none⟩
  · exact ⟨[q.name], .one hBridge .none⟩

theorem gains_of_throughStep {enclosing : String} {r r' : Rerouting} {p p' : BoundaryPort}
    (h : c.throughStep enclosing ids r p = .ok (r', p')) :
    ∃ bases, r.boundary.Gains c.core.id bases r'.boundary := by
  rcases throughStep_cases h with
    ⟨-, rfl, rfl⟩ | ⟨m, n, q, b, inner, -, -, -, hPortTo, rfl, rfl⟩
  · exact ⟨[], .none⟩
  · exact gains_of_portTo hPortTo

theorem gains_of_passes {enclosing : String} {r r' : Rerouting} {ps ps' : List BoundaryPort}
    (h : Passes (fun r p r' p' => c.throughStep enclosing ids r p = .ok (r', p')) r ps r' ps') :
    ∃ bases, r.boundary.Gains c.core.id bases r'.boundary := by
  induction h with
  | nil => exact ⟨[], .none⟩
  | cons hStep _ ih =>
    obtain ⟨bases, hFirst⟩ := gains_of_throughStep hStep
    obtain ⟨more, hRest⟩ := ih
    exact ⟨bases ++ more, hFirst.trans hRest⟩

/-- A container that ports are led through keeps its ports, and new ones are named in turn. -/
theorem gains_of_routeThrough {outside : Boundary} (h : e.routeThrough c ids = .ok (c', outside)) :
    ∃ bases, c.boundary.Gains c.core.id bases c'.boundary := by
  obtain ⟨⟨r, inputs⟩, hIn, h⟩ := bind_eq_ok.mp h
  obtain ⟨⟨r', outputs⟩, hOut, h⟩ := bind_eq_ok.mp h
  cases h
  -- inputs and outputs share the names that are taken, so they are one run
  exact gains_of_passes ((passes_of_passPorts_eq_ok hIn).append (passes_of_passPorts_eq_ok hOut))

end Container

/-! ## All of it -/

/-- A search for a free name ends, in one round more than there are taken names at most. The
number that it counts with has 32 bits, so it is asked that no more names are taken than it
can count. Wherever a search ends before its number leaves the 32 bits, however many names are
taken, it ends at the name that is found, which was free: the base if that is free, and
otherwise the base with the least number from 2 on with which it is. Only what is taken
matters for it, not in which order.

Searches in turn, each of which takes the name that it ends at, give names that all differ and
were free, and these are taken afterwards and no others besides.

This is how the ports of containers get their names. What is taken is the names of a boundary:
a new port has the name at which a search among them ends, and with it this name is taken and
no other, so ports that are added in turn have the names of searches in turn, and no mapping
is lost to another. The ports of a new container are added in turn, and so are those it gets
in addition when an enclosing container is led through it. -/
theorem search_ends_free (taken : List String) :
    (taken.dedup.length < NameSearch.mostRounds → ∀ base,
      ∃ rounds ≤ taken.dedup.length + 1, ∀ n last,
        (NameSearch.start base).Ends taken base n last ↔
          n = rounds ∧ last = ⟨freshName taken base, .ofNat (rounds + 1)⟩) ∧
    (∀ base, ∃ rounds ≤ taken.dedup.length + 1, ∀ n ≤ NameSearch.mostRounds, ∀ last,
      (NameSearch.start base).Ends taken base n last ↔
        n = rounds ∧ last = ⟨freshName taken base, .ofNat (rounds + 1)⟩) ∧
    (∀ base, ∀ n ≤ NameSearch.mostRounds, ∀ last,
      (NameSearch.start base).Ends taken base n last →
        last.candidate ∉ taken ∧ (base ∉ taken → last.candidate = base) ∧
          (base ∈ taken → ∃ k, 2 ≤ k ∧ last.candidate = base ++ "_" ++ toString k ∧
            ∀ j, 2 ≤ j → j < k → base ++ "_" ++ toString j ∈ taken)) ∧
    (∀ other : List String, (∀ name, name ∈ other ↔ name ∈ taken) → ∀ base n last,
      (NameSearch.start base).Ends other base n last ↔
        (NameSearch.start base).Ends taken base n last) ∧
    (∀ bases, taken.dedup.length + bases.length ≤ NameSearch.mostRounds →
      ∃ names taken', InTurn taken bases names taken') ∧
    (∀ bases names taken', InTurn taken bases names taken' →
      names = freshNames taken bases ∧ names.length = bases.length ∧ names.Nodup ∧
        (∀ name ∈ names, name ∉ taken) ∧ taken'.Perm (names ++ taken)) ∧
    (∀ (b : Boundary) owner d (q : Port) inner outer p,
      b.bridge owner d q inner outer = .ok p →
        (∀ n ≤ NameSearch.mostRounds, ∀ last,
          (NameSearch.start q.name).Ends b.names q.name n last → p.port.name = last.candidate) ∧
        (b.add p q.name).names.Perm (p.port.name :: b.names)) ∧
    (∀ (b : Boundary) owner bases b', b.Gains owner bases b' →
      (∀ names taken', InTurn b.names bases names taken' → b'.names.Perm (names ++ b.names)) ∧
        ∀ name ∈ b.names, b'.mappings[name]? = b.mappings[name]?) ∧
    (∀ (s : Scope Node) ids id name settings c, s.group ids id name settings = .ok c →
      Boundary.empty.Gains id ((Crossing.leaders [] (s.crossings ids)).map (·.port.name))
        c.boundary) ∧
    ∀ (e c c' : Container Node) ids outside, e.routeThrough c ids = .ok (c', outside) →
      ∃ bases, c.boundary.Gains c.core.id bases c'.boundary := by
  -- the search first, then names drawn in turn, then where the boundary draws them
  refine ⟨NameSearch.exists_ends_iff_of_room, NameSearch.exists_ends_iff taken, ?_, ?_,
    fun bases hRoom => ⟨_, exists_inTurn hRoom⟩, fun bases names taken' hTurn => ?_, ?_, ?_, ?_, ?_⟩
  · intro base n hRoom last hEnds
    rw [hEnds.candidate_eq hRoom]
    exact ⟨freshName_not_mem taken base, freshName_eq_base, exists_freshName_eq_append⟩
  · intro other hSame base n last
    exact ⟨.congr fun name => (hSame name).symm, .congr hSame⟩
  · obtain rfl := hTurn.eq_freshNames
    exact ⟨rfl, length_freshNames taken bases, nodup_freshNames taken bases,
      fun name => not_mem_of_mem_freshNames, hTurn.perm_taken⟩
  · intro b owner d q inner outer p hBridge
    refine ⟨?_, Boundary.perm_names_add b p q.name⟩
    intro n hRoom last hEnds
    rw [Boundary.name_of_bridge hBridge, hEnds.candidate_eq hRoom]
  · intro b owner bases b' hGains
    refine ⟨?_, fun name => hGains.mappings_eq⟩
    intro names taken' hTurn
    rw [hTurn.eq_freshNames]
    exact hGains.perm_names
  · intro s ids id name settings c hGroup
    exact Scope.gains_of_group hGroup
  · intro e c c' ids outside hRoute
    exact Container.gains_of_routeThrough hRoute

/-- Names beside two that are taken, and a cell inside of the line, which keeps its ports when
the line is led through it. -/
theorem line_search_ends_free :
    (∃ rounds ≤ 3, (NameSearch.start "out").Ends ["out", "out_2"] "out" rounds
      ⟨"out_3", .ofNat (rounds + 1)⟩) ∧
    (∃ k, 2 ≤ k ∧ "out_3" = "out" ++ "_" ++ toString k) ∧
    (∃ rounds, (NameSearch.start "out").Ends ["out_2", "out", "out"] "out" rounds
      ⟨"out_3", .ofNat (rounds + 1)⟩) ∧
    (∃ names taken', InTurn ["out", "out_2"] ["out", "out_2"] names taken' ∧ names.Nodup) ∧
    (∃ p, Boundary.empty.bridge "cell" .output (Port.of "mill" "out" .output .any)
      ⟨"mill", "mill.out"⟩ ⟨"drill", "drill.in"⟩ = .ok p ∧ p.port.name = "out") ∧
    ∃ c c' outside, FlowGraph.line.inside.group ["mill", "pack"] "cell" "Cell" .standard = .ok c ∧
      c.boundary.names.Perm ["out", "in"] ∧
      FlowGraph.line.routeThrough c ["mill", "pack"] = .ok (c', outside) ∧
      c'.boundary.mappings["in"]? = c.boundary.mappings["in"]? := by
  have hName : freshName ["out", "out_2"] "out" = "out_3" := by decide +kernel
  obtain ⟨hEnds, -, hForm, hSame, hTurns, hTurn, hBridges, hGains, hGroups, hRoutes⟩ :=
    search_ends_free ["out", "out_2"]
  obtain ⟨rounds, hLe, hEnds⟩ := hEnds (by decide +kernel) "out"
  have hEnd : (NameSearch.start "out").Ends ["out", "out_2"] "out" rounds
      ⟨"out_3", .ofNat (rounds + 1)⟩ := hName ▸ (hEnds rounds _).mpr ⟨rfl, rfl⟩
  refine ⟨⟨rounds, hLe, hEnd⟩, ?_, ?_, ?_, ?_, ?_⟩
  · obtain ⟨k, hTwo, hNumber, -⟩ :=
      (hForm "out" rounds (hLe.trans (by decide)) _ hEnd).2.2 (by decide)
    exact ⟨k, hTwo, hNumber⟩
  · exact ⟨rounds, (hSame ["out_2", "out", "out"] (by simp [or_comm]) "out" _ _).mpr hEnd⟩
  · obtain ⟨names, taken', hNames⟩ := hTurns ["out", "out_2"] (by decide +kernel)
    exact ⟨names, taken', hNames, (hTurn _ _ _ hNames).2.2.1⟩
  · obtain ⟨p, hp⟩ := exists_eq_ok (x := Boundary.empty.bridge "cell" .output
      (Port.of "mill" "out" .output .any) ⟨"mill", "mill.out"⟩ ⟨"drill", "drill.in"⟩)
      (by decide +kernel)
    -- nothing is taken yet, so the search ends where it starts
    exact ⟨p, hp, (hBridges _ _ _ _ _ _ p hp).1 1 (by decide) _ (.free List.not_mem_nil)⟩
  · obtain ⟨⟨c', outside⟩, hBoth⟩ := exists_eq_ok
      (x := FlowGraph.line.inside.group ["mill", "pack"] "cell" "Cell" .standard >>=
        fun c => FlowGraph.line.routeThrough c ["mill", "pack"]) (by decide +kernel)
    obtain ⟨c, hGroup, hRoute⟩ := bind_eq_ok.mp hBoth
    -- what leaves the mill comes first, then what enters the pack
    obtain ⟨taken', hNames⟩ : ∃ taken', InTurn [] ["out", "in"] ["out", "in"] taken' :=
      exists_inTurn (by decide)
    have hPerm : c.boundary.names.Perm ["out", "in"] :=
      (hGains _ _ _ _ (hGroups _ _ _ _ _ c hGroup)).1 _ _ hNames
    obtain ⟨bases, hMore⟩ := hRoutes _ _ _ _ _ hRoute
    refine ⟨c, c', outside, hGroup, hPerm, hRoute, ?_⟩
    exact (hGains _ _ _ _ hMore).2 "in" (hPerm.mem_iff.mpr (by decide))

end FlowNest
