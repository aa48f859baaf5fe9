import FlowNest.Proofs.Replacement

/-!
# FlowNest — scopes that are looked up, read and replaced

Four walks have to do with scopes: one finds the scope of a node, one the container that a
scope is the inside of, one lists all nodes, and one puts another content in. All of them
come to the same node. What was put into a scope is read from it again, also where the new
content has nodes with the id of the scope itself, since the container around it is first.

* `FlowGraph.isSome_scopeOf?`    — the nodes that are found are those that have a scope;
* `FlowGraph.exists_only_scope`  — a node stands in its scope, once, and in no other;
* `FlowGraph.Rescoped`           — one graph is another one but for the content of a scope;
* `FlowGraph.exists_withScope?`  — a scope that is there can be given another content;
* `FlowGraph.scopes_agree`       — all of this as one statement.
-/

namespace FlowNest

/-- Where ids are different, one node is all there is of its id. -/
theorem filter_id_eq_singleton {nodes : List Node} (hIds : (nodes.map (·.id)).Nodup) {n : Node}
    (hn : n ∈ nodes) : nodes.filter (·.id = n.id) = [n] := by
  obtain ⟨left, right, rfl⟩ := List.append_of_mem hn
  rw [List.map_append, List.map_cons, List.nodup_middle, ← List.map_append, List.nodup_cons] at hIds
  -- no other node has the id
  have hNone : ∀ m ∈ left ++ right, m.id ≠ n.id := fun m hm hSame =>
    hIds.1 (List.mem_map.mpr ⟨m, hm, hSame⟩)
  have hLeft : left.filter (·.id = n.id) = [] := by
    rw [List.filter_eq_nil_iff]
    simpa using fun m hm => hNone m (List.mem_append_left _ hm)
  have hRight : right.filter (·.id = n.id) = [] := by
    rw [List.filter_eq_nil_iff]
    simpa using fun m hm => hNone m (List.mem_append_right _ hm)
  rw [List.filter_append, List.filter_cons_of_pos (by simp), hLeft, hRight]
  rfl

namespace FlowGraph

variable {g g' : FlowGraph} {id : String} {scope : ScopeId} {content : Scope Node}

/-! ## The scope of a node -/

theorem isSome_scopeOf? (g : FlowGraph) (id : String) :
    (g.scopeOf? id).isSome = (g.find? id).isSome := by
  rw [scopeOf?, Forest.scopeOf?_eq_placed, find?, Forest.find?_eq_preorder,
    ← Forest.map_snd_placed none, List.find?_map, Option.isSome_map, Option.isSome_map]
  rfl

/-- With unique ids, the scope of a node is there and has the node once, and no other scope
has a node of its id. -/
theorem exists_only_scope (hUnique : g.UniqueIds) (hPlace : g.scopeOf? id = some scope) :
    ∃ content n, g.scope? scope = some content ∧ g.find? id = some n ∧
      content.nodes.filter (·.id = id) = [n] ∧
      ∀ other s, g.scope? other = some s → other ≠ scope → ∀ m ∈ s.nodes, m.id ≠ id := by
  obtain ⟨content, n, hScope, hn, rfl⟩ := (scopeOf?_eq_some_iff hUnique).mp hPlace
  have hIds : (content.nodes.map (·.id)).Nodup :=
    (hUnique.scope hScope).sublist ((Forest.sublist_preorder _).map _)
  have hFind : g.find? n.id = some n :=
    (find?_eq_some_iff hUnique).mpr ⟨mem_allNodes_of_scope? hScope hn, rfl⟩
  refine ⟨content, n, hScope, hFind, filter_id_eq_singleton hIds hn, ?_⟩
  intro other s hOther hNe m hm hSame
  -- a node of the id in another scope would have that one for its scope
  have hThere := (scopeOf?_eq_some_iff hUnique).mpr ⟨s, m, hOther, hm, hSame⟩
  exact hNe (Option.some.inj (hThere.symm.trans hPlace))

/-! ## The content of a scope -/

/-- `g'` is `g` with another content in a scope: at the root, or inside of the first node with
an id, which is a container. -/
def Rescoped (g g' : FlowGraph) (content : Scope Node) : ScopeId → Prop
  | none => g' = { g with root := content }
  | some id => ∃ place c, g.place? id = some place ∧ g.at? place = some (.graph c) ∧
      g.ReplacedAt g' place (.graph { c with inside := content })

/-- A scope that is there can be given another content, which is read from it again. -/
theorem exists_withScope? {old : Scope Node} (hScope : g.scope? scope = some old)
    (content : Scope Node) :
    ∃ g', g.withScope? scope content = some g' ∧ g'.scope? scope = some content ∧
      g.Rescoped g' content scope := by
  cases scope with
  | none => exact ⟨_, rfl, rfl, rfl⟩
  | some id =>
    obtain ⟨c, hc, -⟩ := Option.map_eq_some_iff.mp hScope
    have hFind := container?_eq_find?.mp hc
    obtain rfl : c.core.id = id := Forest.id_of_find? hFind
    obtain ⟨place, hPlace, hHere, hUpdate⟩ := exists_update? hFind
    obtain ⟨g', hPut, hReplaced, hFound⟩ := hUpdate fun _ => .graph { c with inside := content }
    have hWith : g.withScope? (some c.core.id) content = some g' := by
      rw [withScope?, hc]
      exact hPut
    -- the container kept its id, so a search comes to it before it comes to what is inside
    have hThere : g'.scope? (some c.core.id) = some content := by
      rw [scope?, container?_eq_find?.mpr (hFound rfl)]
      rfl
    exact ⟨g', hWith, hThere, place, c, hPlace, hHere, hReplaced⟩

theorem isSome_withScope?_iff :
    (g.withScope? scope content).isSome ↔ (g.scope? scope).isSome := by
  constructor
  · intro hWith
    cases scope with
    | none => rfl
    | some id =>
      -- without the container nothing is put
      rw [scope?, Option.isSome_map]
      exact Option.isSome_of_isSome_bind hWith
  · intro hScope
    obtain ⟨old, hOld⟩ := Option.isSome_iff_exists.mp hScope
    obtain ⟨g', hWith, -⟩ := exists_withScope? hOld content
    exact Option.isSome_of_eq_some hWith

/-- The content that a scope has already changes nothing. -/
theorem withScope?_self (hScope : g.scope? scope = some content) :
    g.withScope? scope content = some g := by
  cases scope with
  | none =>
    cases hScope
    rfl
  | some id =>
    obtain ⟨c, hc, rfl⟩ := Option.map_eq_some_iff.mp hScope
    have hFind := container?_eq_find?.mp hc
    obtain rfl : c.core.id = id := Forest.id_of_find? hFind
    -- the container is written back into the gap it was found in
    have hSame : g.update? c.core.id (fun _ => .graph c) = some g := by
      obtain ⟨gap, hClear, hGraph⟩ := exists_clear_gap hFind
      rw [hGraph]
      exact update?_of_clear hClear (Node.update?_self rfl) g
    rw [withScope?, hc]
    exact hSame

/-- With unique ids, a node has a scope exactly if it is there, and stands once in the content
of this scope and in no other. With any ids, a scope can be given another content exactly if
it is there; the new content is what it has then, and beside it nothing has changed but the
nodes around it. With the content it has already, nothing changes at all. -/
theorem scopes_agree (g : FlowGraph) :
    (g.UniqueIds → ∀ id, ((g.scopeOf? id).isSome ↔ id ∈ g.allNodes.map (·.id)) ∧
      ∀ scope, g.scopeOf? id = some scope →
        ∃ content n, g.scope? scope = some content ∧ g.find? id = some n ∧
          content.nodes.filter (·.id = id) = [n] ∧
          ∀ other s, g.scope? other = some s → other ≠ scope → ∀ m ∈ s.nodes, m.id ≠ id) ∧
    ∀ scope content, ((g.withScope? scope content).isSome ↔ (g.scope? scope).isSome) ∧
      (∀ g', g.withScope? scope content = some g' →
        g'.scope? scope = some content ∧ g.Rescoped g' content scope) ∧
      (g.scope? scope = some content → g.withScope? scope content = some g) := by
  constructor
  · intro hUnique id
    rw [isSome_scopeOf?]
    exact ⟨isSome_find?_iff, fun scope => exists_only_scope hUnique⟩
  · intro scope content
    refine ⟨isSome_withScope?_iff, fun g' hWith => ?_, withScope?_self⟩
    obtain ⟨old, hOld⟩ := Option.isSome_iff_exists.mp
      (isSome_withScope?_iff.mp (Option.isSome_of_eq_some hWith))
    obtain ⟨k, hk, hThere, hRescoped⟩ := exists_withScope? hOld content
    -- the replacement that exists is the one at hand
    obtain rfl : k = g' := Option.some.inj (hk.symm.trans hWith)
    exact ⟨hThere, hRescoped⟩

/-- A content for the line that has a line of its own. -/
def spare : Scope Node :=
  ⟨[.graph line, stage "spare" (some "line")], []⟩

theorem plant_scopes_agree :
    plant.UniqueIds ∧ plant.scopeOf? "drill" = some (some "line") ∧
      (∃ n, line.inside.nodes.filter (·.id = "drill") = [n]) ∧
      ∃ g', plant.withScope? (some "line") spare = some g' ∧ g'.scope? (some "line") = some spare ∧
        plant.Rescoped g' spare (some "line") := by
  have hUnique : plant.UniqueIds := by decide +kernel
  have hDrill : plant.scopeOf? "drill" = some (some "line") := by decide +kernel
  have hLine : plant.scope? (some "line") = some line.inside := rfl
  obtain ⟨hPlaces, hContents⟩ := scopes_agree plant
  obtain ⟨content, n, hScope, -, hOnce, -⟩ := (hPlaces hUnique "drill").2 _ hDrill
  -- the scope of the drill is the inside of the line
  obtain rfl : line.inside = content := Option.some.inj (hLine.symm.trans hScope)
  obtain ⟨hSome, hWith, -⟩ := hContents (some "line") spare
  obtain ⟨g', hg'⟩ := Option.isSome_iff_exists.mp (hSome.mpr (Option.isSome_of_eq_some hLine))
  exact ⟨hUnique, hDrill, ⟨n, hOnce⟩, g', hg', hWith g' hg'⟩

end FlowGraph

end FlowNest
