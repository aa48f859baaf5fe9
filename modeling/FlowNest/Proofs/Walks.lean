import Mathlib.Data.List.Nodup
import FlowNest.Proofs.Outline

/-!
# FlowNest — what the walks through a forest find

Search, scope search and replacement go through a forest each by a recursion of
its own. All three are read off one flat list, the forest in pre-order:

* `Forest.find?_eq_preorder`   — search takes the first node with the id;
* `Forest.scopeOf?_eq_placed`  — so does scope search, of the list with scopes;
* `Forest.update?_split`       — replacement changes the stretch of the list that
  the node takes up, and keeps the outlines of all nodes outside of it;
* `FlowGraph.UniqueIds`        — where ids are unique, the three agree on *the*
  node with an id.
-/

namespace FlowNest

/-- Where the keys are distinct, the first element with a key is the only one. -/
theorem find?_key_eq_some_iff {α : Type} {key : α → String} {l : List α}
    (hKeys : (l.map key).Nodup) {k : String} {a : α} :
    l.find? (key · = k) = some a ↔ a ∈ l ∧ key a = k := by
  constructor
  · intro h
    exact ⟨List.mem_of_find?_eq_some h, by simpa using List.find?_some h⟩
  · rintro ⟨hMem, hKey⟩
    -- the search finds something, and with the key there is only one thing to find
    obtain ⟨b, hb⟩ : ∃ b, l.find? (key · = k) = some b := by
      rw [← Option.isSome_iff_exists, List.find?_isSome]
      exact ⟨a, hMem, by simpa using hKey⟩
    have hbMem := List.mem_of_find?_eq_some hb
    have hbKey : key b = k := by simpa using List.find?_some hb
    rw [hb, List.inj_on_of_nodup_map hKeys hbMem hMem (hbKey.trans hKey.symm)]

/-! ## Search -/

mutual

/-- A tree is searched in pre-order. -/
theorem Node.find?_eq_preorder (id : String) :
    ∀ n : Node, n.find? id = n.preorder.find? (·.id = id)
  | .code c => by
    rw [Node.find?, Node.preorder, List.find?_singleton]
    by_cases h : c.core.id = id <;> simp [Node.id, Node.core, h]
  | .graph ⟨core, boundary, ⟨nodes, connections⟩⟩ => by
    rw [Node.find?, Node.preorder, List.find?_cons, Forest.find?_eq_preorder id nodes]
    by_cases h : core.id = id <;> simp [Node.id, Node.core, h]

/-- Trees are searched in pre-order, one after the other. -/
theorem Forest.find?_eq_preorder (id : String) :
    ∀ nodes : List Node, Forest.find? id nodes = (Forest.preorder nodes).find? (·.id = id)
  | [] => rfl
  | n :: rest => by
    rw [Forest.find?, Forest.preorder, List.find?_append, Node.find?_eq_preorder id n,
      Forest.find?_eq_preorder id rest]
    cases n.preorder.find? (·.id = id) <;> rfl

end

/-- A node with the id is found before all below it. -/
theorem Node.find?_self {id : String} {n : Node} (h : n.id = id) : n.find? id = some n := by
  cases n with
  | code c => exact if_pos h
  | graph c => rw [find?_graph]; exact if_pos h

/-- What is found in a tree has the id that was looked for. -/
theorem Node.id_of_find? {id : String} {n m : Node} (h : n.find? id = some m) : m.id = id := by
  rw [find?_eq_preorder] at h
  exact of_decide_eq_true (List.find?_some h :)

/-- What is found in trees has the id that was looked for. -/
theorem Forest.id_of_find? {id : String} {nodes : List Node} {n : Node}
    (h : Forest.find? id nodes = some n) : n.id = id := by
  rw [find?_eq_preorder] at h
  exact of_decide_eq_true (List.find?_some h :)

/-- Nothing is found exactly when no node has the id. -/
theorem Forest.find?_eq_none_iff {id : String} {nodes : List Node} :
    Forest.find? id nodes = none ↔ ∀ n ∈ Forest.preorder nodes, n.id ≠ id := by
  rw [find?_eq_preorder, List.find?_eq_none]
  simp

/-- Nothing is found in a container exactly when neither it nor anything inside has the id. -/
theorem Node.find?_graph_eq_none_iff {id : String} {c : Container Node} :
    (Node.graph c).find? id = none ↔
      c.core.id ≠ id ∧ Forest.find? id c.inside.nodes = none := by
  rw [find?_graph]
  split
  · next hId => exact iff_of_false (Option.some_ne_none _) fun h => h.1 hId
  · next hId => exact (and_iff_right hId).symm

/-- Lists of trees are walked one after the other. -/
theorem Forest.preorder_append (as bs : List Node) :
    Forest.preorder (as ++ bs) = Forest.preorder as ++ Forest.preorder bs := by
  induction as with
  | nil => rfl
  | cons a as ih =>
    rw [List.cons_append, Forest.preorder, Forest.preorder, ih, List.append_assoc]

/-- Trees are walked one after the other. -/
theorem Forest.preorder_eq_flatMap (nodes : List Node) :
    Forest.preorder nodes = nodes.flatMap Node.preorder := by
  induction nodes with
  | nil => rfl
  | cons n rest ih => rw [Forest.preorder, List.flatMap_cons, ih]

/-- The nodes of a forest are those of its trees. -/
theorem Forest.mem_preorder_iff {nodes : List Node} {m : Node} :
    m ∈ Forest.preorder nodes ↔ ∃ n ∈ nodes, m ∈ n.preorder := by
  rw [preorder_eq_flatMap, List.mem_flatMap]

/-- The nodes of a tree are among those of all trees. -/
theorem Forest.mem_preorder_of_tree {nodes : List Node} {n m : Node} (hn : n ∈ nodes)
    (hm : m ∈ n.preorder) : m ∈ Forest.preorder nodes :=
  mem_preorder_iff.mpr ⟨n, hn, hm⟩

/-- What is below a child is below the container, too. -/
theorem Node.mem_preorder_of_child {g : Container Node} {n m : Node} (hChild : n ∈ g.inside.nodes)
    (hm : m ∈ n.preorder) : m ∈ (Node.graph g).preorder := by
  rw [preorder_graph]
  exact List.mem_cons_of_mem _ (Forest.mem_preorder_of_tree hChild hm)

/-- What is read from all nodes of a forest, tree by tree. -/
theorem Forest.map_preorder_map {α : Type} {k : Node → α} {φ : Node → Node} {nodes : List Node}
    (h : ∀ n ∈ nodes, (φ n).preorder.map k = n.preorder.map k) :
    (Forest.preorder (nodes.map φ)).map k = (Forest.preorder nodes).map k := by
  rw [preorder_eq_flatMap, preorder_eq_flatMap, List.map_flatMap, List.map_flatMap,
    List.flatMap_map]
  exact List.flatMap_congr h

theorem Node.singleton_sublist_preorder (n : Node) : List.Sublist [n] n.preorder := by
  cases n with
  | code c => exact List.Sublist.refl _
  | graph g =>
    rw [preorder_graph]
    exact (List.nil_sublist _).cons_cons _

/-- The nodes of a forest themselves come in their order. -/
theorem Forest.sublist_preorder (nodes : List Node) :
    List.Sublist nodes (Forest.preorder nodes) := by
  induction nodes with
  | nil => exact List.nil_sublist _
  | cons n rest ih =>
    rw [Forest.preorder]
    exact n.singleton_sublist_preorder.append ih

mutual

/-- A subtree is walked on the way through the tree. -/
theorem Node.preorder_sublist {m : Node} :
    ∀ n : Node, m ∈ n.preorder → List.Sublist m.preorder n.preorder
  | .code c, h => by
    rw [List.mem_singleton.mp h]
  | .graph ⟨core, boundary, ⟨nodes, connections⟩⟩, h => by
    rcases List.mem_cons.mp h with rfl | h
    · exact List.Sublist.refl _
    · exact (Forest.preorder_sublist nodes h).cons _

/-- The subtree of a node is a part of the forest, in the same order. -/
theorem Forest.preorder_sublist {m : Node} :
    ∀ nodes : List Node, m ∈ Forest.preorder nodes →
      List.Sublist m.preorder (Forest.preorder nodes)
  | [], h => by cases h
  | n :: rest, h => by
    rcases List.mem_append.mp h with h | h
    · exact (Node.preorder_sublist n h).trans (List.sublist_append_left _ _)
    · exact (Forest.preorder_sublist rest h).trans (List.sublist_append_right _ _)

end

/-- What is below a container is smaller. -/
theorem Container.length_preorder_lt {c : Container Node} {n : Node} (hn : n ∈ c.inside.nodes) :
    n.preorder.length < (Node.graph c).preorder.length := by
  have hPart : n.preorder.length ≤ (Forest.preorder c.inside.nodes).length := by
    obtain ⟨l, r, hNodes⟩ := List.append_of_mem hn
    rw [hNodes, Forest.preorder_append, Forest.preorder, List.length_append, List.length_append]
    omega
  rw [Node.preorder_graph, List.length_cons]
  omega

/-! ## Scopes -/

mutual

/-- A node and all below it, each with the scope it stands in. -/
def Node.placed (scope : ScopeId) : Node → List (ScopeId × Node)
  | .code c => [(scope, .code c)]
  | .graph ⟨core, boundary, ⟨nodes, connections⟩⟩ =>
    (scope, .graph ⟨core, boundary, ⟨nodes, connections⟩⟩) :: Forest.placed (some core.id) nodes

def Forest.placed (scope : ScopeId) : List Node → List (ScopeId × Node)
  | [] => []
  | n :: rest => n.placed scope ++ Forest.placed scope rest

end

mutual

/-- The scope of an id is where the first node with it is placed. -/
theorem Node.scopeOf?_eq_placed (id : String) (scope : ScopeId) :
    ∀ n : Node, n.scopeOf? id scope = ((n.placed scope).find? (·.2.id = id)).map (·.1)
  | .code c => by
    rw [Node.scopeOf?, Node.placed, List.find?_singleton]
    by_cases h : c.core.id = id <;> simp [Node.id, Node.core, h]
  | .graph ⟨core, boundary, ⟨nodes, connections⟩⟩ => by
    rw [Node.scopeOf?, Node.placed, List.find?_cons,
      Forest.scopeOf?_eq_placed id (some core.id) nodes]
    by_cases h : core.id = id <;> simp [Node.id, Node.core, h]

/-- The scope of an id in trees is where the first node with it is placed. -/
theorem Forest.scopeOf?_eq_placed (id : String) (scope : ScopeId) :
    ∀ nodes : List Node,
      Forest.scopeOf? id scope nodes = ((Forest.placed scope nodes).find? (·.2.id = id)).map (·.1)
  | [] => rfl
  | n :: rest => by
    rw [Forest.scopeOf?, Forest.placed, List.find?_append, Node.scopeOf?_eq_placed id scope n,
      Forest.scopeOf?_eq_placed id scope rest]
    cases (n.placed scope).find? (·.2.id = id) <;> rfl

end

mutual

/-- The nodes that are placed are those of the tree. -/
theorem Node.map_snd_placed (scope : ScopeId) :
    ∀ n : Node, (n.placed scope).map (·.2) = n.preorder
  | .code c => rfl
  | .graph ⟨core, boundary, ⟨nodes, connections⟩⟩ => by
    rw [Node.placed, Node.preorder, List.map_cons, Forest.map_snd_placed (some core.id) nodes]

/-- The nodes that are placed are those of the trees. -/
theorem Forest.map_snd_placed (scope : ScopeId) :
    ∀ nodes : List Node, (Forest.placed scope nodes).map (·.2) = Forest.preorder nodes
  | [] => rfl
  | n :: rest => by
    rw [Forest.placed, Forest.preorder, List.map_append, Node.map_snd_placed scope n,
      Forest.map_snd_placed scope rest]

end

mutual

/-- A node is placed in the scope of the tree if it is the root, and otherwise in the container
that it is a child of. -/
theorem Node.mem_placed_iff {scope place : ScopeId} {m : Node} :
    ∀ n : Node, (place, m) ∈ n.placed scope ↔
      (place = scope ∧ m = n) ∨
        ∃ g : Container Node, .graph g ∈ n.preorder ∧ place = some g.core.id ∧ m ∈ g.inside.nodes
  | .code c => by simp [Node.placed, Node.preorder]
  | .graph ⟨core, boundary, ⟨nodes, connections⟩⟩ => by
    rw [Node.placed, List.mem_cons, Prod.mk.injEq, Forest.mem_placed_iff nodes]
    -- a container in the walk is this one, or one of those below it
    constructor
    · rintro (h | ⟨hPlace, hMem⟩ | ⟨g, hg, hPlace, hMem⟩)
      · exact .inl h
      · exact .inr ⟨_, Node.mem_preorder_self _, hPlace, hMem⟩
      · exact .inr ⟨g, List.mem_cons_of_mem _ hg, hPlace, hMem⟩
    · rintro (h | ⟨g, hg, hPlace, hMem⟩)
      · exact .inl h
      · rcases List.mem_cons.1 hg with hg | hg
        · cases hg; exact .inr (.inl ⟨hPlace, hMem⟩)
        · exact .inr (.inr ⟨g, hg, hPlace, hMem⟩)

/-- A node stands in the scope of the forest, or inside of a container in it. -/
theorem Forest.mem_placed_iff {scope place : ScopeId} {m : Node} :
    ∀ nodes : List Node, (place, m) ∈ Forest.placed scope nodes ↔
      (place = scope ∧ m ∈ nodes) ∨
        ∃ g : Container Node,
          .graph g ∈ Forest.preorder nodes ∧ place = some g.core.id ∧ m ∈ g.inside.nodes
  | [] => by simp [Forest.placed, Forest.preorder]
  | n :: rest => by
    rw [Forest.placed, List.mem_append, Node.mem_placed_iff n, Forest.mem_placed_iff rest,
      Forest.preorder]
    -- a node of the level is the first or one of the rest, and so is what lies below
    constructor
    · rintro ((⟨hPlace, rfl⟩ | ⟨g, hg, h⟩) | (⟨hPlace, hMem⟩ | ⟨g, hg, h⟩))
      · exact .inl ⟨hPlace, List.mem_cons_self⟩
      · exact .inr ⟨g, List.mem_append_left _ hg, h⟩
      · exact .inl ⟨hPlace, List.mem_cons_of_mem _ hMem⟩
      · exact .inr ⟨g, List.mem_append_right _ hg, h⟩
    · rintro (⟨hPlace, hMem⟩ | ⟨g, hg, h⟩)
      · rcases List.mem_cons.1 hMem with rfl | hMem
        · exact .inl (.inl ⟨hPlace, rfl⟩)
        · exact .inr (.inl ⟨hPlace, hMem⟩)
      · rcases List.mem_append.1 hg with hg | hg
        · exact .inl (.inr ⟨g, hg, h⟩)
        · exact .inr (.inr ⟨g, hg, h⟩)

end

/-! ## Replacement -/

mutual

/-- A node can be replaced exactly when it is found. -/
theorem Node.isSome_update? (id : String) (f : Node → Node) :
    ∀ n : Node, (n.update? id f).isSome = (n.find? id).isSome
  | .code c => by
    rw [Node.update?, Node.find?]
    split <;> rfl
  | .graph ⟨core, boundary, ⟨nodes, connections⟩⟩ => by
    rw [Node.update?, Node.find?]
    split
    · rfl
    · rw [Option.isSome_map, Forest.isSome_update? id f nodes]

/-- Replacement succeeds where search does. -/
theorem Forest.isSome_update? (id : String) (f : Node → Node) :
    ∀ nodes : List Node, (Forest.update? id f nodes).isSome = (Forest.find? id nodes).isSome
  | [] => rfl
  | n :: rest => by
    have hHead := Node.isSome_update? id f n
    have hRest := Forest.isSome_update? id f rest
    rw [Forest.update?, Forest.find?]
    -- the search and the update go the same way at the head, so the mixed cases are void
    cases hUpdate : n.update? id f <;> cases hFind : n.find? id
    · simpa using hRest
    · simp [hUpdate, hFind] at hHead
    · simp [hUpdate, hFind] at hHead
    · rfl

end

/-- What is not found cannot be replaced. -/
theorem Node.update?_eq_none {id : String} {f : Node → Node} {n : Node}
    (h : n.find? id = none) : n.update? id f = none := by
  rw [← Option.not_isSome_iff_eq_none, Node.isSome_update?, h]
  simp

/-- A node with the id is replaced itself. -/
theorem Node.update?_self {id : String} {f : Node → Node} {n : Node} (h : n.id = id) :
    n.update? id f = some (f n) := by
  cases n with
  | code c => exact if_pos h
  | graph g => rw [Node.update?_graph]; exact if_pos h

/-- A container with another id has the node replaced inside. -/
theorem Node.update?_inside {id : String} {f : Node → Node} {c : Container Node}
    {nodes : List Node} (hId : c.core.id ≠ id)
    (h : Forest.update? id f c.inside.nodes = some nodes) :
    (Node.graph c).update? id f = some (.graph { c with inside := { c.inside with nodes } }) := by
  rw [Node.update?_graph, if_neg hId, h]
  rfl

mutual

/-- Where the first replacement keeps the id, two replacements are one. -/
theorem Node.update?_update? {id : String} {f h : Node → Node} (hId : ∀ m, (f m).id = id) :
    ∀ n n' : Node, n.update? id f = some n' →
      n'.update? id h = n.update? id fun m => h (f m)
  | .code c, n', hUpdate => by
    rw [Node.update?] at hUpdate
    split at hUpdate
    -- `f` keeps the id, so the second update stops where the first did
    · next hc =>
      cases hUpdate
      rw [Node.update?_self (hId _), Node.update?, if_pos hc]
    · cases hUpdate
  | .graph ⟨core, boundary, ⟨nodes, connections⟩⟩, n', hUpdate => by
    rw [Node.update?] at hUpdate
    split at hUpdate
    · next hc =>
      cases hUpdate
      rw [Node.update?_self (hId _), Node.update?, if_pos hc]
    · next hc =>
      obtain ⟨nodes', hNodes, rfl⟩ := Option.map_eq_some_iff.1 hUpdate
      rw [Node.update?, Node.update?, if_neg hc, if_neg hc,
        Forest.update?_update? hId nodes nodes' hNodes]

/-- Two replacements that keep the id are one. -/
theorem Forest.update?_update? {id : String} {f h : Node → Node} (hId : ∀ m, (f m).id = id) :
    ∀ nodes nodes' : List Node, Forest.update? id f nodes = some nodes' →
      Forest.update? id h nodes' = Forest.update? id (fun m => h (f m)) nodes
  | [], _, hUpdate => by cases hUpdate
  | n :: rest, nodes', hUpdate => by
    rw [Forest.update?] at hUpdate
    split at hUpdate
    · next n' hn =>
      cases hUpdate
      rw [Forest.update?, Forest.update?, Node.update?_update? hId n n' hn]
      -- the node is replaced by any function, as it was by the first
      have hSome : (n.update? id fun m => h (f m)).isSome := by
        rw [Node.isSome_update?, ← Node.isSome_update? id f, hn]; rfl
      obtain ⟨n'', hn''⟩ := Option.isSome_iff_exists.1 hSome
      rw [hn'']
    · next hn =>
      obtain ⟨rest', hRest, rfl⟩ := Option.map_eq_some_iff.1 hUpdate
      -- whether a node is replaced does not depend on what it is replaced by
      have hNone : ∀ k : Node → Node, n.update? id k = none := by
        intro k
        rw [← Option.not_isSome_iff_eq_none, Node.isSome_update?, ← Node.isSome_update? id f, hn]
        simp
      rw [Forest.update?, Forest.update?, hNone, hNone,
        Forest.update?_update? hId rest rest' hRest]

end

mutual

/-- The nodes around the one replaced keep their places and outlines, if the new
node has the face of the old one. -/
theorem Node.update?_split {id : String} {f : Node → Node} {m : Node}
    (hFace : (f m).face = m.face) :
    ∀ n : Node, n.find? id = some m →
      ∃ n' before before' after, n.update? id f = some n' ∧ n'.face = n.face ∧
        n.preorder = before ++ m.preorder ++ after ∧
        n'.preorder = before' ++ (f m).preorder ++ after ∧
        before'.map Node.outline = before.map Node.outline
  | .code c, h => by
    rw [Node.find?] at h
    split at h
    · next hId =>
      cases h
      refine ⟨f (.code c), [], [], [], ?_, hFace, ?_, ?_, rfl⟩
      · rw [Node.update?, if_pos hId]
      · simp
      · simp
    · cases h
  | .graph ⟨core, boundary, ⟨nodes, connections⟩⟩, h => by
    rw [Node.find?] at h
    split at h
    · next hId =>
      cases h
      refine ⟨_, [], [], [], ?_, hFace, ?_, ?_, rfl⟩
      · rw [Node.update?, if_pos hId]
      · simp
      · simp
    · next hId =>
      -- the node is below: the container itself comes before it
      obtain ⟨nodes', before, before', after, hUpdate, hFaces, hPre, hPre', hOut⟩ :=
        Forest.update?_split hFace nodes h
      refine ⟨.graph ⟨core, boundary, ⟨nodes', connections⟩⟩,
        .graph ⟨core, boundary, ⟨nodes, connections⟩⟩ :: before,
        .graph ⟨core, boundary, ⟨nodes', connections⟩⟩ :: before', after, ?_, rfl, ?_, ?_, ?_⟩
      · rw [Node.update?, if_neg hId, hUpdate]; rfl
      · rw [Node.preorder, hPre]; rfl
      · rw [Node.preorder, hPre']; rfl
      · -- the container above keeps its outline because the faces inside of it are the same
        have hOutline : (Node.graph ⟨core, boundary, ⟨nodes', connections⟩⟩).outline =
            (Node.graph ⟨core, boundary, ⟨nodes, connections⟩⟩).outline := by
          simp only [Node.outline, Node.plan?, hFaces]
          rfl
        rw [List.map_cons, List.map_cons, hOut, hOutline]

theorem Forest.update?_split {id : String} {f : Node → Node} {m : Node}
    (hFace : (f m).face = m.face) :
    ∀ nodes : List Node, Forest.find? id nodes = some m →
      ∃ nodes' before before' after, Forest.update? id f nodes = some nodes' ∧
        nodes'.map Node.face = nodes.map Node.face ∧
        Forest.preorder nodes = before ++ m.preorder ++ after ∧
        Forest.preorder nodes' = before' ++ (f m).preorder ++ after ∧
        before'.map Node.outline = before.map Node.outline
  | [], h => by cases h
  | n :: rest, h => by
    rw [Forest.find?] at h
    split at h
    · next found hFound =>
      cases h
      -- the node is in the first tree: the rest comes after it
      obtain ⟨n', before, before', after, hUpdate, hFaces, hPre, hPre', hOut⟩ :=
        Node.update?_split hFace n hFound
      refine ⟨n' :: rest, before, before', after ++ Forest.preorder rest, ?_, ?_, ?_, ?_, hOut⟩
      · rw [Forest.update?, hUpdate]
      · rw [List.map_cons, List.map_cons, hFaces]
      · rw [Forest.preorder, hPre, List.append_assoc]
      · rw [Forest.preorder, hPre', List.append_assoc]
    · next hNone =>
      -- the node is in the rest: the first tree comes before it
      obtain ⟨nodes', before, before', after, hUpdate, hFaces, hPre, hPre', hOut⟩ :=
        Forest.update?_split hFace rest h
      refine ⟨n :: nodes', n.preorder ++ before, n.preorder ++ before', after, ?_, ?_, ?_, ?_, ?_⟩
      · rw [Forest.update?, Node.update?_eq_none hNone, hUpdate]; rfl
      · rw [List.map_cons, List.map_cons, hFaces]
      · rw [Forest.preorder, hPre]; simp only [List.append_assoc]
      · rw [Forest.preorder, hPre']; simp only [List.append_assoc]
      · rw [List.map_append, List.map_append, hOut]

end

/-! ## Outlines -/

/-- The outlines of a node and of all below it. -/
def Node.outlines (n : Node) : List Outline :=
  n.preorder.map Node.outline

/-- The outlines of all nodes of a forest. -/
def Forest.outlines (nodes : List Node) : List Outline :=
  (Forest.preorder nodes).map Node.outline

/-- The outlines of trees are those of each tree, one after the other. -/
theorem Forest.outlines_eq_flatMap (nodes : List Node) :
    Forest.outlines nodes = nodes.flatMap Node.outlines := by
  rw [Forest.outlines, Forest.preorder_eq_flatMap, List.map_flatMap]
  rfl

/-- In another order, trees have the same outlines in another order. -/
theorem Forest.outlines_perm {as bs : List Node} (h : as.Perm bs) :
    (Forest.outlines as).Perm (Forest.outlines bs) := by
  rw [Forest.outlines_eq_flatMap, Forest.outlines_eq_flatMap]
  exact h.flatMap_right _

/-- The outlines of two lists of trees are those of the one and of the other. -/
theorem Forest.outlines_append (as bs : List Node) :
    Forest.outlines (as ++ bs) = Forest.outlines as ++ Forest.outlines bs := by
  rw [Forest.outlines, Forest.preorder_append, List.map_append]
  rfl

/-- A container brings its own outline and those of all inside. -/
theorem Forest.outlines_graph_cons (c : Container Node) (rest : List Node) :
    Forest.outlines (.graph c :: rest) =
      (Node.graph c).outline :: (Forest.outlines c.inside.nodes ++ Forest.outlines rest) := by
  rw [Forest.outlines, Forest.preorder, Node.preorder_graph, List.map_append]
  rfl

/-! ## Graphs -/

namespace FlowGraph

/-- No two nodes have one id. -/
def UniqueIds (g : FlowGraph) : Prop :=
  (g.allNodes.map (·.id)).Nodup

instance (g : FlowGraph) : Decidable g.UniqueIds :=
  inferInstanceAs (Decidable (List.Nodup _))

/-- The outlines of all nodes. -/
def outlines (g : FlowGraph) : List Outline :=
  Forest.outlines g.root.nodes

variable {g : FlowGraph}

/-- Outlines have the ids of the nodes. -/
theorem map_id_outlines (g : FlowGraph) : g.outlines.map (·.id) = g.allNodes.map (·.id) := by
  rw [outlines, Forest.outlines, List.map_map]
  rfl

/-- With unique ids, an id leads to the one node that has it. -/
theorem find?_eq_some_iff (hUnique : g.UniqueIds) {id : String} {n : Node} :
    g.find? id = some n ↔ n ∈ g.allNodes ∧ n.id = id := by
  rw [find?, Forest.find?_eq_preorder]
  exact find?_key_eq_some_iff hUnique

/-- An id leads nowhere exactly when no node has it. -/
theorem find?_eq_none_iff {id : String} : g.find? id = none ↔ ∀ n ∈ g.allNodes, n.id ≠ id :=
  Forest.find?_eq_none_iff

/-- A container is found where the first node of the id is one. -/
theorem container?_eq_find? {id : String} {c : Container Node} :
    g.container? id = some c ↔ g.find? id = some (.graph c) := by
  rw [container?, Option.bind_eq_some_iff]
  constructor
  · rintro ⟨n, hn, hc⟩
    -- a code node under the id is no container
    cases n with
    | code _ => cases hc
    | graph k =>
      cases hc
      exact hn
  · intro h
    exact ⟨.graph c, h, rfl⟩

/-- With unique ids, an id leads to the one container that has it. -/
theorem container?_eq_some_iff (hUnique : g.UniqueIds) {id : String} {c : Container Node} :
    g.container? id = some c ↔ .graph c ∈ g.allNodes ∧ c.core.id = id :=
  container?_eq_find?.trans (find?_eq_some_iff hUnique)

/-- With a new id beside them, the ids are unique still. -/
theorem UniqueIds.of_perm_cons (hUnique : g.UniqueIds) {id : String}
    (hNew : ∀ n ∈ g.allNodes, n.id ≠ id) {k : FlowGraph}
    (h : (k.allNodes.map (·.id)).Perm (id :: g.allNodes.map (·.id))) : k.UniqueIds := by
  rw [UniqueIds, h.nodup_iff, List.nodup_cons]
  refine ⟨fun hMem => ?_, hUnique⟩
  obtain ⟨n, hn, hId⟩ := List.mem_map.mp hMem
  exact hNew n hn hId

/-- Two nodes of a graph with unique ids are the same if their ids are. -/
theorem UniqueIds.eq_of_id_eq (hUnique : g.UniqueIds) {n m : Node} (hn : n ∈ g.allNodes)
    (hm : m ∈ g.allNodes) (h : n.id = m.id) : n = m :=
  List.inj_on_of_nodup_map hUnique hn hm h

/-- The children of a container in the graph are in the graph. -/
theorem mem_allNodes_of_mem_inside {c : Container Node} {n : Node} (hc : .graph c ∈ g.allNodes)
    (hn : n ∈ c.inside.nodes) : n ∈ g.allNodes :=
  Forest.mem_preorder_child hn _ hc

/-- What is checked of every node that is a container holds of every container. -/
theorem forall_containers {P : Container Node → Prop}
    (h : ∀ n ∈ g.allNodes, ∀ c ∈ n.graph?, P c) : ∀ c, .graph c ∈ g.allNodes → P c :=
  fun c hc => h _ hc c rfl

/-- The nodes of a scope are in the graph. -/
theorem mem_allNodes_of_scope? {scope : ScopeId} {content : Scope Node} {n : Node}
    (hContent : g.scope? scope = some content) (hn : n ∈ content.nodes) : n ∈ g.allNodes := by
  cases scope with
  | none => cases hContent; exact Forest.mem_preorder_of_mem hn
  | some id =>
    obtain ⟨c, hc, rfl⟩ := Option.map_eq_some_iff.1 hContent
    obtain ⟨m, hm, hmc⟩ := Option.bind_eq_some_iff.1 hc
    cases m with
    | code _ => cases hmc
    | graph k => cases hmc; exact mem_allNodes_of_mem_inside (Forest.mem_preorder_of_find? _ hm) hn

/-- With unique ids no container has its own id below it. -/
theorem UniqueIds.not_mem_descendantIds (hUnique : g.UniqueIds) {c : Container Node}
    (hc : .graph c ∈ g.allNodes) : c.core.id ∉ c.descendantIds := by
  have hPart := (Forest.preorder_sublist _ hc).map (·.id)
  rw [Node.preorder_graph, List.map_cons] at hPart
  exact (List.nodup_cons.mp (hUnique.sublist hPart)).1

/-- The nodes of one container have different ids. -/
theorem UniqueIds.inside (hUnique : g.UniqueIds) {c : Container Node}
    (hc : .graph c ∈ g.allNodes) : ((Forest.preorder c.inside.nodes).map (·.id)).Nodup := by
  have hPart := (Forest.preorder_sublist _ hc).map (·.id)
  rw [Node.preorder_graph, List.map_cons] at hPart
  exact (List.nodup_cons.mp (hUnique.sublist hPart)).2

/-- With unique ids, the scope of a container in the graph is its inside. -/
theorem UniqueIds.scope?_inside (hUnique : g.UniqueIds) {c : Container Node}
    (hc : .graph c ∈ g.allNodes) : g.scope? (some c.core.id) = some c.inside := by
  rw [scope?, (container?_eq_some_iff hUnique).2 ⟨hc, rfl⟩]
  rfl

/-- With unique ids in the graph, ids are unique in each scope and below. -/
theorem UniqueIds.scope (hUnique : g.UniqueIds) {scope : ScopeId} {content : Scope Node}
    (hContent : g.scope? scope = some content) :
    ((Forest.preorder content.nodes).map (·.id)).Nodup := by
  cases scope with
  | none => cases hContent; exact hUnique
  | some id =>
    obtain ⟨c, hc, rfl⟩ := Option.map_eq_some_iff.1 hContent
    exact hUnique.inside ((container?_eq_some_iff hUnique).1 hc).1

/-- The scope of a node is the one whose content has it. -/
theorem scopeOf?_eq_some_iff (hUnique : g.UniqueIds) {id : String} {scope : ScopeId} :
    g.scopeOf? id = some scope ↔
      ∃ content n, g.scope? scope = some content ∧ n ∈ content.nodes ∧ n.id = id := by
  -- the walk lists each id once, so the first hit is the only one
  have hKeys : ((Forest.placed none g.root.nodes).map (·.2.id)).Nodup := by
    have h := Forest.map_snd_placed none g.root.nodes
    rwa [UniqueIds, allNodes, ← h, List.map_map] at hUnique
  rw [scopeOf?, Forest.scopeOf?_eq_placed, Option.map_eq_some_iff]
  constructor
  · rintro ⟨⟨place, n⟩, hFind, rfl⟩
    obtain ⟨hMem, hId⟩ := (find?_key_eq_some_iff hKeys).1 hFind
    rcases (Forest.mem_placed_iff _).1 hMem with ⟨rfl, hn⟩ | ⟨c, hc, rfl, hn⟩
    · exact ⟨g.root, n, rfl, hn, hId⟩
    · exact ⟨c.inside, n, hUnique.scope?_inside hc, hn, hId⟩
  · rintro ⟨content, n, hContent, hn, hId⟩
    refine ⟨(scope, n), (find?_key_eq_some_iff hKeys).2 ⟨?_, hId⟩, rfl⟩
    rw [Forest.mem_placed_iff]
    cases scope with
    | none => cases hContent; exact .inl ⟨rfl, hn⟩
    | some outer =>
      obtain ⟨c, hc, rfl⟩ := Option.map_eq_some_iff.1 hContent
      obtain ⟨hMem, rfl⟩ := (container?_eq_some_iff hUnique).1 hc
      exact .inr ⟨c, hMem, rfl, hn⟩

/-- Each node stands in the content of its scope. -/
theorem exists_scope (hUnique : g.UniqueIds) {n : Node} (hn : n ∈ g.allNodes) :
    ∃ scope content, g.scopeOf? n.id = some scope ∧ g.scope? scope = some content ∧
      n ∈ content.nodes := by
  -- the placed walk passes every node
  have hPlaced : n ∈ (Forest.placed none g.root.nodes).map (·.2) := by
    rw [Forest.map_snd_placed]
    exact hn
  obtain ⟨⟨scope, m⟩, hMem, rfl⟩ := List.mem_map.mp hPlaced
  have hContent : ∃ content, g.scope? scope = some content ∧ m ∈ content.nodes := by
    rcases (Forest.mem_placed_iff _).mp hMem with ⟨rfl, hm⟩ | ⟨c, hc, rfl, hm⟩
    · exact ⟨g.root, rfl, hm⟩
    · exact ⟨c.inside, hUnique.scope?_inside hc, hm⟩
  obtain ⟨content, hScope, hm⟩ := hContent
  exact ⟨scope, content, (scopeOf?_eq_some_iff hUnique).2 ⟨content, m, hScope, hm, rfl⟩, hScope, hm⟩

/-- No scope is that of a node which is, or is below, one of its own. -/
theorem UniqueIds.scope_ne_of_mem_preorder (hUnique : g.UniqueIds) {scope : ScopeId}
    {content : Scope Node} (hContent : g.scope? scope = some content) {n : Node}
    (hn : n ∈ content.nodes) : ∀ m ∈ n.preorder, scope ≠ some m.id := by
  rintro m hm rfl
  obtain ⟨e, he, rfl⟩ := Option.map_eq_some_iff.1 hContent
  obtain ⟨hMem, hId⟩ := (container?_eq_some_iff hUnique).1 he
  refine hUnique.not_mem_descendantIds hMem (List.mem_map.mpr ⟨m, ?_, hId.symm⟩)
  exact Forest.mem_preorder_of_tree hn hm

/-- No container stands inside of itself. -/
theorem UniqueIds.scope_ne (hUnique : g.UniqueIds) {scope : ScopeId} {content : Scope Node}
    {c : Container Node} (hContent : g.scope? scope = some content)
    (hc : .graph c ∈ content.nodes) :
    scope ≠ some c.core.id :=
  hUnique.scope_ne_of_mem_preorder hContent hc _ (Node.mem_preorder_self _)

/-! ## Putting a container back -/

/-- A container put in the place of one with the same face changes the outlines
of that container and of what is below it, and no other. -/
theorem putContainer?_outlines {e e' : Container Node} (hFind : g.container? e.core.id = some e)
    (hFace : (Node.graph e').face = (Node.graph e).face) :
    ∃ nodes rest, g.putContainer? e' = some (g.withNodes nodes) ∧
      nodes.map Node.face = g.root.nodes.map Node.face ∧
      g.outlines.Perm ((Node.graph e).outline :: Forest.outlines e.inside.nodes ++ rest) ∧
      (g.withNodes nodes).outlines.Perm
        ((Node.graph e').outline :: Forest.outlines e'.inside.nodes ++ rest) := by
  have hId : e'.core.id = e.core.id := congrArg Face.id hFace
  have hNode := container?_eq_find?.mp hFind
  obtain ⟨nodes, before, before', after, hUpdate, hFaces, hPre, hPre', hOut⟩ :=
    Forest.update?_split (f := fun _ => .graph e') hFace _ hNode
  -- the stretch of the node is brought to the front
  have hFront : ∀ (b : List Node) (k : Container Node),
      ((b ++ (Node.graph k).preorder ++ after).map Node.outline).Perm
        ((Node.graph k).outline :: Forest.outlines k.inside.nodes ++
          (b.map Node.outline ++ after.map Node.outline)) := by
    intro b k
    rw [Node.preorder_graph, List.map_append, List.map_append, List.map_cons, List.append_assoc]
    exact List.perm_append_comm_assoc _ _ _
  refine ⟨nodes, before.map Node.outline ++ after.map Node.outline, ?_, hFaces, ?_, ?_⟩
  · rw [putContainer?, update?, hId, hUpdate]; rfl
  · rw [outlines, Forest.outlines, hPre]
    exact hFront before e
  · rw [outlines, Forest.outlines]
    show ((Forest.preorder nodes).map Node.outline).Perm _
    rw [hPre', ← hOut]
    exact hFront before' e'

/-- The container that was put is there. -/
theorem mem_allNodes_of_putContainer? {g' : FlowGraph} {e e' : Container Node}
    (hFind : g.container? e.core.id = some e)
    (hFace : (Node.graph e').face = (Node.graph e).face) (hPut : g.putContainer? e' = some g') :
    .graph e' ∈ g'.allNodes := by
  have hId : e'.core.id = e.core.id := congrArg Face.id hFace
  have hNode := container?_eq_find?.mp hFind
  -- the walk is the old one with the new container in the place of the old one
  obtain ⟨nodes, before, before', after, hUpdate, -, -, hPre', -⟩ :=
    Forest.update?_split (f := fun _ => .graph e') hFace _ hNode
  rw [putContainer?, update?, hId, hUpdate] at hPut
  cases hPut
  show .graph e' ∈ Forest.preorder nodes
  rw [hPre', List.append_assoc]
  exact List.mem_append_right _ (List.mem_append_left _ (Node.mem_preorder_self _))

/-- Of two containers put in one place, the second stays. -/
theorem putContainer?_putContainer? {g' : FlowGraph} {e e' : Container Node}
    (hPut : g.putContainer? e = some g') (hId : e'.core.id = e.core.id) :
    g'.putContainer? e' = g.putContainer? e' := by
  obtain ⟨nodes, hNodes, rfl⟩ := Option.map_eq_some_iff.1 hPut
  rw [putContainer?, putContainer?, update?, update?, hId]
  have hKeeps : ∀ m : Node, ((fun _ : Node => Node.graph e) m).id = e.core.id := fun _ => rfl
  have hTwice := Forest.update?_update? (h := fun _ => .graph e') hKeeps _ _ hNodes
  show (Forest.update? e.core.id _ nodes).map _ = _
  rw [hTwice]
  rfl

end FlowGraph

end FlowNest
