import FlowNest.Proofs.Spread

/-!
# FlowNest — places in a graph

A place in a graph is a way down to a node: the number of a tree at the root, then numbers
of children. Nodes and ids may repeat, places do not, so the places say which node a search
has found and what an edit of that node leaves alone.

* `Node.sites`, `FlowGraph.sites` — all nodes in pre-order, each with its place;
* `FlowGraph.place?`              — the place of the first node with an id;
* `FlowGraph.ReplacedAt`          — one graph is another one but for the node at a place;
* `FlowGraph.mem_sites_iff`       — the places are those where a node stands;
* `Gap.replacedAt`                — two fillings of a gap differ in this way;
* `Gap.Clear.place?_fill`         — a search that comes to a gap finds its place.
-/

namespace FlowNest

/-! ## Sites -/

mutual

/-- A node and all below it in pre-order, each with its place. -/
def Node.sites : Node → List (List Nat × Node)
  | .code c => [([], .code c)]
  | .graph ⟨core, boundary, ⟨nodes, connections⟩⟩ =>
    ([], .graph ⟨core, boundary, ⟨nodes, connections⟩⟩) :: Forest.sites 0 nodes

/-- The nodes of trees that are numbered from `first` on, each with its place. -/
def Forest.sites (first : Nat) : List Node → List (List Nat × Node)
  | [] => []
  | n :: rest => n.sites.map (fun s => (first :: s.1, s.2)) ++ Forest.sites (first + 1) rest

end

mutual

/-- The nodes at the places of a tree are its nodes in pre-order. -/
theorem Node.map_snd_sites : ∀ n : Node, n.sites.map (·.2) = n.preorder
  | .code c => rfl
  | .graph ⟨core, boundary, ⟨nodes, connections⟩⟩ => by
    rw [Node.sites, Node.preorder, List.map_cons, Forest.map_snd_sites 0 nodes]

/-- Without their places these are all nodes in pre-order. -/
theorem Forest.map_snd_sites (first : Nat) :
    ∀ nodes : List Node, (Forest.sites first nodes).map (·.2) = Forest.preorder nodes
  | [] => rfl
  | n :: rest => by
    rw [Forest.sites, Forest.preorder, List.map_append, List.map_map,
      Forest.map_snd_sites (first + 1) rest, ← Node.map_snd_sites n]
    rfl

end

/-- The places in trees are those in each tree, behind its number. -/
theorem Forest.sites_eq_flatMap (first : Nat) (nodes : List Node) :
    Forest.sites first nodes =
      (nodes.zipIdx first).flatMap fun x => x.1.sites.map fun s => (x.2 :: s.1, s.2) := by
  induction nodes generalizing first with
  | nil => rfl
  | cons n rest ih => rw [Forest.sites, ih, List.zipIdx_cons, List.flatMap_cons]

/-- The places in further trees go on where the numbers stop. -/
theorem Forest.sites_append (first : Nat) (left right : List Node) :
    Forest.sites first (left ++ right) =
      Forest.sites first left ++ Forest.sites (first + left.length) right := by
  rw [sites_eq_flatMap, sites_eq_flatMap, sites_eq_flatMap, List.zipIdx_append, List.flatMap_append]

/-- The places in a tree are its top and those in its children. -/
theorem Node.sites_eq (n : Node) : n.sites = ([], n) :: Forest.sites 0 n.children := by
  cases n with
  | code c => rfl
  | graph g => rfl

/-- The node at a place of a forest. The trees themselves stand at the places of length one. -/
def Forest.at? (nodes : List Node) : List Nat → Option Node
  | [] => none
  | i :: path => nodes[i]?.bind (·.at? path)

/-- Below a node are the places of its children. -/
theorem Node.at?_cons (n : Node) (i : Nat) (path : List Nat) :
    n.at? (i :: path) = Forest.at? n.children (i :: path) :=
  rfl

theorem Forest.mem_sites_iff_of_trees {nodes : List Node} {place : List Nat} {m : Node}
    (h : ∀ n ∈ nodes, ∀ path, path.length < place.length →
      ((path, m) ∈ n.sites ↔ n.at? path = some m)) :
    (place, m) ∈ Forest.sites 0 nodes ↔ Forest.at? nodes place = some m := by
  rw [sites_eq_flatMap, List.mem_flatMap]
  cases place with
  | nil => simp [at?]
  | cons i path =>
    rw [at?, Option.bind_eq_some_iff]
    -- a place in a forest is the number of a tree and a place in it
    constructor
    · rintro ⟨⟨n, j⟩, hTree, hSite⟩
      obtain ⟨⟨path', m'⟩, hMem, hSame⟩ := List.mem_map.mp hSite
      cases hSame
      have hTree' := List.mem_zipIdx_iff_getElem?.mp hTree
      exact ⟨n, hTree', (h n (List.mem_of_getElem? hTree') _ (Nat.lt_succ_self _)).mp hMem⟩
    · rintro ⟨n, hTree, hAt⟩
      refine ⟨(n, i), List.mem_zipIdx_iff_getElem?.mpr hTree, List.mem_map.mpr ⟨(path, m), ?_, rfl⟩⟩
      exact (h n (List.mem_of_getElem? hTree) _ (Nat.lt_succ_self _)).mpr hAt

/-- A node is listed with a place if it stands there. -/
theorem Node.mem_sites_iff {n m : Node} {path : List Nat} :
    (path, m) ∈ n.sites ↔ n.at? path = some m := by
  -- the way is what gets shorter, the tree is any
  induction hLength : path.length using Nat.strong_induction_on generalizing n path with
  | _ k ih =>
    have hChildren : (path, m) ∈ Forest.sites 0 n.children ↔
        Forest.at? n.children path = some m := by
      refine Forest.mem_sites_iff_of_trees fun child _ path' hShort => ?_
      exact ih path'.length (hLength ▸ hShort) rfl
    rw [sites_eq, List.mem_cons, hChildren]
    cases path with
    | nil => simp [at?, Forest.at?, eq_comm]
    | cons i path => simp [at?_cons]

/-- The places in trees are those where a node stands. -/
theorem Forest.mem_sites_iff {nodes : List Node} {place : List Nat} {m : Node} :
    (place, m) ∈ Forest.sites 0 nodes ↔ Forest.at? nodes place = some m :=
  mem_sites_iff_of_trees fun _ _ _ _ => Node.mem_sites_iff

/-! ## Places of a graph -/

namespace FlowGraph

/-- All nodes in pre-order, each with its place. -/
def sites (g : FlowGraph) : List (List Nat × Node) :=
  Forest.sites 0 g.root.nodes

/-- The node at a place. -/
def at? (g : FlowGraph) (place : List Nat) : Option Node :=
  Forest.at? g.root.nodes place

/-- The place of the first node with the id, in pre-order. -/
def place? (g : FlowGraph) (id : String) : Option (List Nat) :=
  (g.sites.find? (·.2.id = id)).map (·.1)

/-- `g'` is `g` with the node `n'`, and all below it, at a place. A node on the way there is
the same but for what it holds inside, and all others are the same, at the same places. -/
structure ReplacedAt (g g' : FlowGraph) (place : List Nat) (n' : Node) : Prop where
  here : ∀ path, g'.at? (place ++ path) = n'.at? path
  above : ∀ part, part <+: place → part ≠ place →
    (g'.at? part).map Node.hollow = (g.at? part).map Node.hollow
  beside : ∀ other, ¬ other <+: place → ¬ place <+: other → g'.at? other = g.at? other
  rest : g' = g.withNodes g'.root.nodes

/-- The sites list the nodes in the order in which a search comes to them. -/
theorem map_snd_sites (g : FlowGraph) : g.sites.map (·.2) = g.allNodes :=
  Forest.map_snd_sites 0 g.root.nodes

/-- The places of a graph are those where a node stands. -/
theorem mem_sites_iff {g : FlowGraph} {place : List Nat} {n : Node} :
    (place, n) ∈ g.sites ↔ g.at? place = some n :=
  Forest.mem_sites_iff

end FlowGraph

/-! ## Places around a gap -/

/-- A place below the top is one among the children. -/
theorem Node.at?_of_ne_nil {n : Node} {path : List Nat} (h : path ≠ []) :
    n.at? path = Forest.at? n.children path := by
  cases path with
  | nil => exact absurd rfl h
  | cons i path => exact n.at?_cons i path

namespace Forest

variable {left right : List Node} {top : Node}

/-- In the middle of trees, a place is one in the tree there. -/
theorem at?_middle (path : List Nat) :
    at? (left ++ top :: right) (left.length :: path) = top.at? path := by
  rw [at?, List.getElem?_append_right (Nat.le_refl _), Nat.sub_self]
  rfl

/-- At other numbers the tree in the middle does not count. -/
theorem at?_aside {other : Node} {i : Nat} (hi : i ≠ left.length) (path : List Nat) :
    at? (left ++ top :: right) (i :: path) = at? (left ++ other :: right) (i :: path) := by
  rw [at?, at?]
  refine congrArg (Option.bind · _) ?_
  rcases Nat.lt_or_gt_of_ne hi with hLess | hMore
  · rw [List.getElem?_append_left hLess, List.getElem?_append_left hLess]
  · -- behind the trees of the middle there is at least one step
    rw [List.getElem?_append_right hMore.le, List.getElem?_append_right hMore.le]
    obtain ⟨k, hk⟩ := Nat.exists_eq_succ_of_ne_zero (Nat.sub_ne_zero_of_lt hMore)
    rw [hk]
    rfl

/-- An id that is not found stands at no place. -/
theorem find?_sites_eq_none {id : String} {nodes : List Node} (h : Forest.find? id nodes = none)
    (first : Nat) : (sites first nodes).find? (·.2.id = id) = none := by
  rw [find?_eq_preorder, ← map_snd_sites first, List.find?_map, Option.map_eq_none_iff] at h
  exact h

/-- An id that is not found before is found first in the tree in the middle. -/
theorem find?_sites_middle {id : String} (hLeft : Forest.find? id left = none) {path : List Nat}
    {m : Node} (hTop : top.sites.find? (·.2.id = id) = some (path, m)) :
    (sites 0 (left ++ top :: right)).find? (·.2.id = id) = some (left.length :: path, m) := by
  -- numbering the tree changes its places and not its nodes, so the search stops at the same one
  have hNumbered : (top.sites.map fun s => (left.length :: s.1, s.2)).find? (·.2.id = id) =
      some (left.length :: path, m) := by
    rw [List.find?_map]
    show Option.map _ (top.sites.find? fun s => decide (s.2.id = id)) = _
    rw [hTop]
    rfl
  rw [sites_append, List.find?_append, find?_sites_eq_none hLeft, Option.none_or, sites,
    List.find?_append, Nat.zero_add, hNumbered]
  rfl

end Forest

namespace Gap

/-- The place of what fills the gap. -/
def place : Gap → List Nat
  | .here left _ => [left.length]
  | .inside left _ _ gap _ _ => left.length :: gap.place

/-- The gap in a graph is below the root. -/
theorem place_ne_nil (gap : Gap) : gap.place ≠ [] := by
  cases gap <;> exact List.cons_ne_nil _ _

variable {gap : Gap} {n n' : Node}

/-- At the place of the gap and below it is what fills it. -/
theorem at?_fill (gap : Gap) (n : Node) (path : List Nat) :
    Forest.at? (gap.fill n) (gap.place ++ path) = n.at? path := by
  induction gap with
  | here left right => exact Forest.at?_middle path
  | inside left core boundary gap connections right ih =>
    rw [fill, place, List.cons_append, Forest.at?_middle, Node.at?_of_ne_nil]
    · exact ih
    · exact List.append_ne_nil_of_left_ne_nil gap.place_ne_nil path

/-- The nodes around the gap are the same but for what they hold inside. -/
theorem hollow_at?_fill {part : List Nat} (hPart : part <+: gap.place) (hAbove : part ≠ gap.place) :
    (Forest.at? (gap.fill n) part).map Node.hollow =
      (Forest.at? (gap.fill n') part).map Node.hollow := by
  induction gap generalizing part with
  | here left right =>
    cases part with
    | nil => rfl
    | cons i part =>
      -- the gap has one step only
      obtain ⟨rfl, hRest⟩ := List.cons_prefix_cons.mp hPart
      exact absurd (congrArg _ (List.prefix_nil.mp hRest)) hAbove
  | inside left core boundary gap connections right ih =>
    cases part with
    | nil => rfl
    | cons i part =>
      obtain ⟨rfl, hRest⟩ := List.cons_prefix_cons.mp hPart
      have hRestAbove : part ≠ gap.place := fun hSame => hAbove (congrArg _ hSame)
      rw [fill, fill, Forest.at?_middle, Forest.at?_middle]
      cases part with
      | nil => rfl
      | cons j part => exact ih hRest hRestAbove

/-- Apart from the gap all places are as they were, whatever fills it. -/
theorem at?_fill_of_apart {other : List Nat} (hAbove : ¬ other <+: gap.place)
    (hBelow : ¬ gap.place <+: other) :
    Forest.at? (gap.fill n) other = Forest.at? (gap.fill n') other := by
  induction gap generalizing other with
  | here left right =>
    cases other with
    | nil => rfl
    | cons i other =>
      refine Forest.at?_aside (fun hSame => hBelow ?_) other
      exact List.cons_prefix_cons.mpr ⟨hSame.symm, List.nil_prefix⟩
  | inside left core boundary gap connections right ih =>
    cases other with
    | nil => rfl
    | cons i other =>
      -- the two places part here, or go down the same child
      by_cases hSame : i = left.length
      · subst hSame
        rw [place, List.cons_prefix_cons, not_and] at hAbove hBelow
        rw [fill, fill, Forest.at?_middle, Forest.at?_middle]
        cases other with
        | nil => exact absurd List.nil_prefix (hAbove rfl)
        | cons j other => exact ih (hAbove rfl) (hBelow rfl)
      · exact Forest.at?_aside hSame other

/-- Two fillings of a gap differ at its place. -/
theorem replacedAt (gap : Gap) (g : FlowGraph) (n n' : Node) :
    (g.withNodes (gap.fill n)).ReplacedAt (g.withNodes (gap.fill n')) gap.place n' where
  here := gap.at?_fill n'
  above _ := hollow_at?_fill
  beside _ := at?_fill_of_apart
  rest := rfl

/-- A search that comes to the gap, and takes what fills it, finds the place of the gap. -/
theorem Clear.place?_fill {id : String} (h : gap.Clear id) (hId : n.id = id) (g : FlowGraph) :
    (g.withNodes (gap.fill n)).place? id = some gap.place := by
  have hFind : (Forest.sites 0 (gap.fill n)).find? (·.2.id = id) = some (gap.place, n) := by
    induction gap with
    | here left right =>
      refine Forest.find?_sites_middle h ?_
      rw [Node.sites_eq]
      exact List.find?_cons_of_pos (decide_eq_true hId)
    | inside left core boundary gap connections right ih =>
      obtain ⟨hLeft, hCore, hGap⟩ := h
      refine Forest.find?_sites_middle hLeft ?_
      rw [Node.sites_eq]
      -- the node around the gap has another id
      refine (List.find?_cons_of_neg ?_).trans (ih hGap)
      exact fun hSame => hCore (of_decide_eq_true hSame)
  show ((Forest.sites 0 (gap.fill n)).find? _).map _ = _
  rw [hFind]
  rfl

end Gap

end FlowNest
