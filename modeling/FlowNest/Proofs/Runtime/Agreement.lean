import FlowNest.Proofs.Reach
import FlowNest.Proofs.Rules
import FlowNest.Registry

/-!
# FlowNest — a graph and the registry of its running nodes

A command goes two ways. In the graph it is pushed down and stops at independent nodes;
in the registry it is told to every node. So where both agreed before, they agree
afterwards about the nodes that the push reaches, and about an exempt one only if it was
in the state of the command already. Any other exempt node is driven on by the registry,
while the graph has it where it was.

* `Registry.stateOf?_forward`     — what a command does to the registry;
* `Controller.agrees_iff_reached` — where graph and registry agree after a command;
* `Controller.exists_disagreement` — they need not agree everywhere.
-/

namespace FlowNest

namespace Registry

/-- Telling all nodes detaches and attaches none. -/
theorem isOf_tell (x : Registration) (state : ExecutionState) (node : String) :
    (x.tell state).isOf node = x.isOf node := by
  rw [Registration.tell]
  split <;> rfl

theorem contains_broadcast (r : Registry) (state : ExecutionState) (node : String) :
    (r.broadcast state).contains node = r.contains node := by
  rw [contains, contains, broadcast, List.any_map]
  exact congrArg (r.registrations.any ·) (funext fun x => isOf_tell x state node)

theorem stateOf?_broadcast {r : Registry} {node : String} (h : r.contains node = true)
    (state : ExecutionState) : (r.broadcast state).stateOf? node = some state := by
  obtain ⟨x, hx⟩ := Option.isSome_iff_exists.mp (List.isSome_find?.trans h)
  have hOf := List.find?_some hx
  have hAttached : x.attached = true := (Bool.and_eq_true_iff.mp hOf).1
  have hFind : (r.broadcast state).registrations.find? (·.isOf node) = some (x.tell state) := by
    rw [broadcast, List.find?_map]
    -- telling a state changes neither the node of a registration nor whether it is attached
    have hSame : (fun y : Registration => y.isOf node) ∘ Registration.tell state =
        fun y : Registration => y.isOf node := funext fun y => isOf_tell y state node
    rw [hSame, hx]
    rfl
  rw [stateOf?, hFind, Registration.tell, if_pos hAttached]
  rfl

/-- A command that is passed on tells its state to every node that is registered. -/
theorem stateOf?_forward {r : Registry} {command : Command} (hForwarded : command ≠ .start)
    {node : String} (h : r.contains node = true) :
    (command.forward r).contains node = true ∧
      (command.forward r).stateOf? node = some command.state := by
  cases command with
  | start => exact absurd rfl hForwarded
  | pause => exact ⟨(contains_broadcast r .paused node).trans h, stateOf?_broadcast h .paused⟩
  | resume => exact ⟨(contains_broadcast r .running node).trans h, stateOf?_broadcast h .running⟩
  | stop => exact ⟨(contains_broadcast r .idle node).trans h, stateOf?_broadcast h .idle⟩

end Registry

namespace Controller

/-- The registry has every node it knows in the state in which the graph has it. -/
def Agrees (g : FlowGraph) (r : Registry) : Prop :=
  ∀ id, r.contains id = true → ∃ n, g.find? id = some n ∧ r.stateOf? id = some n.core.state

variable {g : FlowGraph} {r : Registry} {command : Command}

/-- After a command that is passed on, every node that is registered is in its state as far
as the registry goes. In the graph it is so if the push reaches it, and is as it was if
not. So they agree about the nodes that are reached, and about those that were in that
state before. -/
theorem agrees_iff_reached (hUnique : g.UniqueIds) (hAgrees : Agrees g r)
    (hForwarded : command ≠ .start) :
    ∃ r', (Controller.command ⟨g, some r⟩ command).registry = some r' ∧
      ∀ id, r.contains id = true → ∃ n n', g.find? id = some n ∧
        (Controller.command ⟨g, some r⟩ command).graph.find? id = some n' ∧
        (g.Reaches n → n'.core = { n.core with state := command.state }) ∧
        (¬ g.Reaches n → n' = n) ∧
        r'.contains id = true ∧ r'.stateOf? id = some command.state ∧
        (r'.stateOf? id = some n'.core.state ↔ g.Reaches n ∨ n.core.state = command.state) := by
  refine ⟨command.forward r, rfl, ?_⟩
  intro id hContains
  obtain ⟨n, hn, -⟩ := hAgrees id hContains
  obtain ⟨hContains', hState⟩ := Registry.stateOf?_forward hForwarded hContains
  -- the registry tells every node, the graph only those the push reaches
  rcases FlowGraph.find?_withState hUnique command.state hn with
    ⟨hReached, hFind⟩ | ⟨hExempt, hFind⟩
  · refine ⟨n, _, hn, hFind, fun _ => Node.core_push n, absurd hReached, hContains', hState, ?_⟩
    rw [hState, Node.core_push]
    exact iff_of_true rfl (.inl hReached)
  · refine ⟨n, n, hn, hFind, fun h => absurd h hExempt, fun _ => rfl, hContains', hState, ?_⟩
    rw [hState, Option.some_inj, or_iff_right hExempt]
    exact eq_comm

/-! ## A disagreement -/

/-- A drill that is exempt from what is pushed down to it. -/
def manualDrill : Node :=
  .code { CodeNode.of "drill" "drill" "Stage" .origin with
    core := { NodeCore.of "drill" "drill" "Stage" .origin with
      parent := some "line"
      control := ControlConfig.standard.withIndependence true }
    inputs := [Port.of "drill" "in" .input .any]
    outputs := [Port.of "drill" "out" .output .any] }

/-- The plant with that drill. -/
def manualPlant : FlowGraph :=
  { FlowGraph.plant with
    root := { FlowGraph.plant.root with
      nodes := [.graph { FlowGraph.line with
        inside := { FlowGraph.line.inside with
          nodes := [FlowGraph.stage "mill" (some "line"), manualDrill] } }] } }

/-- Its mill and its drill are registered. -/
def manualRegistry : Registry :=
  ((Registry.empty.register "mill" .standard).1.register "drill" .standard).1

theorem manualPlant_uniqueIds : manualPlant.UniqueIds := by
  decide +kernel

theorem agrees_manualPlant : Agrees manualPlant manualRegistry := by
  intro id hContains
  have hId : id = "mill" ∨ id = "drill" := by
    rw [Registry.contains, List.any_eq_true] at hContains
    obtain ⟨x, hx, hOf⟩ := hContains
    -- two nodes are registered, so there are two ids to look at
    have hNode : x.node = "mill" ∨ x.node = "drill" := by
      rcases List.mem_cons.mp hx with rfl | hx
      · exact .inl rfl
      · exact .inr (List.mem_singleton.mp hx ▸ rfl)
    have hSame : x.node = id := of_decide_eq_true (Bool.and_eq_true_iff.mp hOf).2
    rwa [hSame] at hNode
  rcases hId with rfl | rfl
  · exact ⟨FlowGraph.stage "mill" (some "line"), rfl, by decide +kernel⟩
  · exact ⟨manualDrill, rfl, by decide +kernel⟩

/-- The drill is paused by the registry alone. -/
theorem manualPlant_agrees_iff_reached :
    manualRegistry.contains "drill" = true ∧
      ∃ r', (Controller.command ⟨manualPlant, some manualRegistry⟩ .pause).registry = some r' ∧
        r'.stateOf? "drill" = some .paused := by
  have hContains : manualRegistry.contains "drill" = true := by decide +kernel
  have hForwarded : Command.pause ≠ .start := by decide
  obtain ⟨r', hRegistry, hAll⟩ :=
    agrees_iff_reached manualPlant_uniqueIds agrees_manualPlant hForwarded
  obtain ⟨-, -, -, -, -, -, -, hState, -⟩ := hAll "drill" hContains
  exact ⟨hContains, r', hRegistry, hState⟩

/-- Graph and registry may disagree after a command, although they agreed before. -/
theorem exists_disagreement :
    ¬ ∀ (g : FlowGraph) (r : Registry) (command : Command), g.UniqueIds → Agrees g r →
      command ≠ .start → ∀ r' ∈ (Controller.command ⟨g, some r⟩ command).registry,
        Agrees (Controller.command ⟨g, some r⟩ command).graph r' := by
  intro hAll
  have hAgrees := hAll manualPlant manualRegistry .pause manualPlant_uniqueIds agrees_manualPlant
    (by decide) (manualRegistry.broadcast .paused) rfl
  obtain ⟨n, hn, hState⟩ := hAgrees "drill" (by decide +kernel)
  -- the drill is still idle in the graph
  obtain rfl : manualDrill = n := Option.some.inj (Eq.trans (by rfl) hn)
  exact absurd hState (by decide +kernel)

end Controller

end FlowNest
