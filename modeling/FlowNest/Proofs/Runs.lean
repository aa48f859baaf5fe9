import FlowNest.Proofs.Control
import FlowNest.Proofs.Grouping.Upkeep

/-!
# FlowNest — runs of edits

A graph is edited by grouping, by ungrouping, and by control, one step after the
other and in any order. A built graph stays built all the way, so validation finds
nothing to say about any graph that comes up.

* `FlowGraph.Step`          — the steps;
* `FlowGraph.wellMade_of_step` — each keeps what the next one needs;
* `FlowGraph.built_of_run`  — so all graphs of a run are built.
-/

namespace FlowNest

namespace FlowGraph

/-- A step of editing that succeeds. A grouping gives its container an id that no
node has, a name, and at least one port. -/
inductive Step (g : FlowGraph) : FlowGraph → Prop where
  | group {ids : List String} {id name : String} {settings : Settings} {g' : FlowGraph}
      (hId : Text.isBlank id = false) (hNew : ∀ n ∈ g.allNodes, n.id ≠ id)
      (hName : Text.isBlank name = false) (hGroup : g.group ids id name settings = .ok g')
      (hPorts : ∀ c, g'.container? id = some c → c.boundary.ports ≠ []) : Step g g'
  | ungroup {id : String} {g' : FlowGraph} (hUngroup : g.ungroup id = .ok g') : Step g g'
  | command {ρ : Type} [RuntimeRegistry ρ] (registry : Option ρ) (command : Command) :
      Step g (Controller.command ⟨g, registry⟩ command).graph
  | control (control : ControlConfig) : Step g (g.withControl control)
  | nodeState {id : String} {state : ExecutionState} {g' : FlowGraph}
      (hEdit : g.setNodeState id state = .ok g') : Step g g'
  | nodeControl {id : String} {control : ControlConfig} {g' : FlowGraph}
      (hEdit : g.setNodeControl id control = .ok g') : Step g g'

variable {g g' : FlowGraph}

/-- Whatever step is made, a well-made graph stays well made. -/
theorem wellMade_of_step (hStep : g.Step g') (hg : g.WellMade) : g'.WellMade := by
  cases hStep with
  | group hId hNew hName hGroup hPorts => exact wellMade_of_group hg hId hNew hName hGroup hPorts
  | ungroup hUngroup => exact wellMade_of_ungroup hg hUngroup
  | command registry command => exact hg.of_atRest (g.atRest_withState command.state)
  | control control => exact hg.of_atRest (g.atRest_withControl control)
  | nodeState hEdit => exact hg.of_atRest (atRest_of_setNodeState hEdit)
  | nodeControl hEdit => exact hg.of_atRest (atRest_of_setNodeControl hEdit)

/-- In a run from a well-made graph all graphs are well made. -/
theorem wellMade_of_run {run : List FlowGraph} (hRun : (g :: run).IsChain Step)
    (hg : g.WellMade) : ∀ k ∈ g :: run, k.WellMade := by
  induction run generalizing g with
  | nil =>
    intro k hk
    rw [List.mem_singleton.mp hk]
    exact hg
  | cons next rest ih =>
    obtain ⟨hStep, hRest⟩ := List.isChain_cons_cons.mp hRun
    have hNext := wellMade_of_step hStep hg
    intro k hk
    rcases List.mem_cons.mp hk with rfl | hLater
    · exact hg
    · exact ih hRest hNext k hLater

/-- All graphs that come up in a run from a built graph are built. -/
theorem built_of_run {run : List FlowGraph} (hRun : (g :: run).IsChain Step) (hg : g.Built) :
    ∀ k ∈ g :: run, k.Built := by
  intro k hk
  exact built_iff.mpr (wellMade_of_run hRun (built_iff.mp hg) k hk)

/-- The mill and the drill of the plant are grouped, the line is ungrouped, and settings go to all
nodes. -/
theorem plant_built_of_run :
    ∃ g₁ g₂, plant.group ["mill", "drill"] "cell" "Cell" .standard = .ok g₁ ∧
      g₁.ungroup "line" = .ok g₂ ∧ plant.Built ∧
      ∀ k ∈ [plant, g₁, g₂, g₂.withControl .standard], k.Built := by
  -- one evaluation for both edits, the graphs in between stay closed
  have hSome : (plant.group ["mill", "drill"] "cell" "Cell" .standard >>=
      (·.ungroup "line")).toOption.isSome = true := by
    decide +kernel
  obtain ⟨g₂, hBoth⟩ := exists_eq_ok hSome
  obtain ⟨g₁, hGroup, hUngroup⟩ := bind_eq_ok.mp hBoth
  have hPorts : ∀ c ∈ (plant.group ["mill", "drill"] "cell" "Cell" .standard).toOption.bind
      (·.container? "cell"), c.boundary.ports ≠ [] := by
    decide +kernel
  rw [hGroup] at hPorts
  have hFirst : plant.Step g₁ :=
    .group (by decide) (by decide +kernel) (by decide) hGroup fun c hc => hPorts c hc
  have hRun : [plant, g₁, g₂, g₂.withControl .standard].IsChain Step :=
    .cons_cons hFirst (.cons_cons (.ungroup hUngroup)
      (.cons_cons (.control .standard) (.singleton _)))
  exact ⟨g₁, g₂, hGroup, hUngroup, plant_built, built_of_run hRun plant_built⟩

end FlowGraph

end FlowNest
