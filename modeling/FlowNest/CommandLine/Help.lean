import FlowNest.Settings

/-!
# FlowNest — help on the command line

The lines printed for one who asks for help: what the program does, its
arguments and options, and the variables of the environment it looks at.
-/

namespace FlowNest.CommandLine

def usageLine : String := "Usage: flow_status [OPTIONS] <graph.json>"

/-- A name, filled up to a column, in front of what it means. -/
def entry (width : Nat) (name meaning : String) : String :=
  "  " ++ name ++ String.ofList (List.replicate (width - name.length) ' ') ++ meaning

/-- The options with their values. -/
def optionLines : List String :=
  [entry 20 "    --group <IDS>"
      "Comma-separated ids of sibling nodes to group into a new graph node",
    entry 20 "    --name <NAME>" "Name of the graph node created by --group [default: Group]",
    entry 20 "    --ungroup <ID>" "Id of a graph node to expand into its parent scope",
    entry 20 "    --out <FILE>" "Write the resulting graph here",
    entry 20 "-h, --help" "Print help"]

/-- The variables of the environment, with what holds without them. -/
def variableLines : List String :=
  [entry 26 Settings.pauseBufferSizeKey "Pause buffer size of the new container (default: 100).",
    entry 26 Settings.speedAttenuationKey
      "Speed attenuation of the new container in ms (default: 0).",
    entry 26 Settings.autoResumeKey "true/false (default: false).",
    entry 26 Settings.marginKey "Margin around grouped children (default: 50)."]

def helpLines : List String :=
  ["Inspect, validate and edit a flow graph snapshot", "", usageLine, "", "Arguments:",
    "  <graph.json>  Path to the flow graph JSON snapshot", "", "Options:"] ++ optionLines ++
    ["", "Environment variables (used for containers created by --group):"] ++ variableLines ++
    ["", "Examples:", "  flow_status flow.json",
      "  flow_status --group a,b --name Parser --out grouped.json flow.json",
      "  flow_status --ungroup 6f1c... --out flat.json grouped.json"]

end FlowNest.CommandLine
