import FlowNest.CommandLine.Arguments
import FlowNest.CommandLine.Help
import FlowNest.Grouping
import FlowNest.Snapshot
import FlowNest.Status

/-!
# FlowNest — the command line

Inspects the snapshot of a graph: groups or ungroups nodes on demand, reports
validity and status, and saves the result. The outcome is a value; printing it
is left to the caller, and files are seen through a `Storage`.
-/

namespace FlowNest

/-- How a call ends: its exit code, the lines it prints, and an error line. -/
structure Outcome where
  exit : Nat
  lines : List String
  error : Option String
deriving DecidableEq

namespace CommandLine

/-- The arguments are used wrongly; nothing has been done. -/
def usage : Outcome := ⟨2, [], some usageLine⟩

/-- The answer to a question for help. -/
def help : Outcome := ⟨0, helpLines, none⟩

/-- A failure after some lines have been printed. -/
def failure (lines : List String) (what message : String) : Outcome :=
  ⟨1, lines, some (what ++ ": " ++ message)⟩

/-- The lines on validity and status. -/
def report (g : FlowGraph) : List String :=
  let issues := g.issues
  let s := g.status
  ["Flow graph " ++ g.id ++ " (" ++ g.name ++ " v" ++ g.version ++ ")"] ++
    (if issues.isEmpty then ["  Validation: ok"]
      else ("  Validation: " ++ toString issues.length ++ " error(s)") ::
        issues.map fun i => "    - " ++ i.message) ++
    ["  Nodes: " ++ toString s.total,
      "  Idle: " ++ toString s.idle ++ "  Running: " ++ toString s.running ++ "  Paused: " ++
        toString s.paused ++ "  Error: " ++ toString s.error,
      "  Independent control: " ++ toString s.independent,
      "  Overall state: " ++ s.overall.label]

/-- Groups or ungroups as asked for: the graph after it, and what is printed. -/
def edit (args : Arguments) (settings : Settings) (freshId : String) (g : FlowGraph) :
    Except Outcome (FlowGraph × List String) := do
  let (g, grouped) ←
    if args.group.isEmpty then pure (g, [])
    else match g.group args.group freshId args.name settings with
      | .ok g =>
        pure (g, ["Grouped " ++ toString args.group.length ++ " nodes into " ++ freshId])
      | .error e => throw (failure [] "Grouping failed" e.message)
  match args.ungroup with
  | none => return (g, grouped)
  | some id =>
    match g.ungroup id with
    | .ok g => return (g, grouped ++ ["Ungrouped " ++ id])
    | .error e => throw (failure grouped "Ungrouping failed" e.message)

variable {m : Type → Type} [Monad m] [Storage m]

/-- Does what a call asks for, in an environment; `freshId` is the id of a new
container. -/
def call (lookup : String → Option String) (freshId : String) (args : Arguments) :
    m Outcome := do
  match Settings.ofLookup lookup with
  | .error e => return failure [] "Invalid configuration" e.message
  | .ok settings =>
    match ← Snapshot.load args.path with
    | .error e => return failure [] "Error reading flow graph" e.message
    | .ok g =>
      match edit args settings freshId g with
      | .error outcome => return outcome
      | .ok (g, printed) =>
        -- an invalid graph is reported and saved all the same
        let lines := printed ++ report g
        let exit := if g.validate.success then 0 else 1
        match args.out with
        | none => return ⟨exit, lines, none⟩
        | some out =>
          match ← Snapshot.save out g with
          | .error e => return failure lines "Error writing flow graph" e.message
          | .ok _ => return ⟨exit, lines ++ ["Wrote " ++ out], none⟩

/-- Answers a list of arguments. -/
def run (lookup : String → Option String) (freshId : String) (args : List String) :
    m Outcome :=
  match Arguments.parse? args with
  | none => return usage
  | some .help => return help
  | some (.call args) => call lookup freshId args

end CommandLine

end FlowNest
