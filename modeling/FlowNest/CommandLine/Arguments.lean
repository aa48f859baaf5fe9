/-!
# FlowNest — command line arguments

The arguments of the command line: one path, and options with a value each. The
value follows the option's name, behind an equals sign or as an argument of its
own; such an argument does not start with a dash, unless it is nothing else.
What follows two dashes is taken as it stands. Every option but `--group` may be
given once, and nodes are not grouped and ungrouped at once.

A question for help is answered unless what stands in front of it is wrong;
what comes after it, or is missing, does not count.
-/

namespace FlowNest

/-- What the command line asks for. -/
structure Arguments where
  path : String
  group : List String
  name : String
  ungroup : Option String
  out : Option String
deriving DecidableEq

/-- A call of the program, or a question for help. -/
inductive Invocation where
  | help
  | call (args : Arguments)
deriving DecidableEq

namespace Arguments

/-- The options. -/
inductive Key where
  | group
  | name
  | ungroup
  | out
deriving DecidableEq

def Key.text : Key → String
  | .group => "--group"
  | .name => "--name"
  | .ungroup => "--ungroup"
  | .out => "--out"

def keys : List Key := [.group, .name, .ungroup, .out]

/-- Arguments taken apart: options with their values, paths, and whether help is
asked for behind them. -/
structure Tokens where
  options : List (Key × String)
  paths : List String
  help : Bool

/-- Does an argument look like an option? -/
def dashed (arg : String) : Bool :=
  match arg.toList with
  | '-' :: _ :: _ => true
  | _ => false

/-- Is an argument a question for help? -/
def asksForHelp (arg : String) : Bool :=
  match arg.toList with
  | '-' :: 'h' :: _ => true
  | _ => arg = "--help"

/-- Takes arguments apart, up to a wrong one or a question for help. -/
def scan? : List String → Option Tokens
  | [] => some ⟨[], [], false⟩
  | "--" :: rest => some ⟨[], rest, false⟩
  | arg :: rest =>
    if asksForHelp arg then some ⟨[], [], true⟩
    else if dashed arg then
      -- only the first equals sign divides the name from the value
      match arg.splitOn "=" with
      | [name] =>
        match keys.find? (·.text = name), rest with
        | some key, value :: rest =>
          if dashed value then none
          else (scan? rest).map fun t => { t with options := (key, value) :: t.options }
        | _, _ => none
      | name :: parts =>
        match keys.find? (·.text = name) with
        | some key =>
          (scan? rest).map fun t =>
            { t with options := (key, "=".intercalate parts) :: t.options }
        | none => none
      | [] => none
    else (scan? rest).map fun t => { t with paths := arg :: t.paths }

/-- The values of an option, in order. -/
def Tokens.values (t : Tokens) (key : Key) : List String :=
  (t.options.filter (·.1 = key)).map (·.2)

/-- The value of an option that may be given once; `none` if it is given twice. -/
def Tokens.single? (t : Tokens) (key : Key) : Option (Option String) :=
  match t.values key with
  | [] => some none
  | [value] => some (some value)
  | _ => none

/-- What the arguments ask for, unless they are used wrongly. No path is empty. -/
def parse? (args : List String) : Option Invocation := do
  let t ← scan? args
  let group := t.values .group
  let name ← t.single? .name
  let ungroup ← t.single? .ungroup
  let out ← t.single? .out
  if out = some "" || "" ∈ t.paths || 1 < t.paths.length then none
  -- help comes before all that can only be said of the arguments as a whole
  if t.help then return .help
  if !group.isEmpty && ungroup.isSome then none
  let path ← t.paths.head?
  return .call {
    path
    group := group.flatMap (·.splitOn ",")
    name := name.getD "Group"
    ungroup
    out }

end Arguments

end FlowNest
