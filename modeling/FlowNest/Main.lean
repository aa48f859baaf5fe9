import FlowNest.CommandLine

/-!
# FlowNest — the program

Runs the command line on the real environment, disk and standard output.
-/

namespace FlowNest.Program

/-- A random identifier in the usual form of 128 bits, version 4. -/
def randomId : IO String := do
  let digit (low high : Nat) : IO String := do
    return String.ofList (Nat.toDigits 16 (← IO.rand low high))
  let digits (n : Nat) : IO String := do
    return String.join (← (List.range n).mapM fun _ => digit 0 15)
  return (← digits 8) ++ "-" ++ (← digits 4) ++ "-4" ++ (← digits 3) ++ "-" ++ (← digit 8 11) ++
    (← digits 3) ++ "-" ++ (← digits 12)

/-- The folder that a path leads into. -/
def folderOf (path : String) : String :=
  "/".intercalate (path.splitOn "/").dropLast

instance : Storage IO where
  read path := do
    try
      return some (← IO.FS.readBinFile path).toList
    catch _ => return none
  write path bytes := do
    try
      let folder := folderOf path
      if folder ≠ "" then IO.FS.createDirAll folder
      IO.FS.writeBinFile path ⟨bytes.toArray⟩
      return true
    catch _ => return false

end FlowNest.Program

open FlowNest in
def main (args : List String) : IO UInt32 := do
  let keys := [Settings.pauseBufferSizeKey, Settings.speedAttenuationKey,
    Settings.autoResumeKey, Settings.marginKey]
  let environment ← keys.mapM fun key => do return (key, ← IO.getEnv key)
  let lookup (key : String) : Option String := (environment.lookup key).join
  let outcome ← CommandLine.run lookup (← Program.randomId) args
  for line in outcome.lines do
    IO.println line
  if let some line := outcome.error then
    IO.eprintln line
  return outcome.exit.toUInt32
