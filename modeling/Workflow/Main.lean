import Workflow.Demo
import Workflow.Json.Printer

/-!
# Command line

Runs the demonstration with the configuration of the environment and prints its events, one line each.
-/

namespace Workflow.CommandLine

def readVariables : IO (List (String × String)) := do
  let names := [Config.fileVariable, "FLOWGATE_LOCK_TTL_SECS", "FLOWGATE_LOCK_PREFIX",
    "FLOWGATE_EVENT_CAPACITY", "FLOWGATE_EXECUTOR"]
  names.filterMapM fun name => return (← IO.getEnv name).map (name, ·)

def readText (path : String) : IO (Except FileError String) := do
  try
    return .ok (← IO.FS.readFile path)
  catch
    | .noFileOrDirectory .. => return .error .notFound
    | e => return .error (.other (toString e))

def run : IO UInt32 := do
  let set ← readVariables
  let env : Environment := fun name => set.lookup name
  let text ← match env Config.fileVariable with
    | some path => readText path
    | none => pure (.error .notFound)
  let fail (message : String) : IO UInt32 := do
    IO.eprintln ("Error: " ++ message)
    return 1
  match Demo.config env fun _ => text with
  | .error e => fail e.message
  | .ok config =>
    match Demo.run config with
    | none => fail "transitions start one another without end"
    | some outcome =>
      for e in outcome.events do
        IO.println e.toJson.text
      match outcome.failure with
      | some f => fail f.message
      | none => return 0

end Workflow.CommandLine

def main : IO UInt32 := Workflow.CommandLine.run
