import Workflow.Config.FromYaml

/-!
# Loading configurations

A configuration has three layers: the standard values, those of the file that a variable names, and
those of the other variables. A variable that is set but not usable leaves its value alone.
-/

namespace Workflow

abbrev Environment := String → Option String

/-- Why the text of a file is not to be had. -/
inductive FileError
  | notFound
  | other (text : String)
deriving DecidableEq, Repr

abbrev Files := String → Except FileError String

/-- Why no configuration was loaded. -/
inductive LoadError
  | unreadable (path : String) (cause : FileError)
  | malformed (path : String)
  | invalid (flaw : Config.Flaw)
deriving DecidableEq, Repr

def FileError.message : FileError → String
  | notFound => "No such file or directory (os error 2)"
  | other text => text

def LoadError.message : LoadError → String
  | unreadable path cause => "failed to read config file '" ++ path ++ "': " ++ cause.message
  | malformed path => "failed to parse config file '" ++ path ++ "'"
  | invalid flaw => "configuration validation failed: " ++ flaw.message

/-! ## Environment -/

namespace ExecutorMode

/-- The lower case of a letter, as far as it is an ASCII letter: that of the kelvin sign is one. -/
def lowerLetter (c : Char) : Char :=
  if c = '\u212a' then 'k' else c.toLower

/-- The mode of a name in a variable, in letters of either case; every other name is that of inline. -/
def ofVariable (text : String) : ExecutorMode :=
  if ["blocking_pool", "blockingpool", "pool"].contains
      (String.ofList (text.toList.map lowerLetter)) then
    .blockingPool
  else .inline

end ExecutorMode

namespace Config

/-- A number of 64 bits in decimal digits, perhaps behind a plus. -/
def word64? (text : String) : Option Nat :=
  let digits := match text.toList with
    | '+' :: rest => rest
    | chars => chars
  (Text.natural? 10 digits).filter (· < Nat.pow 2 64)

def override (env : Environment) (c : Config) : Config where
  lockTtl := ((env "FLOWGATE_LOCK_TTL_SECS").bind word64?).getD c.lockTtl
  lockPrefix := (env "FLOWGATE_LOCK_PREFIX").getD c.lockPrefix
  eventCapacity := ((env "FLOWGATE_EVENT_CAPACITY").bind word64?).getD c.eventCapacity
  executor := ((env "FLOWGATE_EXECUTOR").map ExecutorMode.ofVariable).getD c.executor

def ofEnvironment (env : Environment) : Config :=
  standard.override env

/-! ## Files -/

def fileVariable : String := "FLOWGATE_CONFIG"

def ofFile (files : Files) (path : String) : Except LoadError Config := do
  let text ← (files path).mapError (LoadError.unreadable path)
  match ofYaml? text with
  | some c => return c
  | none => throw (.malformed path)

/-- The configuration of the file, or the standard one if no file is named. -/
def base (env : Environment) (files : Files) : Except LoadError Config :=
  match env fileVariable with
  | some path => ofFile files path
  | none => .ok standard

def validate (c : Config) : Except LoadError Unit :=
  match c.flaw? with
  | some flaw => throw (.invalid flaw)
  | none => return

def load (env : Environment) (files : Files) : Except LoadError Config := do
  let c := (← base env files).override env
  c.validate
  return c

end Config

end Workflow
