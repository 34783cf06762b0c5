import TenantRegistry.CommandLine
import TenantRegistry.Startup
import TenantRegistry.Store.Memory
import TenantRegistry.Web.App

/-!
The program: checks its command line and its settings and opens the store that they choose.

It has no network of its own, and it converts domain names without tables. Whoever embeds the
library gives it both, and hands the requests that arrive at the address to `Web.App.handle`.
-/

namespace TenantRegistry.Program

/-- A network that reaches nothing. -/
def noNetwork {m : Type → Type} [Monad m] : Network m where
  post _ _ := return none
  connect _ := return .error (.other "no network")
  execute _ := return .error (.other "no network")

/-- The texts of the variables that are set. -/
def readEnvironment : List String → IO (List (String × String))
  | [] => return []
  | name :: rest => do
    let value ← IO.getEnv name
    let others ← readEnvironment rest
    match value with
    | some text => return (name, text) :: others
    | none => return others

/-- What a start with some options and an environment ends with: a line that says that the store
is ready, or why there is none. -/
def start (options : CommandLine.Options) (environment : List (String × String)) :
    Except String String := do
  let settings ← (Settings.ofEnvironment fun name => environment.lookup name).mapError
    SettingsError.message
  let opening : StateM Memory.State (Except StartupError (Store (StateM Memory.State))) :=
    settings.openStore Memory.store noNetwork
  match (opening.run .empty).1 with
  | .ok _ =>
    return "The " ++ settings.backend.name ++ " store is ready for requests to " ++ options.listen
  | .error e => throw e.message

end TenantRegistry.Program

open TenantRegistry

def main (args : List String) : IO UInt32 := do
  match CommandLine.parse ([] :: args.map Utf8.ofString) with
  | .error p =>
    if p.isWanted then
      IO.println p.message
      return 0
    else
      IO.eprintln p.message
      return 2
  | .ok options =>
    match Program.start options (← Program.readEnvironment Settings.variableNames) with
    | .ok line =>
      IO.println line
      return 0
    | .error message =>
      IO.eprintln message
      return 1
