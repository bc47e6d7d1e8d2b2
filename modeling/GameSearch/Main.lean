import GameSearch.Session

/-!
# GameSearch.Main

The program. It looks at its surroundings, runs a session, and writes what came out of it.
-/

namespace GameSearch.Main

def lookAt (path : String) : IO (Option File) := do
  try
    return some (.text (← IO.FS.readFile path))
  catch e =>
    match e with
    | .noFileOrDirectory .. => return none
    | _ => return some .unreadable

/-- The values of the variables that are set. -/
def environment : List String → IO (List (String × String))
  | [] => return []
  | name :: rest => do
    let others ← environment rest
    match ← IO.getEnv name with
    | none => return others
    | some value => return (name, value) :: others

def files : List String → IO (List (String × File))
  | [] => return []
  | path :: rest => do
    let others ← files rest
    match ← lookAt path with
    | none => return others
    | some file => return (path, file) :: others

def surroundings : IO Surroundings := do
  let env ← environment (Session.filterVariable :: Configuration.keys.map (Configuration.stem ++ ·))
  let named := (env.lookup (Configuration.stem ++ "CONFIG")).toList
  let found ← files (named ++ ["config.toml", "../config.toml"])
  return ⟨fun name => env.lookup name, fun path => found.lookup path⟩

end GameSearch.Main

def main (words : List String) : IO UInt32 := do
  let report := GameSearch.Session.run (← GameSearch.Main.surroundings) words
  for line in report.notices do
    IO.eprintln line
  for line in report.help ++ report.journal do
    IO.println line
  return report.exit
