import GameSearch.Configuration.Sources

/-!
# GameSearch.Configuration.Directory

Surroundings that are given as data: variables, and files below the parent of the working
directory. A path leads somewhere if there is a directory at every step of it. The working
directory and its parent are there without any files in them. Above them nothing is known but
that there are directories up to the root, which holds the usual ones and some files without
settings in them.
-/

namespace GameSearch

inductive Place where
  | absolute (names : List String)
  /-- Somewhere above the parent of the working directory. -/
  | above
  /-- By names from that parent on; the working directory is a dot. -/
  | nearby (names : List String)
  deriving DecidableEq, Repr

namespace Place

def working : Place := .nearby ["."]

def parent : Place → Place
  | .absolute names => .absolute names.dropLast
  | .above => .above
  | .nearby [] => .above
  | .nearby names => .nearby names.dropLast

/-- The place with a name in a directory. Names that lead down from above are not known. -/
def entry? (here : Place) (name : String) : Option Place :=
  match here with
  | .absolute names => some (.absolute (names ++ [name]))
  | .above => none
  | .nearby names => some (.nearby (names ++ [name]))

def follow? (isDirectory : Place → Bool) : List String → Place → Option Place
  | [], here => some here
  | name :: rest, here =>
    if !isDirectory here then none
    else if name = "" ∨ name = "." then follow? isDirectory rest here
    else if name = ".." then follow? isDirectory rest here.parent
    else
      match here.entry? name with
      | none => none
      | some there => follow? isDirectory rest there

def ofPath? (isDirectory : Place → Bool) (path : String) : Option Place :=
  match path.splitOn "/" with
  | [""] => none
  | "" :: names => follow? isDirectory names (.absolute [])
  | names => follow? isDirectory names working

end Place

namespace Surroundings

def usualDirectories : List String :=
  ["bin", "boot", "dev", "etc", "home", "lib", "media", "mnt", "opt", "proc", "root", "run",
    "sbin", "srv", "sys", "tmp", "usr", "var"]

/-- Files that are there besides. Nobody looks into them for settings. -/
def usualFiles : List (List String) := [["dev", "null"], ["etc", "passwd"], ["etc", "hosts"]]

/-- Directories are also the places on the way to a file. -/
def isDirectory (files : List (Place × String)) : Place → Bool
  | .absolute [] => true
  | .absolute [name] => usualDirectories.contains name
  | .absolute _ => false
  | .above => true
  | .nearby names =>
    names = [] || names = ["."] || files.any fun (place, _) =>
      match place with
      | .nearby file => names.isPrefixOf file && names != file
      | _ => false

def isOccupied (files : List (Place × String)) (here : Place) : Bool :=
  isDirectory files here ||
    match here with
    | .absolute names => usualFiles.contains names
    | _ => false

def fileIn (files : List (Place × String)) (path : String) : Option File :=
  match Place.ofPath? (isDirectory files) path with
  | none => none
  | some here =>
    match files.lookup here with
    | some text => some (.text text)
    | none => if isOccupied files here then some .unreadable else none

def ofLists (env files : List (String × String)) : Surroundings where
  env name := env.lookup name
  file := fileIn <| files.filterMap fun (path, text) =>
    (Place.ofPath? (fun _ => true) path).map (·, text)

end Surroundings

end GameSearch
