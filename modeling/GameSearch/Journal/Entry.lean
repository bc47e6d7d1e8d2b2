import GameSearch.Text.Numeral

/-!
# GameSearch.Journal.Entry

How important an entry of the journal is, and how it is written down.
-/

namespace GameSearch.Journal

/-- From entries that are never left out but by `off`, to those that only `trace` lets in. -/
inductive Level where
  | off
  | error
  | warn
  | info
  | debug
  | trace
  deriving DecidableEq, Repr

namespace Level

def rank : Level → Nat
  | .off => 0
  | .error => 1
  | .warn => 2
  | .info => 3
  | .debug => 4
  | .trace => 5

def name : Level → String
  | .off => "OFF"
  | .error => "ERROR"
  | .warn => "WARN"
  | .info => "INFO"
  | .debug => "DEBUG"
  | .trace => "TRACE"

def all : List Level := [.off, .error, .warn, .info, .debug, .trace]

/-- A level is given by its name in any case or by its rank. An empty text stands for errors. -/
def ofText? (text : String) : Option Level :=
  if text = "" then some .error
  else
    match Text.unsigned? UInt64.size text with
    | some n => all[n]?
    | none => all.find? fun l => l.name.map Char.toLower == text.map Char.toLower

end Level

structure Entry where
  level : Level
  origin : String
  message : String
  fields : List (String × String) := []
  deriving DecidableEq, Repr

namespace Entry

def hasField (e : Entry) (name : String) : Bool :=
  name == "message" || e.fields.any fun field => field.1 == name

def line (e : Entry) : String :=
  e.level.name ++ " " ++ e.origin ++ ": " ++
    String.intercalate " " (e.message :: e.fields.map fun (name, value) => name ++ "=" ++ value)

end Entry

end GameSearch.Journal
