/-!
# GameSearch.Toml.Value

Values of a TOML document, and the tables that its lines build up. Every line adds to what the
lines before it have built; a line that would change something which is already settled makes
the document invalid, which is `none` here.

A table remembers how it came about, because that decides what may be added to it later: a
table of a header is closed to dotted keys, a table that only lies on the path of a header may
still get a header of its own, and a value in braces is never extended.
-/

namespace GameSearch.Toml

inductive Form where
  | inline
  /-- Has a header, or is an element of an array of tables. -/
  | headed
  /-- Lies on the path of a header. -/
  | implied
  | dotted
  deriving DecidableEq, Repr

inductive Value where
  | string (s : String)
  | integer (i : Int)
  | float (x : Float)
  | boolean (b : Bool)
  /-- A date, a time, or both. -/
  | moment
  | array (items : List Value)
  | table (form : Form) (entries : List (String × Value))
  | tables (elements : List (List (String × Value)))

abbrev Entries := List (String × Value)

namespace Entries

def find? (es : Entries) (key : String) : Option Value := List.lookup key es

def put (key : String) (v : Value) : Entries → Entries
  | [] => [(key, v)]
  | (k, old) :: rest => if k = key then (k, v) :: rest else (k, old) :: put key v rest

def changeLast (f : Entries → Option Entries) : List Entries → Option (List Entries)
  | [] => none
  | [last] => (f last).map fun es => [es]
  | es :: rest => (changeLast f rest).map fun rest => es :: rest

/-- Adds a value under a dotted key. The table that gets it is the present one or one that
dotted keys have made. -/
def insert (v : Value) : List String → Entries → Option Entries
  | [], _ => none
  | [key], es => if (es.find? key).isSome then none else some (es ++ [(key, v)])
  | key :: path, es =>
    match es.find? key with
    | none => (insert v path []).map fun inner => es ++ [(key, .table .dotted inner)]
    | some (.table .dotted inner) =>
      (insert v path inner).map fun inner => es.put key (.table .dotted inner)
    | some (.table .implied inner) =>
      if path.length = 1 then none
      else (insert v path inner).map fun inner => es.put key (.table .implied inner)
    | some (.tables elements) =>
      if path.length = 1 then none
      else (changeLast (insert v path) elements).map fun elements => es.put key (.tables elements)
    | some _ => none

/-- Changes the table at the end of a path of headers. Of an array of tables the last one is
meant, and missing tables are made on the way. -/
def under (f : Entries → Option Entries) : List String → Entries → Option Entries
  | [], es => f es
  | key :: path, es =>
    match es.find? key with
    | none => (under f path []).map fun inner => es ++ [(key, .table .implied inner)]
    | some (.table .inline _) => none
    | some (.table form inner) =>
      (under f path inner).map fun inner => es.put key (.table form inner)
    | some (.tables elements) =>
      (changeLast (under f path) elements).map fun elements => es.put key (.tables elements)
    | some _ => none

def openTable (key : String) (es : Entries) : Option Entries :=
  match es.find? key with
  | none => some (es ++ [(key, .table .headed [])])
  | some (.table .implied inner) => some (es.put key (.table .headed inner))
  | some _ => none

def openElement (key : String) (es : Entries) : Option Entries :=
  match es.find? key with
  | none => some (es ++ [(key, .tables [[]])])
  | some (.tables elements) => some (es.put key (.tables (elements ++ [[]])))
  | some _ => none

/-- The table of a value in braces. -/
def ofPairs (pairs : List (List String × Value)) : Option Entries :=
  pairs.foldl (fun es pair => es.bind (insert pair.2 pair.1)) (some [])

end Entries

inductive Statement where
  | table (path : List String)
  | element (path : List String)
  | entry (keys : List String) (v : Value)

structure Draft where
  entries : Entries
  header : List String

namespace Draft

def empty : Draft := ⟨[], []⟩

def add (d : Draft) : Statement → Option Draft
  | .table path =>
    match path.getLast? with
    | none => none
    | some key =>
      (Entries.under (Entries.openTable key) path.dropLast d.entries).map fun es => ⟨es, path⟩
  | .element path =>
    match path.getLast? with
    | none => none
    | some key =>
      (Entries.under (Entries.openElement key) path.dropLast d.entries).map fun es => ⟨es, path⟩
  | .entry keys v =>
    (Entries.under (Entries.insert v keys) d.header d.entries).map fun es => ⟨es, d.header⟩

def addAll (d : Draft) : List Statement → Option Draft
  | [] => some d
  | s :: rest =>
    match d.add s with
    | none => none
    | some d => d.addAll rest

end Draft

end GameSearch.Toml
