import GameSearch.Configuration.Sections
import GameSearch.Toml.Document

/-!
# GameSearch.Configuration.Document

Settings in a TOML document. A section is a table whose keys name its settings, or a list of
them in their order; what it does not mention keeps its built-in value, and what it mentions
beyond is ignored. A setting of the wrong type, or out of range, makes the whole document
useless.
-/

namespace GameSearch.Configuration

abbrev Lookup := Nat → String → Option Toml.Value

/-- A date has no settings, and other values than tables and lists are no sections. -/
def lookup? : Toml.Value → Option Lookup
  | .table _ entries => some fun _ name => Toml.Entries.find? entries name
  | .array items => some fun i _ => items[i]?
  | .tables elements => some fun i _ => (elements[i]?).map (.table .headed)
  | .moment => some fun _ _ => none
  | _ => none

/-! ## Types of settings -/

def textOf? : Toml.Value → Option String
  | .string s => some s
  | _ => none

def boolOf? : Toml.Value → Option Bool
  | .boolean b => some b
  | _ => none

def doubleOf? : Toml.Value → Option Float
  | .float x => some x
  | .integer i => some (Float.ofInt i)
  | _ => none

def integerOf? (low high : Int) : Toml.Value → Option Int
  | .integer i => if low ≤ i ∧ i ≤ high then some i else none
  | _ => none

def int32Of? (v : Toml.Value) : Option Int32 :=
  (integerOf? Int32.minValue.toInt Int32.maxValue.toInt v).map Int32.ofInt

def uint32Of? (v : Toml.Value) : Option UInt32 :=
  (integerOf? 0 (UInt32.size - 1) v).map fun i => UInt32.ofNat i.toNat

def uint64Of? (v : Toml.Value) : Option UInt64 :=
  (integerOf? 0 (UInt64.size - 1) v).map fun i => UInt64.ofNat i.toNat

/-! ## Sections -/

def setting {β : Type} (look : Lookup) (position : Nat) (name : String)
    (read : Toml.Value → Option β) (builtIn : β) : Option β :=
  match look position name with
  | none => some builtIn
  | some v => read v

def commonOf? (look : Lookup) : Option CommonSection := do
  let d : CommonSection := {}
  return ⟨← setting look 0 "log_level" textOf? d.logLevel⟩

def matchOf? (look : Lookup) : Option MatchSection := do
  let d : MatchSection := {}
  return {
    startClock := ← setting look 0 "start_clock_secs" uint64Of? d.startClock
    playClock := ← setting look 1 "play_clock_secs" uint64Of? d.playClock
    games := ← setting look 2 "games" uint32Of? d.games
    xEngine := ← setting look 3 "x_engine" textOf? d.xEngine
    oEngine := ← setting look 4 "o_engine" textOf? d.oEngine }

def minimaxOf? (look : Lookup) : Option MinimaxSection := do
  let d : MinimaxSection := {}
  return {
    maxDepth := ← setting look 0 "max_depth" int32Of? d.maxDepth
    timeSliced := ← setting look 1 "time_sliced" boolOf? d.timeSliced
    safetyMargin := ← setting look 2 "safety_margin_ms" uint64Of? d.safetyMargin
    heuristic := ← setting look 3 "heuristic" textOf? d.heuristic
    heuristicValue := ← setting look 4 "heuristic_value" int32Of? d.heuristicValue }

def treesOf? (look : Lookup) : Option TreeSection := do
  let d : TreeSection := {}
  return {
    exploration := ← setting look 0 "exploration" doubleOf? d.exploration
    playouts := ← setting look 1 "depth_charges" uint32Of? d.playouts
    workers := ← setting look 2 "threads" uint64Of? d.workers
    mode := ← setting look 3 "mode" textOf? d.mode
    seed := ← setting look 4 "seed" uint64Of? d.seed
    safetyMargin := ← setting look 5 "safety_margin_ms" uint64Of? d.safetyMargin }

/-- A section of a document, or its built-in values where it is missing. -/
def sectionOf? {β : Type} (entries : Toml.Entries) (name : String) (read : Lookup → Option β)
    (builtIn : β) : Option β :=
  match entries.find? name with
  | none => some builtIn
  | some v => (lookup? v).bind read

def ofEntries? (entries : Toml.Entries) : Option Configuration := do
  return {
    common := ← sectionOf? entries "common" commonOf? {}
    play := ← sectionOf? entries "match" matchOf? {}
    minimax := ← sectionOf? entries "minimax" minimaxOf? {}
    trees := ← sectionOf? entries "mcts" treesOf? {} }

def ofText? (text : String) : Option Configuration := (Toml.parse text).bind ofEntries?

end GameSearch.Configuration
