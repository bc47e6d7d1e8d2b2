import GameSearch.Text.Numeral

/-!
# GameSearch.CommandLine.Arguments

The options of the command line and the values that they are given. Each option takes one value
and may be given once.
-/

namespace GameSearch.CommandLine

inductive Flag where
  | logLevel
  | startClock
  | playClock
  | games
  | xEngine
  | oEngine
  | maxDepth
  | heuristic
  | heuristicValue
  | workers
  | mode
  | playouts
  | seed
  deriving DecidableEq, Repr

namespace Flag

def name : Flag → String
  | .logLevel => "log-level"
  | .startClock => "start-clock-secs"
  | .playClock => "play-clock-secs"
  | .games => "games"
  | .xEngine => "x-engine"
  | .oEngine => "o-engine"
  | .maxDepth => "max-depth"
  | .heuristic => "heuristic"
  | .heuristicValue => "heuristic-value"
  | .workers => "threads"
  | .mode => "mcts-mode"
  | .playouts => "depth-charges"
  | .seed => "seed"

def all : List Flag :=
  [.logLevel, .startClock, .playClock, .games, .xEngine, .oEngine, .maxDepth, .heuristic,
    .heuristicValue, .workers, .mode, .playouts, .seed]

def ofName? (name : String) : Option Flag := all.find? fun f => f.name == name

/-- Whether the word after the option may be a number with a minus sign. -/
def takesNegative : Flag → Bool
  | .maxDepth => true
  | _ => false

end Flag

structure Arguments where
  logLevel : Option String := none
  startClock : Option UInt64 := none
  playClock : Option UInt64 := none
  games : Option UInt32 := none
  xEngine : Option String := none
  oEngine : Option String := none
  maxDepth : Option Int32 := none
  heuristic : Option String := none
  heuristicValue : Option Int32 := none
  workers : Option UInt64 := none
  mode : Option String := none
  playouts : Option UInt32 := none
  seed : Option UInt64 := none
  deriving DecidableEq, Repr

inductive Refusal where
  | help
  | unknownWord
  | missingValue
  | badValue
  | needlessValue
  | repeated
  deriving DecidableEq, Repr

namespace Arguments

def isGiven (a : Arguments) : Flag → Bool
  | .logLevel => a.logLevel.isSome
  | .startClock => a.startClock.isSome
  | .playClock => a.playClock.isSome
  | .games => a.games.isSome
  | .xEngine => a.xEngine.isSome
  | .oEngine => a.oEngine.isSome
  | .maxDepth => a.maxDepth.isSome
  | .heuristic => a.heuristic.isSome
  | .heuristicValue => a.heuristicValue.isSome
  | .workers => a.workers.isSome
  | .mode => a.mode.isSome
  | .playouts => a.playouts.isSome
  | .seed => a.seed.isSome

/-- A 32-bit number without a sign. Only a zero may have a minus. -/
def count? (text : String) : Option UInt32 :=
  (Text.signed? 0 (UInt32.size - 1) text).map fun i => UInt32.ofNat i.toNat

def put? (a : Arguments) (text : String) : Flag → Option Arguments
  | .logLevel => some { a with logLevel := some text }
  | .startClock => (Text.uint64? text).map fun v => { a with startClock := some v }
  | .playClock => (Text.uint64? text).map fun v => { a with playClock := some v }
  | .games => (count? text).map fun v => { a with games := some v }
  | .xEngine => some { a with xEngine := some text }
  | .oEngine => some { a with oEngine := some text }
  | .maxDepth => (Text.int32? text).map fun v => { a with maxDepth := some v }
  | .heuristic => some { a with heuristic := some text }
  | .heuristicValue => (Text.int32? text).map fun v => { a with heuristicValue := some v }
  | .workers => (Text.uint64? text).map fun v => { a with workers := some v }
  | .mode => some { a with mode := some text }
  | .playouts => (count? text).map fun v => { a with playouts := some v }
  | .seed => (Text.uint64? text).map fun v => { a with seed := some v }

/-- A repetition is noticed before the value is looked at. -/
def give (a : Arguments) (flag : Flag) (text : String) : Except Refusal Arguments :=
  if a.isGiven flag then .error .repeated
  else
    match a.put? text flag with
    | none => .error .badValue
    | some a => .ok a

end Arguments

end GameSearch.CommandLine
