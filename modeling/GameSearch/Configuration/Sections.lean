import GameSearch.Minimax.AlphaBeta
import GameSearch.TreeSearch.Settings

/-!
# GameSearch.Configuration.Sections

The settings of the program, in four sections, with the values that are built in. A setting is
kept as it was given; it is only understood where it is used, and an unknown name there falls
back on the first choice.
-/

namespace GameSearch.Configuration

structure CommonSection where
  logLevel : String := "info"

structure MatchSection where
  /-- In seconds, for preparation before the first move. -/
  startClock : UInt64 := 20
  /-- In seconds, for each move. -/
  playClock : UInt64 := 10
  games : UInt32 := 1
  xEngine : String := "mcts"
  oEngine : String := "alphabeta"

structure MinimaxSection where
  /-- A negative depth stands for no limit. -/
  maxDepth : Int32 := 6
  timeSliced : Bool := true
  /-- In milliseconds. -/
  safetyMargin : UInt64 := 3000
  heuristic : String := "constant"
  heuristicValue : Int32 := 50

namespace MinimaxSection

def depthBound (c : MinimaxSection) : Option Nat :=
  if c.maxDepth < 0 then none else some c.maxDepth.toInt.toNat

def alphaBeta (c : MinimaxSection) : Minimax.AlphaBeta.Settings :=
  ⟨c.depthBound, c.timeSliced, c.safetyMargin.toNat⟩

def evaluation (c : MinimaxSection) : Minimax.Heuristic :=
  if c.heuristic = "goal" then .goal c.heuristicValue else .constant c.heuristicValue

end MinimaxSection

structure TreeSection where
  exploration : Float := 2
  playouts : UInt32 := 8
  workers : UInt64 := 4
  mode : String := "shared"
  seed : UInt64 := 0
  /-- In milliseconds. -/
  safetyMargin : UInt64 := 4000

namespace TreeSection

def workerMode (c : TreeSection) : TreeSearch.Mode :=
  if c.mode = "independent" then .ownTrees else .sharedTree

def settings (c : TreeSection) : TreeSearch.Settings :=
  let base : TreeSearch.Settings :=
    { exploration := c.exploration, mode := c.workerMode, seed := c.seed,
      safetyMargin := c.safetyMargin.toNat }
  (base.withPlayouts c.playouts).withWorkers c.workers.toNat

end TreeSection

end GameSearch.Configuration

namespace GameSearch

structure Configuration where
  common : Configuration.CommonSection := {}
  play : Configuration.MatchSection := {}
  minimax : Configuration.MinimaxSection := {}
  trees : Configuration.TreeSection := {}

end GameSearch
