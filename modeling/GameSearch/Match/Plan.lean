import GameSearch.CommandLine.Arguments
import GameSearch.Configuration.Sections
import GameSearch.Journal.Entry
import GameSearch.Match.Seat

/-!
# GameSearch.Match.Plan

What is to be played: the settings of the configuration with the values of the command line in
their place. A plan is checked before anything is played; the first fault counts.
-/

namespace GameSearch.Match

structure Plan where
  logLevel : String
  startClock : UInt64
  playClock : UInt64
  games : UInt32
  xEngine : String
  oEngine : String
  maxDepth : Int32
  heuristic : String
  heuristicValue : Int32
  workers : UInt64
  mode : String
  playouts : UInt32
  seed : UInt64
  deriving DecidableEq, Repr

inductive PlanFault where
  | logLevel (text : String)
  | playClock
  | games
  | engine (m : TicTacToe.Mark) (name : String)
  /-- Full-width minimax has no other limit. -/
  | unboundedMinimax
  | heuristic (name : String)
  | heuristicValue
  | workers
  | mode (name : String)
  | playouts
  deriving DecidableEq, Repr

def PlanFault.message : PlanFault → String
  | .logLevel text =>
    "invalid log level '" ++ text ++ "', expected one of trace, debug, info, warn, error"
  | .playClock => "play_clock_secs must be greater than 0"
  | .games => "games must be greater than 0"
  | .engine .x name => "x_engine: " ++ Engine.unknown name
  | .engine .o name => "o_engine: " ++ Engine.unknown name
  | .unboundedMinimax => "minimax engine ignores the play clock and needs max_depth >= 0"
  | .heuristic name => "invalid heuristic '" ++ name ++ "', expected constant or goal"
  | .heuristicValue => "heuristic_value must be between 0 and 100"
  | .workers => "threads must be greater than 0"
  | .mode name => "invalid mcts_mode '" ++ name ++ "', expected shared or independent"
  | .playouts => "depth_charges must be greater than 0"

namespace Plan

def ofArguments (c : Configuration) (a : CommandLine.Arguments) : Plan where
  logLevel := a.logLevel.getD c.common.logLevel
  startClock := a.startClock.getD c.play.startClock
  playClock := a.playClock.getD c.play.playClock
  games := a.games.getD c.play.games
  xEngine := a.xEngine.getD c.play.xEngine
  oEngine := a.oEngine.getD c.play.oEngine
  maxDepth := a.maxDepth.getD c.minimax.maxDepth
  heuristic := a.heuristic.getD c.minimax.heuristic
  heuristicValue := a.heuristicValue.getD c.minimax.heuristicValue
  workers := a.workers.getD c.trees.workers
  mode := a.mode.getD c.trees.mode
  playouts := a.playouts.getD c.trees.playouts
  seed := a.seed.getD c.trees.seed

def needsDepth (p : Plan) (x o : Engine) : Bool :=
  p.maxDepth < 0 && (x == .minimax || o == .minimax)

def checkSearches (p : Plan) : Except PlanFault Unit :=
  if p.heuristic ≠ "constant" ∧ p.heuristic ≠ "goal" then .error (.heuristic p.heuristic)
  else if p.heuristicValue < 0 ∨ 100 < p.heuristicValue then .error .heuristicValue
  else if p.workers = 0 then .error .workers
  else if p.mode ≠ "shared" ∧ p.mode ≠ "independent" then .error (.mode p.mode)
  else if p.playouts = 0 then .error .playouts
  else .ok ()

def check (p : Plan) : Except PlanFault Unit :=
  if (Journal.Level.ofText? p.logLevel).isNone then .error (.logLevel p.logLevel)
  else if p.playClock = 0 then .error .playClock
  else if p.games = 0 then .error .games
  else
    match Engine.ofName? p.xEngine with
    | none => .error (.engine .x p.xEngine)
    | some x =>
      match Engine.ofName? p.oEngine with
      | none => .error (.engine .o p.oEngine)
      | some o =>
        if p.needsDepth x o then .error .unboundedMinimax
        else p.checkSearches

def engines (p : Plan) : Except String (Engine × Engine) :=
  match Engine.ofName? p.xEngine with
  | none => .error p.xEngine
  | some x =>
    match Engine.ofName? p.oEngine with
    | none => .error p.oEngine
    | some o => .ok (x, o)

def minimaxSection (p : Plan) (c : Configuration) : Configuration.MinimaxSection :=
  { c.minimax with
    maxDepth := p.maxDepth, heuristic := p.heuristic, heuristicValue := p.heuristicValue }

def treeSection (p : Plan) (c : Configuration) : Configuration.TreeSection :=
  { c.trees with workers := p.workers, mode := p.mode, playouts := p.playouts, seed := p.seed }

def seatOptions (p : Plan) (c : Configuration) : SeatOptions where
  alphaBeta := (p.minimaxSection c).alphaBeta
  depthBound := (p.minimaxSection c).depthBound
  heuristic := (p.minimaxSection c).evaluation
  trees := (p.treeSection c).settings
  seed := p.seed

end Plan

end GameSearch.Match
