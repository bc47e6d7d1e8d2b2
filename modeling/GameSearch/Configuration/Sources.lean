import GameSearch.Configuration.Document
import GameSearch.Text.Decimal

/-!
# GameSearch.Configuration.Sources

Where settings come from. One file is selected: the one that a variable of the environment
names, if it exists, or else one with the usual name nearby. A file that cannot be read or is
no useful document counts as empty. Variables of the environment then override single
settings; a variable whose text is no value of its setting is ignored.
-/

namespace GameSearch

inductive File where
  | text (content : String)
  | unreadable

/-- What a program finds around it: variables, and files by their path. -/
structure Surroundings where
  env : String → Option String
  file : String → Option File

namespace Configuration

def stem : String := "DELIBERATE_"

def keys : List String :=
  ["CONFIG", "COMMON_LOG_LEVEL", "MATCH_START_CLOCK_SECS", "MATCH_PLAY_CLOCK_SECS", "MATCH_GAMES",
    "MATCH_X_ENGINE", "MATCH_O_ENGINE", "MINIMAX_MAX_DEPTH", "MINIMAX_TIME_SLICED",
    "MINIMAX_SAFETY_MARGIN_MS", "MINIMAX_HEURISTIC", "MINIMAX_HEURISTIC_VALUE",
    "MCTS_EXPLORATION", "MCTS_DEPTH_CHARGES", "MCTS_THREADS", "MCTS_MODE", "MCTS_SEED",
    "MCTS_SAFETY_MARGIN_MS"]

def namedFile (w : Surroundings) : Option File :=
  match w.env (stem ++ "CONFIG") with
  | none => none
  | some path => w.file path

def selectedFile (w : Surroundings) : Option File :=
  match namedFile w with
  | some f => some f
  | none =>
    match w.file "config.toml" with
    | some f => some f
    | none => w.file "../config.toml"

def ofFile : Option File → Configuration
  | some (.text content) => (ofText? content).getD {}
  | _ => {}

/-- A setting after its variable has been looked at. -/
def override {β : Type} (env : String → Option String) (key : String)
    (read : String → Option β) (old : β) : β :=
  match env (stem ++ key) with
  | none => old
  | some text => (read text).getD old

def overridden (c : Configuration) (env : String → Option String) : Configuration where
  common.logLevel := override env "COMMON_LOG_LEVEL" some c.common.logLevel
  play := {
    startClock := override env "MATCH_START_CLOCK_SECS" Text.uint64? c.play.startClock
    playClock := override env "MATCH_PLAY_CLOCK_SECS" Text.uint64? c.play.playClock
    games := override env "MATCH_GAMES" Text.uint32? c.play.games
    xEngine := override env "MATCH_X_ENGINE" some c.play.xEngine
    oEngine := override env "MATCH_O_ENGINE" some c.play.oEngine }
  minimax := {
    maxDepth := override env "MINIMAX_MAX_DEPTH" Text.int32? c.minimax.maxDepth
    timeSliced := override env "MINIMAX_TIME_SLICED" Text.bool? c.minimax.timeSliced
    safetyMargin :=
      override env "MINIMAX_SAFETY_MARGIN_MS" Text.uint64? c.minimax.safetyMargin
    heuristic := override env "MINIMAX_HEURISTIC" some c.minimax.heuristic
    heuristicValue :=
      override env "MINIMAX_HEURISTIC_VALUE" Text.int32? c.minimax.heuristicValue }
  trees := {
    exploration := override env "MCTS_EXPLORATION" Text.double? c.trees.exploration
    playouts := override env "MCTS_DEPTH_CHARGES" Text.uint32? c.trees.playouts
    workers := override env "MCTS_THREADS" Text.uint64? c.trees.workers
    mode := override env "MCTS_MODE" some c.trees.mode
    seed := override env "MCTS_SEED" Text.uint64? c.trees.seed
    safetyMargin := override env "MCTS_SAFETY_MARGIN_MS" Text.uint64? c.trees.safetyMargin }

def load (w : Surroundings) : Configuration := (ofFile (selectedFile w)).overridden w.env

def loadFrom (w : Surroundings) (path : String) : Configuration :=
  (ofFile (w.file path)).overridden w.env

end Configuration

end GameSearch
