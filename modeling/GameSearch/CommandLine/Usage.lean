import GameSearch.CommandLine.Arguments

/-!
# GameSearch.CommandLine.Usage

What the program tells about its command line.
-/

namespace GameSearch.CommandLine

def Flag.description : Flag → String
  | .logLevel => "Log level (trace, debug, info, warn, error)"
  | .startClock => "Seconds engines may prepare before the first move"
  | .playClock => "Seconds allowed per move"
  | .games => "Number of games to play"
  | .xEngine => "Engine playing X"
  | .oEngine => "Engine playing O"
  | .maxDepth => "Minimax depth bound (-1 searches to the end of the game)"
  | .heuristic => "Leaf heuristic for depth-bounded minimax (constant, goal)"
  | .heuristicValue => "Value of the constant heuristic, or the fallback of the goal heuristic"
  | .workers => "MCTS worker threads"
  | .mode => "MCTS concurrency strategy (shared, independent)"
  | .playouts => "Random playouts averaged per MCTS simulation"
  | .seed => "Base seed for MCTS playouts and random seats"

def Flag.usage (f : Flag) : String := "  --" ++ f.name ++ " <VALUE>  " ++ f.description

def usage : List String :=
  ["Plays TicTacToe matches between search engines", "", "Usage: player [OPTIONS]", "", "Options:"] ++
    Flag.all.map Flag.usage ++ ["  -h, --help  Print help"]

def Refusal.message : Refusal → String
  | .help => "help was asked for"
  | .unknownWord => "unexpected argument"
  | .missingValue => "a value is required for an option but none was supplied"
  | .badValue => "invalid value for an option"
  | .needlessValue => "unexpected value for an option"
  | .repeated => "an option cannot be used multiple times"

end GameSearch.CommandLine
