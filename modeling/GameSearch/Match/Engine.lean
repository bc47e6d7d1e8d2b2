/-!
# GameSearch.Match.Engine

The engines that can play a match.
-/

namespace GameSearch.Match

inductive Engine where
  | alphaBeta
  | minimax
  | treeSearch
  | random
  deriving DecidableEq, Repr

namespace Engine

def ofName? (name : String) : Option Engine :=
  if name = "alphabeta" then some .alphaBeta
  else if name = "minimax" then some .minimax
  else if name = "mcts" then some .treeSearch
  else if name = "random" then some .random
  else none

/-- As the journal calls it. -/
def title : Engine → String
  | .alphaBeta => "AlphaBeta"
  | .minimax => "Minimax"
  | .treeSearch => "Mcts"
  | .random => "Random"

def unknown (name : String) : String :=
  "unknown engine '" ++ name ++ "', expected alphabeta, minimax, mcts or random"

end Engine

end GameSearch.Match
