/-!
# GameSearch.Error

What can go wrong. A `RuleError` is a fault in the rules of a game: a question that the rules
leave open or a move that they refuse. A `SearchError` is what a search reports: a rule error
that it ran into, nothing to choose from, or a limit on its length that it reached.
-/

namespace GameSearch

inductive RuleError where
  | goal (state agent : String)
  | move (reason : String)
  | transition (reason : String)
  | noLegalMoves (state agent : String)
  | noJointMoves (state action : String)
  deriving DecidableEq, Repr

namespace RuleError

def message : RuleError → String
  | .goal state agent => "Goal undefined for agent " ++ agent ++ " in state " ++ state
  | .move reason => "Move definition error: " ++ reason
  | .transition reason => "Transition definition error: " ++ reason
  | .noLegalMoves state agent =>
    "No legal moves for agent " ++ agent ++ " in non-terminal state " ++ state
  | .noJointMoves state action => "No joint moves for action " ++ action ++ " in state " ++ state

end RuleError

inductive SearchError where
  | rule (e : RuleError)
  | noLegalMoves
  | terminalRoot
  /-- A search gave up because it was longer than it was allowed to be. -/
  | unfinished
  deriving DecidableEq, Repr

namespace SearchError

def message : SearchError → String
  | .rule e => "Definition error: " ++ e.message
  | .noLegalMoves => "No legal moves available"
  | .terminalRoot => "Cannot select a move from a terminal state"
  | .unfinished => "The search did not come to an end"

end SearchError

end GameSearch
