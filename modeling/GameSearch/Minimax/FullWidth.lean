import GameSearch.Minimax.Problem

/-!
# GameSearch.Minimax.FullWidth

Minimax search of the whole tree down to the depth limit. The agent takes the move whose worst
reply is best; the first of equal moves counts, and the first of equal replies. A search is
given up when a play is longer than its bound.
-/

namespace GameSearch.Minimax

variable {σ μ α : Type}

namespace FullWidth

def worstReply (p : Problem σ μ α) (below : σ → Tally → Except SearchError (Score μ × Tally))
    (s : σ) : List (JointMove μ) → Option (Score μ) → Tally →
      Except SearchError (Option (Score μ) × Tally)
  | [], worst, t => .ok (worst, t)
  | joint :: rest, worst, t =>
    match p.game.next s joint with
    | .error e => .error (.rule e)
    | .ok s' =>
      match below s' t with
      | .error e => .error e
      | .ok (score, t) => worstReply p below s rest (some (keepWorse worst score)) t

def minNode (p : Problem σ μ α) (below : σ → Tally → Except SearchError (Score μ × Tally))
    (s : σ) (action : μ) (t : Tally) : Except SearchError (Score μ × Tally) :=
  match p.game.replies s p.agent action with
  | .error e => .error (.rule e)
  | .ok joints =>
    match worstReply p below s joints none t.enter with
    | .error e => .error e
    | .ok (none, _) => .error (.rule (p.game.noJointMoves s action))
    | .ok (some score, t) => .ok (score.tagged action, t)

def bestMove (visit : μ → Tally → Except SearchError (Score μ × Tally)) :
    List μ → Option (Score μ) → Tally → Except SearchError (Option (Score μ) × Tally)
  | [], best, t => .ok (best, t)
  | action :: rest, best, t =>
    match visit action t with
    | .error e => .error e
    | .ok (score, t) => bestMove visit rest (some (keepBetter best score)) t

/-- A position in which the agent is to move, `depth` units below the root. -/
def maxNode (p : Problem σ μ α) :
    Nat → σ → Nat → Tally → Except SearchError (Score μ × Tally)
  | bound, s, depth, t =>
    if p.game.terminal s then
      match p.game.goal s p.agent with
      | .error e => .error (.rule e)
      | .ok v => .ok (.leaf v, t.enter.exact)
    else if p.atLimit depth then
      match p.evaluator.value s p.agent with
      | .error e => .error (.rule e)
      | .ok v => .ok (.leaf v, t.enter.estimate)
    else
      match bound with
      | 0 => .error .unfinished
      | bound + 1 =>
        match p.game.legalMoves s p.agent with
        | .error e => .error (.rule e)
        | .ok moves =>
          let visit := minNode p (fun s' t => maxNode p bound s' (depth + 1) t) s
          match bestMove visit moves none t.enter with
          | .error e => .error e
          | .ok (none, _) => .error (.rule (p.game.noLegalMoves s p.agent))
          | .ok (some score, t) => .ok (score, t)

def search (p : Problem σ μ α) (bound : Nat) (s : σ) : Except SearchError (Report μ) :=
  match maxNode p bound s 0 {} with
  | .error e => .error e
  | .ok (score, tally) => .ok ⟨score, tally⟩

/-- A single legal move is made without a search. -/
def selectMove (p : Problem σ μ α) (bound : Nat) (s : σ) : Except SearchError μ :=
  if p.game.terminal s then .error .terminalRoot
  else
    match p.game.legalMoves s p.agent with
    | .error e => .error (.rule e)
    | .ok [only] => .ok only
    | .ok _ =>
      match search p bound s with
      | .error e => .error e
      | .ok report =>
        match report.score.action with
        | some action => .ok action
        | none => .error .noLegalMoves

end FullWidth

end GameSearch.Minimax
