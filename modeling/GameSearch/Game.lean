import GameSearch.Error

/-!
# GameSearch.Game

Deterministic games of perfect information in which all agents move at once. A joint move has
one entry per agent, in the order of `agents`; in a game with turns the idle agents have a
single move that does nothing.

The rules need not be complete: each question may be answered with a `RuleError`. The replies
to an agent's move are the joint moves that contain it, and they need not be all combinations
of legal moves.
-/

namespace GameSearch

abbrev JointMove (μ : Type) := List μ

structure Game (σ μ α : Type) where
  agents : List α
  legalMoves : σ → α → Except RuleError (List μ)
  /-- The joint moves in which the agent makes the given move. -/
  replies : σ → α → μ → Except RuleError (List (JointMove μ))
  next : σ → JointMove μ → Except RuleError σ
  terminal : σ → Bool
  goal : σ → α → Except RuleError Int32
  /-- The joint moves a random play draws from. Without them it draws a legal move for each
  agent. -/
  offered : Option (σ → Except RuleError (List (JointMove μ)))
  showState : σ → String
  showMove : μ → String
  showAgent : α → String

namespace Game

variable {σ μ α : Type}

def withoutReplies [DecidableEq μ] (blocked : List μ) (g : Game σ μ α) : Game σ μ α :=
  { g with replies := fun s a m => if m ∈ blocked then .ok [] else g.replies s a m }

def drawingEach (g : Game σ μ α) : Game σ μ α := { g with offered := none }

def noLegalMoves (g : Game σ μ α) (s : σ) (a : α) : RuleError :=
  .noLegalMoves (g.showState s) (g.showAgent a)

def noJointMoves (g : Game σ μ α) (s : σ) (m : μ) : RuleError :=
  .noJointMoves (g.showState s) (g.showMove m)

end Game

end GameSearch
