import GameSearch.Game
import GameSearch.TreeSearch.Policy
import GameSearch.TreeSearch.Tree

/-!
# GameSearch.TreeSearch.Expansion

The children of a node. A max node gets a min node for each legal move of the agent, and each
of these at once gets a max node for each state that the replies lead to. A state that several
replies lead to appears once. Expansion succeeds as a whole or leaves the node as it is; its
answer counts the successor states that were asked for.
-/

namespace GameSearch.TreeSearch

/-- What a tree search is asked: a game, the agent who moves, the rule that picks children,
how many random plays make up a simulation, and how long a play or a search may be. -/
structure Setup (σ μ α V : Type) where
  game : Game σ μ α
  agent : α
  policy : Policy V
  playouts : UInt32
  patience : Nat

variable {σ μ α V : Type} [Utility V]

namespace Setup

def nextStates (p : Setup σ μ α V) (s : σ) : List (JointMove μ) → Except RuleError (List σ)
  | [] => .ok []
  | joint :: rest =>
    match p.game.next s joint with
    | .error e => .error e
    | .ok s' =>
      match p.nextStates s rest with
      | .error e => .error e
      | .ok states => .ok (s' :: states)

def unvisited (p : Setup σ μ α V) (s : σ) (home : Home) : Tree σ μ V :=
  .leaf (.fresh .max s (p.game.terminal s) home)

variable [DecidableEq σ]

/-- The children of a min node, and how many replies lead to them. -/
def outcomes (p : Setup σ μ α V) (home : Home) (s : σ) (action : μ) :
    Except RuleError (Nat × List (Tree σ μ V)) :=
  match p.game.replies s p.agent action with
  | .error e => .error e
  | .ok joints =>
    match p.nextStates s joints with
    | .error e => .error e
    | .ok states =>
      match states.eraseDups with
      | [] => .error (p.game.noJointMoves s action)
      | distinct => .ok (joints.length, distinct.mapIdx fun i s' => p.unvisited s' (home.child i))

def expandMin (p : Setup σ μ α V) (action : μ) (n : Node σ μ V) (children : List (Tree σ μ V)) :
    Except RuleError (Nat × Tree σ μ V) :=
  match n.expandWith children fun _ => p.outcomes n.home n.state action with
  | .error e => .error e
  | .ok (asked, n, children) => .ok (asked.getD 0, .node n children)

/-- An expanded min node for each of the given moves, the `i`-th child and the following ones. -/
def commitments (p : Setup σ μ α V) (home : Home) (s : σ) :
    Nat → List μ → Except RuleError (Nat × List (Tree σ μ V))
  | _, [] => .ok (0, [])
  | i, action :: rest =>
    match p.expandMin action (.fresh (.min action) s false (home.child i)) [] with
    | .error e => .error e
    | .ok (asked, t) =>
      match p.commitments home s (i + 1) rest with
      | .error e => .error e
      | .ok (more, ts) => .ok (asked + more, t :: ts)

def choices (p : Setup σ μ α V) (home : Home) (s : σ) : Except RuleError (Nat × List (Tree σ μ V)) :=
  match p.game.legalMoves s p.agent with
  | .error e => .error e
  | .ok [] => .error (p.game.noLegalMoves s p.agent)
  | .ok moves => p.commitments home s 0 moves

def expandMax (p : Setup σ μ α V) (n : Node σ μ V) (children : List (Tree σ μ V)) :
    Except RuleError (Nat × Tree σ μ V) :=
  match n.expandWith children fun _ => p.choices n.home n.state with
  | .error e => .error e
  | .ok (asked, n, children) => .ok (asked.getD 0, .node n children)

def expand (p : Setup σ μ α V) : Tree σ μ V → Except RuleError (Nat × Tree σ μ V)
  | .node n children =>
    if n.terminal then .ok (0, .node n children)
    else
      match n.kind with
      | .max => p.expandMax n children
      | .min action => p.expandMin action n children

end Setup

end GameSearch.TreeSearch
