import GameSearch.TreeSearch.Iteration

/-!
# GameSearch.TreeSearch.Root

The root follows the game. When the new state is that of a grandchild, the grandchild becomes
the root and its subtree is kept; when it is not in the tree, a new tree is started.

The move to make is that of the visited child of the root with the best mean, the first of
equal ones. Before any child has been visited it is the first child's, and before there are
children it is the first legal move.
-/

namespace GameSearch.TreeSearch

variable {σ μ α V γ : Type} [Utility V]

inductive RootUpdate where
  | unchanged
  | reused (path : Path)
  | rebuilt
  deriving DecidableEq, Repr

/-- The first of the visited nodes with the best mean, after the one that is best so far. -/
def bestFrom : Option (V × Node σ μ V) → List (Tree σ μ V) → Option (V × Node σ μ V)
  | best, [] => best
  | best, t :: rest =>
    match t.stats.mean with
    | none => bestFrom best rest
    | some mean =>
      match best with
      | none => bestFrom (some (mean, t.label)) rest
      | some (top, n) =>
        if Utility.less top mean then bestFrom (some (mean, t.label)) rest
        else bestFrom (some (top, n)) rest

def favourite (children : List (Tree σ μ V)) : Option μ :=
  match (bestFrom none children).bind (·.2.action) with
  | some action => some action
  | none => children.head?.bind (·.label.action)

namespace Session

/-- A new tree; counters and source of randomness go on. -/
def setRoot (p : Setup σ μ α V) (s : σ) (x : Session σ μ V γ) : Session σ μ V γ :=
  { x with root := p.unvisited s {} }

def updateRoot [DecidableEq σ] (p : Setup σ μ α V) (s : σ) (x : Session σ μ V γ) :
    RootUpdate × Session σ μ V γ :=
  if x.root.state = s then (.unchanged, x)
  else
    match Tree.findBelow (fun t => t.state = s) x.root.children with
    | none => (.rebuilt, x.setRoot p s)
    | some (i, j) =>
      match x.root.get? [i, j] with
      | none => (.rebuilt, x.setRoot p s)
      | some t => (.reused [i, j], { x with root := t })

def chooseMove (p : Setup σ μ α V) (x : Session σ μ V γ) : Except SearchError μ :=
  match favourite x.root.children with
  | some action => .ok action
  | none =>
    if x.root.label.terminal then .error .terminalRoot
    else
      match p.game.legalMoves x.root.state p.agent with
      | .error e => .error (.rule e)
      | .ok [] => .error .noLegalMoves
      | .ok (action :: _) => .ok action

end Session

end GameSearch.TreeSearch
