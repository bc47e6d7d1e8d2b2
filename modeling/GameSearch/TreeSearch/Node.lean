import GameSearch.TreeSearch.Statistics

/-!
# GameSearch.TreeSearch.Node

The nodes of a search tree, without their children. At a max node the agent is to move; at a
min node it has committed itself to a move in the same state, and the others are to reply.

A node is expanded once, when its list of children is made. A permit gives its holder alone
the right to work below a node until it is given back.

A node is told from the others by its place, the path at which it was made, and its link to its
parent is the place of the parent. Both stay as they are when the root of the tree moves.
-/

namespace GameSearch.TreeSearch

inductive Kind (μ : Type) where
  | max
  | min (action : μ)
  deriving DecidableEq, Repr

namespace Kind

variable {μ : Type}

def action : Kind μ → Option μ
  | .max => none
  | .min a => some a

def isMax : Kind μ → Bool
  | .max => true
  | .min _ => false

end Kind

abbrev Path := List Nat

structure Home where
  place : Path := []
  /-- The place of the parent. A root is made without one. -/
  parent : Option Path := none
  deriving DecidableEq, Repr

def Home.child (h : Home) (i : Nat) : Home := ⟨h.place ++ [i], some h.place⟩

structure Node (σ μ V : Type) where
  kind : Kind μ
  state : σ
  terminal : Bool
  stats : Stats V
  expanded : Bool
  busy : Bool
  home : Home
  deriving DecidableEq, Repr

namespace Node

variable {σ μ V : Type} [Utility V]

def fresh (kind : Kind μ) (state : σ) (terminal : Bool) (home : Home) : Node σ μ V :=
  ⟨kind, state, terminal, .none, false, false, home⟩

def detachedCopy (n : Node σ μ V) (home : Home) : Node σ μ V := { n with busy := false, home := home }

def action (n : Node σ μ V) : Option μ := n.kind.action

def isUnvisited (n : Node σ μ V) : Bool := n.stats.isUnvisited

def record (n : Node σ μ V) (score : V) : Node σ μ V := { n with stats := n.stats.record score }

def absorb (n : Node σ μ V) (s : Stats V) : Node σ μ V := { n with stats := n.stats.absorb s }

/-- Makes the children of a node that is not expanded yet. The answer tells what `build` gave
besides the children, if it was run; a node whose `build` failed stays as it is. -/
def expandWith {κ β ε : Type} (n : Node σ μ V) (children : List κ)
    (build : Unit → Except ε (β × List κ)) : Except ε (Option β × Node σ μ V × List κ) :=
  if n.expanded then .ok (none, n, children)
  else
    match build () with
    | .error e => .error e
    | .ok (b, built) => .ok (some b, { n with expanded := true }, built)

/-- More children behind those that are there. A node that has children then is expanded. -/
def adopt {κ : Type} (n : Node σ μ V) (children grafted : List κ) : Node σ μ V × List κ :=
  ({ n with expanded := n.expanded || !(children ++ grafted).isEmpty }, children ++ grafted)

def tryPermit (n : Node σ μ V) : Option (Node σ μ V) :=
  if n.busy then none else some { n with busy := true }

def release (n : Node σ μ V) : Node σ μ V := { n with busy := false }

/-- Whether two siblings stand for the same outcome: for the same move of the agent, or for
the same state after the reply. -/
def sameOutcome [DecidableEq σ] [DecidableEq μ] (n m : Node σ μ V) : Bool :=
  match n.kind, m.kind with
  | .min a, .min b => a == b
  | .max, .max => n.state == m.state
  | _, _ => false

end Node

end GameSearch.TreeSearch
